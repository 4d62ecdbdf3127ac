import NetProg.Console.Prompts
import NetProg.SingleProc.Main

/-!
# A console and its shell

A session of the console and the shell it is connected to take turns. The shell writes a
prompt when it wants a line, and the console answers a prompt with the next line of its
command file. So there is one thing on its way at a time, a prompt or a line, and the page
shows what a terminal would have shown.

The shells that read with `getline` write a prompt before every line. The server with one
process takes what one `recv` brings for a line, writes a prompt after it, and writes nothing
at all after a line that is empty. The command file has an empty line, at the latest when it
has come to its end. Then both wait, for ever, where a shell with `getline` goes on to be sent
empty lines.
-/

namespace NetProg.Console

open Runs

/-- How a shell gets a line: from the stream with `getline`, or with one `recv`. The first takes a
line as soon as its newline is there; the second takes whatever one read returns. -/
inductive Reading where
  | getline
  | recv
  deriving DecidableEq

namespace Reading

/-- The line in the bytes that were taken. -/
def line : Reading → Str → Str
  | .getline, bytes => bytes.dropLast
  | .recv, bytes => SingleProc.cliMsg bytes

/-- So many of the bytes that have come can be taken at once: up to the first line feed, or
up to the size of the buffer. -/
def Takes : Reading → Str → Nat → Prop
  | .getline, bytes, n => (bytes.take n).getLast? = some 10 ∧ 10 ∉ (bytes.take n).dropLast ∧
      n ≤ bytes.length
  | .recv, bytes, n => 0 < n ∧ n ≤ 2048 ∧ n ≤ bytes.length

instance decidableTakes : (reading : Reading) → (bytes : Str) → (n : Nat) →
    Decidable (reading.Takes bytes n)
  | .getline, _, _ => inferInstanceAs (Decidable (_ ∧ _ ∧ _))
  | .recv, _, _ => inferInstanceAs (Decidable (_ ∧ _ ∧ _))

/-- What goes to the console when a line has been executed: nothing but the prompt for an
empty line, and with `recv` not even that. -/
def written : Reading → Str → Str → Str
  | .getline, line, answer => (if line = [] then [] else answer) ++ str "% "
  | .recv, line, answer => if line = [] then [] else answer ++ str "% "

/-- Neither an answer nor a prompt. -/
def Silent (reading : Reading) (line : Str) : Prop := reading = .recv ∧ line = []

instance (reading : Reading) (line : Str) : Decidable (reading.Silent line) :=
  inferInstanceAs (Decidable (_ ∧ _))

end Reading

/-- The session of the console; what is on its way to it, and to the shell; what the shell
has taken, and whether it has left; and what both have written, one after the other, with a
mark on what the console wrote. -/
structure Conversation where
  console : ShellSession
  down : Str
  up : Str
  taken : List Str
  isOpen : Bool
  log : List (Bool × UInt8)

/-- A read of the console completes with bytes, or with the end of the stream; the shell takes a
line and answers it, or answers it and closes the connection. What it answers is left to the run.
-/
inductive Move where
  | reads (n : Nat)
  | ends
  | takes (n : Nat) (answer : Str)
  | leaves (n : Nat) (answer : Str)

/-- Text as it is shown, in bold or not. -/
def shown (bold : Bool) (text : Str) : List (Bool × UInt8) := text.map (fun c => (bold, c))

/-- The commands that the handler of a read sends. -/
def sends (index : Nat) (s : ShellSession) (bytes : Str) : List Str :=
  (readHandler index s bytes).sent.drop s.sent.length

section System

variable (reading : Reading) (index : Nat)

namespace Conversation

/-- The handler of a read, and what it sends is on its way. -/
def read (s : Conversation) (bytes : Str) : Conversation :=
  let commands := (sends index s.console bytes).flatten
  { s with
    console := readHandler index s.console bytes
    down := s.down.drop bytes.length
    up := s.up ++ commands
    log := s.log ++ if s.console.exit = false then shown true commands else [] }

/-- The shell has taken bytes and written a text. -/
def answered (s : Conversation) (n : Nat) (text : Str) : Conversation :=
  { s with
    down := s.down ++ text
    up := s.up.drop n
    taken := s.taken ++ [s.up.take n]
    log := s.log ++ shown false text }

/-- What a move does. What the shell writes when it takes a line is the line's answer and the
prompts that its way of reading has for it; a shell that leaves writes no prompt. -/
def serve (s : Conversation) : Move → Conversation
  | .reads n => s.read index (s.down.take n)
  | .ends => { s with console := handle index s.console .eof }
  | .takes n answer => s.answered n (reading.written (reading.line (s.up.take n)) answer)
  | .leaves n answer => { s.answered n answer with isOpen := false }

/-- What can happen. The end of the stream is read when everything else has been. A shell
does not leave at an empty line. -/
def Offers (s : Conversation) : Move → Prop
  | .reads n => 0 < n ∧ n ≤ s.down.length ∧ n ≤ 4096 ∧ s.console.reading = true
  | .ends => s.isOpen = false ∧ s.down = [] ∧ s.console.reading = true
  | .takes n _ => s.isOpen = true ∧ reading.Takes s.up n
  | .leaves n _ => s.isOpen = true ∧ reading.Takes s.up n ∧ reading.line (s.up.take n) ≠ []

instance decidableOffers (s : Conversation) : (move : Move) → Decidable (s.Offers reading move)
  | .reads _ | .ends | .takes _ _ | .leaves _ _ =>
    by unfold Offers; infer_instance

end Conversation

/-- A conversation starts when the shell has greeted, and written its first prompt. Bytes on their
way may be read in any portions, and either party may go on whenever it can. -/
def conversation (file data greeting : Str) : System Conversation Move Empty where
  start := ⟨(session index file data).start, greeting ++ str "% ", [], [], true,
    shown false (greeting ++ str "% ")⟩
  offers s move := s.Offers reading move
  serve s move := .ok (s.serve reading index move)

instance (file data greeting : Str) (s : Conversation) (move : Move) :
    Decidable ((conversation reading index file data greeting).offers s move) :=
  inferInstanceAs (Decidable (s.Offers reading move))

/-- The prompts are read whole and a `recv` brings a whole line; nobody writes a prompt but
the shell, one for a line, and when it leaves at most one after the line `exit`. -/
def Conversation.Clean (s : Conversation) : Move → Prop
  | .reads n => WholePrompt s.console (.bytes (s.down.take n))
  | .ends => True
  | .takes n answer => (reading = .recv → n = s.up.length) ∧ prompts answer = 0
  | .leaves n answer => (reading = .recv → n = s.up.length) ∧
      prompts answer ≤ if s.up.take n = str "exit\n" then 1 else 0

instance decidableClean (s : Conversation) : (move : Move) → Decidable (s.Clean reading move)
  | .reads n => inferInstanceAs (Decidable (WholePrompt s.console (.bytes (s.down.take n))))
  | .ends => isTrue trivial
  | .takes _ _ => inferInstanceAs (Decidable ((_ → _) ∧ _))
  | .leaves _ _ => inferInstanceAs (Decidable ((_ → _) ∧ _))

end System

/-! ## What a read does -/

section Read

variable {index : Nat} {s : ShellSession} {bytes : Str}

/-- A read that finds the prompt. -/
theorem readHandler_found (found : containsPrompt (s.filled bytes) = true) :
    readHandler index s bytes =
      { doSendCmd index { s with
          data := s.filled bytes
          page := s.page ++ outputShell index bytes
          received := s.received ++ bytes } with
        data := List.replicate 4096 0 } := by
  rw [readHandler, if_pos found]

/-- A read that does not. -/
theorem readHandler_missing (missing : ¬ containsPrompt (s.filled bytes) = true) :
    readHandler index s bytes = { s with
      data := s.filled bytes
      page := s.page ++ outputShell index bytes
      received := s.received ++ bytes } := by
  rw [readHandler, if_neg missing]

/-- The next line of the command file is sent, with its line feed. -/
theorem sends_found (found : containsPrompt (s.filled bytes) = true) :
    sends index s bytes = [(getline s.fileout).1 ++ str "\n"] := by
  rw [sends, readHandler_found found, doSendCmd, List.drop_left]

theorem sends_missing (missing : ¬ containsPrompt (s.filled bytes) = true) :
    sends index s bytes = [] := by
  rw [sends, readHandler_missing missing, List.drop_length]

theorem sent_readHandler : (readHandler index s bytes).sent = s.sent ++ sends index s bytes := by
  by_cases found : containsPrompt (s.filled bytes) = true
  · rw [sends_found found, readHandler_found found, doSendCmd]
  · rw [sends_missing found, readHandler_missing found, List.append_nil]

theorem received_readHandler : (readHandler index s bytes).received = s.received ++ bytes := by
  by_cases found : containsPrompt (s.filled bytes) = true
  · rw [readHandler_found found, doSendCmd]
  · rw [readHandler_missing found]

/-- Whether the last command sent was `exit`. -/
theorem exit_readHandler : (readHandler index s bytes).exit =
    if containsPrompt (s.filled bytes) = true then
      decide ((getline s.fileout).1 = str "exit") else s.exit := by
  by_cases found : containsPrompt (s.filled bytes) = true
  · rw [readHandler_found found, if_pos found, doSendCmd]
  · rw [readHandler_missing found, if_neg found]

theorem reading_readHandler : (readHandler index s bytes).reading = s.reading := by
  by_cases found : containsPrompt (s.filled bytes) = true
  · rw [readHandler_found found, doSendCmd]
  · rw [readHandler_missing found]

/-- The file has been read up to a line feed, or to its end. -/
theorem feed_not_mem_getline (file : Str) : 10 ∉ (getline file).1 := by
  intro member
  simpa using List.mem_takeWhile_imp member

/-- The prompts of whole reads: a read finds one if it brings one. -/
theorem prompts_of_whole (whole : WholePrompt s (.bytes bytes)) :
    prompts bytes = if containsPrompt (s.filled bytes) = true then 1 else 0 := by
  obtain ⟨most, -, own⟩ := whole
  have within := prompts_le_filled s bytes
  split
  · rename_i found
    have positive := (containsPrompt_iff _).mp found
    by_contra other
    have none := own (by omega)
    omega
  · rename_i missing
    have none : ¬ 0 < prompts (s.filled bytes) := fun found =>
      missing ((containsPrompt_iff _).mpr found)
    omega

/-- The prompts of the stream up to a whole read. -/
theorem prompts_received (whole : WholePrompt s (.bytes bytes)) :
    prompts (s.received ++ bytes) =
      prompts s.received + if containsPrompt (s.filled bytes) = true then 1 else 0 := by
  rw [prompts_append, prompts_of_whole whole, if_neg whole.2.1, Nat.add_zero]

end Read

/-! ## What the page shows -/

/-- A script in the page: an answer of the shell, or a command. -/
inductive Entry where
  | output (text : Str)
  | command (text : Str)

namespace Entry

/-- How it is written. -/
def script (index : Nat) : Entry → Str
  | output text => outputShell index text
  | command text => outputCommand index text

/-- What it appends to the text of the shell. -/
def chars : Entry → List (Bool × UInt8)
  | output text => shown false text
  | command text => shown true text

end Entry

/-- The page consists of scripts that show a text, one after the other. -/
def Displays (index : Nat) (page : Str) (chars : List (Bool × UInt8)) : Prop :=
  ∃ entries : List Entry, page = entries.flatMap (Entry.script index) ∧
    chars = entries.flatMap Entry.chars

section Displays

variable {index : Nat} {page : Str} {chars : List (Bool × UInt8)}

theorem shown_append (bold : Bool) (first second : Str) :
    shown bold (first ++ second) = shown bold first ++ shown bold second := List.map_append

theorem Displays.add (displays : Displays index page chars) (entry : Entry) :
    Displays index (page ++ entry.script index) (chars ++ entry.chars) := by
  obtain ⟨entries, rfl, rfl⟩ := displays
  exact ⟨entries ++ [entry], by simp, by simp⟩

/-- A read shows what it brings, and then what is sent unless that was `exit`. -/
theorem Displays.read {s : ShellSession} (displays : Displays index s.page chars) (bytes : Str) :
    Displays index (readHandler index s bytes).page (chars ++ shown false bytes ++
      if s.exit = false then shown true (sends index s bytes).flatten else []) := by
  have output := displays.add (.output bytes)
  by_cases found : containsPrompt (s.filled bytes) = true
  · rw [sends_found found, readHandler_found found, doSendCmd, List.flatten_singleton]
    by_cases shows : s.exit = false
    · simp only [if_pos shows]
      exact output.add (.command ((getline s.fileout).1 ++ str "\n"))
    · simp only [if_neg shows, List.append_nil]
      exact output
  · have nothing : shown true [] = [] := rfl
    rw [sends_missing found, readHandler_missing found, List.flatten_nil, nothing, ite_self,
      List.append_nil]
    exact output

end Displays

/-! ## Whose turn it is -/

/-- The shell waits for a line. -/
def Prompted (stream : Str) : Prop := ∃ before, stream = before ++ str "% "

/-- The last line that the shell has taken is one it does not answer. -/
def Rested (reading : Reading) (taken : List Str) : Prop :=
  ∃ bytes, taken.getLast? = some bytes ∧ reading.Silent (reading.line bytes)

/-- Whose turn it is: a prompt is on its way to the console, or a line to the shell; or the
shell has been given an empty line and waits for the next one, as the console does for a
prompt; or the shell has left. -/
inductive Turn (reading : Reading) (s : Conversation) : Prop where
  | prompt (isOpen : s.isOpen = true) (nothing : s.up = []) (sent : s.console.sent = s.taken)
      (ends : Prompted (s.console.received ++ s.down))
      (one : prompts (s.console.received ++ s.down) = prompts s.console.received + 1)
      (answered : ¬ Rested reading s.taken)
  | line (isOpen : s.isOpen = true) (cmd : Str) (onItsWay : s.up = cmd ++ [10])
      (single : 10 ∉ cmd) (sent : s.console.sent = s.taken ++ [cmd ++ [10]])
      (exit : s.console.exit = decide (cmd = str "exit")) (nothing : s.down = [])
      (ends : Prompted s.console.received) (answered : ¬ Rested reading s.taken)
  | silence (isOpen : s.isOpen = true) (nothing : s.up = []) (sent : s.console.sent = s.taken)
      (empty : s.down = []) (rested : Rested reading s.taken)
  | left (isClosed : s.isOpen = false) (pending : List Str) (onItsWay : s.up = pending.flatten)
      (sent : s.console.sent = s.taken ++ pending)
      (most : pending.length + prompts (s.console.received ++ s.down) ≤
        prompts s.console.received + 1)
      (hidden : s.console.exit = true ∨
        prompts (s.console.received ++ s.down) = prompts s.console.received)
      (answered : ¬ Rested reading s.taken)

/-- The console is in step with the prompts; what is shown and what is still to be shown is what
has been written; and it is somebody's turn. The last is one of four: bytes are to be read, a line
is to be taken, the shell has left, or both wait behind a line that is not answered. -/
structure InTurns (reading : Reading) (index : Nat) (file : Str) (s : Conversation) : Prop where
  inStep : InStep file s.console
  displays : ∃ chars, Displays index s.console.page chars ∧ s.log = chars ++ shown false s.down
  reads : s.isOpen = true → s.console.reading = true
  turn : Turn reading s
  answered : ∀ bytes ∈ s.taken.dropLast, ¬ reading.Silent (reading.line bytes)

section Turns

variable {reading : Reading} {index : Nat} {file : Str} {s : Conversation}

/-- The prompt at the end of a stream is in its last two bytes. -/
theorem nothing_behind_prompt {first rest : Str} (ends : Prompted (first ++ rest))
    (same : prompts (first ++ rest) = prompts first) : rest = [] := by
  rw [prompts_append] at same
  obtain ⟨before, whole⟩ := ends
  rcases List.eq_nil_or_concat rest with empty | ⟨most, last, rfl⟩
  · exact empty
  rw [List.concat_eq_append] at same whole ⊢
  have split : first ++ most ++ [last] = (before ++ [37]) ++ [32] := by
    simpa [str] using whole
  obtain ⟨shorter, isLast⟩ := List.append_inj' split rfl
  obtain rfl : last = 32 := by simpa using isLast
  rcases List.eq_nil_or_concat most with none | ⟨further, percent, rfl⟩
  · subst none
    have cut : CutsPrompt first ([] ++ [32]) := by
      rw [List.append_nil] at shorter
      simp [CutsPrompt, shorter]
    rw [if_pos cut] at same
    omega
  · rw [List.concat_eq_append] at same shorter
    rw [← List.append_assoc] at shorter
    obtain ⟨-, isPercent⟩ := List.append_inj' shorter rfl
    obtain rfl : percent = 37 := by simpa using isPercent
    have found : prompts (further ++ [37] ++ [32]) = prompts further + 1 := by
      rw [List.append_assoc, prompts_append]
      simp [prompts, CutsPrompt]
    omega

/-- The prompts of a stream do not become fewer. -/
theorem prompts_le_append (first second : Str) : prompts first ≤ prompts (first ++ second) := by
  rw [prompts_append]
  omega

section Read

variable {bytes rest : Str}

/-- A read that finds the prompt while the shell waits brings all there is. -/
theorem Turn.last (turn : Turn reading s) (split : s.down = bytes ++ rest)
    (nonempty : bytes ≠ []) (whole : WholePrompt s.console (.bytes bytes))
    (found : containsPrompt (s.console.filled bytes) = true) :
    rest = [] ∨ s.console.exit = true := by
  have more : s.down ≠ [] := by simp [split, nonempty]
  have counted := prompts_received whole
  rw [if_pos found] at counted
  have stream : s.console.received ++ s.down = s.console.received ++ bytes ++ rest := by
    rw [split, List.append_assoc]
  cases turn with
  | prompt isOpen nothing sent ends one answered =>
    left
    refine nothing_behind_prompt (stream ▸ ends) ?_
    rw [← stream, one, counted]
  | line isOpen cmd onItsWay single sent exit nothing ends answered => exact absurd nothing more
  | silence isOpen nothing sent empty rested => exact absurd empty more
  | left isClosed pending onItsWay sent most hidden answered =>
    right
    rcases hidden with isExit | same
    · exact isExit
    · have grown := prompts_le_append (s.console.received ++ bytes) rest
      rw [← stream, same, counted] at grown
      omega

/-- A command is shown behind everything the shell has written. -/
theorem Turn.order (turn : Turn reading s) (split : s.down = bytes ++ rest)
    (nonempty : bytes ≠ []) (whole : WholePrompt s.console (.bytes bytes)) :
    shown false rest ++ (if s.console.exit = false then
        shown true (sends index s.console bytes).flatten else []) =
      (if s.console.exit = false then
        shown true (sends index s.console bytes).flatten else []) ++ shown false rest := by
  by_cases found : containsPrompt (s.console.filled bytes) = true
  · rcases turn.last split nonempty whole found with rfl | isExit
    · rw [show shown false [] = [] from rfl, List.nil_append, List.append_nil]
    · simp [isExit]
  · simp [sends_missing found, shown]

/-- A whole read hands the turn to the shell if it ends the prompt. What has come in then has one
prompt more than before, so one line is sent; a read that stops short of the prompt sends none,
and it is still the console's turn. -/
theorem Turn.read (turn : Turn reading s) (split : s.down = bytes ++ rest)
    (nonempty : bytes ≠ []) (whole : WholePrompt s.console (.bytes bytes)) :
    Turn reading (s.read index bytes) := by
  have more : s.down ≠ [] := by simp [split, nonempty]
  have sent : (s.read index bytes).console.sent = s.console.sent ++ sends index s.console bytes :=
    sent_readHandler
  have up : (s.read index bytes).up = s.up ++ (sends index s.console bytes).flatten := rfl
  have exit : (s.read index bytes).console.exit = _ := exit_readHandler
  have received : (s.read index bytes).console.received = s.console.received ++ bytes :=
    received_readHandler
  have down : (s.read index bytes).down = rest := by
    change s.down.drop bytes.length = rest
    rw [split, List.drop_left]
  have stream : (s.read index bytes).console.received ++ (s.read index bytes).down =
      s.console.received ++ s.down := by
    rw [received, down, split, List.append_assoc]
  have counted := prompts_received whole
  rw [← received] at counted
  have grown := prompts_le_append (s.read index bytes).console.received
    (s.read index bytes).down
  rw [stream] at grown
  by_cases found : containsPrompt (s.console.filled bytes) = true
  · have last := turn.last split nonempty whole found
    rw [if_pos found] at counted exit
    rw [sends_found found] at sent up
    cases turn with
    | prompt isOpen nothing isSent ends one answered =>
      have nothingLeft : (s.read index bytes).down = [] := by
        refine @nothing_behind_prompt (s.read index bytes).console.received _ ?_ ?_
        · rwa [stream]
        · rw [stream, one, counted]
      refine .line isOpen (getline s.console.fileout).1 ?_ (feed_not_mem_getline _) ?_ exit
        nothingLeft ?_ answered
      · rw [up, nothing, List.nil_append, List.flatten_singleton]
        rfl
      · rw [sent, isSent]
        rfl
      · rwa [← stream, nothingLeft, List.append_nil] at ends
    | line isOpen cmd onItsWay single isSent exit nothing ends answered => exact absurd nothing more
    | silence isOpen nothing isSent empty rested => exact absurd empty more
    | left isClosed pending onItsWay isSent most hidden answered =>
      have none : pending = [] := by
        rw [← List.length_eq_zero_iff]
        omega
      subst none
      refine .left isClosed [(getline s.console.fileout).1 ++ str "\n"] ?_ ?_ ?_ (.inr ?_) answered
      · rw [up, onItsWay, List.flatten_nil, List.nil_append]
      · rw [sent, isSent, List.append_nil]
        rfl
      · rw [stream, counted]
        simp only [List.length_nil, List.length_singleton] at most ⊢
        omega
      · rw [stream, counted]
        simp only [List.length_nil] at most
        omega
  · rw [if_neg found] at counted exit
    rw [sends_missing found, List.append_nil] at sent
    rw [sends_missing found, List.flatten_nil, List.append_nil] at up
    cases turn with
    | prompt isOpen nothing isSent ends one answered =>
      refine .prompt isOpen (up.trans nothing) (sent.trans isSent) ?_ ?_ answered
      · rwa [stream]
      · rw [stream, one, counted]
    | line isOpen cmd onItsWay single isSent exit nothing ends answered => exact absurd nothing more
    | silence isOpen nothing isSent empty rested => exact absurd empty more
    | left isClosed pending onItsWay isSent most hidden answered =>
      refine .left isClosed pending (up.trans onItsWay) (sent.trans isSent) ?_ ?_ answered
      · rw [stream, counted]
        exact most
      · rw [stream, counted, exit]
        exact hidden

end Read

section Taken

variable {n : Nat} {answer : Str}

/-- The shell takes the line that is on its way, and the whole of it. -/
theorem takes_line {cmd : Str} (takes : reading.Takes (cmd ++ [10]) n) (single : 10 ∉ cmd)
    (whole : reading = .recv → n = (cmd ++ [10]).length) : n = (cmd ++ [10]).length := by
  cases reading with
  | recv => exact whole rfl
  | getline =>
    obtain ⟨feed, -, within⟩ := takes
    by_contra other
    have short : n ≤ cmd.length := by
      rw [List.length_append, List.length_singleton] at within other
      omega
    rw [List.take_append_of_le_length short] at feed
    exact single (List.mem_of_mem_take (List.mem_of_getLast? feed))

/-- An answer with its prompt, or nothing. -/
theorem written_cases (line : Str) (quiet : prompts answer = 0) :
    (reading.Silent line ∧ reading.written line answer = []) ∨
    (¬ reading.Silent line ∧ ∃ text, prompts text = 0 ∧
      reading.written line answer = text ++ str "% ") := by
  by_cases empty : line = []
  · cases reading with
    | getline =>
      right
      refine ⟨fun silent => ?_, [], rfl, by simp [Reading.written, empty]⟩
      cases silent.1
    | recv => exact .inl ⟨⟨rfl, empty⟩, by simp [Reading.written, empty]⟩
  · right
    refine ⟨fun silent => empty silent.2, answer, quiet, ?_⟩
    cases reading <;> simp [Reading.written, empty]

theorem prompts_append_prompt (text : Str) : prompts (text ++ str "% ") = prompts text + 1 := by
  rw [prompts_append, if_neg (by simp [CutsPrompt, str])]
  rfl

/-- What comes behind a prompt does not make another one with it. -/
theorem Prompted.prompts_append {stream : Str} (prompted : Prompted stream) (text : Str) :
    prompts (stream ++ text) = prompts stream + prompts text := by
  obtain ⟨before, rfl⟩ := prompted
  rw [Console.prompts_append, if_neg (by simp [CutsPrompt, str])]
  rfl

theorem rested_append {taken : List Str} {bytes : Str} :
    Rested reading (taken ++ [bytes]) ↔ reading.Silent (reading.line bytes) := by
  simp [Rested]

/-- Nothing can be taken where nothing is on its way. -/
theorem not_takes_nil : ¬ reading.Takes [] n := by
  cases reading with
  | getline => simp [Reading.Takes]
  | recv =>
    rintro ⟨positive, -, within⟩
    simp only [List.length_nil] at within
    omega

/-- A shell takes a line when it is its turn. -/
theorem Turn.onItsWay (turn : Turn reading s) (isOpen : s.isOpen = true)
    (takes : reading.Takes s.up n) (whole : reading = .recv → n = s.up.length) :
    ∃ cmd, s.up.take n = cmd ++ [10] ∧ s.up.drop n = [] ∧
      s.console.sent = s.taken ++ [cmd ++ [10]] ∧
      s.console.exit = decide (cmd = str "exit") ∧ s.down = [] ∧ Prompted s.console.received ∧
      ¬ Rested reading s.taken := by
  cases turn with
  | prompt _ nothing => exact absurd (nothing ▸ takes) not_takes_nil
  | line _ cmd onItsWay single sent exit nothing ends answered =>
    rw [onItsWay] at takes whole ⊢
    have all := takes_line takes single whole
    exact ⟨cmd, List.take_of_length_le (by omega), List.drop_of_length_le (by omega), sent, exit,
      nothing, ends, answered⟩
  | silence _ nothing => exact absurd (nothing ▸ takes) not_takes_nil
  | left isClosed => simp [isOpen] at isClosed

/-- After a line the shell waits for the next one, and has said so or not. -/
theorem Turn.takes (turn : Turn reading s) (offered : s.Offers reading (.takes n answer))
    (clean : s.Clean reading (.takes n answer)) :
    Turn reading (s.serve reading index (.takes n answer)) := by
  obtain ⟨isOpen, takes⟩ := offered
  obtain ⟨cmd, took, rest, sent, -, nothing, ends, -⟩ := turn.onItsWay isOpen takes clean.1
  rcases @written_cases reading answer (reading.line (s.up.take n)) clean.2 with
    ⟨silent, isWritten⟩ | ⟨spoken, text, quiet, isWritten⟩
  · refine .silence isOpen rest ?_ ?_ (rested_append.mpr silent)
    · change s.console.sent = s.taken ++ [s.up.take n]
      rw [sent, took]
    · change s.down ++ _ = []
      rw [isWritten, nothing]
      rfl
  · have stream : s.console.received ++ (s.serve reading index (.takes n answer)).down =
        s.console.received ++ (text ++ str "% ") := by
      change s.console.received ++ (s.down ++ _) = _
      rw [isWritten, nothing, List.nil_append]
    refine .prompt isOpen rest ?_ ?_ ?_ (fun rested => spoken (rested_append.mp rested))
    · change s.console.sent = s.taken ++ [s.up.take n]
      rw [sent, took]
    · exact ⟨s.console.received ++ text, by rw [List.append_assoc]; exact stream⟩
    · change prompts (s.console.received ++ _) = prompts s.console.received + 1
      rw [stream, ends.prompts_append, prompts_append_prompt, quiet]

/-- After its last line the shell has left. -/
theorem Turn.leaves (turn : Turn reading s) (offered : s.Offers reading (.leaves n answer))
    (clean : s.Clean reading (.leaves n answer)) :
    Turn reading (s.serve reading index (.leaves n answer)) := by
  obtain ⟨isOpen, takes, notEmpty⟩ := offered
  obtain ⟨cmd, took, rest, sent, exit, nothing, ends, -⟩ := turn.onItsWay isOpen takes clean.1
  have counted : prompts (s.console.received ++ (s.serve reading index (.leaves n answer)).down) =
      prompts s.console.received + prompts answer := by
    change prompts (s.console.received ++ (s.down ++ answer)) = _
    rw [nothing, List.nil_append, ends.prompts_append]
  have few := clean.2
  refine .left rfl [] rest ?_ ?_ ?_ (fun rested => notEmpty (rested_append.mp rested).2)
  · change s.console.sent = s.taken ++ [s.up.take n] ++ []
    rw [sent, took, List.append_nil]
  · change 0 + prompts (s.console.received ++ _) ≤ prompts s.console.received + 1
    rw [counted]
    split at few <;> omega
  · rw [took] at few
    change s.console.exit = true ∨
      prompts (s.console.received ++ _) = prompts s.console.received
    rw [counted, exit]
    by_cases isExit : cmd = str "exit"
    · exact .inl (decide_eq_true isExit)
    · right
      have other : cmd ++ [10] ≠ str "exit\n" := by
        intro same
        have isNewline : str "exit\n" = str "exit" ++ [10] := by decide
        rw [isNewline] at same
        exact isExit (List.append_cancel_right same)
      rw [if_neg other] at few
      omega

end Taken

/-- Lines that were all answered, and one more. -/
theorem answered_append {taken : List Str} {bytes : Str}
    (before : ∀ bytes ∈ taken.dropLast, ¬ reading.Silent (reading.line bytes))
    (last : ¬ Rested reading taken) :
    ∀ earlier ∈ (taken ++ [bytes]).dropLast, ¬ reading.Silent (reading.line earlier) := by
  intro earlier member
  rw [List.dropLast_concat] at member
  rcases List.eq_nil_or_concat taken with none | ⟨most, final, rfl⟩
  · simp [none] at member
  · rw [List.concat_eq_append] at member before last
    rw [List.dropLast_concat] at before
    rcases List.mem_append.mp member with isEarlier | isFinal
    · exact before earlier isEarlier
    · rw [List.mem_singleton.mp isFinal]
      exact fun silent => last (rested_append.mpr silent)

/-- Every move hands the turn on. A read that ends in the prompt sends a line, and then the shell
can take it; a line that is taken is answered up to the next prompt, and then that can be read. -/
theorem InTurns.serve (turns : InTurns reading index file s) {move : Move}
    (offered : s.Offers reading move) (clean : s.Clean reading move) :
    InTurns reading index file (s.serve reading index move) := by
  obtain ⟨chars, displays, written⟩ := turns.displays
  cases move with
  | reads n =>
    obtain ⟨positive, within, -, -⟩ := offered
    have split : s.down = s.down.take n ++ s.down.drop n := (List.take_append_drop n _).symm
    have nonempty : s.down.take n ≠ [] := by
      rw [← List.length_pos_iff, List.length_take]
      omega
    refine ⟨(read_inStep turns.inStep index _).2 clean, ⟨_, displays.read (s.down.take n), ?_⟩, ?_,
      turns.turn.read split nonempty clean, turns.answered⟩
    · have rest : (s.read index (s.down.take n)).down = s.down.drop n := by
        change s.down.drop (s.down.take n).length = _
        rw [List.length_take, Nat.min_eq_left within]
      change s.log ++ _ = _ ++ shown false (s.read index (s.down.take n)).down
      rw [rest, written]
      nth_rewrite 1 [split]
      rw [shown_append, ← List.append_assoc, List.append_assoc _ (shown false (s.down.drop n)),
        turns.turn.order split nonempty clean, ← List.append_assoc]
    · intro isOpen
      exact reading_readHandler.trans (turns.reads isOpen)
  | ends =>
    obtain ⟨isClosed, nothing, isReading⟩ := offered
    refine ⟨⟨turns.inStep.answered, turns.inStep.fileout⟩,
      ⟨_, displays.add (.output []),
        written.trans (by simp [Entry.chars, shown, Conversation.serve])⟩,
      ?_, ?_, turns.answered⟩
    · intro isOpen
      cases isClosed.symm.trans isOpen
    · cases turns.turn with
      | prompt isOpen | line isOpen | silence isOpen => cases isClosed.symm.trans isOpen
      | left _ pending onItsWay sent most hidden answered =>
        exact .left isClosed pending onItsWay sent most hidden answered
  | takes n answer =>
    obtain ⟨-, -, -, -, -, -, -, last⟩ := turns.turn.onItsWay offered.1 offered.2 clean.1
    refine ⟨turns.inStep, ⟨chars, displays, ?_⟩, turns.reads,
      turns.turn.takes offered clean, answered_append turns.answered last⟩
    change s.log ++ _ = chars ++ shown false (s.down ++ _)
    rw [written, shown_append, List.append_assoc]
  | leaves n answer =>
    obtain ⟨-, -, -, -, -, -, -, last⟩ := turns.turn.onItsWay offered.1 offered.2.1 clean.1
    refine ⟨turns.inStep, ⟨chars, displays, ?_⟩, ?_,
      turns.turn.leaves offered clean, answered_append turns.answered last⟩
    · change s.log ++ _ = chars ++ shown false (s.down ++ _)
      rw [written, shown_append, List.append_assoc]
    · intro isOpen
      cases isOpen

end Turns

/-! ## Runs -/

section Run

variable {reading : Reading} {index : Nat} {file data greeting : Str} {moves : List Move}
  {s : Conversation}

theorem run_inTurns (quiet : prompts greeting = 0)
    (run : Run (conversation reading index file data greeting) (Conversation.Clean reading) moves s) :
    InTurns reading index file s := by
  apply run.invariant (InTurns reading index file)
  · refine ⟨⟨rfl, rfl⟩, ⟨[], ⟨[], rfl, rfl⟩, rfl⟩, fun _ => rfl, ?_, by simp [conversation]⟩
    refine .prompt rfl rfl rfl ⟨greeting, rfl⟩ ?_ (by simp [conversation, Rested])
    change prompts (greeting ++ str "% ") = 0 + 1
    rw [prompts_append_prompt, quiet]
  · intro s move t turns offered clean served
    cases served
    exact turns.serve offered clean

/-- At most one of the lines that were sent has not been taken. -/
theorem InTurns.pending (turns : InTurns reading index file s) :
    ∃ pending, s.console.sent = s.taken ++ pending ∧ pending.length ≤ 1 ∧
      s.up = pending.flatten := by
  cases turns.turn with
  | prompt isOpen nothing sent ends one answered =>
    exact ⟨[], by rw [sent, List.append_nil], Nat.zero_le _, nothing⟩
  | line isOpen cmd onItsWay single sent exit nothing ends answered =>
    exact ⟨[cmd ++ [10]], sent, Nat.le_refl _, by rw [onItsWay, List.flatten_singleton]⟩
  | silence isOpen nothing sent empty rested =>
    exact ⟨[], by rw [sent, List.append_nil], Nat.zero_le _, nothing⟩
  | left isClosed pending onItsWay sent most hidden answered =>
    have grown := prompts_le_append s.console.received s.down
    exact ⟨pending, sent, by omega, onItsWay⟩

/-- As long as prompts and lines come whole and only the shell writes prompts, the console sends
the lines of its file, one for each prompt, and the shell takes them one by one: there is never
more than one on its way. What the page shows, with what is still to be shown, is what both have
written in the order in which they have written it.

It is always somebody's turn, and every move hands the turn on; so a command is never shown before
text that the shell had written earlier. -/
theorem conversation_in_turns (quiet : prompts greeting = 0)
    (run : Run (conversation reading index file data greeting) (Conversation.Clean reading) moves s) :
    s.console.sent = commandLines (prompts s.console.received) file ∧
      (∃ pending, s.console.sent = s.taken ++ pending ∧ pending.length ≤ 1 ∧
        s.up = pending.flatten) ∧
      ∃ chars, Displays index s.console.page chars ∧ s.log = chars ++ shown false s.down := by
  have turns := run_inTurns quiet run
  exact ⟨turns.inStep.answered, turns.pending, turns.displays⟩

/-! ## The end of a conversation -/

/-- The lines that are sent are the lines of the file. -/
theorem getElem?_commandLines {count i : Nat} (file : Str) (within : i < count) :
    (commandLines count file)[i]? = some ((getline (afterLines i file)).1 ++ str "\n") := by
  induction i generalizing count file with
  | zero =>
    obtain ⟨count, rfl⟩ := Nat.exists_eq_add_one.mpr within
    rfl
  | succ i ih =>
    obtain ⟨count, rfl⟩ := Nat.exists_eq_add_one.mpr (Nat.zero_lt_of_lt within)
    rw [commandLines, List.getElem?_cons_succ, ih _ (by omega), afterLines]

/-- So are the lines that are taken. -/
theorem InTurns.getElem?_taken (turns : InTurns reading index file s) {i : Nat}
    (within : i < s.taken.length) :
    s.taken[i]? = some ((getline (afterLines i file)).1 ++ str "\n") := by
  obtain ⟨pending, sent, -, -⟩ := turns.pending
  have all : s.taken ++ pending = commandLines (prompts s.console.received) file :=
    sent.symm.trans turns.inStep.answered
  have count := congrArg List.length all
  rw [length_commandLines, List.length_append] at count
  have here : (s.taken ++ pending)[i]? = s.taken[i]? := List.getElem?_append_left within
  rw [← here, all]
  exact getElem?_commandLines file (by omega)

/-- A line of the command file that the shell does not answer. -/
def Blank (reading : Reading) (file : Str) (i : Nat) : Prop :=
  reading.Silent (reading.line ((getline (afterLines i file)).1 ++ str "\n"))

/-- It is one of these that both wait behind. -/
theorem InTurns.rested_iff (turns : InTurns reading index file s) :
    Rested reading s.taken ↔ ∃ i, s.taken.length = i + 1 ∧ Blank reading file i := by
  constructor
  · rintro ⟨bytes, last, silent⟩
    obtain ⟨before, isTaken⟩ := List.getLast?_eq_some_iff.mp last
    have count : s.taken.length = before.length + 1 := by rw [isTaken, List.length_append]; rfl
    have line := turns.getElem?_taken (i := before.length) (by omega)
    rw [isTaken, List.getElem?_concat_length] at line
    exact ⟨before.length, count, by rw [Blank, ← Option.some.inj line]; exact silent⟩
  · rintro ⟨i, count, blank⟩
    refine ⟨_, ?_, blank⟩
    rw [List.getLast?_eq_getElem?, count, Nat.add_sub_cancel]
    exact turns.getElem?_taken (by omega)

/-- No line behind the first of them is taken. -/
theorem InTurns.taken_le (turns : InTurns reading index file s) {i : Nat}
    (blank : Blank reading file i) : s.taken.length ≤ i + 1 := by
  by_contra more
  have line := turns.getElem?_taken (i := i) (by omega)
  refine turns.answered _ (List.mem_iff_getElem?.mpr ⟨i, ?_⟩) blank
  rw [List.getElem?_dropLast, if_pos (by omega), line]

/-- A shell can take something of what is on its way. -/
theorem exists_takes (cmd : Str) (single : 10 ∉ cmd) : ∃ n, reading.Takes (cmd ++ [10]) n := by
  cases reading with
  | getline =>
    refine ⟨(cmd ++ [10]).length, ?_⟩
    rw [Reading.Takes, List.take_length, List.getLast?_concat, List.dropLast_concat]
    exact ⟨rfl, single, Nat.le_refl _⟩
  | recv => exact ⟨1, by simp [Reading.Takes]⟩

/-- Nothing can happen exactly when both wait for each other, or when the shell has left and the
console has read the end of the stream; it is read off the turns. -/
theorem InTurns.rests_iff (turns : InTurns reading index file s) :
    (∀ move, ¬ s.Offers reading move) ↔
      (s.isOpen = false ∧ s.console.reading = false) ∨ Rested reading s.taken := by
  have reads (more : s.down ≠ []) (isReading : s.console.reading = true) :
      s.Offers reading (.reads 1) :=
    ⟨Nat.one_pos, List.length_pos_iff.mpr more, by omega, isReading⟩
  constructor
  · intro still
    cases turns.turn with
    | prompt isOpen nothing sent ends one answered =>
      refine absurd (reads (fun empty => ?_) (turns.reads isOpen)) (still _)
      rw [empty, List.append_nil] at one
      omega
    | line isOpen cmd onItsWay single sent exit nothing ends answered =>
      obtain ⟨n, takes⟩ := @exists_takes reading cmd single
      exact absurd ⟨isOpen, onItsWay ▸ takes⟩ (still (.takes n []))
    | silence isOpen nothing sent empty rested => exact .inr rested
    | left isClosed pending onItsWay sent most hidden answered =>
      left
      refine ⟨isClosed, Bool.eq_false_iff.mpr (fun isReading => ?_)⟩
      by_cases empty : s.down = []
      · exact still .ends ⟨isClosed, empty, isReading⟩
      · exact still (.reads 1) (reads empty isReading)
  · rintro (⟨isClosed, finished⟩ | rested) move offered
    · cases move with
      | reads n => cases finished.symm.trans offered.2.2.2
      | ends => cases finished.symm.trans offered.2.2
      | takes n answer => cases isClosed.symm.trans offered.1
      | leaves n answer => cases isClosed.symm.trans offered.1
    · cases turns.turn with
      | prompt isOpen nothing sent ends one answered => exact answered rested
      | line isOpen cmd onItsWay single sent exit nothing ends answered => exact answered rested
      | left isClosed pending onItsWay sent most hidden answered => exact answered rested
      | silence isOpen nothing sent empty _ =>
        cases move with
        | reads n =>
          obtain ⟨positive, within, -, -⟩ := offered
          rw [empty, List.length_nil] at within
          omega
        | ends => cases isOpen.symm.trans offered.1
        | takes n answer => exact not_takes_nil (nothing ▸ offered.2)
        | leaves n answer => exact not_takes_nil (nothing ▸ offered.2.1)

/-- Every move brings a byte or takes a line, up to the last one. -/
theorem moves_le
    (run : Run (conversation reading index file data greeting) (Conversation.Clean reading) moves s) :
    moves.length + (if s.console.reading = true then 1 else 0) ≤
      s.console.received.length + s.taken.length + 1 := by
  induction run with
  | start => simp [conversation, session]
  | @next moves s t move before offered clean served ih =>
    cases served
    rw [List.length_append, List.length_singleton]
    cases move with
    | reads n =>
      obtain ⟨positive, within, -, isReading⟩ := offered
      change _ + (if (readHandler index s.console (s.down.take n)).reading = true then 1 else 0) ≤
        (readHandler index s.console (s.down.take n)).received.length + s.taken.length + 1
      rw [reading_readHandler, received_readHandler, List.length_append, List.length_take]
      omega
    | ends =>
      obtain ⟨-, -, isReading⟩ := offered
      rw [if_pos isReading] at ih
      change _ + 0 ≤ s.console.received.length + s.taken.length + 1
      omega
    | takes n answer | leaves n answer =>
      change _ + (if s.console.reading = true then 1 else 0) ≤
        s.console.received.length + (s.taken ++ [s.up.take n]).length + 1
      rw [List.length_append, List.length_singleton]
      omega

/-- Nothing can happen any more exactly when the shell has left and the console has read the
end of the stream, or when a server that reads with `recv` has taken an empty line. It takes
no line behind the first empty one. And there are no more moves than bytes and lines.

The turns leave four places to be in, and in two of them there is a byte to read or a line to
take; the lines that were taken are the first of the file, so the last of them is empty exactly
when that one is. -/
theorem conversation_rests_iff (quiet : prompts greeting = 0)
    (run : Run (conversation reading index file data greeting) (Conversation.Clean reading) moves s) :
    ((∀ move, ¬ s.Offers reading move) ↔ (s.isOpen = false ∧ s.console.reading = false) ∨
        ∃ i, s.taken.length = i + 1 ∧ Blank reading file i) ∧
      (∀ i, Blank reading file i → s.taken.length ≤ i + 1) ∧
      moves.length ≤ s.console.received.length + s.taken.length + 1 := by
  have turns := run_inTurns quiet run
  have few := moves_le run
  refine ⟨?_, fun i blank => turns.taken_le blank, by omega⟩
  rw [turns.rests_iff, turns.rested_iff]

/-- A command, its output, and the empty line after it. -/
def untilEmptyLine : List Move := [.reads 2, .takes 3 (str "bin\n"), .reads 6, .takes 1 []]

/-- The page shows what was typed and answered. -/
theorem conversation_in_turns_ls : ∃ s chars,
    Run (conversation .recv 0 (str "ls\n\nexit\n") (List.replicate 4096 0) [])
      (Conversation.Clean .recv) untilEmptyLine s ∧
    s.taken = [str "ls\n", str "\n"] ∧ Displays 0 s.console.page chars ∧
    s.log = chars ++ shown false s.down := by
  have plays : ((play (conversation .recv 0 (str "ls\n\nexit\n") (List.replicate 4096 0) [])
      (Conversation.Clean .recv)
      (conversation .recv 0 (str "ls\n\nexit\n") (List.replicate 4096 0) []).start
      untilEmptyLine).map (fun s => decide (s.taken = [str "ls\n", str "\n"]))) = some true := by
    decide +kernel
  obtain ⟨s, played, taken⟩ := Option.map_eq_some_iff.mp plays
  have run := Run.played untilEmptyLine s played
  obtain ⟨-, -, chars, displays, written⟩ := conversation_in_turns (by decide) run
  exact ⟨s, chars, run, of_decide_eq_true taken, displays, written⟩

/-- Then neither side has anything more to do, and `exit` is never sent. -/
theorem conversation_rests_iff_ls : ∃ s,
    Run (conversation .recv 0 (str "ls\n\nexit\n") (List.replicate 4096 0) [])
      (Conversation.Clean .recv) untilEmptyLine s ∧ s.isOpen = true ∧
    ∀ move, ¬ s.Offers .recv move := by
  have plays : ((play (conversation .recv 0 (str "ls\n\nexit\n") (List.replicate 4096 0) [])
      (Conversation.Clean .recv)
      (conversation .recv 0 (str "ls\n\nexit\n") (List.replicate 4096 0) []).start
      untilEmptyLine).map (fun s => decide (s.taken.length = 2 ∧ s.isOpen = true))) =
        some true := by
    decide +kernel
  obtain ⟨s, played, facts⟩ := Option.map_eq_some_iff.mp plays
  obtain ⟨two, isOpen⟩ := of_decide_eq_true facts
  have run := Run.played untilEmptyLine s played
  have blank : Blank .recv (str "ls\n\nexit\n") 1 := by
    rw [Blank]
    decide
  exact ⟨s, run, isOpen, (conversation_rests_iff (by decide) run).1.mpr (.inr ⟨1, two, blank⟩)⟩

end Run

end NetProg.Console
