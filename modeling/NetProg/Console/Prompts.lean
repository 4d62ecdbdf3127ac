import NetProg.Console.Output
import NetProg.Environment
import NetProg.Library.Runs

/-!
# How a console answers the prompts of a shell

A session reads what its shell sends, writes it to the page, and looks for the
prompt in its whole buffer. When the prompt is there it sends the next line of the
command file and clears the buffer. The buffer is not cleared otherwise, and a read
overwrites only as many of its bytes as it brings.

So a prompt that is cut by two reads is not seen, two prompts in one read are
answered once, and bytes of an earlier read can complete a prompt that the shell
never sent. Where no read does any of this, every prompt of the stream is answered
with the next command, wherever the stream is cut.
-/

namespace NetProg.Console

open Runs

/-- The state of a `ShellSession`: `data_`, the rest of the command file behind
`fileout`, `exit_`, and whether it still reads. The commands sent, the text written
to the page and the bytes received are recorded. -/
structure ShellSession where
  data : Str
  fileout : Str
  exit : Bool
  reading : Bool
  sent : List Str
  page : Str
  received : Str

/-- `getline`: the next line without its line feed, empty at the end of the file. -/
def getline (file : Str) : Str × Str :=
  (file.takeWhile (· ≠ 10), (file.dropWhile (· ≠ 10)).drop 1)

/-- `do_send_cmd`, with the assignment of its result to `exit_`. -/
def doSendCmd (index : Nat) (s : ShellSession) : ShellSession :=
  let cmd := (getline s.fileout).1
  let cmdSend := cmd ++ str "\n"
  { s with
    fileout := (getline s.fileout).2
    sent := s.sent ++ [cmdSend]
    page := if s.exit = false then s.page ++ outputCommand index cmdSend else s.page
    exit := cmd = str "exit" }

/-- `contains(data_, "% ")`. -/
def containsPrompt (data : Str) : Bool := (findFirst (str "% ") data).isSome

/-- The buffer after a read into it. -/
def ShellSession.filled (s : ShellSession) (bytes : Str) : Str :=
  bytes ++ s.data.drop bytes.length

/-- The handler of a completed read in `do_read`. -/
def readHandler (index : Nat) (s : ShellSession) (bytes : Str) : ShellSession :=
  let read := { s with
    data := s.filled bytes
    page := s.page ++ outputShell index bytes
    received := s.received ++ bytes }
  if containsPrompt (s.filled bytes) then
    { doSendCmd index read with data := List.replicate 4096 0 }
  else read

/-- What a read completes with: bytes, the end of the stream, or an error. -/
inductive Arrival where
  | bytes (bytes : Str)
  | eof
  | fails (message value : Str)

/-- The handler of `do_read`. After an error it reads again. -/
def handle (index : Nat) (s : ShellSession) : Arrival → ShellSession
  | .bytes bytes => readHandler index s bytes
  | .eof => { s with page := s.page ++ outputShell index [], reading := false }
  | .fails message value =>
    { s with page := s.page ++ (str "Error: " ++ message ++ str " value = " ++ value ++ str "\n") }

/-- A read completes while the session reads, and brings at least one byte and at
most a buffer of them. -/
def Arrives (s : ShellSession) : Arrival → Prop
  | .bytes bytes => s.reading = true ∧ bytes ≠ [] ∧ bytes.length ≤ 4096
  | .eof => s.reading = true
  | .fails _ _ => s.reading = true

instance decidableArrives (s : ShellSession) : (arrival : Arrival) → Decidable (Arrives s arrival)
  | .bytes bytes =>
    inferInstanceAs (Decidable (s.reading = true ∧ bytes ≠ [] ∧ bytes.length ≤ 4096))
  | .eof => inferInstanceAs (Decidable (s.reading = true))
  | .fails _ _ => inferInstanceAs (Decidable (s.reading = true))

/-- A session with a command file, whose buffer is not initialised: what it holds before the first
read is a parameter. -/
def session (index : Nat) (file data : Str) : System ShellSession Arrival Empty where
  start := ⟨data, file, false, true, [], [], []⟩
  offers := Arrives
  serve s arrival := .ok (handle index s arrival)

instance (index : Nat) (file data : Str) (s : ShellSession) (arrival : Arrival) :
    Decidable ((session index file data).offers s arrival) :=
  inferInstanceAs (Decidable (Arrives s arrival))

/-- How often the prompt occurs in a stream. -/
def prompts : Str → Nat
  | [] => 0
  | c :: rest => (if c = 37 ∧ rest.head? = some 32 then 1 else 0) + prompts rest

/-- A prompt is cut between two parts of a stream. -/
def CutsPrompt (first second : Str) : Prop := first.getLast? = some 37 ∧ second.head? = some 32

instance (first second : Str) : Decidable (CutsPrompt first second) :=
  inferInstanceAs (Decidable (_ ∧ _))

/-- The first lines of the command file, as they are sent. -/
def commandLines : Nat → Str → List Str
  | 0, _ => []
  | count + 1, file => ((getline file).1 ++ str "\n") :: commandLines count (getline file).2

/-- What is left of a file after some of its lines. -/
def afterLines : Nat → Str → Str
  | 0, file => file
  | count + 1, file => afterLines count (getline file).2

/-- The commands sent are the first lines of the file, one for each prompt of the
stream. -/
def Answered (file : Str) (s : ShellSession) : Prop :=
  s.sent = commandLines (prompts s.received) file

/-- After an arrival all prompts are answered, and if the arrival made the session
send a command there is a prompt in its own bytes. -/
def AnsweredAfter (index : Nat) (file : Str) (s : ShellSession) : Arrival → Prop
  | .bytes bytes => Answered file (readHandler index s bytes) ∧
      ((readHandler index s bytes).sent ≠ s.sent → 0 < prompts bytes)
  | .eof => True
  | .fails _ _ => True

/-- A read has at most one prompt in its bytes, does not go on with a prompt that the
read before it began, and if it has none does not make one with the bytes it leaves
in the buffer. -/
def WholePrompt (s : ShellSession) : Arrival → Prop
  | .bytes bytes => prompts bytes ≤ 1 ∧ ¬ CutsPrompt s.received bytes ∧
      (prompts bytes = 0 → prompts (s.filled bytes) = 0)
  | .eof => True
  | .fails _ _ => True

instance decidableWholePrompt (s : ShellSession) :
    (arrival : Arrival) → Decidable (WholePrompt s arrival)
  | .bytes bytes => inferInstanceAs (Decidable (prompts bytes ≤ 1 ∧ ¬ CutsPrompt s.received bytes ∧
      (prompts bytes = 0 → prompts (s.filled bytes) = 0)))
  | .eof => isTrue trivial
  | .fails _ _ => isTrue trivial

/-- The prompts of a stream in two parts, and the one they may cut. -/
theorem prompts_append (first second : Str) : prompts (first ++ second) =
    prompts first + prompts second + if CutsPrompt first second then 1 else 0 := by
  induction first with
  | nil => simp [prompts, CutsPrompt]
  | cons c rest ih =>
    cases rest with
    | nil => simp [prompts, CutsPrompt, Nat.add_comm]
    | cons d more =>
      have same : CutsPrompt (c :: d :: more) second ↔ CutsPrompt (d :: more) second := by
        simp [CutsPrompt]
      have step (tail : Str) : prompts (c :: d :: tail) =
          (if c = 37 ∧ d = 32 then 1 else 0) + prompts (d :: tail) := by
        simp [prompts]
      rw [List.cons_append, List.cons_append, step, step, ← List.cons_append, ih]
      simp only [same]
      omega

/-- The prompt is found in a buffer that has one. -/
theorem containsPrompt_iff (data : Str) : containsPrompt data = true ↔ 0 < prompts data := by
  induction data with
  | nil => decide
  | cons c rest ih =>
    have here : (str "% ").isPrefixOf (c :: rest) = true ↔ c = 37 ∧ rest.head? = some 32 := by
      cases rest <;> simp [str, List.isPrefixOf, @eq_comm _ c 37, @eq_comm _ _ (32 : UInt8)]
    rw [containsPrompt] at ih ⊢
    rw [findFirst, prompts]
    by_cases found : c = 37 ∧ rest.head? = some 32
    · rw [if_pos (here.mpr found), if_pos found]
      exact iff_of_true rfl (by omega)
    · rw [if_neg (fun isPrefix => found (here.mp isPrefix)), if_neg found, Option.isSome_map, ih,
        Nat.zero_add]

theorem length_commandLines (count : Nat) (file : Str) :
    (commandLines count file).length = count := by
  induction count generalizing file with
  | zero => rfl
  | succ count ih => rw [commandLines, List.length_cons, ih]

/-- Reading one line more. -/
theorem commandLines_succ (count : Nat) (file : Str) :
    commandLines (count + 1) file =
        commandLines count file ++ [(getline (afterLines count file)).1 ++ str "\n"] ∧
      afterLines (count + 1) file = (getline (afterLines count file)).2 := by
  induction count generalizing file with
  | zero => exact ⟨rfl, rfl⟩
  | succ count ih =>
    obtain ⟨lines, after⟩ := ih (getline file).2
    constructor
    · rw [commandLines, lines, commandLines, afterLines, List.cons_append]
    · rw [afterLines, after, afterLines]

/-- All prompts are answered, and the command file has been read that far. Between two reads there
is nothing else to know of a session. -/
structure InStep (file : Str) (s : ShellSession) : Prop where
  answered : Answered file s
  fileout : s.fileout = afterLines (prompts s.received) file

/-- The prompts in the bytes of a read are in the buffer after it. -/
theorem prompts_le_filled (s : ShellSession) (bytes : Str) :
    prompts bytes ≤ prompts (s.filled bytes) := by
  rw [ShellSession.filled, prompts_append]
  omega

/-- A read that leaves a prompt in the buffer sends one line of the file. -/
theorem readHandler_sends {s : ShellSession} {file bytes : Str} (inStep : InStep file s)
    (index : Nat) (found : 0 < prompts (s.filled bytes)) :
    (readHandler index s bytes).sent = commandLines (prompts s.received + 1) file ∧
      (readHandler index s bytes).fileout = afterLines (prompts s.received + 1) file ∧
      (readHandler index s bytes).received = s.received ++ bytes := by
  obtain ⟨lines, after⟩ := commandLines_succ (prompts s.received) file
  rw [readHandler, if_pos ((containsPrompt_iff _).mpr found), lines, after, ← inStep.fileout,
    ← inStep.answered]
  exact ⟨rfl, rfl, rfl⟩

/-- Any other read sends nothing. -/
theorem readHandler_waits (index : Nat) {s : ShellSession} {bytes : Str}
    (missing : ¬ 0 < prompts (s.filled bytes)) :
    (readHandler index s bytes).sent = s.sent ∧ (readHandler index s bytes).fileout = s.fileout ∧
      (readHandler index s bytes).received = s.received ++ bytes := by
  rw [readHandler, if_neg (fun found => missing ((containsPrompt_iff _).mp found))]
  exact ⟨rfl, rfl, rfl⟩

/-- The first lines of a file are told apart by their number. -/
theorem commandLines_inj {first second : Nat} {file : Str} :
    commandLines first file = commandLines second file ↔ first = second := by
  constructor
  · intro same
    have lengths := congrArg List.length same
    rwa [length_commandLines, length_commandLines] at lengths
  · intro same
    rw [same]

/-- A read keeps a session in step exactly when its prompts are whole and its own. A prompt that
is cut, made with old bytes, or one of several in a read makes the count of lines sent differ from
that of the prompts. -/
theorem read_inStep {s : ShellSession} {file : Str} (inStep : InStep file s) (index : Nat)
    (bytes : Str) :
    (AnsweredAfter index file s (.bytes bytes) ↔ WholePrompt s (.bytes bytes)) ∧
      (WholePrompt s (.bytes bytes) → InStep file (readHandler index s bytes)) := by
  have own := prompts_le_filled s bytes
  have answered := inStep.answered
  by_cases found : 0 < prompts (s.filled bytes)
  · obtain ⟨sent, fileout, received⟩ := readHandler_sends inStep index found
    have more : commandLines (prompts s.received + 1) file ≠ s.sent := by
      rw [answered, Ne, commandLines_inj]
      omega
    have after : Answered file (readHandler index s bytes) ↔
        prompts s.received + 1 = prompts (s.received ++ bytes) := by
      rw [Answered, sent, received, commandLines_inj]
    constructor
    · simp only [AnsweredAfter, WholePrompt, after, sent, prompts_append]
      by_cases cut : CutsPrompt s.received bytes
      · simp only [cut, if_true, not_true, false_and, and_false, iff_false]
        intro both
        have positive := both.2 more
        omega
      · simp only [cut, if_false, not_false_eq_true, true_and]
        constructor
        · intro both
          have positive := both.2 more
          omega
        · intro one
          omega
    · rintro ⟨most, whole, kept⟩
      have one : prompts (s.received ++ bytes) = prompts s.received + 1 := by
        rw [prompts_append, if_neg whole]
        omega
      exact ⟨after.mpr one.symm, by rw [fileout, received, one]⟩
  · obtain ⟨sent, fileout, received⟩ := readHandler_waits index found
    have after : Answered file (readHandler index s bytes) ↔
        prompts s.received = prompts (s.received ++ bytes) := by
      rw [Answered, sent, received, answered, commandLines_inj]
    constructor
    · simp only [AnsweredAfter, WholePrompt, after, sent, prompts_append]
      by_cases cut : CutsPrompt s.received bytes
      · simp only [cut, if_true, not_true, false_and, and_false, iff_false]
        omega
      · simp only [cut, if_false, not_false_eq_true, true_and]
        constructor
        · intro _
          omega
        · intro _
          exact ⟨by omega, fun moved => absurd rfl moved⟩
    · rintro ⟨most, whole, kept⟩
      have none : prompts (s.received ++ bytes) = prompts s.received := by
        rw [prompts_append, if_neg whole]
        omega
      exact ⟨after.mpr none.symm, by rw [fileout, received, none, inStep.fileout]⟩

theorem arrival_inStep {s : ShellSession} {file : Str} (inStep : InStep file s) (index : Nat)
    (arrival : Arrival) : (AnsweredAfter index file s arrival ↔ WholePrompt s arrival) ∧
      (WholePrompt s arrival → InStep file (handle index s arrival)) := by
  cases arrival with
  | bytes bytes => exact read_inStep inStep index bytes
  | eof => exact ⟨Iff.rfl, fun _ => ⟨inStep.answered, inStep.fileout⟩⟩
  | fails message value => exact ⟨Iff.rfl, fun _ => ⟨inStep.answered, inStep.fileout⟩⟩

/-- While all prompts are whole a session is in step with its shell, by induction: an arrival with
at most one prompt answers it at once. -/
theorem run_inStep {index : Nat} {file data : Str} {arrivals : List Arrival} {s : ShellSession}
    (run : Run (session index file data) WholePrompt arrivals s) : InStep file s := by
  have initial : InStep file (session index file data).start := by
    constructor <;> rfl
  apply run.invariant (InStep file) initial
  intro state arrival after inStep _ whole served
  cases served
  exact (arrival_inStep inStep index arrival).2 whole

/-- For every command file and whatever was left in the buffer of the session: the runs in which
after every arrival the commands sent are the first lines of the command file, one for each prompt
in the bytes received, and no command is sent on the strength of bytes of an earlier read, are
those in which each read has at most one prompt, begins outside of one, and does not make one with
bytes left in the buffer.

One arrival keeps the session in step exactly when it meets the condition. Either direction takes
a run apart and applies this to each of its arrivals. -/
theorem prompts_answered_iff (index : Nat) (file data : Str) (arrivals : List Arrival)
    (s : ShellSession) :
    Run (session index file data) (AnsweredAfter index file) arrivals s ↔
      Run (session index file data) WholePrompt arrivals s := by
  constructor
  · intro run
    induction run with
    | start => exact .start
    | next before offered met served ih =>
      exact .next ih offered ((arrival_inStep (run_inStep ih) index _).1.mp met) served
  · intro run
    induction run with
    | start => exact .start
    | next before offered met served ih =>
      exact .next ih offered ((arrival_inStep (run_inStep before) index _).1.mpr met) served

/-- Two prompts in one read, as a shell sends them after a line without output. -/
def twoPrompts : List Arrival := [.bytes (str "% % ")]

/-- One command is sent for them. -/
theorem two_prompts_answered_once : ∃ s,
    Run (session 0 (str "ls\nexit\n") (List.replicate 4096 0)) always twoPrompts s ∧
    prompts s.received = 2 ∧ s.sent = [str "ls\n"] := by
  have plays : ((play (session 0 (str "ls\nexit\n") (List.replicate 4096 0)) always
      (session 0 (str "ls\nexit\n") (List.replicate 4096 0)).start twoPrompts).map (fun s =>
        decide (prompts s.received = 2 ∧ s.sent = [str "ls\n"]))) = some true := by decide +kernel
  obtain ⟨s, played, once⟩ := Option.map_eq_some_iff.mp plays
  obtain ⟨two, sent⟩ := of_decide_eq_true once
  exact ⟨s, Run.played twoPrompts s played, two, sent⟩

end NetProg.Console
