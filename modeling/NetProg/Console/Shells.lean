import NetProg.Console.Conversation
import NetProg.Npshell.PipeTable
import NetProg.SingleProc.Room

/-!
# The shells at the other end

A conversation leaves open what the shell answers. Here the shell is one of those that there
are, and what it writes is what its command loop writes, with what the programs of a line write
in between. Such a shell behaves as a conversation has it: it writes its prompt last, once for a
line, and the server that reads with `recv` writes nothing for an empty one. So what a console and
the shell do is a conversation, and keeps to its turns.
-/

namespace NetProg.Console

open Runs

/-! ## What the shells write -/

/-- What a client of the server gets for a line: nothing for an empty one, and otherwise the
prompt behind everything else. -/
theorem clientExec_written {world : World} {s t : SingleProc.Server} {iter : Nat} {bytes : Str}
    {status : Int} (executed : SingleProc.clientExec world s iter (Reading.recv.line bytes) =
      .ok (t, status)) :
    if Reading.recv.Silent (Reading.recv.line bytes) then t.output = s.output
    else ∃ c answer, s.clientTable[iter]? = some c ∧
      t.output = s.output ++ answer ++ [(c.fd, str "% ")] := by
  obtain ⟨c, calls, isCli, -, said⟩ := SingleProc.clientExec_utters executed
  by_cases empty : Reading.recv.line bytes = []
  · rw [if_pos ⟨rfl, empty⟩]
    rw [if_pos empty] at said
    exact said.1
  · rw [if_neg (fun silent => empty silent.2)]
    rw [if_neg empty] at said
    obtain ⟨ended, utters, rfl⟩ := said
    obtain ⟨utterances, output, -⟩ := utters.texts
    exact ⟨c, _, isCli, by rw [SingleProc.Server.write, output]⟩

section Npshell

open Npshell Outcomes

variable {world : World} {s t : Shell}

/-- A built-in command writes one text at the most. -/
theorem builtin_output {arguments : List Str} (built : builtin s arguments = .ok t) :
    ∃ more, t.output = s.output ++ more := by
  rw [builtin] at built
  obtain ⟨prog, -, built⟩ := bind_eq_ok.mp built
  split at built
  · obtain ⟨var, -, printed⟩ := bind_eq_ok.mp built
    cases printed
    rw [Shell.printEnv]
    split
    · exact ⟨_, rfl⟩
    · exact ⟨[], (List.append_nil _).symm⟩
  split at built
  · obtain ⟨var, -, built⟩ := bind_eq_ok.mp built
    obtain ⟨val, -, stored⟩ := bind_eq_ok.mp built
    cases stored
    exact ⟨[], (List.append_nil _).symm⟩
  split at built
  · cases built
  · cases built
    exact ⟨[], (List.append_nil _).symm⟩

/-- The shell only adds to what it has written. -/
theorem pass_output {f next : Frame} {word : Str} {rest : List Str}
    (passed : pass world f word rest = .ok next) :
    ∃ more, next.shell.output = f.shell.output ++ more := by
  obtain ⟨read, reads, passed⟩ := bind_eq_ok.mp passed
  have same : read.shell.output = f.shell.output := by
    cases (readWord_ends world f word rest).returned reads <;> rfl
  split at passed
  · obtain ⟨ran, built, returned⟩ := bind_eq_ok.mp passed
    cases returned
    rw [← same]
    obtain ⟨more, grown⟩ := builtin_output built
    exact ⟨more, grown⟩
  · cases passed
    exact ⟨[], by rw [same, List.append_nil]⟩

/-- What the user of the shell gets for a line: a prompt before it, and nothing but that for an
empty one. -/
theorem execLine_written {line : Str} (executed : execLine s (line, world) = .ok t) :
    ∃ answer, t.output = s.output ++ str "% " :: answer ∧ (line = [] → answer = []) := by
  rw [execLine] at executed
  simp only at executed
  split at executed
  · cases executed
    exact ⟨[], rfl, fun _ => rfl⟩
  · rename_i notEmpty
    have grown : ∃ more, t.output = (s.write (str "% ")).output ++ more := by
      refine (cmdLoop world).run_keeps (fun f => ∃ more, f.shell.output =
        (s.write (str "% ")).output ++ more) (fun t => ∃ more, t.output =
        (s.write (str "% ")).output ++ more) ?_ ?_ ⟨[], (List.append_nil _).symm⟩ executed
      · rintro f next ⟨more, sofar⟩ again
        change Npshell.round world f = _ at again
        rw [Npshell.round] at again
        split at again
        · cases again
        · obtain ⟨after, passed, same⟩ := bind_eq_ok.mp again
          cases same
          obtain ⟨further, grown⟩ := pass_output passed
          exact ⟨more ++ further, by rw [grown, sofar, List.append_assoc]⟩
      · rintro f left ⟨more, sofar⟩ leaves
        change Npshell.round world f = _ at leaves
        rw [Npshell.round] at leaves
        split at leaves
        · cases leaves
          exact ⟨more, sofar⟩
        · obtain ⟨after, -, same⟩ := bind_eq_ok.mp leaves
          cases same
    obtain ⟨more, output⟩ := grown
    exact ⟨more, by rw [output]; simp [Shell.write], fun empty => absurd empty notEmpty⟩

end Npshell

/-! ## A shell at the other end -/

/-- Texts in their order, with something before each of them. -/
inductive Mixed : List Str → Str → Prop
  | nil : Mixed [] []
  | cons {texts : List Str} {rest : Str} (before text : Str) (mixed : Mixed texts rest) :
      Mixed (text :: texts) (before ++ text ++ rest)

/-- The last one comes last. -/
theorem Mixed.ends {texts : List Str} {text whole : Str} (mixed : Mixed (texts ++ [text]) whole) :
    ∃ before, whole = before ++ text := by
  induction texts generalizing whole with
  | nil =>
    cases mixed with
    | cons before _ rest =>
      cases rest
      exact ⟨before, List.append_nil _⟩
  | cons first others ih =>
    cases mixed with
    | cons before _ rest =>
      obtain ⟨more, rfl⟩ := ih rest
      exact ⟨before ++ first ++ more, by rw [List.append_assoc _ more]⟩

/-- A shell as a console meets it: its states, what it writes before its first prompt, and what it
can write for the bytes it has taken, whether it leaves then, and its state after that. What it
writes for a line is an answer and a prompt, or nothing where a conversation has nothing, and it
does not leave at an empty line. -/
structure Peer (reading : Reading) where
  State : Type
  start : State
  greeting : Str
  executes : State → Str → Str → Bool → State → Prop
  answers : ∀ {s bytes text t}, executes s bytes text false t →
    ∃ answer, text = reading.written (reading.line bytes) answer
  stays : ∀ {s bytes text t}, executes s bytes text true t → reading.line bytes ≠ []

/-- Other clients of a server do something, the server prints nothing for itself, and one client
hears nothing of it. -/
def Unheard (fd : Int) (s u : SingleProc.Server) : Prop :=
  ∃ events : List SingleProc.Event, events.foldlM SingleProc.serve s = .ok u ∧
    Along SingleProc.system (fun s event => ¬ SingleProc.PrintsLog s event ∧
      event.client? ≠ some fd) s events ∧ u.room.heard fd = s.room.heard fd

/-- The server with one process, as one of its clients meets it. Others can have been served since
its last line. What it gets for a line are the texts that the server writes to it, and before each
of them what the programs of the line have written. -/
def Serves (fd : Int) (s : SingleProc.Server) (bytes text : Str) (leaves : Bool)
    (t : SingleProc.Server) : Prop :=
  ∃ u world own, Unheard fd s u ∧ SingleProc.offers u (.line fd bytes world) ∧
    SingleProc.serve u (.line fd bytes world) = .ok t ∧
    t.room.heard fd = u.room.heard fd ++ own ∧ Mixed own text ∧ leaves = decide (fd ∉ t.afds)

section Serves

variable {fd : Int} {s t : SingleProc.Server} {bytes text : Str}

/-- What is written to one is what is new in the output for it. -/
theorem heard_of_output {more : List (Int × Str)} (output : t.output = s.output ++ more) :
    t.room.heard fd = s.room.heard fd ++ (more.filter (·.1 = fd)).map Prod.snd := by
  simp only [SingleProc.Server.room, SingleProc.roomOf, output, List.filter_append, List.map_append]

/-- A client that stays gets an answer and a prompt, or nothing. -/
theorem Serves.answers (serves : Serves fd s bytes text false t) :
    ∃ answer, text = Reading.recv.written (Reading.recv.line bytes) answer := by
  obtain ⟨u, world, own, -, -, served, heard, mixed, remains⟩ := serves
  obtain ⟨ended, status, executed, ⟨-, rfl⟩ | ⟨cli, left, -, -, -, out, rfl⟩⟩ :=
    SingleProc.clientLine_cases served
  · have written := clientExec_written executed
    split at written
    · rename_i silent
      have nothing : own = [] := by
        have same : t.room.heard fd = u.room.heard fd ++ _ :=
          heard_of_output (written.trans (List.append_nil _).symm)
        rw [heard] at same
        simpa using same
      subst nothing
      cases mixed
      exact ⟨[], by rw [Reading.written, if_pos silent.2]⟩
    · rename_i spoken
      obtain ⟨c, answer, isClient, output⟩ := written
      obtain rfl := SingleProc.getClientByFd_fd isClient
      rw [List.append_assoc] at output
      have same : t.room.heard c.fd = u.room.heard c.fd ++ _ := heard_of_output output
      rw [heard, List.append_cancel_left_eq] at same
      subst same
      have prompt : ([(c.fd, str "% ")].filter (·.1 = c.fd)).map Prod.snd = [str "% "] := by simp
      rw [List.filter_append, List.map_append, prompt] at mixed
      obtain ⟨before, rfl⟩ := mixed.ends
      exact ⟨before, by rw [Reading.written, if_neg (fun empty => spoken ⟨rfl, empty⟩)]⟩
  · have watched : fd ∈ (left.withProcess (SingleProc.restore left.process)).afds := by
      simpa using remains.symm
    change fd ∈ left.afds at watched
    rw [(SingleProc.logout_watched out).2] at watched
    exact absurd rfl (of_decide_eq_true (List.mem_filter.mp watched).2)

/-- A client does not leave at an empty line. -/
theorem Serves.stays (serves : Serves fd s bytes text true t) : Reading.recv.line bytes ≠ [] := by
  obtain ⟨u, world, own, -, offered, served, -, -, leaves⟩ := serves
  obtain ⟨ended, status, executed, ⟨-, isEnded⟩ | ⟨cli, left, isExit, -, -, -, -⟩⟩ :=
    SingleProc.clientLine_cases served
  · have same : ended.afds = u.afds := (SingleProc.clientExec_registry executed).afds
    have gone : fd ∉ ended.afds := of_decide_eq_true (isEnded ▸ leaves.symm)
    exact absurd (same ▸ offered.1.1) gone
  · intro empty
    change SingleProc.cliMsg bytes = [] at empty
    rw [empty, SingleProc.clientExec] at executed
    obtain ⟨c, -, returned⟩ := Outcomes.bind_eq_ok.mp executed
    rw [if_pos rfl] at returned
    cases returned
    cases isExit

end Serves

/-- One of the clients of the server with one process, when it has got its first prompt. -/
def client (fd : Int) (entered : SingleProc.Server) : Peer .recv where
  State := SingleProc.Server
  start := entered
  greeting := ((entered.room.heard fd).dropLast).flatten
  executes := Serves fd
  answers := Serves.answers
  stays := Serves.stays

/-- A shell with `getline` that has written its prompt. It writes what the line makes it write, and
the next prompt, with the output of the programs in between; an empty line runs no program. Or
there is an `exit` in the line, and the shell ends. -/
inductive Executes (s : Npshell.Shell) (bytes : Str) : Str → Bool → Npshell.Shell → Prop
  | blank {world : World} {own : List Str} {t : Npshell.Shell} (line : bytes.dropLast = [])
      (ran : Npshell.execLine s (bytes.dropLast, world) = .ok t)
      (output : t.output = s.output ++ str "% " :: own) :
      Executes s bytes (own.flatten ++ str "% ") false t
  | goesOn {world : World} {own : List Str} {t : Npshell.Shell} {text : Str}
      (line : bytes.dropLast ≠ [])
      (ran : Npshell.execLine s (bytes.dropLast, world) = .ok t)
      (output : t.output = s.output ++ str "% " :: own) (mixed : Mixed (own ++ [str "% "]) text) :
      Executes s bytes text false t
  | exits {world : World} {own : List Str} {t : Npshell.Shell} {text : Str} (after : Str)
      (ran : Npshell.execLine s (bytes.dropLast, world) = .error (.exited, t))
      (output : t.output = s.output ++ str "% " :: own) (mixed : Mixed own text) :
      Executes s bytes (text ++ after) true t

section Executes

variable {s t : Npshell.Shell} {bytes text : Str}

/-- A shell that goes on has written an answer and a prompt. -/
theorem Executes.answers (executes : Executes s bytes text false t) :
    ∃ answer, text = Reading.getline.written (Reading.getline.line bytes) answer := by
  cases executes with
  | blank line ran output =>
    obtain ⟨answer, isOutput, silent⟩ := execLine_written ran
    obtain rfl := silent line
    have same := List.append_cancel_left (output.symm.trans isOutput)
    cases same
    exact ⟨[], by simp [Reading.written]⟩
  | goesOn line ran output mixed =>
    obtain ⟨before, rfl⟩ := mixed.ends
    exact ⟨before, by rw [Reading.written, Reading.line, if_neg line]⟩

/-- A shell does not end at an empty line. -/
theorem Executes.stays (executes : Executes s bytes text true t) :
    Reading.getline.line bytes ≠ [] := by
  cases executes with
  | exits after ran output mixed =>
    intro empty
    rw [Reading.line] at empty
    rw [empty, Npshell.execLine, if_pos rfl] at ran
    cases ran

end Executes

/-- The shell of a session that has written its first prompt. -/
def npshell (vars : List (Str × Str)) : Peer .getline where
  State := Npshell.Shell
  start := Npshell.started vars
  greeting := []
  executes := Executes
  answers := Executes.answers
  stays := Executes.stays

/-! ## A console and one of them -/

/-- A conversation and the shell that takes part in it. The conversation has the bytes that are on
their way, and the shell is in the state in which its own command loop is. -/
structure Dialogue {reading : Reading} (peer : Peer reading) where
  conversation : Conversation
  shell : peer.State

/-- A read of the console completes, or the shell executes a line. -/
inductive Exchange {reading : Reading} (peer : Peer reading) where
  | reads (n : Nat)
  | ends
  | executes (n : Nat) (text : Str) (leaves : Bool) (next : peer.State)

section Dialogue

variable {reading : Reading} {peer : Peer reading} {index : Nat}

namespace Dialogue

/-- What can happen. -/
def Offers (s : Dialogue peer) : Exchange peer → Prop
  | .reads n => s.conversation.Offers reading (.reads n)
  | .ends => s.conversation.Offers reading .ends
  | .executes n text leaves next => s.conversation.isOpen = true ∧
      reading.Takes s.conversation.up n ∧
      peer.executes s.shell (s.conversation.up.take n) text leaves next

/-- What an exchange does. The console has its part of the conversation, and a line that is
executed leaves the peer in the state that its command loop has come to. -/
def serve (index : Nat) (s : Dialogue peer) : Exchange peer → Dialogue peer
  | .reads n => { s with conversation := s.conversation.serve reading index (.reads n) }
  | .ends => { s with conversation := s.conversation.serve reading index .ends }
  | .executes n text leaves next =>
    ⟨{ s.conversation.answered n text with isOpen := !leaves }, next⟩

/-- The prompts are read whole and a `recv` brings a whole line; nothing that is written has a
prompt in it but the one of the shell, and when it leaves that comes after `exit` only. -/
def Clean (s : Dialogue peer) : Exchange peer → Prop
  | .reads n => s.conversation.Clean reading (.reads n)
  | .ends => True
  | .executes n text leaves _ => (reading = .recv → n = s.conversation.up.length) ∧
      prompts text ≤ if leaves = true ∧ s.conversation.up.take n ≠ str "exit\n" then 0 else 1

end Dialogue

/-- A console and its shell, when that has written its first prompt. What is answered to a line is
what the command loop of the shell prints for it, with what the programs write. -/
def dialogue (peer : Peer reading) (index : Nat) (file data : Str) :
    System (Dialogue peer) (Exchange peer) Empty where
  start := ⟨(conversation reading index file data peer.greeting).start, peer.start⟩
  offers := Dialogue.Offers
  serve s exchange := .ok (s.serve index exchange)

variable {s : Dialogue peer} {exchange : Exchange peer} {log : List (Exchange peer)}
  {file data : Str}

/-- What a shell writes before a line is over is an answer without a prompt, if there is one prompt
in it at most. -/
theorem exists_answer {line text : Str} (spoken : ∃ answer, text = reading.written line answer)
    (few : prompts text ≤ 1) :
    ∃ answer, prompts answer = 0 ∧ text = reading.written line answer := by
  obtain ⟨answer, rfl⟩ := spoken
  by_cases empty : line = []
  · exact ⟨[], rfl, by cases reading <;> simp [Reading.written, empty]⟩
  · refine ⟨answer, ?_, rfl⟩
    have whole : reading.written line answer = answer ++ str "% " := by
      cases reading <;> simp [Reading.written, empty]
    rw [whole, prompts_append_prompt] at few
    omega

/-- What happens between the two is a move of a conversation. -/
theorem Dialogue.converses (offered : s.Offers exchange) (clean : s.Clean exchange) :
    ∃ move, s.conversation.Offers reading move ∧ s.conversation.Clean reading move ∧
      s.conversation.serve reading index move = (s.serve index exchange).conversation := by
  cases exchange with
  | reads n => exact ⟨.reads n, offered, clean, rfl⟩
  | ends => exact ⟨.ends, offered, trivial, rfl⟩
  | executes n text leaves next =>
    obtain ⟨isOpen, takes, executed⟩ := offered
    obtain ⟨whole, few⟩ := clean
    cases leaves with
    | false =>
      obtain ⟨answer, quiet, isText⟩ := exists_answer (peer.answers executed) (by simpa using few)
      refine ⟨.takes n answer, ⟨isOpen, takes⟩, ⟨whole, quiet⟩, ?_⟩
      rw [Conversation.serve, ← isText]
      change _ = { s.conversation.answered n text with isOpen := true }
      rw [← isOpen]
      rfl
    | true =>
      refine ⟨.leaves n text, ⟨isOpen, takes, peer.stays executed⟩, ⟨whole, few.trans ?_⟩, rfl⟩
      by_cases isExit : s.conversation.up.take n = str "exit\n" <;> simp [isExit]

/-- So a run of the two is a run of a conversation, move by move. By induction on the run; a line
that the shell executes is one that it takes, with the prompt behind its answer. -/
theorem run_converses (run : Run (dialogue peer index file data) Dialogue.Clean log s) :
    ∃ moves, moves.length = log.length ∧
      Run (conversation reading index file data peer.greeting) (Conversation.Clean reading) moves
        s.conversation := by
  induction run with
  | start => exact ⟨[], rfl, .start⟩
  | next before offered clean served ih =>
    cases served
    obtain ⟨moves, same, sofar⟩ := ih
    obtain ⟨move, can, isClean, isServed⟩ := Dialogue.converses offered clean
    refine ⟨moves ++ [move], by simp [same], .next sofar can isClean ?_⟩
    exact congrArg Except.ok isServed

/-- Where a conversation has come to an end, so have the console and its shell. -/
theorem Dialogue.still (ended : ∀ move, ¬ s.conversation.Offers reading move) :
    ¬ s.Offers exchange := by
  cases exchange with
  | reads n => exact ended (.reads n)
  | ends => exact ended .ends
  | executes n text leaves next =>
    rintro ⟨isOpen, takes, executed⟩
    cases leaves with
    | false => exact ended (.takes n []) ⟨isOpen, takes⟩
    | true => exact ended (.leaves n []) ⟨isOpen, takes, peer.stays executed⟩

/-- What a console and its shell have come to. The console has sent the lines of its file, one for
each prompt, and the shell has taken all of them but one at the most; the page shows what both
have written, in the order in which they have; no line is taken behind one that is not answered,
and behind that one, or when the shell has left and the console has read the end, nothing more can
happen; and there were no more steps than bytes and lines. -/
structure Dialogue.Orderly (index : Nat) (file : Str) (log : List (Exchange peer))
    (s : Dialogue peer) : Prop where
  sent : s.conversation.console.sent = commandLines (prompts s.conversation.console.received) file
  pending : ∃ pending, s.conversation.console.sent = s.conversation.taken ++ pending ∧
    pending.length ≤ 1 ∧ s.conversation.up = pending.flatten
  shows : ∃ chars, Displays index s.conversation.console.page chars ∧
    s.conversation.log = chars ++ shown false s.conversation.down
  taken : ∀ i, Blank reading file i → s.conversation.taken.length ≤ i + 1
  rests : (s.conversation.isOpen = false ∧ s.conversation.console.reading = false) ∨
    (∃ i, s.conversation.taken.length = i + 1 ∧ Blank reading file i) →
      ∀ exchange : Exchange peer, ¬ s.Offers exchange
  steps : log.length ≤ s.conversation.console.received.length + s.conversation.taken.length + 1

/-- In every run in which prompts and lines come whole and nothing but the shell writes a prompt,
the two take turns: what they do is a conversation. -/
theorem dialogue_orderly (quiet : prompts peer.greeting = 0)
    (run : Run (dialogue peer index file data) Dialogue.Clean log s) :
    s.Orderly index file log := by
  obtain ⟨moves, same, conversed⟩ := run_converses run
  have turns := run_inTurns quiet conversed
  have few := moves_le conversed
  refine ⟨turns.inStep.answered, turns.pending, turns.displays,
    fun i blank => turns.taken_le blank, fun rested exchange => ?_, by omega⟩
  rw [← turns.rested_iff] at rested
  exact Dialogue.still (turns.rests_iff.mpr rested)

end Dialogue

/-- A console with a shell that reads its lines with `getline`, and with the server with one process
for one of its clients, take turns, whatever the command file is, the programs write and the other
clients do, as long as prompts and lines come whole and nothing but the shell writes a prompt. For
the command loops write their prompts as a conversation has it: last, once for a line, and the
server none for an empty one. -/
theorem shells_take_turns (vars : List (Str × Str)) (fd : Int) (entered : SingleProc.Server)
    (quiet : prompts (client fd entered).greeting = 0) (index : Nat) (file data : Str) :
    (∀ log s, Run (dialogue (npshell vars) index file data) Dialogue.Clean log s →
      s.Orderly index file log) ∧
    ∀ log s, Run (dialogue (client fd entered) index file data) Dialogue.Clean log s →
      s.Orderly index file log :=
  ⟨fun _ _ run => dialogue_orderly rfl run, fun _ _ run => dialogue_orderly quiet run⟩

/-- A server that has let in one client, and then executed a line of it. -/
def entered : SingleProc.Server :=
  (SingleProc.serve SingleProc.Server.initial (.accept (str "127.0.0.1") 4001)).toOption.getD
    SingleProc.Server.initial

/-- The server after the line `ls` of its one client. -/
def listed : SingleProc.Server :=
  (SingleProc.serve entered (.line 4 (str "ls\n") World.plain)).toOption.getD entered

theorem served_listed :
    SingleProc.serve entered (.line 4 (str "ls\n") World.plain) = .ok listed := by
  have ran :
      (SingleProc.serve entered (.line 4 (str "ls\n") World.plain)).toOption.isSome = true := by
    decide +kernel
  cases outcome : SingleProc.serve entered (.line 4 (str "ls\n") World.plain) with
  | error failure =>
    rw [outcome] at ran
    cases ran
  | ok after => rw [listed, outcome]; rfl

/-- The console reads the greeting with the prompt and sends `ls`, and the client gets a name and
the next prompt. -/
theorem shells_take_turns_ls : ∃ s, Run (dialogue (client 4 entered) 0 (str "ls\n\n")
      (List.replicate 4096 0)) Dialogue.Clean
      [.reads ((client 4 entered).greeting.length + 2),
        .executes 3 (str "bin\n% ") false listed] s ∧
    s.conversation.taken = [str "ls\n"] ∧ s.Orderly 0 (str "ls\n\n")
      [.reads ((client 4 entered).greeting.length + 2),
        .executes 3 (str "bin\n% ") false listed] := by
  let greeted := (dialogue (client 4 entered) 0 (str "ls\n\n") (List.replicate 4096 0)).start
  let asked := greeted.serve 0 (.reads ((client 4 entered).greeting.length + 2))
  have reads : greeted.conversation.Offers .recv
      (.reads ((client 4 entered).greeting.length + 2)) := by decide +kernel
  have whole : greeted.conversation.Clean .recv
      (.reads ((client 4 entered).greeting.length + 2)) := by decide +kernel
  have command : asked.conversation.up = str "ls\n" := by decide +kernel
  have offered : SingleProc.offers entered (.line 4 (str "ls\n") World.plain) := by decide +kernel
  have heard : listed.room.heard 4 = entered.room.heard 4 ++ [str "% "] := by decide +kernel
  have remains : false = decide ((4 : Int) ∉ listed.afds) := by decide +kernel
  have serves : Serves 4 entered (str "ls\n") (str "bin\n% ") false listed :=
    ⟨entered, World.plain, [str "% "], ⟨[], rfl, trivial, rfl⟩, offered, served_listed, heard,
      .cons (str "bin\n") (str "% ") .nil, remains⟩
  have takes : Dialogue.Offers asked (.executes 3 (str "bin\n% ") false listed) := by
    refine ⟨rfl, ?_, ?_⟩
    · rw [command]
      decide
    · rw [command]
      exact serves
  have clean : Dialogue.Clean asked (.executes 3 (str "bin\n% ") false listed) := by
    refine ⟨fun _ => ?_, by decide⟩
    rw [command]
    rfl
  have first : Run (dialogue (client 4 entered) 0 (str "ls\n\n") (List.replicate 4096 0))
      Dialogue.Clean [.reads ((client 4 entered).greeting.length + 2)] asked :=
    .next .start reads whole rfl
  have run : Run (dialogue (client 4 entered) 0 (str "ls\n\n") (List.replicate 4096 0))
      Dialogue.Clean ([.reads ((client 4 entered).greeting.length + 2)] ++
        [.executes 3 (str "bin\n% ") false listed])
      (asked.serve 0 (.executes 3 (str "bin\n% ") false listed)) := .next first takes clean rfl
  refine ⟨_, run, ?_, (shells_take_turns [] 4 entered (by decide +kernel) 0 _ _).2 _ _ run⟩
  change [asked.conversation.up.take 3] = _
  rw [command]
  rfl

end NetProg.Console
