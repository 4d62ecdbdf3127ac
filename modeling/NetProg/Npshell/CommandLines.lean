import NetProg.Npshell.Shell

/-!
# Lines as sequences of commands

A command is a program, its arguments and what ends it: nothing, a pipe operator
or a redirection to a file. The command loop, which only sees words, takes such a
line one command at a time: it asks for what the ending needs and then executes
the command with all its arguments.
-/

namespace NetProg.Npshell

open Loops Outcomes

/-- What ends a command. A pipe operator is the character and the digits after
it, which may be missing. -/
inductive Ending where
  | none
  | pipe (isError : Bool) (digits : Str)
  | file (name : Str)
  deriving DecidableEq

/-- A program word, argument words and an ending. -/
structure Command where
  prog : Str
  args : List Str
  ending : Ending
  deriving DecidableEq

/-- The number of a pipe operator; without digits it is one. -/
def numberOf (digits : Str) : Nat := if digits = [] then 1 else digitsValue digits

namespace Ending

/-- The words of an ending. -/
def words : Ending → List Str
  | none => []
  | pipe isError digits => [(if isError then 33 else 124) :: digits]
  | file name => [str ">", name]

/-- How many commands later the output is read; only pipes have a number. -/
def target : Ending → Option Nat
  | none => .none
  | pipe _ digits => some (numberOf digits)
  | file _ => .none

/-- The errors go to the pipe as well. -/
def isError : Ending → Bool
  | pipe isError _ => isError
  | none => false
  | file _ => false

/-- Digits of a pipe operator: at most four, with a value of at least one. -/
def WellFormed : Ending → Prop
  | pipe _ digits => digits.length ≤ 4 ∧ (∀ c ∈ digits, isdigit c = true) ∧ 1 ≤ numberOf digits
  | none => True
  | file _ => True

end Ending

/-- The word is read as an argument wherever it stands after the first word. -/
def PlainWord (word : Str) : Prop :=
  124 ∉ word ∧ 33 ∉ word ∧ word ≠ str ">" ∧ word ≠ str ">>" ∧ word ≠ str "&>"

namespace Command

/-- The words of a command as they stand in the line. -/
def words (c : Command) : List Str := c.prog :: (c.args ++ c.ending.words)

/-- The program is not `exit`, and the words are what they are taken for: no argument is an
operator to the loop, and the ending is read as the one it is meant to be. -/
structure WellFormed (c : Command) : Prop where
  prog : cstr c.prog ≠ str "exit"
  args : ∀ word ∈ c.args, PlainWord word
  ending : c.ending.WellFormed

/-- A built-in command without the arguments it reads. -/
def LacksArguments (c : Command) : Prop :=
  (cstr c.prog = str "printenv" ∧ c.args.length < 1) ∨
  (cstr c.prog = str "setenv" ∧ c.args.length < 2)

end Command

/-- The words of the line are those of the commands; each of them but the last has something that
ends it. This is the grammar the lines are stated in, and the loop has no part in it. -/
structure Parses (line : Str) (commands : List Command) : Prop where
  words : words line = commands.flatMap Command.words
  wellFormed : ∀ c ∈ commands, c.WellFormed
  ended : ∀ c ∈ commands.dropLast, c.ending ≠ .none

/-- What the shell does for an ending before the command is executed, with the
words after it counted: the shell and the two output descriptors. -/
def prepare (world : World) (left : Nat) (s : Shell) : Ending → Outcome (Shell × Int × Int)
  | .none => .ok (s, 1, 2)
  | .pipe isError digits =>
    match NumberedPipes.createPipe (world.pipes left) s.process s.pipeVector (numberOf digits) with
    | some created => .ok (s.withPipes created.2.1 created.2.2, created.1,
        if isError then created.1 else 2)
    | none => .error (.pipeError, s)
  | .file _ =>
    let opened := openAs (world.opens left) s.process
    .ok (s.withProcess opened.2, opened.1, 2)

/-- A frame whose command is complete, with its arguments and descriptors: what the loop is about
to execute. -/
structure Frame.Ready (f : Frame) (c : Command) (rest : List Str) (s : Shell) (outFd errFd : Int) :
    Prop where
  shell : f.shell = s
  cmds : f.cmds = rest
  arguments : f.arguments = c.prog :: c.args
  outFd : f.outFd = outFd
  errFd : f.errFd = errFd
  next : f.isFirstArgv = true ∨ rest = []

/-- A frame between two commands, or at the end of a line. -/
structure Frame.Between (f : Frame) (s : Shell) (queue : List Str) : Prop where
  shell : f.shell = s
  cmds : f.cmds = queue
  first : f.isFirstArgv = true ∨ queue = []
  final : f.isFinalArgv = false

/-- A frame in the middle of a command, with the arguments read so far. -/
structure Frame.Reading (f : Frame) (s : Shell) (read queue : List Str) : Prop where
  shell : f.shell = s
  cmds : f.cmds = queue
  arguments : f.arguments = read
  first : f.isFirstArgv = false
  final : f.isFinalArgv = false

section Words

variable {world : World} {f : Frame} {s : Shell} {word : Str} {rest : List Str}

theorem run_word (cmds : f.cmds = word :: rest) :
    (cmdLoop world).run f = pass world f word rest >>= (cmdLoop world).run := by
  have body : (cmdLoop world).body f = (do return .again (← pass world f word rest)) := by
    simp only [cmdLoop, round, cmds]
  cases passed : pass world f word rest with
  | error e =>
    rw [passed] at body
    exact (cmdLoop world).run_error body
  | ok next =>
    rw [passed] at body
    exact (cmdLoop world).run_again body

theorem run_empty (cmds : f.cmds = []) : (cmdLoop world).run f = .ok f.shell := by
  apply (cmdLoop world).run_leave
  simp only [cmdLoop, round, cmds]

/-- A word that does not complete its command. -/
theorem run_reading {next : Frame} (cmds : f.cmds = word :: rest)
    (read : readWord world f word rest = .ok next) (incomplete : next.isFinalArgv = false) :
    (cmdLoop world).run f = (cmdLoop world).run next := by
  have passed : pass world f word rest = .ok next := by
    simp only [pass, read, bind, Except.bind, incomplete, Bool.false_eq_true, if_false]
    rfl
  rw [run_word cmds, passed]
  rfl

/-- A word that completes its command. -/
theorem run_completing {next : Frame} (cmds : f.cmds = word :: rest)
    (read : readWord world f word rest = .ok next) (complete : next.isFinalArgv = true) :
    (cmdLoop world).run f = execute world next >>= (cmdLoop world).run := by
  have passed : pass world f word rest = execute world next := by
    simp only [pass, read, bind, Except.bind, complete, if_true]
  rw [run_word cmds, passed]

theorem run_failing {e : Fault × Shell} (cmds : f.cmds = word :: rest)
    (read : readWord world f word rest = .error e) : (cmdLoop world).run f = .error e := by
  have passed : pass world f word rest = .error e := by
    simp only [pass, read, bind, Except.bind]
  rw [run_word cmds, passed]
  rfl

end Words

/-- An argument is none of the operators. -/
theorem PlainWord.kind {word : Str} (plain : PlainWord word) : kind word = .argument := by
  obtain ⟨noPipe, noErrorPipe, noRedirect, noAppend, noBoth⟩ := plain
  simp only [Npshell.kind, if_neg noPipe, if_neg noErrorPipe, if_neg noRedirect, if_neg noAppend,
    if_neg noBoth]

/-- The operator `|`, with whatever comes after it. -/
theorem kind_pipe (digits : Str) : kind (124 :: digits) = .pipe := by
  simp [kind]

/-- The operator `!`, with digits after it. -/
theorem kind_errorPipe {digits : Str} (all : ∀ c ∈ digits, isdigit c = true) :
    kind (33 :: digits) = .errorPipe := by
  have noPipe : 124 ∉ digits := by
    intro member
    have digit := all 124 member
    simp [isdigit] at digit
  simp [kind, noPipe]

/-- A pipe operator with at most four digits has its number. -/
theorem pipeNum_operator (operator : UInt8) {digits : Str} (few : digits.length ≤ 4)
    (all : ∀ c ∈ digits, isdigit c = true) :
    NumberedPipes.pipeNum (operator :: digits) = some (numberOf digits : Int) := by
  by_cases bare : digits = []
  · subst bare
    rfl
  · have longer : (operator :: digits).length ≠ 1 := by
      simpa using bare
    have short : (operator :: digits).length ≤ 5 := by
      simp only [List.length_cons]
      omega
    have value : atoi digits = digitsValue digits := atoi_digits digits bare all
    simp only [NumberedPipes.pipeNum, if_neg longer, if_pos short, List.drop_succ_cons,
      List.drop_zero, numberOf, if_neg bare, value]

section Commands

variable {world : World} {s : Shell}

variable (world) in
/-- The arguments of a command, as long as words follow them. -/
theorem run_arguments (args tail : List Str) (more : tail ≠ [])
    (plain : ∀ word ∈ args, PlainWord word) {f : Frame} {before : List Str}
    (reading : f.Reading s before (args ++ tail)) : ∃ next : Frame,
    next.Reading s (before ++ args) tail ∧
      (cmdLoop world).run f = (cmdLoop world).run next := by
  induction args generalizing f before with
  | nil => exact ⟨f, by simpa using reading, rfl⟩
  | cons word rest ih =>
    have read : readWord world f word (rest ++ tail) =
        .ok (f.initFd.readArgument word (rest ++ tail)) := by
      have later : f.initFd.isFirstArgv = false := reading.first
      simp only [readWord, later, Bool.false_eq_true, if_false,
        (plain word List.mem_cons_self).kind]
    have incomplete : (f.initFd.readArgument word (rest ++ tail)).isFinalArgv = false := by
      simp [Frame.readArgument, more]
    have further : (f.initFd.readArgument word (rest ++ tail)).Reading s (before ++ [word])
        (rest ++ tail) := by
      refine ⟨reading.shell, rfl, ?_, reading.first, incomplete⟩
      simp only [Frame.readArgument, Frame.initFd, reading.arguments]
    obtain ⟨next, reads, same⟩ := ih (fun w member => plain w (List.mem_cons_of_mem _ member)) further
    refine ⟨next, by simpa using reads, ?_⟩
    rw [run_reading reading.cmds read incomplete, same]

variable (world) in
/-- The program word of a command, as long as words follow it. -/
theorem run_prog (prog : Str) (tail : List Str) (more : tail ≠ []) {f : Frame}
    (between : f.Between s (prog :: tail)) : ∃ next : Frame,
    next.Reading s [prog] tail ∧ (cmdLoop world).run f = (cmdLoop world).run next := by
  have first : f.initFd.isFirstArgv = true := by
    rcases between.first with first | none
    · exact first
    · cases none
  have read : readWord world f prog tail = .ok (f.initFd.readProg prog tail) := by
    simp only [readWord, first, if_true]
  have incomplete : (f.initFd.readProg prog tail).isFinalArgv = false := by
    simp [Frame.readProg, more]
  refine ⟨f.initFd.readProg prog tail, ⟨between.shell, rfl, rfl, rfl, incomplete⟩, ?_⟩
  exact run_reading between.cmds read incomplete

/-- The word that completes a command: the loop executes the command at once, and goes on from
there. -/
theorem complete_ends {good : Shell → Prop} {bad : Fault × Shell → Prop} {c : Command}
    {rest : List Str} {outFd errFd : Int} {after : Shell} {f next : Frame} {word : Str}
    {left : List Str} (executes : ∀ g : Frame, g.Ready c rest after outFd errFd →
      Ends (execute world g) (fun done => Ends ((cmdLoop world).run done) good bad) bad)
    (cmds : f.cmds = word :: left) (read : readWord world f word left = .ok next)
    (complete : next.isFinalArgv = true) (ready : next.Ready c rest after outFd errFd) :
    Ends ((cmdLoop world).run f) good bad := by
  rw [run_completing cmds read complete]
  exact Ends.bind _ (executes next ready) (fun _ ends => ends)

/-- A command without an ending is completed by its last word. -/
theorem plain_command_ends {good : Shell → Prop} {bad : Fault × Shell → Prop} {c : Command}
    (plain : ∀ word ∈ c.args, PlainWord word) (endless : c.ending = .none) {f : Frame}
    (between : f.Between s c.words)
    (executes : ∀ g : Frame, g.Ready c [] s 1 2 →
      Ends (execute world g) (fun done => Ends ((cmdLoop world).run done) good bad) bad) :
    Ends ((cmdLoop world).run f) good bad := by
  have allWords : c.words = c.prog :: c.args := by simp [Command.words, endless, Ending.words]
  rw [allWords] at between
  rcases List.eq_nil_or_concat c.args with none | ⟨init, last, same⟩
  · rw [none] at between
    have first : f.initFd.isFirstArgv = true := by
      rcases between.first with first | empty
      · exact first
      · cases empty
    have read : readWord world f c.prog [] = .ok (f.initFd.readProg c.prog []) := by
      simp only [readWord, first, if_true]
    refine complete_ends executes between.cmds read rfl ⟨between.shell, rfl, ?_, rfl, rfl, .inr rfl⟩
    simp [Frame.readProg, none]
  · rw [List.concat_eq_append] at same
    rw [same] at between plain
    obtain ⟨one, reads, sameRun⟩ := run_prog world c.prog (init ++ [last]) (by simp) between
    obtain ⟨two, readsAll, alsoSame⟩ := run_arguments world init [last] (by simp)
      (fun word member => plain word (List.mem_append_left _ member)) reads
    have read : readWord world two last [] = .ok (two.initFd.readArgument last []) := by
      have later : two.initFd.isFirstArgv = false := readsAll.first
      simp only [readWord, later, Bool.false_eq_true, if_false, (plain last (by simp)).kind]
    rw [sameRun, alsoSame]
    refine complete_ends executes readsAll.cmds read rfl
      ⟨readsAll.shell, rfl, ?_, rfl, rfl, .inr rfl⟩
    simp [Frame.readArgument, Frame.initFd, readsAll.arguments, same]

variable (world) in
/-- The words of a command before its ending. -/
theorem run_until_ending {c : Command} (plain : ∀ word ∈ c.args, PlainWord word)
    (rest : List Str) (ended : c.ending.words ≠ []) {f : Frame}
    (between : f.Between s (c.words ++ rest)) : ∃ next : Frame,
    next.Reading s (c.prog :: c.args) (c.ending.words ++ rest) ∧
      (cmdLoop world).run f = (cmdLoop world).run next := by
  have allWords : c.words ++ rest = c.prog :: (c.args ++ (c.ending.words ++ rest)) := by
    simp [Command.words]
  rw [allWords] at between
  have more : c.ending.words ++ rest ≠ [] := by simp [ended]
  obtain ⟨one, reads, sameRun⟩ := run_prog world c.prog _ (by simp [ended]) between
  obtain ⟨two, readsAll, alsoSame⟩ := run_arguments world c.args _ more plain reads
  exact ⟨two, readsAll, sameRun.trans alsoSame⟩

variable (world) in
/-- The word of a pipe operator asks for the pipe. -/
theorem readWord_operator {isError : Bool} {digits : Str} (left : List Str) {f : Frame}
    (wellFormed : (Ending.pipe isError digits).WellFormed) (later : f.isFirstArgv = false) :
    readWord world f ((if isError then 33 else 124) :: digits) left =
      match NumberedPipes.createPipe (world.pipes left.length) f.shell.process f.shell.pipeVector
        (numberOf digits) with
      | none => .error (.pipeError, f.shell)
      | some created => .ok (f.initFd.pipeTo isError created left) := by
  obtain ⟨few, all, -⟩ := wellFormed
  have still : f.initFd.isFirstArgv = false := later
  cases isError with
  | false =>
    simp only [readWord, still, Bool.false_eq_true, if_false, kind_pipe, readPipe,
      pipeNum_operator 124 few all]
    rfl
  | true =>
    simp only [readWord, still, Bool.false_eq_true, if_false, if_true, kind_errorPipe all, readPipe,
      pipeNum_operator 33 few all]
    rfl

/-- The loop on a command and what follows it: it prepares what the ending needs, and executes the
command. This is the rule by which a line is followed command by command; what is to be shown of
the execution is left to the caller. -/
theorem command_ends {good : Shell → Prop} {bad : Fault × Shell → Prop} {c : Command}
    (wellFormed : c.WellFormed) (rest : List Str) (ended : c.ending = .none → rest = [])
    {f : Frame} (between : f.Between s (c.words ++ rest))
    (failed : ∀ e, prepare world rest.length s c.ending = .error e → bad e)
    (executes : ∀ after outFd errFd,
      prepare world rest.length s c.ending = .ok (after, outFd, errFd) →
      ∀ g : Frame, g.Ready c rest after outFd errFd →
      Ends (execute world g) (fun done => Ends ((cmdLoop world).run done) good bad) bad) :
    Ends ((cmdLoop world).run f) good bad := by
  cases ending : c.ending with
  | none =>
    rw [ended ending, List.append_nil] at between
    rw [ended ending, ending] at executes
    exact plain_command_ends wellFormed.args ending between (executes s 1 2 rfl)
  | pipe isError digits =>
    obtain ⟨last, reads, sameRun⟩ := run_until_ending world wellFormed.args rest
      (by simp [ending, Ending.words]) between
    have good := wellFormed.ending
    rw [ending] at good failed executes
    rw [ending, Ending.words, List.singleton_append] at reads
    have read := readWord_operator world rest good reads.first
    rw [reads.shell] at read
    rw [sameRun]
    cases creates : NumberedPipes.createPipe (world.pipes rest.length) s.process s.pipeVector
        (numberOf digits) with
    | none =>
      rw [creates] at read
      rw [run_failing reads.cmds read]
      exact failed _ (by simp only [prepare, creates])
    | some created =>
      rw [creates] at read
      have prepares : prepare world rest.length s (.pipe isError digits) =
          .ok (s.withPipes created.2.1 created.2.2, created.1,
            if isError then created.1 else 2) := by
        simp only [prepare, creates]
      refine complete_ends (executes _ _ _ prepares) reads.cmds read rfl
        ⟨?_, rfl, reads.arguments, rfl, rfl, .inl rfl⟩
      simp only [Frame.pipeTo, Frame.initFd, reads.shell]
  | file name =>
    obtain ⟨last, reads, sameRun⟩ := run_until_ending world wellFormed.args rest
      (by simp [ending, Ending.words]) between
    rw [ending] at executes
    rw [ending, Ending.words] at reads
    have later : last.initFd.isFirstArgv = false := reads.first
    have read : readWord world last (str ">") (name :: rest) =
        .ok (last.initFd.redirect false (openAs (world.opens rest.length) s.process) rest) := by
      rw [← reads.shell]
      simp only [readWord, later, Bool.false_eq_true, if_false]
      rfl
    rw [sameRun]
    refine complete_ends (executes _ _ _ rfl) reads.cmds read rfl
      ⟨?_, rfl, reads.arguments, rfl, rfl, .inl rfl⟩
    simp only [Frame.redirect, Frame.initFd, reads.shell]

variable (world) in
/-- The loop on the commands of a line. What holds before a command, with the
commands from it on, has to hold after it with those that follow. -/
theorem commands_end (holds : List Command → Shell → Prop) (bad : Fault × Shell → Prop)
    (prepared : ∀ c later s left e, holds (c :: later) s →
      prepare world left s c.ending = .error e → bad e)
    (executed : ∀ c later s rest after outFd errFd, holds (c :: later) s → c.WellFormed →
      prepare world rest.length s c.ending = .ok (after, outFd, errFd) →
      ∀ g : Frame, g.Ready c rest after outFd errFd →
      Ends (execute world g) (fun done => holds later done.shell) bad)
    (commands : List Command) (wellFormed : ∀ c ∈ commands, c.WellFormed)
    (ended : ∀ c ∈ commands.dropLast, c.ending ≠ .none) {f : Frame}
    (between : f.Between s (commands.flatMap Command.words)) (held : holds commands s) :
    Ends ((cmdLoop world).run f) (holds []) bad := by
  induction commands generalizing f s with
  | nil =>
    rw [run_empty between.cmds, between.shell]
    exact held
  | cons c later ih =>
    have last : c.ending = .none → later.flatMap Command.words = [] := by
      intro endless
      cases later with
      | nil => rfl
      | cons next more => exact absurd endless (ended c (by simp))
    refine command_ends (wellFormed c List.mem_cons_self) _ last between
      (fun e failed => prepared c later s _ e held failed) ?_
    intro after outFd errFd prepares g ready
    refine (Ends.and_returned (executed c later s _ after outFd errFd held
      (wellFormed c List.mem_cons_self) prepares g ready)
      (fun done finished => execute_eq_ok finished)).mono ?_ (fun _ failed => failed)
    rintro done ⟨holdsLater, shell, rfl⟩
    have endedLater : ∀ d ∈ later.dropLast, d.ending ≠ .none := by
      intro d member
      cases later with
      | nil => cases member
      | cons next more => exact ended d (by simpa using .inr member)
    exact ih (fun d member => wellFormed d (List.mem_cons_of_mem c member)) endedLater
      ⟨rfl, ready.cmds, ready.next, rfl⟩ holdsLater

end Commands

end NetProg.Npshell
