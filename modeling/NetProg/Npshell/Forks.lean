import NetProg.Execvp
import NetProg.Library.Families
import NetProg.Npshell.PipeTable

/-!
# The children of a shell

`ExecCmd` forks for every command that is not built in. The child takes over the
descriptors of the command. If `IsExecutable` has found nothing it exits; otherwise it
calls `execvp`, and where that fails it prints an error and returns, to the loop that
called `ExecCmd`. From there on it is a second shell: it goes on with the rest of the
line, and then reads lines from the same input as the first.

A process is between two lines or at a word of one. Its turns are to read a line, to
find the end of the input, and to take one word from the queue. The shells of
`np_project1` and of `np_simple` are the same but for what they start from.
-/

namespace NetProg.Npshell

open Families Runs Loops Outcomes

/-- What the operating system answers while a word is taken from the queue: whether an `open` and
a `pipe` succeed, and which files there are. -/
structure Answers where
  opens : Bool
  pipes : Bool
  files : Files

/-- The same answers at every place of a line. -/
def Answers.world (answers : Answers) : World :=
  ⟨fun _ => answers.opens, fun _ => answers.pipes, fun _ => answers.files.finds⟩

/-- `getline` returns a line, or nothing more; a pass of the command loop. -/
inductive Turn where
  | reads (line : Str)
  | endOfInput
  | passes (answers : Answers)

/-- `ConnectPipeFd`. -/
def connectPipeFd (inFd outFd errFd : Int) (p : Process) : Process :=
  let p := if inFd ≠ 0 then p.dup2 inFd 0 else p
  let p := if outFd ≠ 1 then p.dup2 outFd 1 else p
  let p := if errFd ≠ 2 then p.dup2 errFd 2 else p
  let p := if inFd ≠ 0 then p.close inFd else p
  let p := if outFd ≠ 1 then p.close outFd else p
  if errFd ≠ 2 then p.close errFd else p

/-- The commands that `ExecCmd` does not fork for. -/
def IsBuiltin (prog : Str) : Prop :=
  prog = str "printenv" ∨ prog = str "setenv" ∨ prog = str "exit"

instance (prog : Str) : Decidable (IsBuiltin prog) :=
  inferInstanceAs (Decidable (_ ∨ _ ∨ _))

/-- What becomes of a child: it executes a program, it ends, or it returns from its branch and
goes on in the loop of the shell. -/
inductive Fate where
  | exits
  | executes
  | returns (f : Frame)

/-- The child that `ExecCmd` forks for a complete command. One that returns erases the
pipes that are due and counts down, as the loop does after every call. -/
def childOf (answers : Answers) (f : Frame) : Option Fate :=
  match f.arguments with
  | [] => none
  | prog :: _ =>
    if IsBuiltin (cstr prog) then none
    else
      let (inFd, p) := getPipeFd f.shell.pipeVector 0 f.shell.process
      let call := callOf answers.world f (f.shell.withProcess p) inFd
      let connected := f.shell.withProcess (connectPipeFd inFd f.outFd f.errFd p)
      if call.isExecutable = false then some .exits
      else if answers.files.execvp f.shell.environment (cstr prog) then some .executes
      else some (.returns { f with shell := detach (connected.logged call), isFinalArgv := false })

/-- The child that goes on as a shell. -/
def Fate.shell : Fate → Option Frame
  | .exits => none
  | .executes => none
  | .returns f => some f

/-- The frame with a complete command that a pass executes. -/
def completed (answers : Answers) (f : Frame) : Option Frame :=
  match f.cmds with
  | [] => none
  | word :: rest =>
    match readWord answers.world f word rest with
    | .error _ => none
    | .ok read => if read.isFinalArgv then some read else none

/-- What a turn leaves of the process that takes it. -/
def goesOn (f : Frame) (turn : Turn) : Option Frame :=
  match turn with
  | .reads line => some (Frame.initial (f.shell.write (str "% ")) (words line))
  | .endOfInput => none
  | .passes answers =>
    match f.cmds with
    | [] => some f
    | word :: rest => (pass answers.world f word rest).toOption

/-- The child of a turn that goes on as a shell. -/
def child (f : Frame) (turn : Turn) : Option Frame :=
  match turn with
  | .reads _ => none
  | .endOfInput => none
  | .passes answers => (completed answers f).bind fun read => (childOf answers read).bind Fate.shell

/-- A line is read when the one before is done. -/
def InTurn (f : Frame) (turn : Turn) : Prop :=
  match turn with
  | .reads _ => f.cmds = []
  | .endOfInput => f.cmds = []
  | .passes _ => f.cmds ≠ []

instance decidableInTurn (f : Frame) : (turn : Turn) → Decidable (InTurn f turn)
  | .reads _ => inferInstanceAs (Decidable (f.cmds = []))
  | .endOfInput => inferInstanceAs (Decidable (f.cmds = []))
  | .passes _ => inferInstanceAs (Decidable (f.cmds ≠ []))

/-- The shell as a program that forks. -/
def program : Program Frame Turn := ⟨InTurn, goesOn, child⟩

instance (f : Frame) (turn : Turn) : Decidable (program.offers f turn) :=
  inferInstanceAs (Decidable (InTurn f turn))

/-- `Exec` in `np_project1`, before the first line. -/
def begun (vars : List (Str × Str)) : Frame := Frame.initial (started vars) []

/-- `Exec` in `np_simple`, which clears the environment first, in a process that has its
socket on the standard descriptors. -/
def begunSimple (vars : List (Str × Str)) : Frame :=
  let cleared := (Shell.initial vars).environment.clearenv
  let fds := ((Slots.Table.empty.put 0 (Object.socket 0)).put 1 (.socket 0)).put 2 (.socket 0)
  let shell : Shell := ⟨⟨fds, 1, []⟩, [], cleared, [], []⟩
  Frame.initial (shell.setEnv (str "PATH") (str "bin:.")) []

/-- A complete command is built in, or `IsExecutable` does not find it, or `execvp` can
execute it. -/
def CommandSettles (answers : Answers) (f : Frame) : Prop :=
  ∀ prog ∈ f.arguments.head?, IsBuiltin (cstr prog) ∨
    isExecutable answers.world f.cmds.length f.prog f.shell.environment = false ∨
    answers.files.execvp f.shell.environment (cstr prog) = true

/-- The command that a turn executes, if it executes one, is such a command. -/
def Settles (f : Frame) (turn : Turn) : Prop :=
  match turn with
  | .reads _ => True
  | .endOfInput => True
  | .passes answers => ∀ read ∈ completed answers f, CommandSettles answers read

/-- The child of a command does not return if and only if the command is built in, or not found,
or can be executed: behind `execvp` there is nothing that ends it. -/
theorem childOf_settles_iff (answers : Answers) (f : Frame) :
    (childOf answers f).bind Fate.shell = none ↔ CommandSettles answers f := by
  cases arguments : f.arguments with
  | nil => simp [childOf, CommandSettles, arguments]
  | cons prog rest =>
    have settles : CommandSettles answers f ↔ IsBuiltin (cstr prog) ∨
        isExecutable answers.world f.cmds.length f.prog f.shell.environment = false ∨
        answers.files.execvp f.shell.environment (cstr prog) = true := by
      simp [CommandSettles, arguments]
    rw [settles]
    by_cases builtin : IsBuiltin (cstr prog)
    · simp [childOf, arguments, builtin]
    by_cases missing : isExecutable answers.world f.cmds.length f.prog f.shell.environment = false
    · simp [childOf, arguments, builtin, callOf, Shell.withProcess, missing, Fate.shell]
    by_cases executes : answers.files.execvp f.shell.environment (cstr prog) = true
    · simp [childOf, arguments, builtin, callOf, Shell.withProcess, missing, executes, Fate.shell]
    · simp [childOf, arguments, builtin, callOf, Shell.withProcess, missing, executes, Fate.shell]

/-- A child that returns has the environment and the words of the shell. -/
theorem childOf_returns {answers : Answers} {f left : Frame}
    (returns : (childOf answers f).bind Fate.shell = some left) :
    ∃ s, left = { f with shell := s, isFinalArgv := false } ∧
      s.environment = f.shell.environment := by
  obtain ⟨fate, forked, remains⟩ := Option.bind_eq_some_iff.mp returns
  rw [childOf] at forked
  split at forked
  · cases forked
  split at forked
  · cases forked
  dsimp only at forked
  split at forked
  · cases forked
    cases remains
  split at forked
  · cases forked
    cases remains
  · cases forked
    cases remains
    exact ⟨_, rfl, rfl⟩

/-- A turn leaves no second shell if and only if its command settles. -/
theorem childless_iff (f : Frame) (turn : Turn) : program.Childless f turn ↔ Settles f turn := by
  cases turn with
  | reads line => exact iff_of_true rfl trivial
  | endOfInput => exact iff_of_true rfl trivial
  | passes answers =>
    change (completed answers f).bind _ = none ↔ _
    rw [Settles]
    cases completed answers f with
    | none => simp
    | some read => simpa using childOf_settles_iff answers read

/-! ## Plain names -/

/-- The search path is the one that `execvp` searches, and the program of a command that is being
read is its first argument. Both hold at the start and are kept by all turns. -/
structure Orderly (f : Frame) : Prop where
  searched : f.shell.environment.pathVector = f.shell.environment.searched
  named : f.isFirstArgv = false → f.arguments.head? = some f.prog

/-- A program by a plain name, directories that have names, and files that can be executed
if they exist. -/
structure PlainCommand (answers : Answers) (f : Frame) : Prop where
  nonempty : f.prog ≠ []
  nonzero : ∀ c ∈ f.prog, c ≠ 0
  noSlash : 47 ∉ f.prog
  dirs : ∀ dir ∈ f.shell.environment.pathVector, dir ≠ [] ∧ ∀ c ∈ dir, c ≠ 0
  plain : ∀ dir ∈ f.shell.environment.pathVector, answers.files.Plain (dir ++ str "/" ++ f.prog)

/-- The command that a turn executes, if it executes one, is such a command. -/
def PlainTurn (f : Frame) (turn : Turn) : Prop :=
  match turn with
  | .reads _ => True
  | .endOfInput => True
  | .passes answers => ∀ read ∈ completed answers f, PlainCommand answers read

/-- For a plain name `IsExecutable` agrees with `execvp`. -/
theorem PlainCommand.settles {answers : Answers} {f : Frame} (plain : PlainCommand answers f)
    (searched : f.shell.environment.pathVector = f.shell.environment.searched)
    (named : f.arguments.head? = some f.prog) : CommandSettles answers f := by
  intro prog isFirst
  obtain rfl : f.prog = prog := Option.some.inj (named.symm.trans isFirst)
  have name : cstr f.prog = f.prog := cstr_eq plain.nonzero
  rw [name]
  by_cases builtin : IsBuiltin f.prog
  · exact Or.inl builtin
  have noBuiltin : [str "printenv", str "setenv", str "exit"].contains f.prog = false := by
    simpa [IsBuiltin] using builtin
  have read : ∀ path ∈ f.shell.environment.candidates f.prog, cstr path = path := by
    intro path member
    obtain ⟨dir, inPath, rfl⟩ := List.mem_map.mp member
    apply cstr_eq
    intro c inJoined
    rcases List.mem_append.mp inJoined with front | behind
    · rcases List.mem_append.mp front with inDir | isSlash
      · exact (plain.dirs dir inPath).2 c inDir
      · exact (show ∀ c ∈ str "/", c ≠ 0 by decide +kernel) c isSlash
    · exact plain.nonzero c behind
  have agree := Files.execvp_eq_any plain.nonempty plain.noSlash searched
    (fun dir member => (plain.dirs dir member).1) plain.plain
  have test : isExecutable answers.world f.cmds.length f.prog f.shell.environment =
      answers.files.execvp f.shell.environment f.prog := by
    rw [isExecutable, noBuiltin, Bool.false_or, agree, Bool.eq_iff_iff, List.any_eq_true,
      List.any_eq_true]
    constructor
    · rintro ⟨path, member, found⟩
      rw [read path member] at found
      exact ⟨path, member, found⟩
    · rintro ⟨path, member, found⟩
      rw [← read path member] at found
      exact ⟨path, member, found⟩
  rw [test]
  cases answers.files.execvp f.shell.environment f.prog <;> simp

/-- Whatever word is read, the program of the command so far is its first argument, and the
environment stays as it is. -/
theorem Orderly.readWord {world : World} {f : Frame} {word : Str} {rest : List Str}
    (orderly : Orderly f) : Ends (readWord world f word rest)
      (fun read => read.arguments.head? = some read.prog ∧
        read.shell.environment = f.shell.environment) (fun _ => True) := by
  refine (readWord_ends world f word rest).mono ?_ (fun _ _ => trivial)
  intro read how
  cases how with
  | prog => exact ⟨rfl, rfl⟩
  | pipe later | redirect later => exact ⟨orderly.named later, rfl⟩
  | argument later =>
    refine ⟨?_, rfl⟩
    have first := orderly.named later
    simp only [Frame.readArgument, Frame.initFd, List.head?_append, first, Option.some_or]

/-- A complete command is one that was read. -/
theorem Orderly.completed {answers : Answers} {f read : Frame} (orderly : Orderly f)
    (complete : completed answers f = some read) :
    read.shell.environment.pathVector = read.shell.environment.searched ∧
      read.arguments.head? = some read.prog := by
  rw [Npshell.completed] at complete
  split at complete
  · cases complete
  · rename_i word rest _
    have reads := @Orderly.readWord answers.world f word rest orderly
    split at complete
    · cases complete
    · rename_i next isNext
      rw [isNext] at reads
      obtain ⟨named, same⟩ := reads
      split at complete
      · cases complete
        rw [same]
        exact ⟨orderly.searched, named⟩
      · cases complete

/-- The built-in branches keep the search path. -/
theorem builtin_searched (s : Shell) (arguments : List Str)
    (searched : s.environment.pathVector = s.environment.searched) :
    Ends (builtin s arguments)
      (fun ran => ran.environment.pathVector = ran.environment.searched) (fun _ => True) := by
  have argument (k : Nat) : Ends (arg s arguments k) (fun _ => True) (fun _ => True) := by
    rw [arg]
    split <;> trivial
  rw [builtin]
  apply (argument 0).bind
  intro prog _
  split
  · apply (argument 1).bind
    intro var _
    rw [ends_pure, Shell.printEnv]
    split <;> exact searched
  split
  · apply (argument 1).bind
    intro var _
    apply (argument 2).bind
    intro val _
    exact s.environment.searched_setEnv val (Or.inr searched)
  split
  · trivial
  · exact searched

/-- A pass keeps a frame in order. -/
theorem Orderly.pass {world : World} {f : Frame} {word : Str} {rest : List Str}
    (orderly : Orderly f) : Ends (pass world f word rest) Orderly (fun _ => True) := by
  rw [Npshell.pass]
  apply (@Orderly.readWord world f word rest orderly).bind
  rintro read ⟨named, same⟩
  have searched : read.shell.environment.pathVector = read.shell.environment.searched := by
    rw [same]
    exact orderly.searched
  split
  · rw [execute]
    refine Ends.bind _ (builtin_searched _ read.arguments ?_) ?_
    · exact searched
    · intro ran kept
      exact ⟨kept, fun _ => named⟩
  · exact ⟨searched, fun _ => named⟩

/-- So does a turn, for the shell and for a child that is left beside it. -/
theorem Orderly.leaves {f : Frame} (orderly : Orderly f) (turn : Turn) :
    ∀ left ∈ program.leaves f turn, Orderly left := by
  intro left member
  cases turn with
  | reads line =>
    obtain rfl : left = Frame.initial (f.shell.write (str "% ")) (words line) :=
      List.mem_singleton.mp member
    refine ⟨orderly.searched, ?_⟩
    intro later
    cases later
  | endOfInput => cases member
  | passes answers =>
    rcases List.mem_append.mp member with parent | forked
    · have goes : goesOn f (.passes answers) = some left := Option.mem_toList.mp parent
      rw [goesOn] at goes
      split at goes
      · cases goes
        exact orderly
      · rename_i word rest _
        have passes := @Orderly.pass answers.world f word rest orderly
        cases passed : Npshell.pass answers.world f word rest with
        | error failure =>
          rw [passed] at goes
          cases goes
        | ok next =>
          rw [passed] at passes goes
          cases goes
          exact passes
    · have child : (Npshell.completed answers f).bind
          (fun read => (childOf answers read).bind Fate.shell) = some left :=
        Option.mem_toList.mp forked
      obtain ⟨read, complete, remains⟩ := Option.bind_eq_some_iff.mp child
      obtain ⟨searched, named⟩ := orderly.completed complete
      obtain ⟨s, rfl, same⟩ := childOf_returns remains
      constructor
      · rw [same]
        exact searched
      · exact fun _ => named

/-- Both shells start in order. -/
theorem begun_orderly (vars : List (Str × Str)) : Orderly (begun vars) where
  searched := Environment.searched_setEnv _ _ (Or.inl rfl)
  named later := by cases later

theorem begunSimple_orderly (vars : List (Str × Str)) : Orderly (begunSimple vars) where
  searched := Environment.searched_setEnv _ _ (Or.inl rfl)
  named later := by cases later

/-- As long as the programs of a session have plain names, the directories have names, and
what exists can be executed, there is one shell. -/
theorem plain_session_one_shell {first : Frame} (starts : Orderly first)
    {events : List (Nat × Turn)} {shells : List Frame}
    (run : Run (family program first) (Each PlainTurn) events shells) : shells.length ≤ 1 := by
  refine (family_alone Orderly starts ?_ run).1
  intro f turn orderly plain
  constructor
  · rw [childless_iff]
    cases turn with
    | reads line => trivial
    | endOfInput => trivial
    | passes answers =>
      intro read complete
      obtain ⟨searched, named⟩ := orderly.completed complete
      exact (plain read complete).settles searched named
  · exact orderly.leaves turn

end NetProg.Npshell
