import NetProg.Environment
import NetProg.NumberedPipes

/-!
# The shell of np_project1

`npshell` reads lines from its terminal until the end of input. A line is a queue
of words; a command is executed as soon as a pipe operator, a redirection or the
end of the line completes it. The numbered pipes of a session are one table that
lives across the lines. Built-in commands run in the shell, every other program
in a child.

Every pass of the command loop starts with the standard descriptors, reads one
word and, if that completes a command, executes it. The calls of `ExecCmd` are
logged in order, each with what its descriptors stood for at that moment.
-/

namespace NetProg.Npshell

open Loops Outcomes

/-- One call of `ExecCmd`: its arguments, and for each of its descriptors the number and the
object it stood for at that moment. -/
structure Call where
  arguments : List Str
  isExecutable : Bool
  inFd : Int
  outFd : Int
  errFd : Int
  lineEnds : Bool
  isUsingPipe : Bool
  inObject : Option Object
  outObject : Option Object
  errObject : Option Object
  deriving DecidableEq

/-- The process, `pipe_vector_`, the environment with `path_vector_`, and the two logs: what the
shell itself writes to its terminal, and its calls. The logs are read by no branch. -/
structure Shell where
  process : Process
  pipeVector : List PipeFd
  environment : Environment
  output : List Str
  calls : List Call

/-- What ends a session other than the end of input: an access outside its range,
`::exit(0)` after a failed `pipe`, and the `exit` command. -/
inductive Fault where
  | emptyQueue
  | pipeChar
  | argument
  | pipeError
  | exited
  deriving DecidableEq

/-- A result, or a failure with the shell it happened in. -/
abbrev Outcome (α : Type) := Except (Fault × Shell) α

namespace Shell

/-- The descriptors of the process are others now. -/
def withProcess (s : Shell) (p : Process) : Shell := { s with process := p }

/-- The numbered pipes are others now, and the descriptors with them. -/
def withPipes (s : Shell) (pipeVector : List PipeFd) (p : Process) : Shell :=
  { s with pipeVector := pipeVector, process := p }

/-- A text for the standard output. -/
def write (s : Shell) (text : Str) : Shell := { s with output := s.output ++ [text] }

/-- A call is added to the log. -/
def logged (s : Shell) (call : Call) : Shell := { s with calls := s.calls ++ [call] }

/-- `SetEnv`. -/
def setEnv (s : Shell) (var val : Str) : Shell :=
  { s with environment := s.environment.setEnv var val }

/-- `PrintEnv`. -/
def printEnv (s : Shell) (var : Str) : Shell :=
  match s.environment.getenv var with
  | some val => s.write (val ++ str "\n")
  | none => s

/-- The shell of a new process, before `Exec` has set the path. -/
def initial (vars : List (Str × Str)) : Shell :=
  ⟨Process.initial, [], ⟨vars, []⟩, [], []⟩

end Shell

/-- `IsExecutable`. -/
def isExecutable (world : World) (left : Nat) (prog : Str) (environment : Environment) : Bool :=
  [str "printenv", str "setenv", str "exit"].contains prog ||
  (environment.candidates prog).any (fun path => world.finds left (cstr path))

/-- `args[k]`, a copy of the argument as a C string. -/
def arg (s : Shell) (arguments : List Str) (k : Nat) : Outcome Str :=
  match arguments[k]? with
  | some text => .ok (cstr text)
  | none => .error (.argument, s)

/-- The built-in branches of `ExecCmd`. For every other program the shell forks
and is left as it is, whether or not it waits. -/
def builtin (s : Shell) (arguments : List Str) : Outcome Shell := do
  let prog ← arg s arguments 0
  if prog = str "printenv" then
    let var ← arg s arguments 1
    return s.printEnv var
  else if prog = str "setenv" then
    let var ← arg s arguments 1
    let val ← arg s arguments 2
    return s.setEnv var val
  else if prog = str "exit" then
    .error (.exited, s)
  else return s

/-- `GetPipeFd`: it goes on after a record with count zero, closes the write end
of each of them, and is left with the read end of the last one. -/
def getPipeFd : List PipeFd → Int → Process → Int × Process
  | [], inFd, p => (inFd, p)
  | record :: rest, inFd, p =>
    if record.count = 0 then
      getPipeFd rest record.outFd (p.closeEnd record.inFd (some (.writeEnd record.made)))
    else getPipeFd rest inFd p

/-- The shell, the queue and the local variables of `ExecCmds`. A pass of the loop goes from one
frame to the next. -/
structure Frame where
  shell : Shell
  cmds : List Str
  isFirstArgv : Bool
  isFinalArgv : Bool
  prog : Str
  arguments : List Str
  isUsingPipe : Bool
  lineEnds : Bool
  outFd : Int
  errFd : Int

/-- The variables as `ExecCmds` declares them. -/
def Frame.initial (shell : Shell) (cmds : List Str) : Frame where
  shell := shell
  cmds := cmds
  isFirstArgv := true
  isFinalArgv := false
  prog := []
  arguments := []
  isUsingPipe := false
  lineEnds := false
  outFd := 1
  errFd := 2

/-- How the branches classify a word that is not the first of its command. -/
inductive Kind where
  | pipe
  | errorPipe
  | redirect
  | append
  | redirectBoth
  | argument
  deriving DecidableEq

/-- The conditions of the branches, in their order. -/
def kind (word : Str) : Kind :=
  if 124 ∈ word then .pipe
  else if 33 ∈ word then .errorPipe
  else if word = str ">" then .redirect
  else if word = str ">>" then .append
  else if word = str "&>" then .redirectBoth
  else .argument

namespace Frame

/-- Every pass starts with the standard descriptors. -/
def initFd (f : Frame) : Frame := { f with outFd := 1, errFd := 2 }

/-- The first word of a command. -/
def readProg (f : Frame) (word : Str) (rest : List Str) : Frame :=
  { f with
    prog := word
    arguments := [word]
    cmds := rest
    isFirstArgv := false
    isFinalArgv := rest.isEmpty
    isUsingPipe := false
    lineEnds := f.lineEnds || rest.isEmpty }

/-- A word that is an argument. -/
def readArgument (f : Frame) (word : Str) (rest : List Str) : Frame :=
  { f with
    arguments := f.arguments ++ [word]
    cmds := rest
    isFinalArgv := rest.isEmpty
    isUsingPipe := false
    lineEnds := f.lineEnds || rest.isEmpty }

/-- A pipe operator, with the write end, the table and the process that
`createPipe` gave. -/
def pipeTo (f : Frame) (isError : Bool) (created : Int × List PipeFd × Process)
    (rest : List Str) : Frame :=
  { f with
    shell := f.shell.withPipes created.2.1 created.2.2
    outFd := created.1
    errFd := if isError then created.1 else f.errFd
    isFirstArgv := true
    isFinalArgv := true
    isUsingPipe := true
    cmds := rest
    lineEnds := f.lineEnds || rest.isEmpty }

/-- The output of a command goes to a file; the descriptor is -1 if `open` failed. -/
def redirect (f : Frame) (isError : Bool) (opened : Int × Process) (rest : List Str) : Frame :=
  { f with
    shell := f.shell.withProcess opened.2
    outFd := opened.1
    errFd := if isError then opened.1 else f.errFd
    isFirstArgv := true
    isFinalArgv := true
    isUsingPipe := false
    cmds := rest
    lineEnds := f.lineEnds || rest.isEmpty }

end Frame

/-- The two pipe branches. -/
def readPipe (world : World) (f : Frame) (isError : Bool) (word : Str) (rest : List Str) :
    Outcome Frame :=
  match NumberedPipes.pipeNum word with
  | none => .error (.pipeChar, f.shell)
  | some pipeNum =>
    match NumberedPipes.createPipe (world.pipes rest.length) f.shell.process f.shell.pipeVector
        pipeNum with
    | none => .error (.pipeError, f.shell)
    | some created => .ok (f.pipeTo isError created rest)

/-- The three redirection branches; the file name is whatever word follows. They
differ in the mode of `open`, and `&>` redirects the errors as well. -/
def readRedirect (world : World) (f : Frame) (isError : Bool) (rest : List Str) : Outcome Frame :=
  match rest with
  | [] => .error (.emptyQueue, f.shell)
  | _ :: left => .ok (f.redirect isError (openAs (world.opens left.length) f.shell.process) left)

/-- One word from the queue. -/
def readWord (world : World) (frame : Frame) (word : Str) (rest : List Str) : Outcome Frame :=
  let f := frame.initFd
  if f.isFirstArgv then .ok (f.readProg word rest)
  else
    match kind word with
    | .pipe => readPipe world f false word rest
    | .errorPipe => readPipe world f true word rest
    | .redirect => readRedirect world f false rest
    | .append => readRedirect world f false rest
    | .redirectBoth => readRedirect world f true rest
    | .argument => .ok (f.readArgument word rest)

/-- The record of the call about to be made. -/
def callOf (world : World) (f : Frame) (shell : Shell) (inFd : Int) : Call where
  arguments := f.arguments
  isExecutable := isExecutable world f.cmds.length f.prog shell.environment
  inFd := inFd
  outFd := f.outFd
  errFd := f.errFd
  lineEnds := f.lineEnds
  isUsingPipe := f.isUsingPipe
  inObject := shell.process.object inFd
  outObject := shell.process.object f.outFd
  errObject := shell.process.object f.errFd

/-- `ErasePipeVector` and `CountdownPipeVector`. -/
def detach (s : Shell) : Shell :=
  let (kept, p) := NumberedPipes.erasePipeVector s.pipeVector s.process
  s.withPipes (NumberedPipes.countdownPipeVector kept) p

/-- A complete command: get the pipe that is due, call `ExecCmd`, erase the pipe
and count down. -/
def execute (world : World) (f : Frame) : Outcome Frame := do
  let (inFd, p) := getPipeFd f.shell.pipeVector 0 f.shell.process
  let attached := f.shell.withProcess p
  let ran ← builtin (attached.logged (callOf world f attached inFd)) f.arguments
  return { f with shell := detach ran, isFinalArgv := false }

/-- One pass: read a word and, if it completes a command, execute that. -/
def pass (world : World) (f : Frame) (word : Str) (rest : List Str) : Outcome Frame := do
  let read ← readWord world f word rest
  if read.isFinalArgv then execute world read else return read

/-- The loop goes on while there are words. -/
def round (world : World) (f : Frame) : Outcome (Round Frame Shell) :=
  match f.cmds with
  | [] => .ok (.leave f.shell)
  | word :: rest => do return .again (← pass world f word rest)

/-- Executing a command leaves the queue and the other variables as they are. -/
theorem execute_eq_ok {world : World} {f next : Frame} (executed : execute world f = .ok next) :
    ∃ s, next = { f with shell := s, isFinalArgv := false } := by
  obtain ⟨ran, -, returned⟩ := bind_eq_ok.mp executed
  exact ⟨detach ran, (Except.ok.inj returned).symm⟩

/-- What becomes of a frame when a word is read. The invariants of the loop are shown by cases on
this, and not by the branches of the code. -/
inductive WordRead (world : World) (f : Frame) (word : Str) (rest : List Str) : Frame → Prop
  | prog (first : f.isFirstArgv = true) : WordRead world f word rest (f.initFd.readProg word rest)
  | pipe {isError : Bool} {pipeNum : Int} {created : Int × List PipeFd × Process}
      (later : f.isFirstArgv = false)
      (creates : NumberedPipes.createPipe (world.pipes rest.length) f.shell.process
        f.shell.pipeVector pipeNum = some created) :
      WordRead world f word rest (f.initFd.pipeTo isError created rest)
  | redirect {isError : Bool} {file : Str} {left : List Str} (later : f.isFirstArgv = false)
      (words : rest = file :: left) : WordRead world f word rest
        (f.initFd.redirect isError (openAs (world.opens left.length) f.shell.process) left)
  | argument (later : f.isFirstArgv = false) :
      WordRead world f word rest (f.initFd.readArgument word rest)

theorem readPipe_ends (world : World) (f : Frame) (isError : Bool) (word : Str) (rest : List Str)
    (later : f.isFirstArgv = false) : Ends (readPipe world f.initFd isError word rest)
      (WordRead world f word rest) (fun failure => failure.2 = f.shell) := by
  rw [readPipe]
  split
  · rfl
  · split
    · rfl
    · rename_i creates
      exact .pipe later creates

/-- The two words of a redirection are read together, or the line fails before any of it. -/
theorem readRedirect_ends (world : World) (f : Frame) (isError : Bool) (word : Str)
    (rest : List Str) (later : f.isFirstArgv = false) :
    Ends (readRedirect world f.initFd isError rest)
      (WordRead world f word rest) (fun failure => failure.2 = f.shell) := by
  cases rest with
  | nil => rfl
  | cons file left => exact .redirect later rfl

/-- A word is read in one of these ways, or the shell fails as it is. It is the only place where
the branches for the words are taken apart. -/
theorem readWord_ends (world : World) (f : Frame) (word : Str) (rest : List Str) :
    Ends (readWord world f word rest) (WordRead world f word rest)
      (fun failure => failure.2 = f.shell) := by
  rw [readWord]
  split
  · rename_i first
    exact .prog first
  · rename_i notFirst
    have later : f.isFirstArgv = false := Bool.eq_false_iff.mpr notFirst
    split
    · exact readPipe_ends world f false word rest later
    · exact readPipe_ends world f true word rest later
    · exact readRedirect_ends world f false word rest later
    · exact readRedirect_ends world f false word rest later
    · exact readRedirect_ends world f true word rest later
    · exact .argument later

/-- Every word read leaves fewer words. -/
theorem readWord_cmds {world : World} {f next : Frame} {word : Str} {rest : List Str}
    (read : readWord world f word rest = .ok next) : next.cmds.length ≤ rest.length := by
  cases (readWord_ends world f word rest).returned read with
  | prog | pipe | argument => exact Nat.le_refl _
  | redirect later words =>
    rw [words]
    exact Nat.le_succ _

theorem pass_cmds {world : World} {f next : Frame} {word : Str} {rest : List Str}
    (passed : pass world f word rest = .ok next) : next.cmds.length ≤ rest.length := by
  obtain ⟨middle, read, passed⟩ := bind_eq_ok.mp passed
  have fewer : middle.cmds.length ≤ rest.length := readWord_cmds read
  split at passed
  · obtain ⟨s, rfl⟩ := execute_eq_ok passed
    exact fewer
  · cases passed
    exact fewer

/-- `ExecCmds` as a loop over its passes. -/
def cmdLoop (world : World) : Loop Frame Shell (Fault × Shell) where
  body := round world
  measure f := f.cmds.length
  decreases f next again := by
    rw [round] at again
    split at again
    · cases again
    · rename_i word rest words
      obtain ⟨middle, passed, same⟩ := bind_eq_ok.mp again
      cases same
      have fewer := pass_cmds passed
      simp only [words, List.length_cons]
      omega

/-- `ExecCmds`. -/
def execCmds (world : World) (s : Shell) (cmds : List Str) : Outcome Shell :=
  (cmdLoop world).run (Frame.initial s cmds)

/-- One round of `Exec`: the prompt, and the words of a line that is not empty. -/
def execLine (s : Shell) (line : Str × World) : Outcome Shell :=
  let prompted := s.write (str "% ")
  if line.1 = [] then .ok prompted else execCmds line.2 prompted (words line.1)

/-- `Exec`, on the lines up to the end of the input, each with the answers of the
operating system while it is executed. -/
def exec (vars : List (Str × Str)) (lines : List (Str × World)) : Outcome Shell := do
  let s ← lines.foldlM execLine ((Shell.initial vars).setEnv (str "PATH") (str "bin:."))
  return (s.write (str "% ")).write (str "\n")

end NetProg.Npshell
