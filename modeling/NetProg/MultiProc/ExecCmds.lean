import NetProg.MultiProc.Commands
import NetProg.SingleProc.ExecCmds

/-!
# The command loop

`ExecCmds` of the multi-process server is that of the single-process one with three
changes: its descriptors are the standard ones, a user pipe is a FIFO that the child
opens, and the pipe a command has received is removed after it by its source.

One round of the loop is reading a word or executing a command that is complete.
An execution is a sequence of parts, each of them a function here: what is told, the
numbered pipe that is due, the call, the closes, and the removal of the user pipe.
A child that opens a FIFO comes to it sooner or later; the schedule of the line says
at the head of which round it has.
-/

namespace NetProg.MultiProc

open Loops
open SingleProc (kind missingUser lineInput)

/-- What `ExecCmds` needs to know about its caller: `cur_id`, `one_line_input_`, the
answers of the operating system, and the schedule of the children. -/
structure Job where
  curId : Nat
  line : Str
  world : World
  comes : Nat → Writer → Bool

/-- The server, the queue and the local variables of `ExecCmds`. `inPipe`, which is not in the
source, is the pipe end `in_fd` was last taken from, and tells what a close of that number is
meant for. -/
structure Frame where
  server : Server
  cmds : List Str
  isFirstArgv : Bool
  isFinalArgv : Bool
  prog : Str
  arguments : List Str
  isUsingPipe : Bool
  lineEnds : Bool
  isInRedirect : Bool
  inFd : Int
  outFd : Int
  errFd : Int
  status : Int
  isInUserpipe : Bool
  sourceId : Int
  targetId : Int
  recvStrId : Int
  sendStrId : Int
  needClosePipe : Bool
  inPipe : Option Object

/-- Another round, or the server and the status of the line. -/
abbrev Pass := Round Frame (Server × Int)

/-- The variables as `ExecCmds` declares them. -/
def Frame.initial (server : Server) (cmds : List Str) : Frame where
  server := server
  cmds := cmds
  isFirstArgv := true
  isFinalArgv := false
  prog := []
  arguments := []
  isUsingPipe := false
  lineEnds := false
  isInRedirect := false
  inFd := 0
  outFd := 1
  errFd := 2
  status := 0
  isInUserpipe := false
  sourceId := -1
  targetId := -1
  recvStrId := -1
  sendStrId := -1
  needClosePipe := false
  inPipe := none

namespace Frame

/-- The shell of the client. -/
def shell (f : Frame) (curId : Nat) : Shell := f.server.shells curId

/-- The frame with another server. -/
def withServer (f : Frame) (g : Server) : Frame := { f with server := g }

/-- The descriptors go back to the standard ones unless a redirection or a user pipe
of this command has set one of them. -/
def initFd (f : Frame) : Frame :=
  if !f.isInRedirect && !f.isInUserpipe then { f with inFd := 0, outFd := 1, errFd := 2 } else f

/-- The first word of a command; `tell` and `yell` take the rest of the line. -/
def readProg (f : Frame) (word : Str) (rest : List Str) : Frame :=
  let swallows := word = str "tell" ∨ word = str "yell"
  let left := if swallows then [] else rest
  { f with
    prog := word
    arguments := if swallows then word :: rest else [word]
    cmds := left
    isFirstArgv := false
    isFinalArgv := left.isEmpty
    isUsingPipe := false
    lineEnds := f.lineEnds || left.isEmpty }

/-- A word that is an argument. -/
def readArgument (f : Frame) (word : Str) (rest : List Str) : Frame :=
  { f with
    arguments := f.arguments ++ [word]
    cmds := rest
    isFinalArgv := rest.isEmpty
    isUsingPipe := false
    lineEnds := f.lineEnds || rest.isEmpty }

/-- After a redirection or a user pipe the rest of the line may be empty. -/
def endLine (f : Frame) (rest : List Str) : Frame :=
  { f with
    cmds := rest
    lineEnds := f.lineEnds || rest.isEmpty
    isFirstArgv := f.isFirstArgv || rest.isEmpty
    isFinalArgv := f.isFinalArgv || rest.isEmpty }

/-- A pipe operator, with the write end, the table and the process that `createPipe`
gave. -/
def pipeTo (f : Frame) (curId : Nat) (isError : Bool) (created : Int × List PipeFd × Process)
    (rest : List Str) : Frame :=
  { f with
    server := f.server.onShell curId (·.withPipes created.2.1 created.2.2)
    outFd := created.1
    errFd := if isError then created.1 else f.errFd
    isFirstArgv := true
    isFinalArgv := true
    isUsingPipe := true
    cmds := rest
    lineEnds := f.lineEnds || rest.isEmpty }

/-- The output of a command goes to a file; the descriptor is -1 if `open` failed. -/
def redirectOut (f : Frame) (curId : Nat) (opened : Int × Process) (rest : List Str) : Frame :=
  { f with
    server := f.server.onShell curId (·.withProcess opened.2)
    outFd := opened.1
    isInRedirect := true
    isUsingPipe := false }.endLine rest

/-- The input of a command comes from a file. -/
def redirectIn (f : Frame) (curId : Nat) (opened : Int × Process) (rest : List Str) : Frame :=
  { f with
    server := f.server.onShell curId (·.withProcess opened.2)
    inFd := opened.1
    isInRedirect := true
    isUsingPipe := false }.endLine rest

/-- A user pipe created for a target. -/
def sendTo (f : Frame) (targetId : Int) (created : Server) (rest : List Str) : Frame :=
  { f with
    server := created
    isUsingPipe := true
    isInUserpipe := true
    targetId := targetId
    sendStrId := targetId }.endLine rest

/-- A user pipe taken from a source. -/
def receiveFrom (f : Frame) (sourceId : Int) (taken : Int × Server) (rest : List Str) : Frame :=
  { f with
    server := taken.2
    inFd := taken.1
    isInUserpipe := true
    sourceId := sourceId
    recvStrId := sourceId }.endLine rest

end Frame

/-- The two pipe branches. -/
def readPipe (job : Job) (f : Frame) (isError : Bool) (word : Str) (rest : List Str) :
    Outcome Pass :=
  match NumberedPipes.pipeNum word with
  | none => .error (.pipeChar, f.server)
  | some pipeNum =>
    match NumberedPipes.createPipe (job.world.pipes rest.length) (f.shell job.curId).process
        (f.shell job.curId).pipeVector pipeNum with
    | none => .error (.pipeError, f.server)
    | some created => .ok (.again (f.pipeTo job.curId isError created rest))

/-- The branch of `>`; the file name is whatever word follows. -/
def readRedirectOut (job : Job) (f : Frame) (rest : List Str) : Outcome Pass :=
  match rest with
  | [] => .error (.emptyQueue, f.server)
  | _ :: left => .ok (.again (f.redirectOut job.curId
      (openAs (job.world.opens left.length) (f.shell job.curId).process) left))

/-- The branch of `<`. -/
def readRedirectIn (job : Job) (f : Frame) (rest : List Str) : Outcome Pass :=
  match rest with
  | [] => .error (.emptyQueue, f.server)
  | _ :: left => .ok (.again (f.redirectIn job.curId
      (openAs (job.world.opens left.length) (f.shell job.curId).process) left))

/-- Both user-pipe errors print a text and drop the rest of the line. -/
def refuse (job : Job) (f : Frame) (text : Str) : Outcome Pass :=
  .ok (.leave (f.server.write job.curId text, 0))

/-- The branch of `>t`. -/
def readUserOut (job : Job) (f : Frame) (word : Str) (rest : List Str) : Outcome Pass :=
  match SingleProc.UserPipes.userNum word with
  | none => .error (.userChar, f.server)
  | some targetId =>
    match getClientByID f.server.table targetId with
    | none => refuse job f (missingUser targetId)
    | some _ =>
      if (f.server.fifo job.curId targetId.toNat).inFd ≠ -1 then
        refuse job f (str "*** Error: the pipe #" ++ decimal job.curId ++ str "->#" ++
          decimal targetId ++ str " already exists. ***\n")
      else do
        let created ← f.server.createUserPipe job.curId targetId.toNat
        return .again (f.sendTo targetId created rest)

/-- The branch of `<s`. -/
def readUserIn (job : Job) (f : Frame) (word : Str) (rest : List Str) : Outcome Pass :=
  match SingleProc.UserPipes.userNum word with
  | none => .error (.userChar, f.server)
  | some sourceId =>
    match getClientByID f.server.table sourceId with
    | none => refuse job f (missingUser sourceId)
    | some _ =>
      if (f.server.fifo sourceId.toNat job.curId).outFd = -1 then
        refuse job f (str "*** Error: the pipe #" ++ decimal sourceId ++ str "->#" ++
          decimal job.curId ++ str " does not exist yet. ***\n")
      else
        .ok (.again (f.receiveFrom sourceId
          (f.server.getUserPipeFd sourceId.toNat job.curId) rest))

/-- One word from the queue. -/
def readWord (job : Job) (frame : Frame) (word : Str) (rest : List Str) : Outcome Pass :=
  let f := frame.initFd
  if f.isFirstArgv then .ok (.again (f.readProg word rest))
  else
    match kind word with
    | .pipe => readPipe job f false word rest
    | .errorPipe => readPipe job f true word rest
    | .redirectOut => readRedirectOut job f rest
    | .redirectIn => readRedirectIn job f rest
    | .userOut => readUserOut job f word rest
    | .userIn => readUserIn job f word rest
    | .argument => .ok (.again (f.readArgument word rest))

/-- The broadcast of a received pipe. It names the last source. -/
def announceRecv (job : Job) (f : Frame) : Outcome Frame :=
  if f.recvStrId ≠ -1 then do
    let told ← f.server.broadcast job.curId (.recv (lineInput job.line) f.sourceId.toNat)
    return { f with server := told, recvStrId := -1 }
  else .ok f

/-- The broadcast of a sent pipe. It names the last target. -/
def announceSend (job : Job) (f : Frame) : Outcome Frame :=
  if f.sendStrId ≠ -1 then do
    let told ← f.server.broadcast job.curId (.send (lineInput job.line) f.targetId.toNat)
    return { f with server := told, sendStrId := -1 }
  else .ok f

/-- `GetPipeFd`. -/
def attach (job : Job) (f : Frame) : Frame :=
  match NumberedPipes.getPipeFd (f.shell job.curId).pipeVector (f.shell job.curId).process with
  | some (record, closed) => { f with
      server := f.server.onShell job.curId (·.withProcess closed)
      inFd := record.outFd
      inPipe := some (.readEnd record.made)
      needClosePipe := true }
  | none => { f with needClosePipe := false }

/-- The record of the call about to be made. -/
def callOf (job : Job) (f : Frame) : Call where
  arguments := f.arguments
  isExecutable :=
    isExecutable job.world f.cmds.length f.prog (f.shell job.curId).environment
  inFd := f.inFd
  outFd := f.outFd
  errFd := f.errFd
  lineEnds := f.lineEnds
  isUsingPipe := f.isUsingPipe
  targetId := f.targetId
  inObject := (f.shell job.curId).process.object f.inFd
  outObject := (f.shell job.curId).process.object f.outFd
  errObject := (f.shell job.curId).process.object f.errFd

/-- The part of `ExecCmd` that forks. A child with a target opens the FIFO; the
parent waits for the last child of a line that does not end in a pipe. -/
def fork (g : Server) (curId : Nat) (targetId : Int) (waits : Bool) : Outcome Server :=
  if targetId > 0 then
    let writer : Writer := ⟨curId, targetId.toNat, (g.shells curId).process.openFile.1⟩
    if waits then
      match g.setUserPipeOut writer with
      | (true, opened) => .ok opened
      | (false, waiting) => .error (.blocked, waiting)
    else .ok { g with forked := g.forked ++ [writer] }
  else .ok g

/-- `ExecCmd`. -/
def execCmd (job : Job) (f : Frame) : Outcome (Server × Int) :=
  let called := f.server.onShell job.curId (·.logged (callOf job f))
  match f.arguments with
  | prog :: _ =>
    if builtins.contains (cstr prog) then builtin called job.curId f.arguments
    else do
      let forked ← fork called job.curId f.targetId (f.lineEnds && !f.isUsingPipe)
      return (forked, 0)
  | [] => .error (.argument, called)

/-- The call, and the flags after it. -/
def call (job : Job) (f : Frame) : Outcome Frame := do
  let (ran, status) ← execCmd job f
  return { f with
    server := ran
    status := status
    isFinalArgv := false
    isInRedirect := false
    isInUserpipe := false }

/-- `ErasePipeVector` and `CountdownPipeVector`. -/
def erase (job : Job) (f : Frame) : Frame :=
  let (kept, p) := NumberedPipes.erasePipeVector (f.shell job.curId).pipeVector
    (f.shell job.curId).process
  f.withServer (f.server.onShell job.curId
    (·.withPipes (NumberedPipes.countdownPipeVector kept) p))

/-- The `close(in_fd)` after them. -/
def closeIn (job : Job) (f : Frame) : Frame :=
  if f.needClosePipe then
    f.withServer (f.server.onShell job.curId
      (fun s => s.withProcess (s.process.closeEnd f.inFd f.inPipe)))
  else f

/-- The user pipe that was received is removed, and both ids are forgotten. -/
def forget (job : Job) (f : Frame) : Frame :=
  let f := if f.targetId > 0 then { f with targetId := -1 } else f
  if f.sourceId > 0 then
    { f with server := f.server.eraseUserPipe f.sourceId.toNat job.curId, sourceId := -1 }
  else f

/-- A complete command. -/
def execute (job : Job) (f : Frame) : Outcome Pass := do
  let received ← announceRecv job f
  let sent ← announceSend job received
  let called ← call job (attach job sent)
  return .again (forget job (closeIn job (erase job called)))

/-- One round: execute a complete command, stop at an empty queue, or read the next
word. -/
def advance (job : Job) (f : Frame) : Outcome Pass :=
  if f.isFinalArgv then execute job f
  else
    match f.cmds with
    | [] => .ok (.leave (f.server, f.status))
    | word :: rest => readWord job f word rest

/-- One round, with the children that have come to their `open` by then. -/
def round (job : Job) (f : Frame) : Outcome Pass :=
  advance job (f.withServer (f.server.resume (job.comes f.cmds.length)))

end NetProg.MultiProc
