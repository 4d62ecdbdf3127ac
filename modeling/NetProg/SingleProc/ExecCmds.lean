import NetProg.SingleProc.Commands
import NetProg.SingleProc.UserPipes

/-!
# The command loop

`ExecCmds` takes the words of a line from a queue. Reading a word either starts
a command, ends it with a pipe operator, opens a redirection, creates or takes a
user pipe, or adds an argument; a user-pipe error leaves the loop and drops the
rest of the line. When a word completes a command, the command is executed and
the pipes it has read are closed and erased.

One round of the loop here is either of the two: reading a word, or executing a
command that is complete. The source does both in one pass of its `while`; the
condition of the `while` is looked at only where no command is complete.
-/

namespace NetProg.SingleProc

open Loops

/-- What `ExecCmds` needs to know about its caller: the iterator behind `cli`,
`sockfd`, `one_line_input_` and the answers of the operating system. -/
structure Job where
  cli : Nat
  sockfd : Int
  line : Str
  world : World

/-- The server, the queue and the local variables of `ExecCmds`. `inPipe`, which is not in the
source, is the pipe end `in_fd` was last taken from: it tells what a close of that number is meant
for. -/
structure Frame where
  server : Server
  cmds : List Str
  isFirstArgv : Bool
  isFinalArgv : Bool
  prog : Str
  arguments : List Str
  isUsingPipe : Bool
  lineEnds : Bool
  isInRedirect : Bool
  inFd : Int
  outFd : Int
  errFd : Int
  status : Int
  isInUserpipe : Bool
  needCloseUserpipe : Bool
  needEraseCliIds : List Int
  recvStrId : Int
  sendStrId : Int
  inPipe : Option Object

/-- Another round, or the state of the server and the status of the line. -/
abbrev Step := Round Frame (Server × Int)

/-- The variables as `ExecCmds` declares them. -/
def Frame.initial (server : Server) (sockfd : Int) (cmds : List Str) : Frame where
  server := server
  cmds := cmds
  isFirstArgv := true
  isFinalArgv := false
  prog := []
  arguments := []
  isUsingPipe := false
  lineEnds := false
  isInRedirect := false
  inFd := sockfd
  outFd := sockfd
  errFd := sockfd
  status := 0
  isInUserpipe := false
  needCloseUserpipe := false
  needEraseCliIds := []
  recvStrId := -1
  sendStrId := -1
  inPipe := none

/-- How the branches classify a word that is not the first of its command. -/
inductive Kind where
  | pipe
  | errorPipe
  | redirectOut
  | redirectIn
  | userOut
  | userIn
  | argument
  deriving DecidableEq

/-- The conditions of the branches, in their order. -/
def kind (word : Str) : Kind :=
  if 124 ∈ word then .pipe
  else if 33 ∈ word then .errorPipe
  else if word = str ">" then .redirectOut
  else if word = str "<" then .redirectIn
  else if 62 ∈ word then .userOut
  else if 60 ∈ word then .userIn
  else .argument

namespace Frame

/-- The descriptors go back to the socket unless a redirection or a user pipe of
this command has set one of them. -/
def initFd (f : Frame) (sockfd : Int) : Frame :=
  if !f.isInRedirect && !f.isInUserpipe then
    { f with inFd := sockfd, outFd := sockfd, errFd := sockfd }
  else f

/-- The first word of a command; `tell` and `yell` take the rest of the line. -/
def readProg (f : Frame) (word : Str) (rest : List Str) : Frame :=
  let swallows := word = str "tell" ∨ word = str "yell"
  let left := if swallows then [] else rest
  { f with
    prog := word
    arguments := if swallows then word :: rest else [word]
    cmds := left
    isFirstArgv := false
    isFinalArgv := left.isEmpty
    isUsingPipe := false
    lineEnds := f.lineEnds || left.isEmpty }

/-- A word that is an argument. -/
def readArgument (f : Frame) (word : Str) (rest : List Str) : Frame :=
  { f with
    arguments := f.arguments ++ [word]
    cmds := rest
    isFinalArgv := rest.isEmpty
    isUsingPipe := false
    lineEnds := f.lineEnds || rest.isEmpty }

/-- After a redirection or a user pipe the rest of the line may be empty. -/
def endLine (f : Frame) (rest : List Str) : Frame :=
  { f with
    cmds := rest
    lineEnds := f.lineEnds || rest.isEmpty
    isFirstArgv := f.isFirstArgv || rest.isEmpty
    isFinalArgv := f.isFinalArgv || rest.isEmpty }

/-- A pipe operator, with the write end, the pipe table of the client and the
process that `createPipe` gave. -/
def pipeTo (f : Frame) (cli : Nat) (isError : Bool) (created : Int × List PipeFd × Process)
    (rest : List Str) : Frame :=
  { f with
    server := (f.server.update cli ({ · with pipeVector := created.2.1 })).withProcess created.2.2
    outFd := created.1
    errFd := if isError then created.1 else f.errFd
    isFirstArgv := true
    isFinalArgv := true
    isUsingPipe := true
    cmds := rest
    lineEnds := f.lineEnds || rest.isEmpty }

/-- The output of a command goes to a file; the descriptor is -1 if `open` failed. -/
def redirectOut (f : Frame) (opened : Int × Process) (rest : List Str) : Frame :=
  { f with
    server := f.server.withProcess opened.2
    outFd := opened.1
    isInRedirect := true
    isUsingPipe := false }.endLine rest

/-- The input of a command comes from a file. -/
def redirectIn (f : Frame) (opened : Int × Process) (rest : List Str) : Frame :=
  { f with
    server := f.server.withProcess opened.2
    inFd := opened.1
    isInRedirect := true
    isUsingPipe := false }.endLine rest

/-- A user pipe created for a target. -/
def sendTo (f : Frame) (cli : Nat) (targetId : Int) (created : Int × List UserPipeFd × Process)
    (rest : List Str) : Frame :=
  { f with
    server :=
      (f.server.update cli ({ · with userpipeVector := created.2.1 })).withProcess created.2.2
    outFd := created.1
    isUsingPipe := true
    isInUserpipe := true
    sendStrId := targetId }.endLine rest

/-- A user pipe taken from the source behind an iterator: its write end is
closed and its record marked. -/
def receiveFrom (f : Frame) (iter : Nat) (sourceId : Int) (taken : UserPipeFd × List UserPipeFd)
    (rest : List Str) : Frame :=
  { f with
    server := (f.server.update iter ({ · with userpipeVector := taken.2 })).withProcess
      (f.server.process.closeEnd taken.1.inFd (some (.writeEnd taken.1.made)))
    inFd := taken.1.outFd
    inPipe := some (.readEnd taken.1.made)
    needEraseCliIds := f.needEraseCliIds ++ [sourceId]
    needCloseUserpipe := true
    isInUserpipe := true
    recvStrId := sourceId }.endLine rest

end Frame

/-- The text of an error about a user that is not logged in. -/
def missingUser (id : Int) : Str :=
  str "*** Error: user #" ++ decimal id ++ str " does not exist yet. ***\n"

/-- The two pipe branches. -/
def readPipe (job : Job) (f : Frame) (isError : Bool) (word : Str) (rest : List Str) :
    Outcome Step :=
  match NumberedPipes.pipeNum word with
  | none => .error (.pipeChar, f.server)
  | some pipeNum => do
    let cli ← f.server.client job.cli
    match NumberedPipes.createPipe (job.world.pipes rest.length) f.server.process cli.pipeVector
        pipeNum with
    | none => .error (.pipeError, f.server)
    | some created => return .again (f.pipeTo job.cli isError created rest)

/-- The branch of `>`; the file name is whatever word follows. -/
def readRedirectOut (job : Job) (f : Frame) (rest : List Str) : Outcome Step :=
  match rest with
  | [] => .error (.emptyQueue, f.server)
  | _ :: left =>
    .ok (.again (f.redirectOut (openAs (job.world.opens left.length) f.server.process) left))

/-- The branch of `<`. -/
def readRedirectIn (job : Job) (f : Frame) (rest : List Str) : Outcome Step :=
  match rest with
  | [] => .error (.emptyQueue, f.server)
  | _ :: left =>
    .ok (.again (f.redirectIn (openAs (job.world.opens left.length) f.server.process) left))

/-- The branch of `>t`. Both errors drop the rest of the line. -/
def readUserOut (job : Job) (f : Frame) (word : Str) (rest : List Str) : Outcome Step :=
  match UserPipes.userNum word with
  | none => .error (.userChar, f.server)
  | some targetId => do
    let mark ← f.server.idAt (targetId - 1)
    if mark = 0 then return .leave (f.server.write job.sockfd (missingUser targetId), 0)
    else
      let cli ← f.server.client job.cli
      if cli.userpipeVector.any (·.targetId = targetId) then
        return .leave (f.server.write job.sockfd (str "*** Error: the pipe #" ++ decimal cli.id ++
          str "->#" ++ decimal targetId ++ str " already exists. ***\n"), 0)
      else if job.world.pipes rest.length then
        return .again (f.sendTo job.cli targetId
          (UserPipes.createUserPipe f.server.process cli.userpipeVector cli.id targetId) rest)
      else .error (.pipeError, f.server)

/-- The branch of `<s`. -/
def readUserIn (job : Job) (f : Frame) (word : Str) (rest : List Str) : Outcome Step :=
  match UserPipes.userNum word with
  | none => .error (.userChar, f.server)
  | some sourceId => do
    let mark ← f.server.idAt (sourceId - 1)
    if mark = 0 then return .leave (f.server.write job.sockfd (missingUser sourceId), 0)
    else
      let sourceCli ← f.server.client (f.server.getClientByID sourceId)
      let cli ← f.server.client job.cli
      match UserPipes.markUserPipe sourceCli.id cli.id sourceCli.userpipeVector with
      | none =>
        return .leave (f.server.write job.sockfd (str "*** Error: the pipe #" ++ decimal sourceId ++
          str "->#" ++ decimal cli.id ++ str " does not exist yet. ***\n"), 0)
      | some taken =>
        return .again (f.receiveFrom (f.server.getClientByID sourceId) sourceCli.id taken rest)

/-- One word from the queue. -/
def readWord (job : Job) (frame : Frame) (word : Str) (rest : List Str) : Outcome Step :=
  let f := frame.initFd job.sockfd
  if f.isFirstArgv then .ok (.again (f.readProg word rest))
  else
    match kind word with
    | .pipe => readPipe job f false word rest
    | .errorPipe => readPipe job f true word rest
    | .redirectOut => readRedirectOut job f rest
    | .redirectIn => readRedirectIn job f rest
    | .userOut => readUserOut job f word rest
    | .userIn => readUserIn job f word rest
    | .argument => .ok (.again (f.readArgument word rest))

/-- The line without one carriage return at its end. -/
def lineInput (line : Str) : Str := if line.getLast? = some 13 then line.dropLast else line

/-- One of the two broadcasts before an execution, unless its id is -1. -/
def announceOne (job : Job) (s : Server) (action : Action) (cli : ClientInfo) (strId : Int) :
    Outcome Server :=
  if strId ≠ -1 then broadCast s action (lineInput job.line) cli strId else .ok s

/-- The broadcasts before an execution. -/
def announce (job : Job) (f : Frame) : Outcome Server := do
  let cli ← f.server.client job.cli
  let received ← announceOne job f.server .recv cli f.recvStrId
  announceOne job received .send cli f.sendStrId

/-- `GetPipeFd` on the client's table: whether a record was due, the new `in_fd`,
the pipe end it is now taken from, and the process. -/
def attach (f : Frame) (cli : ClientInfo) (p : Process) : Bool × Int × Option Object × Process :=
  match NumberedPipes.getPipeFd cli.pipeVector p with
  | some (record, closed) => (true, record.outFd, some (.readEnd record.made), closed)
  | none => (false, f.inFd, f.inPipe, p)

/-- The record of the call about to be made. -/
def callOf (job : Job) (f : Frame) (server : Server) (cli : ClientInfo) (inFd : Int) : Call where
  client := cli.id
  arguments := f.arguments
  isExecutable := isExecutable job.world f.cmds.length f.prog server.environment
  inFd := inFd
  outFd := f.outFd
  errFd := f.errFd
  lineEnds := f.lineEnds
  isUsingPipe := f.isUsingPipe
  inObject := server.process.object inFd
  outObject := server.process.object f.outFd
  errObject := server.process.object f.errFd

/-- `ErasePipeVector` and `CountdownPipeVector` on the client's table, and the
`close(in_fd)` after them. -/
def detach (job : Job) (server : Server) (needClose : Bool) (inFd : Int)
    (inPipe : Option Object) : Outcome Server := do
  let cli ← server.client job.cli
  let (kept, p) := NumberedPipes.erasePipeVector cli.pipeVector server.process
  let closed := if needClose then p.closeEnd inFd inPipe else p
  return (server.update job.cli
    ({ · with pipeVector := NumberedPipes.countdownPipeVector kept })).withProcess closed

/-- `EraseUserPipeVector` on the vector of one client. -/
def eraseUsed (server : Server) (id : Int) : Outcome Server := do
  let iter := server.getClientByID id
  let candidate ← server.client iter
  let (kept, p) := UserPipes.eraseUserPipeVector candidate.userpipeVector server.process
  return (server.update iter ({ · with userpipeVector := kept })).withProcess p

/-- A complete command: announce its user pipes, attach the numbered pipe that
is due, call `ExecCmd`, and close and erase what it has read. -/
def execute (job : Job) (f : Frame) : Outcome Step := do
  let announced ← announce job f
  let cli ← announced.client job.cli
  let (needClosePipe, inFd, inPipe, p) := attach f cli announced.process
  let attached := announced.withProcess p
  let called := attached.logged (callOf job f attached cli inFd)
  let (ran, status) ← builtin called job.cli cli f.arguments
  let detached ← detach job ran (needClosePipe || f.needCloseUserpipe) inFd inPipe
  let erased ← (f.needEraseCliIds ++ [cli.id]).foldlM eraseUsed detached
  return .again { f with
    server := erased
    status := status
    inFd := inFd
    inPipe := inPipe
    isFinalArgv := false
    isInRedirect := false
    isInUserpipe := false
    needCloseUserpipe := false
    needEraseCliIds := []
    recvStrId := -1
    sendStrId := -1 }

/-- One round: execute a complete command, stop at an empty queue, or read the
next word. -/
def round (job : Job) (f : Frame) : Outcome Step :=
  if f.isFinalArgv then execute job f
  else
    match f.cmds with
    | [] => .ok (.leave (f.server, f.status))
    | word :: rest => readWord job f word rest

end NetProg.SingleProc
