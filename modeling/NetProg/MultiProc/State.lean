import NetProg.Environment
import NetProg.NumberedPipes

/-!
# The processes of the multi-process server and their shared memory

Every client of `np_multi_proc` is served by a process of its own. The processes
share a table of the clients, one message, and a table of the user pipes. A client
is known by its id, the number of its slot in the table counted from one.

A user pipe is a FIFO file between two clients. Opening it for reading or for
writing waits until the other side opens it as well. The handler of `SIGUSR2` opens
the FIFOs to its client for reading, and may be left waiting; so may a child that
opens one for writing.
-/

namespace NetProg.MultiProc

/-- `ClientInfo`. A slot that is not valid keeps the rest of its last client, which some of the
code goes on to read. -/
structure ClientInfo where
  valid : Bool
  pid : Nat
  id : Nat
  userName : Str
  userIp : Str
  port : Nat
  deriving DecidableEq

/-- `MAX_CLIENT_SIZE`. -/
def maxClientSize : Nat := 30

/-- `GetClientByID`: the first valid slot with the id. -/
def getClientByID (table : List ClientInfo) (id : Int) : Option ClientInfo :=
  table.find? (fun client => client.id = id && client.valid)

/-- `FIFO`: the record of a user pipe in shared memory. There is one for each ordered pair of ids.
-/
structure Fifo where
  name : Str
  isUsed : Bool
  inFd : Int
  outFd : Int
  deriving DecidableEq

/-- A record after `ResetFIFOSHM`. -/
def Fifo.empty : Fifo := ⟨[], false, -1, -1⟩

/-- The path of a FIFO. -/
def fifoPath (sourceId targetId : Nat) : Str :=
  str "user_pipe/user_pipe_" ++ decimal sourceId ++ str "_" ++ decimal targetId

theorem fifoPath_ne_nil (sourceId targetId : Nat) : fifoPath sourceId targetId ≠ [] := by
  intro empty
  simp [fifoPath, str] at empty

/-- A call of `Broadcast`, by its action and its further arguments, or of
`BroadcastOne`. -/
inductive Announcement where
  | login
  | logout
  | name
  | yell (msg : Str)
  | send (msg : Str) (targetId : Nat)
  | recv (msg : Str) (targetId : Nat)
  | tell (msg : Str) (targetId : Nat)
  deriving DecidableEq

/-- The client a call names besides the caller. -/
def Announcement.targetId : Announcement → Option Nat
  | .send _ targetId | .recv _ targetId | .tell _ targetId => some targetId
  | _ => none

/-- One call of `ExecCmd`. -/
structure Call where
  arguments : List Str
  isExecutable : Bool
  inFd : Int
  outFd : Int
  errFd : Int
  lineEnds : Bool
  isUsingPipe : Bool
  targetId : Int
  inObject : Option Object
  outObject : Option Object
  errObject : Option Object
  deriving DecidableEq

/-- Whether the process of a client goes on: it has ended itself, or waits for a FIFO that nobody
opens. A process that does not go on is offered no line. -/
inductive Status where
  | running
  | exited
  | stuck
  deriving DecidableEq

/-- The process of a client: its descriptors, `pipe_vector_`, the environment with
`path_vector_`, and the logs of what it printed and of its calls. -/
structure Shell where
  process : Process
  pipeVector : List PipeFd
  environment : Environment
  output : List Str
  calls : List Call
  status : Status

/-- A child that opens the FIFO from its client to another for writing, with the
descriptor it will get. -/
structure Writer where
  sourceId : Nat
  targetId : Nat
  inFd : Int
  deriving DecidableEq

/-- The shared memory, the FIFO files, the processes, and what waits for a FIFO: the
source whose FIFO the handler of a client is opening, whether another `SIGUSR2` is
pending there, the children that have been forked but not come to their `open`, and
those that wait in it. The messages are logged with their senders. -/
structure Server where
  table : List ClientInfo
  fifo : Nat → Nat → Fifo
  files : Nat → Nat → Bool
  shells : Nat → Shell
  reading : Nat → Option Nat
  signalled : Nat → Bool
  forked : List Writer
  writing : List Writer
  announced : List (Nat × Announcement)

/-- What ends a command line other than by returning: an access outside its range, an
exception, `::exit(0)` after a failed `pipe` or `mkfifo`, or waiting for ever. -/
inductive Fault where
  | emptyQueue
  | pipeChar
  | userChar
  | idRange
  | userName
  | argument
  | popBack
  | noClient
  | uncaught
  | pipeError
  | mkfifoError
  | blocked
  deriving DecidableEq

/-- A result, or a failure with the state it happened in. -/
abbrev Outcome (α : Type) := Except (Fault × Server) α

/-- The process of a client just accepted: its socket is on the three standard
descriptors. -/
def clientProcess : Process :=
  ⟨((Slots.Table.empty.put 0 (.socket 0)).put 1 (.socket 0)).put 2 (.socket 0), 1, []⟩

namespace Shell

/-- A text for the client. -/
def write (s : Shell) (text : Str) : Shell := { s with output := s.output ++ [text] }

/-- A call is added to the log. -/
def logged (s : Shell) (call : Call) : Shell := { s with calls := s.calls ++ [call] }

/-- The descriptors of the process are others now. -/
def withProcess (s : Shell) (p : Process) : Shell := { s with process := p }

/-- The numbered pipes are others now, and the descriptors with them. -/
def withPipes (s : Shell) (pipeVector : List PipeFd) (p : Process) : Shell :=
  { s with pipeVector := pipeVector, process := p }

/-- `SetEnv`. -/
def setEnv (s : Shell) (var val : Str) : Shell :=
  { s with environment := s.environment.setEnv var val }

/-- `PrintEnv`. -/
def printEnv (s : Shell) (var : Str) : Shell :=
  match s.environment.getenv var with
  | some val => s.write (val ++ str "\n")
  | none => s

/-- The shell of a new client, with the environment of `ClientExec`. -/
def initial : Shell :=
  ⟨clientProcess, [], (⟨[], []⟩ : Environment).setEnv (str "PATH") (str "bin:."), [], [], .running⟩

end Shell

namespace Server

/-- Change the process of one client. -/
def onShell (g : Server) (id : Nat) (change : Shell → Shell) : Server :=
  { g with shells := fun other => if other = id then change (g.shells id) else g.shells other }

/-- Change the record of one user pipe. -/
def onFifo (g : Server) (sourceId targetId : Nat) (change : Fifo → Fifo) : Server :=
  { g with fifo := fun s t =>
      if s = sourceId ∧ t = targetId then change (g.fifo sourceId targetId) else g.fifo s t }

/-- Make or remove a FIFO file. -/
def withFile (g : Server) (sourceId targetId : Nat) (there : Bool) : Server :=
  { g with files := fun s t => if s = sourceId ∧ t = targetId then there else g.files s t }

/-- `unlink` of a FIFO by the name in its record. -/
def unlink (g : Server) (sourceId targetId : Nat) : Server :=
  if (g.fifo sourceId targetId).name = fifoPath sourceId targetId then
    g.withFile sourceId targetId false
  else g

/-- Set what the handler of a client is opening. -/
def withReading (g : Server) (id : Nat) (source : Option Nat) : Server :=
  { g with reading := fun other => if other = id then source else g.reading other }

/-- Mark a `SIGUSR2` pending, or not. -/
def withSignal (g : Server) (id : Nat) (pending : Bool) : Server :=
  { g with signalled := fun other => if other = id then pending else g.signalled other }

/-- Print to the client of a process. -/
def write (g : Server) (id : Nat) (text : Str) : Server := g.onShell id (·.write text)

/-- `Broadcast` and `BroadcastOne`, as far as the sender goes. -/
def broadcast (g : Server) (curId : Nat) (announcement : Announcement) : Outcome Server :=
  match getClientByID g.table curId with
  | none => .ok (g.write curId (str "cannot find client id: " ++ decimal curId ++ str "\n"))
  | some _ =>
    if announcement.targetId.all (fun id : Nat => (getClientByID g.table id).isSome) then
      .ok { g with announced := g.announced ++ [(curId, announcement)] }
    else .error (.noClient, g)

/-- The server before the first client. -/
def initial : Server where
  table := List.replicate maxClientSize ⟨false, 0, 0, [], [], 0⟩
  fifo _ _ := .empty
  files _ _ := false
  shells _ := Shell.initial
  reading _ := none
  signalled _ := false
  forked := []
  writing := []
  announced := []

end Server

end NetProg.MultiProc
