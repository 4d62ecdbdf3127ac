import NetProg.Environment
import NetProg.NumberedPipes

/-!
# The state of the one-process server

`np_single_proc` serves all clients in one process. Its tables are global: one
record for each client with its own environment, numbered pipes and the user
pipes it has sent, the table of ids in use, and the set of descriptors watched
by `select`. One `Shell` object serves every line, so the environment and the
search path are those of the client served last.

An access outside an array, a queue or a string, a dereferenced end iterator and
an exception nobody catches are failures; they carry the state they happen in.
So does the exit of the process after a failed `pipe`. Texts written to
descriptors and the calls of `ExecCmd` are logged in the order they are issued.
-/

namespace NetProg.SingleProc

/-- `UserPipeFd`; `made` is the serial number of the `pipe` call, by which a pipe is known when
the numbers of its ends have been given out again. -/
structure UserPipeFd where
  inFd : Int
  outFd : Int
  sourceId : Int
  targetId : Int
  isUsed : Bool
  made : Nat
  deriving DecidableEq

/-- `EnvInfo`. -/
structure EnvInfo where
  envVar : Str
  envVal : Str
  deriving DecidableEq

/-- `ClientInfo`; `made` is the serial number of the `accept` call, by which a client is known
when its id and its descriptor have been given out again. -/
structure ClientInfo where
  fd : Int
  id : Int
  userName : Str
  userIp : Str
  port : Nat
  envVector : List EnvInfo
  pipeVector : List PipeFd
  userpipeVector : List UserPipeFd
  made : Nat
  deriving DecidableEq

/-- One call of `ExecCmd`: for whom, with what, and what its descriptors stood for at that moment.
No branch reads the log of these. -/
structure Call where
  client : Int
  arguments : List Str
  isExecutable : Bool
  inFd : Int
  outFd : Int
  errFd : Int
  lineEnds : Bool
  isUsingPipe : Bool
  inObject : Option Object
  outObject : Option Object
  errObject : Option Object
  deriving DecidableEq

/-- `MAX_CLIENT_SIZE`. -/
def maxClientSize : Nat := 30

/-- The process, the global tables, the environment of the process with the search path of the
shell, and the two logs: what was written to which descriptor, and the calls. -/
structure Server where
  process : Process
  msock : Int
  afds : List Int
  idTable : List Int
  clientTable : List ClientInfo
  environment : Environment
  output : List (Int × Str)
  calls : List Call

/-- What ends a line other than by returning: an access outside its range, an
exception, or `::exit(0)` after a failed `pipe`. -/
inductive Fault where
  | emptyQueue
  | pipeChar
  | userChar
  | idTable
  | argument
  | popBack
  | endIterator
  | uncaught
  | pipeError
  deriving DecidableEq

/-- A result, or a failure with the state it happened in. -/
abbrev Outcome (α : Type) := Except (Fault × Server) α

namespace Server

/-- `GetClientByFd`: the position of the first record with the descriptor, or
the end of the table. -/
def getClientByFd (s : Server) (fd : Int) : Nat := s.clientTable.findIdx (·.fd = fd)

/-- `GetClientByID`. -/
def getClientByID (s : Server) (id : Int) : Nat := s.clientTable.findIdx (·.id = id)

/-- Dereference an iterator of the client table. -/
def client (s : Server) (iter : Nat) : Outcome ClientInfo :=
  match s.clientTable[iter]? with
  | some c => .ok c
  | none => .error (.endIterator, s)

/-- Read `id_table` at an index that need not be in range. -/
def idAt (s : Server) (index : Int) : Outcome Int :=
  if 0 ≤ index then
    match s.idTable[index.toNat]? with
    | some mark => .ok mark
    | none => .error (.idTable, s)
  else .error (.idTable, s)

/-- Clear an entry of `id_table`. -/
def clearId (s : Server) (index : Int) : Outcome Server :=
  if 0 ≤ index ∧ index.toNat < s.idTable.length then
    .ok { s with idTable := s.idTable.set index.toNat 0 }
  else .error (.idTable, s)

/-- Change the record behind an iterator. -/
def update (s : Server) (iter : Nat) (change : ClientInfo → ClientInfo) : Server :=
  { s with clientTable := s.clientTable.modify iter change }

/-- The descriptors of the process are others now. -/
def withProcess (s : Server) (p : Process) : Server := { s with process := p }

/-- The environment of the process is another one now. -/
def withEnvironment (s : Server) (e : Environment) : Server := { s with environment := e }

/-- Write a text to a descriptor. -/
def write (s : Server) (fd : Int) (text : Str) : Server :=
  { s with output := s.output ++ [(fd, text)] }

/-- A call is added to the log. -/
def logged (s : Server) (call : Call) : Server := { s with calls := s.calls ++ [call] }

end Server

/-- The actions `BroadCast` distinguishes. -/
inductive Action where
  | login
  | logout
  | name
  | yell
  | send
  | recv
  deriving DecidableEq

/-- The text of a broadcast. Only the two user-pipe texts look up another client. -/
def broadcastText (s : Server) (action : Action) (msg : Str) (cur : ClientInfo) (targetId : Int) :
    Outcome Str :=
  match action with
  | .login => .ok (str "*** User '(no name)' entered from " ++ cur.userIp ++ str ":" ++
      decimal cur.port ++ str ". ***\n")
  | .logout => .ok (str "*** User '" ++ cur.userName ++ str "' left. ***\n")
  | .name => .ok (str "*** User from " ++ cur.userIp ++ str ":" ++ decimal cur.port ++
      str " is named '" ++ cur.userName ++ str "'. ***\n")
  | .yell => .ok (str "*** " ++ cur.userName ++ str " yelled ***: " ++ msg ++ str "\n")
  | .send => do
    let target ← s.client (s.getClientByID targetId)
    return str "*** " ++ cur.userName ++ str " (#" ++ decimal cur.id ++ str ") just piped '" ++
      msg ++ str "' to " ++ target.userName ++ str " (#" ++ decimal target.id ++ str ") ***\n"
  | .recv => do
    let target ← s.client (s.getClientByID targetId)
    return str "*** " ++ cur.userName ++ str " (#" ++ decimal cur.id ++
      str ") just received from " ++ target.userName ++ str " (#" ++ decimal target.id ++
      str ") by '" ++ msg ++ str "' ***\n"

/-- `BroadCast`: the same text to every watched descriptor but the listening
socket. The source computes the text anew for each of them, so without a
recipient nothing is looked up. The order of writes to different sockets is
that of the table here; no socket sees it. -/
def broadCast (s : Server) (action : Action) (msg : Str) (cur : ClientInfo) (targetId : Int) :
    Outcome Server :=
  match s.afds.filter (· ≠ s.msock) with
  | [] => .ok s
  | recipients => do
    let text ← broadcastText s action msg cur targetId
    return { s with output := s.output ++ recipients.map (·, text) }

end NetProg.SingleProc
