import NetProg.MultiProc.State

/-!
# User pipes

A user pipe is made by its sender: the FIFO file, its name in the shared record, and
a signal to the receiver. The handler of the signal goes through the records to its
client and opens every FIFO that has a name and no descriptor. The child that runs
the sender's command opens the FIFO for writing. Each of the two waits for the
other. The receiver takes the pipe by its descriptor, and removes the file when its
command has been executed.
-/

namespace NetProg.MultiProc

/-- The ids of the slots. -/
def ids : List Nat := (List.range maxClientSize).map (· + 1)

namespace Server

/-- The receiver's side of an open FIFO: its descriptor in the record. -/
def opensToRead (g : Server) (sourceId targetId : Nat) : Server :=
  let (outFd, p) := (g.shells targetId).process.openFile
  (g.onShell targetId (·.withProcess p)).onFifo sourceId targetId ({ · with outFd := outFd })

/-- The writing child of a FIFO gets its descriptor, which it enters in the record. -/
def opensToWrite (g : Server) (writer : Writer) : Server :=
  { g.onFifo writer.sourceId writer.targetId ({ · with inFd := writer.inFd }) with
    writing := g.writing.erase writer }

/-- The loop of the handler over the records to its client, from some source on. An
`open` of a file that is not there fails; one that finds a child waiting returns at
once, and so does the child's; any other one waits. -/
def openFifos (g : Server) (targetId : Nat) : List Nat → Server
  | [] => g.withReading targetId none
  | sourceId :: rest =>
    let record := g.fifo sourceId targetId
    if record.outFd = -1 ∧ record.name ≠ [] ∧ g.files sourceId targetId = true then
      match g.writing.find? (fun w => w.sourceId = sourceId ∧ w.targetId = targetId) with
      | some writer =>
        ((g.opensToWrite writer).opensToRead sourceId targetId).openFifos targetId rest
      | none => g.withReading targetId (some sourceId)
    else g.openFifos targetId rest

/-- The handler from some source on; at its end it is entered again if the signal has
come once more. -/
def handle (g : Server) (targetId : Nat) (sources : List Nat) : Server :=
  let handled := g.openFifos targetId sources
  if handled.reading targetId = none ∧ handled.signalled targetId = true then
    (handled.withSignal targetId false).openFifos targetId ids
  else handled

/-- `kill(pid, SIGUSR2)`. The signal waits while its handler is running. -/
def signalUser (g : Server) (targetId : Nat) : Server :=
  if (g.shells targetId).status = .exited then g
  else
    match g.reading targetId with
    | some _ => g.withSignal targetId true
    | none => g.handle targetId ids

/-- `CreateUserPipe`. `mkfifo` fails where the file exists. The signal to the own
process is handled before `kill` returns. -/
def createUserPipe (g : Server) (curId targetId : Nat) : Outcome Server :=
  if g.files curId targetId = true then .error (.mkfifoError, g)
  else
    let made := (g.withFile curId targetId true).onFifo curId targetId
      ({ · with name := fifoPath curId targetId })
    let signalled := made.signalUser targetId
    if (signalled.reading curId).isSome then .error (.blocked, signalled) else .ok signalled

/-- `SetUserPipeOut`, in the child: whether its `open` returns, and the server after
it. The handler that was waiting for it goes on with the next source. -/
def setUserPipeOut (g : Server) (writer : Writer) : Bool × Server :=
  if g.files writer.sourceId writer.targetId = false then
    (true, g.onFifo writer.sourceId writer.targetId ({ · with inFd := -1 }))
  else if g.reading writer.targetId = some writer.sourceId then
    (true, ((g.opensToWrite writer).opensToRead writer.sourceId writer.targetId).handle
      writer.targetId (ids.filter (writer.sourceId < ·)))
  else if (g.fifo writer.sourceId writer.targetId).outFd ≠ -1 then (true, g.opensToWrite writer)
  else (false, { g with writing := g.writing ++ [writer] })

/-- Forked children come to their `open`, those a schedule lets come now. -/
def resume (g : Server) (now : Writer → Bool) : Server :=
  (g.forked.filter now).foldl (fun h writer => (h.setUserPipeOut writer).2)
    { g with forked := g.forked.filter (fun writer => !now writer) }

/-- `GetUserPipeFd`: the descriptor, and the record without its write end and marked
used. -/
def getUserPipeFd (g : Server) (sourceId curId : Nat) : Int × Server :=
  ((g.fifo sourceId curId).outFd,
    g.onFifo sourceId curId ({ · with inFd := -1, isUsed := true }))

/-- `EraseUserPipe`: a record marked used is emptied and its file removed; the
descriptor is not closed. -/
def eraseUserPipe (g : Server) (sourceId curId : Nat) : Server :=
  if (g.fifo sourceId curId).isUsed = true then
    (g.unlink sourceId curId).onFifo sourceId curId (fun _ => .empty)
  else g

end Server

end NetProg.MultiProc
