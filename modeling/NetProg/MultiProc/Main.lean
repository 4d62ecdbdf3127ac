import NetProg.MultiProc.Rounds
import NetProg.Library.Runs

/-!
# Logins and lines

The server forks a process for every connection, which enters its client in the
first free slot and executes its lines. A line is executed to its end together with
the children it forks and the handlers it sets off, so the server has two kinds of
events. A line that fails ends the process of its client, or leaves it waiting; its
slot stays taken then. After `exit` the process empties the slot and the user pipes
to its client.
-/

namespace NetProg.MultiProc

open Runs

namespace Server

/-- The index of the first slot that is not valid, for `GetAvaliableIDFromSHM`. -/
def freeSlot (g : Server) : Option Nat := g.table.findIdx? (fun client => !client.valid)

/-- `AddClient` and the start of `ClientExec`, in the process of a new client. -/
def login (g : Server) (slot pid : Nat) (userIp : Str) (port : Nat) : Outcome Server :=
  ((({ g with table := g.table.set slot ⟨true, pid, slot + 1, str "(no name)", userIp, port⟩
              : Server }.onShell (slot + 1) (fun _ => .initial)).withReading (slot + 1) none).withSignal
    (slot + 1) false).broadcast (slot + 1) .login

/-- One pass of the loop in `main` that empties the records to a client that left. -/
def clearFifo (curId : Nat) (g : Server) (sourceId : Nat) : Server :=
  if (g.fifo sourceId curId).outFd ≠ -1 then
    (g.unlink sourceId curId).onFifo sourceId curId (fun _ => .empty)
  else g

/-- The table with one slot not valid any more. -/
def invalidate (g : Server) (curId : Nat) : Server :=
  { g with table := g.table.modify (curId - 1) (fun client => { client with valid := false }) }

/-- What `main` does after `exit`. -/
def logout (g : Server) (curId : Nat) : Outcome Server := do
  let told ← g.broadcast curId .logout
  return (ids.foldl (clearFifo curId) (told.invalidate curId)).onShell curId
    ({ · with status := .exited })

/-- A line that failed ended its process, or left it waiting for a FIFO. -/
def fails (g : Server) (curId : Nat) (fault : Fault) : Server :=
  g.onShell curId ({ · with status := if fault = .blocked then .stuck else .exited })

end Server

/-- One line of a client with everything it sets off: the server after it, and what
the line failed with. -/
def execLine (job : Job) (g : Server) : Server × Option Fault :=
  if job.line = [] then (g, none)
  else
    match execCmds job g (words job.line) with
    | .error (fault, failed) => ((failed.resume (fun _ => true)).fails job.curId fault, some fault)
    | .ok (done, status) =>
      let ended := done.resume (fun _ => true)
      if status = -1 then
        match ended.logout job.curId with
        | .ok left => (left, none)
        | .error (fault, failed) => (failed.fails job.curId fault, some fault)
      else (ended, none)

/-- A connection is accepted; a client sends a line. An `exit`, with the clean-up it sets off, is
a line. -/
inductive Event where
  | login (pid : Nat) (userIp : Str) (port : Nat)
  | line (job : Job)

/-- Serve one event. -/
def serve (g : Server) : Event → Except Empty Server
  | .login pid userIp port =>
    match g.freeSlot with
    | none => .ok g
    | some slot =>
      match g.login slot pid userIp port with
      | .ok entered => .ok entered
      | .error (fault, failed) => .ok (failed.fails (slot + 1) fault)
  | .line job => .ok (execLine job g).1

/-- A connection is accepted while there is a free slot; a line is read by a process
that runs, is logged in, and has no handler waiting. -/
def offers (g : Server) : Event → Prop
  | .login _ _ _ => g.freeSlot.isSome = true
  | .line job => (getClientByID g.table job.curId).isSome = true ∧
      (g.shells job.curId).status = .running ∧ g.reading job.curId = none

instance decidableOffers (g : Server) : (event : Event) → Decidable (offers g event)
  | .login _ _ _ => inferInstanceAs (Decidable (_ = _))
  | .line _ => inferInstanceAs (Decidable (_ ∧ _ ∧ _))

/-- The multi-process server as a system of events: logins and lines, each done before the next.
Where the order of smaller steps matters there are systems of their own, which this one is
connected to. -/
def system : System Server Event Empty where
  start := .initial
  offers := offers
  serve := serve

instance (g : Server) (event : Event) : Decidable (system.offers g event) :=
  inferInstanceAs (Decidable (offers g event))

end NetProg.MultiProc
