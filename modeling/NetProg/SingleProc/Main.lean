import NetProg.SingleProc.Rounds
import NetProg.Library.Runs

/-!
# Lines, logins and departures

`ClientExec` runs one line of a client. The main loop of the server accepts
connections, hands what it receives from a client to `ClientExec`, and removes a
client that has sent `exit` or whose connection was closed. These are the events
of the server; what `select` reports says which of them can happen.

After `exit` the record to remove is found by its id, after a closed connection
`EraseClientVector` is called with the descriptor in place of the id.
-/

namespace NetProg.SingleProc

open Loops Outcomes Runs

/-- `SetAllEnv`: every entry of the client's environment, in order. -/
def setAllEnv (e : Environment) (envVector : List EnvInfo) : Environment :=
  envVector.foldl (fun e info => e.setEnv info.envVar info.envVal) e

/-- The server at the start of a line: the standard descriptors go to the
client, the environment becomes the client's. -/
def beginLine (s : Server) (cli : ClientInfo) : Server :=
  (s.withProcess ((s.process.dup2 cli.fd 1).dup2 cli.fd 2)).withEnvironment
    (setAllEnv s.environment.clearenv cli.envVector)

/-- `ClientExec`: the state after the line and its status. -/
def clientExec (world : World) (s : Server) (iter : Nat) (cliMsg : Str) :
    Outcome (Server × Int) := do
  let cli ← s.client iter
  let begun := beginLine s cli
  if cliMsg = [] then return (begun, 0)
  else
    let (ended, status) ← execCmds ⟨iter, cli.fd, cliMsg, world⟩ begun (words cliMsg)
    return (ended.write cli.fd (str "% "), status)

/-- The frames at the heads of the rounds of a line, with what `ExecCmds` knows
of its caller. -/
def visited (world : World) (s : Server) (iter : Nat) (cliMsg : Str) : List (Job × Frame) :=
  match s.clientTable[iter]? with
  | none => []
  | some cli =>
    (frames ⟨iter, cli.fd, cliMsg, world⟩ (beginLine s cli) (words cliMsg)).map
      (⟨iter, cli.fd, cliMsg, world⟩, ·)

/-- The rule for a line: an invariant of the rounds, under a condition met at the head of each of
them. The line starts from the tables as they are with the environment and the socket of its
client, and ends with the prompt; what holds in between is a matter of the rounds. -/
theorem clientExec_ends {world : World} {s : Server} {iter : Nat} {cliMsg : Str}
    (holds meets : Job → Frame → Prop) (good : Server → Prop) (bad : Fault × Server → Prop)
    (absent : s.clientTable[iter]? = none → bad (.endIterator, s))
    (begun : ∀ cli, s.clientTable[iter]? = some cli → good (beginLine s cli) ∧
      holds ⟨iter, cli.fd, cliMsg, world⟩
        (Frame.initial (beginLine s cli) cli.fd (words cliMsg)))
    (round : ∀ job f, job.cli = iter → holds job f → meets job f →
      Ends (round job f) (Round.Holds (holds job) (fun result => good result.1)) bad)
    (printed : ∀ ended fd text, good ended → good (ended.write fd text))
    (met : ∀ v ∈ visited world s iter cliMsg, meets v.1 v.2) :
    Ends (clientExec world s iter cliMsg) (fun result => good result.1) bad := by
  rw [clientExec]
  refine Ends.bind_eq (fun failure missing => ?_) (fun cli isCli => ?_)
  · obtain ⟨none, fault, server⟩ := client_eq_error.mp missing
    rw [show failure = (.endIterator, s) from Prod.ext fault server]
    exact absent none
  have found := client_eq_ok.mp isCli
  obtain ⟨blank, initial⟩ := begun cli found
  simp only
  split
  · exact blank
  · refine Ends.bind (fun result => good result.1) ?_ (fun result kept => printed _ _ _ kept)
    refine (cmdLoop ⟨iter, cli.fd, cliMsg, world⟩).run_ends (holds _) (meets _)
      (fun result => good result.1) bad (fun f held met => round _ f rfl held met) _ initial
      (fun f head => ?_)
    apply met (_, f)
    simp only [visited, found]
    exact List.mem_map_of_mem head

/-- The rule for a line with an invariant that speaks of what was seen at the heads of its rounds
so far. Nothing is seen at the end of the words. It is what one needs where a condition is put on
the words of a line one after the other and the line may break off in between. -/
theorem clientExec_traces {γ : Type} {world : World} {s : Server} {iter : Nat} {cliMsg : Str}
    (look : Job → Frame → List γ) (holds : List γ → Job → Frame → Prop)
    (meets : Job → Frame → Prop) (good : List γ → Server → Prop) (bad : List γ → Prop)
    (idle : ∀ job f, f.isFinalArgv = false → f.cmds = [] → look job f = []) (log : List γ)
    (absent : bad log)
    (begun : ∀ cli, s.clientTable[iter]? = some cli → good log (beginLine s cli) ∧
      holds log ⟨iter, cli.fd, cliMsg, world⟩
        (Frame.initial (beginLine s cli) cli.fd (words cliMsg)))
    (round : ∀ log job f, job.cli = iter → holds log job f → meets job f →
      Ends (round job f) (Round.Holds (holds (log ++ look job f) job)
        (fun result => good (log ++ look job f) result.1)) (fun _ => bad (log ++ look job f)))
    (printed : ∀ log ended fd text, good log ended → good log (ended.write fd text))
    (met : ∀ v ∈ visited world s iter cliMsg, meets v.1 v.2) :
    Ends (clientExec world s iter cliMsg)
      (fun result => good (log ++ (visited world s iter cliMsg).flatMap (fun v => look v.1 v.2))
        result.1)
      (fun _ => bad (log ++ (visited world s iter cliMsg).flatMap (fun v => look v.1 v.2))) := by
  rw [clientExec]
  refine Ends.bind_eq (fun failure missing => ?_) (fun cli isCli => ?_)
  · simpa [visited, (client_eq_error.mp missing).1] using absent
  have found := client_eq_ok.mp isCli
  obtain ⟨blank, initial⟩ := begun cli found
  have seen : (visited world s iter cliMsg).flatMap (fun v => look v.1 v.2) =
      (frames ⟨iter, cli.fd, cliMsg, world⟩ (beginLine s cli) (words cliMsg)).flatMap
        (look ⟨iter, cli.fd, cliMsg, world⟩) := by
    simp only [visited, found, List.flatMap_map]
  simp only
  split
  · rename_i empty
    subst empty
    have none : (frames ⟨iter, cli.fd, [], world⟩ (beginLine s cli) (words [])).flatMap
        (look ⟨iter, cli.fd, [], world⟩) = [] := by
      have nothing := idle ⟨iter, cli.fd, [], world⟩ (Frame.initial (beginLine s cli) cli.fd [])
        rfl rfl
      simpa [frames, Loop.rounds, Loop.heads, cmdLoop, SingleProc.round, Frame.initial, words]
        using nothing
    simpa [seen, none] using blank
  · rw [seen]
    refine Ends.bind (fun result => good _ result.1) ?_ (fun result kept => printed _ _ _ _ kept)
    refine (cmdLoop ⟨iter, cli.fd, cliMsg, world⟩).run_traces (look _) (fun log => holds log _)
      (meets _) (fun log result => good log result.1) (fun log _ => bad log)
      (fun log f held met => round log _ f rfl held met) log _ initial (fun f head => ?_)
    apply met (_, f)
    simp only [visited, found]
    exact List.mem_map_of_mem head

/-- What `ClientExec` gets of the bytes of one `recv`: the last byte is replaced
by a zero, and the string ends at the first zero. -/
def cliMsg (chunk : Str) : Str := chunk.dropLast.takeWhile (· ≠ 0)

/-- `EraseClientVector`, over the records of the table. Pipes to the id leave
every record with both ends closed; a record with the id leaves with its
vectors, whose ends stay open. -/
def eraseClientVector (id : Int) : List ClientInfo → Process → List ClientInfo × Process
  | [], p => ([], p)
  | c :: rest, p =>
    let (kept, closed) := UserPipes.eraseTarget id c.userpipeVector p
    let (others, after) := eraseClientVector id rest closed
    (if c.id = id then others else { c with userpipeVector := kept } :: others, after)

/-- `GetAvaliableID`: the first free id, and the table with it taken. -/
def getAvaliableID : List Int → Option (Int × List Int)
  | [] => none
  | mark :: rest =>
    if mark = 0 then some (1, 1 :: rest)
    else (getAvaliableID rest).map (fun found => (found.1 + 1, mark :: found.2))

/-- `PrintWelcome`. -/
def welcome : Str :=
  str "****************************************\n" ++
  str "** Welcome to the information server. **\n" ++
  str "****************************************\n"

/-- `FD_SET` on the watched descriptors. -/
def fdSet (afds : List Int) (fd : Int) : List Int := if fd ∈ afds then afds else afds ++ [fd]

/-- `FD_CLR`. -/
def fdClr (afds : List Int) (fd : Int) : List Int := afds.filter (· ≠ fd)

/-- The record of a client that has just connected. -/
def newClient (fd id : Int) (userIp : Str) (port made : Nat) : ClientInfo where
  fd := fd
  id := id
  userName := str "(no name)"
  userIp := userIp
  port := port
  envVector := [⟨str "PATH", str "bin:."⟩]
  pipeVector := []
  userpipeVector := []
  made := made

/-- A connection is accepted. Without a free id the new descriptor stays open
and is forgotten. -/
def acceptClient (s : Server) (userIp : Str) (port : Nat) : Outcome Server :=
  let accepted := s.withProcess s.process.accept.2
  let ssock := s.process.accept.1
  match getAvaliableID s.idTable with
  | none => .ok accepted
  | some (id, idTable) => do
    let cli := newClient ssock id userIp port s.process.made
    let entered := { accepted with
      idTable := idTable
      clientTable := s.clientTable ++ [cli]
      afds := fdSet s.afds ssock }
    let told ← broadCast (entered.write ssock welcome) .login [] cli (-1)
    return told.write ssock (str "% ")

/-- Both ways out of the tables: the id is freed, `EraseClientVector` runs with
the given argument, and the descriptor is closed and no longer watched. -/
def logout (s : Server) (cli : ClientInfo) (erased fd : Int) : Outcome Server := do
  let told ← broadCast s .logout [] cli (-1)
  let freed ← told.clearId (cli.id - 1)
  let (clientTable, p) := eraseClientVector erased freed.clientTable freed.process
  return { freed with
    clientTable := clientTable
    process := p.close fd
    afds := fdClr freed.afds fd }

/-- `recv` returned zero or an error. -/
def clientClosed (s : Server) (fd : Int) : Outcome Server := do
  let cli ← s.client (s.getClientByFd fd)
  logout s cli cli.fd fd

/-- The standard descriptors after an `exit`: both are closed and made copies of
descriptor 0 again. -/
def restore (p : Process) : Process := (((p.close 1).close 2).dup2 0 1).dup2 0 2

/-- `recv` returned the bytes of one chunk. -/
def clientLine (world : World) (s : Server) (fd : Int) (chunk : Str) : Outcome Server := do
  let (ended, status) ← clientExec world s (s.getClientByFd fd) (cliMsg chunk)
  if status = -1 then
    let cli ← ended.client (s.getClientByFd fd)
    let left ← logout ended cli cli.id fd
    return left.withProcess (restore left.process)
  else return ended

/-- What can happen between two states of the server: a connection is accepted, a chunk arrives
from a client, or a connection is closed. Any of these can come next at any time. -/
inductive Event where
  | accept (userIp : Str) (port : Nat)
  | line (fd : Int) (chunk : Str) (world : World)
  | closed (fd : Int)

/-- `BUFF_SIZE`. -/
def buffSize : Nat := 2048

/-- What `select` and `recv` can report: only watched descriptors are looked at,
and a chunk is not empty and fits the buffer. -/
def offers (s : Server) : Event → Prop
  | .accept _ _ => True
  | .line fd chunk _ => (fd ∈ s.afds ∧ fd ≠ s.msock) ∧ chunk ≠ [] ∧ chunk.length ≤ buffSize
  | .closed fd => fd ∈ s.afds ∧ fd ≠ s.msock

instance decidableOffers (s : Server) : (e : Event) → Decidable (offers s e)
  | .accept _ _ => inferInstanceAs (Decidable True)
  | .line fd chunk _ =>
    inferInstanceAs (Decidable ((fd ∈ s.afds ∧ fd ≠ s.msock) ∧ chunk ≠ [] ∧ chunk.length ≤ buffSize))
  | .closed fd => inferInstanceAs (Decidable (fd ∈ s.afds ∧ fd ≠ s.msock))

/-- Serve one event. -/
def serve (s : Server) : Event → Outcome Server
  | .accept userIp port => acceptClient s userIp port
  | .line fd chunk world => clientLine world s fd chunk
  | .closed fd => clientClosed s fd

/-- The server before its first event, listening on descriptor 3. -/
def Server.initial : Server where
  process := Process.initial.listen.2
  msock := Process.initial.listen.1
  afds := [Process.initial.listen.1]
  idTable := List.replicate maxClientSize 0
  clientTable := []
  environment := ⟨[], []⟩
  output := []
  calls := []

/-- The server as a system of events. What the operating system answers in the course of a line is
part of its event, so that a run fixes it. -/
def system : System Server Event (Fault × Server) where
  start := Server.initial
  offers := offers
  serve := serve

instance (s : Server) (e : Event) : Decidable (system.offers s e) :=
  inferInstanceAs (Decidable (offers s e))

end NetProg.SingleProc
