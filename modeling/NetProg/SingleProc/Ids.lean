import Mathlib.Data.List.Nodup
import NetProg.SingleProc.Tables

/-!
# Ids in use

A line changes pipes, names and environments, but neither who is in the tables
nor under which id or descriptor. So what a line does to the consistency of ids
is nothing, and only logins and departures have to be looked at: a login takes
the lowest free id, a departure frees the id of the record it removes. The
departure after a closed connection does so only if the client's descriptor and
id are the same number.
-/

namespace NetProg.SingleProc

open Loops Outcomes Runs

/-- The same clients under the same ids and descriptors, watched alike. It is what all rounds
keep: only logins and departures change who is there. -/
structure SameRegistry (t u : Tables) : Prop where
  msock : u.msock = t.msock
  afds : u.afds = t.afds
  idTable : u.idTable = t.idTable
  fds : u.holders.map Holder.fd = t.holders.map Holder.fd
  ids : u.holders.map Holder.id = t.holders.map Holder.id
  mades : u.holders.map Holder.made = t.holders.map Holder.made

namespace SameRegistry

theorem refl (t : Tables) : SameRegistry t t := ⟨rfl, rfl, rfl, rfl, rfl, rfl⟩

theorem of_eq {t u : Tables} (same : u = t) : SameRegistry t u := same ▸ refl t

theorem trans {t u v : Tables} (first : SameRegistry t u) (second : SameRegistry u v) :
    SameRegistry t v :=
  ⟨second.msock.trans first.msock, second.afds.trans first.afds,
    second.idTable.trans first.idTable, second.fds.trans first.fds,
    second.ids.trans first.ids, second.mades.trans first.mades⟩

theorem process (t : Tables) (p : Process) : SameRegistry t { t with process := p } :=
  ⟨rfl, rfl, rfl, rfl, rfl, rfl⟩

/-- Changing the pipes behind an iterator, and the process. -/
theorem shifted (t : Tables) (p : Process) (iter : Nat) (shift : Holder → Holder)
    (fd : ∀ h, (shift h).fd = h.fd) (id : ∀ h, (shift h).id = h.id)
    (made : ∀ h, (shift h).made = h.made) :
    SameRegistry t { t with process := p, holders := t.holders.modify iter shift } where
  msock := rfl
  afds := rfl
  idTable := rfl
  fds := (map_modify _ iter shift (fun x => x) Holder.fd (fun h _ => fd h)).trans
    (List.modify_id iter _)
  ids := (map_modify _ iter shift (fun x => x) Holder.id (fun h _ => id h)).trans
    (List.modify_id iter _)
  mades := (map_modify _ iter shift (fun x => x) Holder.made (fun h _ => made h)).trans
    (List.modify_id iter _)

end SameRegistry

/-- The server a round ends with, whether the loop goes on or not. -/
def stepServer : Step → Server
  | .again next => next.server
  | .leave (server, _) => server

theorem registry_pipeVector (s : Server) (iter : Nat) (pipeVector : List PipeFd) (p : Process) :
    SameRegistry s.tables
      ((s.update iter ({ · with pipeVector := pipeVector })).withProcess p).tables := by
  rw [tables_pipeVector]
  exact .shifted _ p iter _ (fun _ => rfl) (fun _ => rfl) (fun _ => rfl)

theorem registry_userpipeVector (s : Server) (iter : Nat) (userpipeVector : List UserPipeFd)
    (p : Process) : SameRegistry s.tables
      ((s.update iter ({ · with userpipeVector := userpipeVector })).withProcess p).tables := by
  rw [tables_userpipeVector]
  exact .shifted _ p iter _ (fun _ => rfl) (fun _ => rfl) (fun _ => rfl)

/-- Reading a word keeps the registry. -/
theorem Reads.registry {job : Job} {f : Frame} {word : Str} {rest : List Str} {step : Step}
    (reads : Reads job f word rest step) :
    SameRegistry f.server.tables (stepServer step).tables := by
  cases reads with
  | prog | argument | missing | exists_ | absent => exact .refl _
  | redirectOut | redirectIn => exact .process _ _
  | pipe => exact registry_pipeVector _ _ _ _
  | userOut => exact registry_userpipeVector _ _ _ _
  | userIn => exact registry_userpipeVector _ _ _ _

/-- When the input is detached, the client is there, its due pipe is gone and the others count
down. -/
theorem detach_eq_ok {job : Job} {server after : Server} {needClose : Bool} {inFd : Int}
    {inPipe : Option Object} (detached : detach job server needClose inFd inPipe = .ok after) :
    ∃ cli, server.clientTable[job.cli]? = some cli ∧
      after = (server.update job.cli ({ · with
          pipeVector := NumberedPipes.countdownPipeVector
            (NumberedPipes.erasePipeVector cli.pipeVector server.process).1 })).withProcess
        (if needClose then
          (NumberedPipes.erasePipeVector cli.pipeVector server.process).2.closeEnd inFd inPipe
        else (NumberedPipes.erasePipeVector cli.pipeVector server.process).2) := by
  rw [detach] at detached
  obtain ⟨cli, isCli, rest⟩ := bind_eq_ok.mp detached
  cases rest
  exact ⟨cli, client_eq_ok.mp isCli, rfl⟩

/-- When the used pipes of a client are erased, the client is there and loses just the marked
ones. -/
theorem eraseUsed_eq_ok {server after : Server} {id : Int}
    (erased : eraseUsed server id = .ok after) :
    ∃ candidate, server.clientTable[server.getClientByID id]? = some candidate ∧
      after = (server.update (server.getClientByID id) ({ · with userpipeVector :=
          (UserPipes.eraseUserPipeVector candidate.userpipeVector server.process).1 })).withProcess
        (UserPipes.eraseUserPipeVector candidate.userpipeVector server.process).2 := by
  rw [eraseUsed] at erased
  obtain ⟨candidate, isCandidate, rest⟩ := bind_eq_ok.mp erased
  cases rest
  exact ⟨candidate, client_eq_ok.mp isCandidate, rfl⟩

/-- The rule for erasing the used user pipes of several clients. -/
theorem eraseUsed_induction {ids : List Int} {server after : Server} (holds : Server → Prop)
    (initial : holds server)
    (erases : ∀ (s : Server) (candidate : ClientInfo) (iter : Nat), holds s →
      s.clientTable[iter]? = some candidate →
      holds ((s.update iter ({ · with userpipeVector :=
          (UserPipes.eraseUserPipeVector candidate.userpipeVector s.process).1 })).withProcess
        (UserPipes.eraseUserPipeVector candidate.userpipeVector s.process).2))
    (erased : ids.foldlM eraseUsed server = .ok after) : holds after := by
  induction ids generalizing server with
  | nil =>
    cases erased
    exact initial
  | cons id rest ih =>
    rw [List.foldlM_cons] at erased
    obtain ⟨one, first, others⟩ := bind_eq_ok.mp erased
    obtain ⟨candidate, isCandidate, rfl⟩ := eraseUsed_eq_ok first
    exact ih (erases server candidate _ initial isCandidate) others

/-- Erasing used user pipes of several clients keeps the registry. -/
theorem eraseUsed_registry {ids : List Int} {server after : Server}
    (erased : ids.foldlM eraseUsed server = .ok after) :
    SameRegistry server.tables after.tables :=
  eraseUsed_induction (fun t => SameRegistry server.tables t.tables) (.refl _)
    (fun _ _ _ same _ => same.trans (registry_userpipeVector _ _ _ _)) erased

/-- An execution keeps the registry. -/
theorem Executes.registry {job : Job} {f next : Frame} (executes : Executes job f next) :
    SameRegistry f.server.tables next.server.tables := by
  obtain ⟨announced, cli, needClosePipe, inFd, inPipe, p, ran, status, detached, erased, announces,
    -, -, built, detaches, erases, rfl⟩ := executes.steps
  have told : announced.tables = f.server.tables := (announce_keeps job f).returned announces
  have kept := (builtin_keeps _ _ _ _).returned built
  obtain ⟨_, -, rfl⟩ := detach_eq_ok detaches
  have attached : SameRegistry f.server.tables ran.tables := by
    rw [kept, tables_logged, tables_withProcess, told]
    exact .process _ _
  exact (attached.trans (registry_pipeVector _ _ _ _)).trans (eraseUsed_registry erases)

/-- One round keeps the registry. -/
theorem round_registry {job : Job} {f : Frame} {step : Step} (ran : round job f = .ok step) :
    SameRegistry f.server.tables (stepServer step).tables := by
  rw [round] at ran
  split at ran
  · obtain ⟨next, rfl, executes⟩ := execute_executes ran
    exact executes.registry
  · split at ran
    · cases ran
      exact .refl _
    · have read := (readWord_reads ran).registry
      rwa [initFd_server] at read

/-- What every round keeps of the server, the whole loop keeps. -/
theorem rounds_keep {job : Job} (holds : Server → Prop)
    (kept : ∀ f step, holds f.server → round job f = .ok step → holds (stepServer step))
    {f : Frame} {result : Server × Int} (initial : holds f.server)
    (ran : (cmdLoop job).run f = .ok result) : holds result.1 :=
  (cmdLoop job).run_keeps (fun f => holds f.server) (fun result => holds result.1)
    (fun f next held again => kept f (.again next) held again)
    (fun f value held leave => kept f (.leave value) held leave) initial ran

/-- So do all rounds of a line, from any frame. -/
theorem rounds_registry {job : Job} {f : Frame} {result : Server × Int}
    (ran : (cmdLoop job).run f = .ok result) : SameRegistry f.server.tables result.1.tables :=
  rounds_keep (fun s => SameRegistry f.server.tables s.tables)
    (fun _ _ same one => same.trans (round_registry one)) (.refl _) ran

/-- A line keeps the registry. -/
theorem clientExec_registry {world : World} {s ended : Server} {iter : Nat} {cliMsg : Str}
    {status : Int} (ran : clientExec world s iter cliMsg = .ok (ended, status)) :
    SameRegistry s.tables ended.tables := by
  rw [clientExec] at ran
  obtain ⟨cli, -, ran⟩ := bind_eq_ok.mp ran
  have begun : SameRegistry s.tables (beginLine s cli).tables := .process _ _
  simp only at ran
  split at ran
  · cases ran
    exact begun
  · obtain ⟨⟨done, _⟩, looped, ran⟩ := bind_eq_ok.mp ran
    cases ran
    exact begun.trans (rounds_registry looped)

/-- A broadcast that names no other client does not fail. -/
theorem broadCast_told (s : Server) (action : Action) (msg : Str) (cur : ClientInfo)
    (targetId : Int) (notSend : action ≠ .send) (notRecv : action ≠ .recv) :
    ∃ output, broadCast s action msg cur targetId = .ok { s with output := output } := by
  have told : ∃ text, broadcastText s action msg cur targetId = .ok text := by
    cases action with
    | send => exact absurd rfl notSend
    | recv => exact absurd rfl notRecv
    | login | logout | name | yell => exact ⟨_, rfl⟩
  obtain ⟨text, told⟩ := told
  rw [broadCast]
  split
  · exact ⟨s.output, rfl⟩
  · rw [told]
    exact ⟨_, rfl⟩

/-- A record without its pipes to a client. -/
def Holder.without (id : Int) (h : Holder) : Holder :=
  { h with userpipeVector := h.userpipeVector.filter (·.targetId ≠ id) }

/-- The tables after the record with an id has left. -/
def Tables.depart (t : Tables) (id fd : Int) (p : Process) : Tables where
  process := p
  msock := t.msock
  afds := fdClr t.afds fd
  idTable := t.idTable.set (id - 1).toNat 0
  holders := (t.holders.filter (·.id ≠ id)).map (Holder.without id)

/-- `EraseClientVector` removes the records with the id, and every pipe to it. -/
theorem eraseClientVector_holders (id : Int) (clients : List ClientInfo) (p : Process) :
    (eraseClientVector id clients p).1.map ClientInfo.holder =
      ((clients.map ClientInfo.holder).filter (·.id ≠ id)).map (Holder.without id) := by
  induction clients generalizing p with
  | nil => rfl
  | cons c rest ih =>
    have kept := UserPipes.eraseTarget_fst id c.userpipeVector p
    by_cases leaves : c.id = id
    · simp only [eraseClientVector, leaves, if_true, List.map_cons]
      rw [ih, List.filter_cons_of_neg (by simp [ClientInfo.holder, leaves])]
    · simp only [eraseClientVector, leaves, if_false, List.map_cons]
      rw [ih, List.filter_cons_of_pos (by simp [ClientInfo.holder, leaves]), List.map_cons, kept]
      rfl

/-- A departure under an id in range never fails. -/
theorem logout_departs {s : Server} {cli : ClientInfo} (fd : Int) (positive : 1 ≤ cli.id)
    (bounded : cli.id ≤ s.idTable.length) : ∃ after, logout s cli cli.id fd = .ok after ∧
      after.tables = s.tables.depart cli.id fd
        ((eraseClientVector cli.id s.clientTable s.process).2.close fd) := by
  obtain ⟨output, told⟩ := broadCast_told s .logout [] cli (-1) (by simp) (by simp)
  have inRange : 0 ≤ cli.id - 1 ∧ (cli.id - 1).toNat < s.idTable.length := by omega
  let erased := eraseClientVector cli.id s.clientTable s.process
  refine ⟨{ s with
    output := output
    idTable := s.idTable.set (cli.id - 1).toNat 0
    clientTable := erased.1
    process := erased.2.close fd
    afds := fdClr s.afds fd }, ?_, ?_⟩
  · have cleared : Server.clearId { s with output := output } (cli.id - 1) =
        .ok { s with output := output, idTable := s.idTable.set (cli.id - 1).toNat 0 } :=
      if_pos inRange
    rw [logout]
    rw [told, bind_eq_ok]
    refine ⟨_, rfl, ?_⟩
    rw [cleared]
    rfl
  · simp only [Server.tables, Tables.depart, erased, eraseClientVector_holders]

/-- The tables after a login. -/
def Tables.enter (t : Tables) (fd id : Int) : Tables where
  process := t.process.accept.2
  msock := t.msock
  afds := fdSet t.afds fd
  idTable := t.idTable.set (id - 1).toNat 1
  holders := t.holders ++ [⟨fd, id, t.process.made, [], []⟩]

/-- `GetAvaliableID` takes a free id of the table. -/
theorem getAvaliableID_takes {idTable marked : List Int} {id : Int}
    (found : getAvaliableID idTable = some (id, marked)) :
    (1 ≤ id ∧ id ≤ idTable.length) ∧ idTable[(id - 1).toNat]? = some 0 ∧
      marked = idTable.set (id - 1).toNat 1 := by
  induction idTable generalizing id marked with
  | nil => simp [getAvaliableID] at found
  | cons mark rest ih =>
    by_cases free : mark = 0
    · have same : 1 = id ∧ 1 :: rest = marked := by simpa [getAvaliableID, free] using found
      obtain ⟨rfl, rfl⟩ := same
      refine ⟨by simp only [List.length_cons]; omega, by simp [free], by simp⟩
    · simp only [getAvaliableID, free, if_false, Option.map_eq_some_iff, Prod.mk.injEq] at found
      obtain ⟨⟨inner, innerMarked⟩, inRest, sameId, sameMarked⟩ := found
      simp only at sameId sameMarked
      subst sameId sameMarked
      obtain ⟨range, was, rfl⟩ := ih inRest
      have position : (inner + 1 - 1).toNat = (inner - 1).toNat + 1 := by omega
      rw [position]
      refine ⟨by simp only [List.length_cons]; omega, by simpa using was, by simp⟩

/-- A connection is entered under a free id, or forgotten when there is none. -/
theorem acceptClient_enters (s : Server) (userIp : Str) (port : Nat) :
    ∃ after, acceptClient s userIp port = .ok after ∧
      ((after.tables = { s.tables with process := s.process.accept.2 } ∧
        after.clientTable = s.clientTable ∧ getAvaliableID s.idTable = none) ∨
       ∃ id : Int, (1 ≤ id ∧ id ≤ s.idTable.length) ∧ s.idTable[(id - 1).toNat]? = some 0 ∧
        after.tables = s.tables.enter s.process.accept.1 id ∧
        ∃ new, after.clientTable = s.clientTable ++ [new]) := by
  rw [acceptClient]
  cases found : getAvaliableID s.idTable with
  | none => exact ⟨_, rfl, .inl ⟨rfl, rfl, rfl⟩⟩
  | some pair =>
    obtain ⟨id, marked⟩ := pair
    obtain ⟨range, free, rfl⟩ := getAvaliableID_takes found
    obtain ⟨output, told⟩ := broadCast_told
      (Server.write { s.withProcess s.process.accept.2 with
        idTable := s.idTable.set (id - 1).toNat 1
        clientTable := s.clientTable ++ [newClient s.process.accept.1 id userIp port s.process.made]
        afds := fdSet s.afds s.process.accept.1 } s.process.accept.1 welcome)
      .login [] (newClient s.process.accept.1 id userIp port s.process.made) (-1) (by simp) (by simp)
    simp only
    rw [told]
    refine ⟨_, rfl, .inr ⟨id, range, free, ?_, _, rfl⟩⟩
    simp [Server.tables, Tables.enter, Server.write, Server.withProcess, newClient,
      ClientInfo.holder]

/-- Every id in use belongs to exactly one record, and every record has an id in use; a watched
descriptor other than the listening socket belongs to a record. This is the invariant on which
finding a client by its id or its socket rests. -/
structure Agree (t : Tables) : Prop where
  size : t.idTable.length = maxClientSize
  distinct : (t.holders.map Holder.id).Nodup
  inUse : ∀ id : Int, id ∈ t.holders.map Holder.id ↔
    (1 ≤ id ∧ id ≤ maxClientSize) ∧ t.idTable[(id - 1).toNat]? ≠ some 0
  watched : ∀ fd ∈ t.afds, fd ≠ t.msock → fd ∈ t.holders.map Holder.fd

theorem Agree.same {t u : Tables} (agree : Agree t) (same : SameRegistry t u) : Agree u where
  size := same.idTable ▸ agree.size
  distinct := same.ids ▸ agree.distinct
  inUse := by
    rw [same.ids, same.idTable]
    exact agree.inUse
  watched := by
    rw [same.fds, same.afds, same.msock]
    exact agree.watched

theorem getElem_set_ne {idTable : List Int} {id other : Int} (mark : Int) (positive : 1 ≤ id)
    (alsoPositive : 1 ≤ other) (apart : other ≠ id) :
    (idTable.set (id - 1).toNat mark)[(other - 1).toNat]? = idTable[(other - 1).toNat]? :=
  List.getElem?_set_ne (by omega)

theorem getElem_set_self {idTable : List Int} {id : Int} (mark : Int) (positive : 1 ≤ id)
    (bounded : id ≤ idTable.length) :
    (idTable.set (id - 1).toNat mark)[(id - 1).toNat]? = some mark :=
  List.getElem?_set_self (by omega)

@[simp] theorem map_id_without (id : Int) (holders : List Holder) :
    (holders.map (Holder.without id)).map Holder.id = holders.map Holder.id := by
  simp [Function.comp_def, Holder.without]

@[simp] theorem map_fd_without (id : Int) (holders : List Holder) :
    (holders.map (Holder.without id)).map Holder.fd = holders.map Holder.fd := by
  simp [Function.comp_def, Holder.without]

/-- A login takes a free id, so the ids still agree. -/
theorem Agree.enter {t : Tables} (agree : Agree t) {id : Int} (fd : Int) (positive : 1 ≤ id)
    (bounded : id ≤ maxClientSize) (free : t.idTable[(id - 1).toNat]? = some 0) :
    Agree (t.enter fd id) := by
  have unused : id ∉ t.holders.map Holder.id := by
    intro used
    exact ((agree.inUse id).mp used).2 free
  have fits : id ≤ t.idTable.length := by
    rw [agree.size]
    exact bounded
  constructor
  · simpa [Tables.enter] using agree.size
  · simp only [Tables.enter, List.map_append, List.map_cons, List.map_nil]
    exact List.nodup_append.mpr ⟨agree.distinct, by simp, by simpa using unused⟩
  · intro other
    simp only [Tables.enter, List.map_append, List.map_cons, List.map_nil, List.mem_append,
      List.mem_singleton]
    by_cases same : other = id
    · subst same
      rw [getElem_set_self 1 positive fits]
      simp [positive, bounded]
    · by_cases low : 1 ≤ other
      · rw [getElem_set_ne 1 positive low same, agree.inUse other]
        simp only [same, or_false]
      · simp [agree.inUse other, same, low]
  · intro watched member notMsock
    simp only [Tables.enter, List.map_append, List.map_cons, List.map_nil, List.mem_append,
      List.mem_singleton] at member ⊢
    by_cases new : watched = fd
    · exact .inr new
    · have old : watched ∈ t.afds := by
        rw [fdSet] at member
        split at member
        · exact member
        · simpa [new] using member
      exact .inl (agree.watched watched old notMsock)

/-- A departure frees the id of the record it removes, so the ids still agree. -/
theorem Agree.depart {t : Tables} (agree : Agree t) {h : Holder} (member : h ∈ t.holders)
    (p : Process) : Agree (t.depart h.id h.fd p) := by
  have used := (agree.inUse h.id).mp (List.mem_map_of_mem member)
  have fits : h.id ≤ t.idTable.length := by
    rw [agree.size]
    exact used.1.2
  constructor
  · simpa [Tables.depart] using agree.size
  · simp only [Tables.depart, map_id_without]
    exact agree.distinct.sublist (List.filter_sublist.map _)
  · intro other
    simp only [Tables.depart, map_id_without]
    have remaining : other ∈ (t.holders.filter (·.id ≠ h.id)).map Holder.id ↔
        other ∈ t.holders.map Holder.id ∧ other ≠ h.id := by
      constructor
      · intro kept
        obtain ⟨g, inside, rfl⟩ := List.mem_map.mp kept
        obtain ⟨old, apart⟩ := List.mem_filter.mp inside
        exact ⟨List.mem_map_of_mem old, by simpa using apart⟩
      · rintro ⟨old, apart⟩
        obtain ⟨g, inside, rfl⟩ := List.mem_map.mp old
        exact List.mem_map_of_mem (List.mem_filter.mpr ⟨inside, by simpa using apart⟩)
    rw [remaining, agree.inUse other]
    by_cases same : other = h.id
    · subst same
      rw [getElem_set_self 0 used.1.1 fits]
      simp only [ne_eq, not_true_eq_false, and_false]
    · by_cases low : 1 ≤ other
      · rw [getElem_set_ne 0 used.1.1 low same]
        simp only [ne_eq, same, not_false_eq_true, and_true]
      · simp [low]
  · intro watched inside notMsock
    simp only [Tables.depart, map_fd_without]
    obtain ⟨old, apart⟩ := List.mem_filter.mp inside
    obtain ⟨g, holds, rfl⟩ := List.mem_map.mp (agree.watched watched old notMsock)
    have otherId : g.id ≠ h.id := by
      intro same
      have equal : g = h := List.inj_on_of_nodup_map agree.distinct holds member same
      subst equal
      simp at apart
    exact List.mem_map_of_mem (List.mem_filter.mpr ⟨holds, by simpa using otherId⟩)

/-- An iterator found for a descriptor is at a record with it. -/
theorem getClientByFd_fd {s : Server} {fd : Int} {c : ClientInfo}
    (found : s.clientTable[s.getClientByFd fd]? = some c) : c.fd = fd := by
  obtain ⟨bound, rfl⟩ := List.getElem?_eq_some_iff.mp found
  exact of_decide_eq_true (List.findIdx_getElem (p := fun c : ClientInfo => c.fd = fd))

theorem getClientByFd_found {s : Server} {fd : Int} (member : fd ∈ s.tables.holders.map Holder.fd) :
    ∃ c, s.clientTable[s.getClientByFd fd]? = some c := by
  obtain ⟨h, inside, rfl⟩ := List.mem_map.mp member
  obtain ⟨c, inTable, rfl⟩ := List.mem_map.mp inside
  have bound : s.getClientByFd c.holder.fd < s.clientTable.length :=
    List.findIdx_lt_length_of_exists ⟨c, inTable, by simp [ClientInfo.holder]⟩
  exact ⟨_, List.getElem?_eq_getElem bound⟩

/-- An iterator found for an id is at a record with it. -/
theorem getClientByID_id {s : Server} {id : Int} {c : ClientInfo}
    (found : s.clientTable[s.getClientByID id]? = some c) : c.id = id := by
  obtain ⟨bound, rfl⟩ := List.getElem?_eq_some_iff.mp found
  exact of_decide_eq_true (List.findIdx_getElem (p := fun c : ClientInfo => c.id = id))

theorem getClientByID_found {s : Server} {id : Int} (member : id ∈ s.tables.holders.map Holder.id) :
    ∃ c, s.clientTable[s.getClientByID id]? = some c := by
  obtain ⟨h, inside, rfl⟩ := List.mem_map.mp member
  obtain ⟨c, inTable, rfl⟩ := List.mem_map.mp inside
  have bound : s.getClientByID c.holder.id < s.clientTable.length :=
    List.findIdx_lt_length_of_exists ⟨c, inTable, by simp [ClientInfo.holder]⟩
  exact ⟨_, List.getElem?_eq_getElem bound⟩

/-- With the registry kept, an iterator is at a record with the same descriptor
and id as before. -/
theorem SameRegistry.record {t u : Tables} (same : SameRegistry t u) {i : Nat} {h : Holder}
    (found : u.holders[i]? = some h) : ∃ g, t.holders[i]? = some g ∧ g.fd = h.fd ∧ g.id = h.id := by
  have fds : (t.holders[i]?).map Holder.fd = some h.fd := by
    rw [← List.getElem?_map, ← same.fds, List.getElem?_map, found]
    rfl
  have ids : (t.holders[i]?).map Holder.id = some h.id := by
    rw [← List.getElem?_map, ← same.ids, List.getElem?_map, found]
    rfl
  obtain ⟨g, before, sameFd⟩ := Option.map_eq_some_iff.mp fds
  rw [before] at ids
  exact ⟨g, before, sameFd, Option.some.inj ids⟩

/-- With the registry kept, every iterator is as good as before. -/
theorem SameRegistry.present {s u : Server} (same : SameRegistry s.tables u.tables) {iter : Nat}
    (present : ∃ c, s.clientTable[iter]? = some c) : ∃ c, u.clientTable[iter]? = some c := by
  obtain ⟨c, found⟩ := present
  have sizes := congrArg List.length same.fds
  simp only [Server.tables, List.length_map] at sizes
  obtain ⟨bound, -⟩ := List.getElem?_eq_some_iff.mp found
  exact ⟨_, List.getElem?_eq_getElem (sizes ▸ bound)⟩

/-- A line leaves its client in the tables, or has it leave after an `exit`. -/
theorem clientLine_cases {world : World} {s after : Server} {fd : Int} {chunk : Str}
    (ran : clientLine world s fd chunk = .ok after) :
    ∃ ended status, clientExec world s (s.getClientByFd fd) (cliMsg chunk) = .ok (ended, status) ∧
      ((status ≠ -1 ∧ after = ended) ∨ ∃ cli left, status = -1 ∧
        ended.clientTable[s.getClientByFd fd]? = some cli ∧ cli.fd = fd ∧
        logout ended cli cli.id fd = .ok left ∧
        after = left.withProcess (restore left.process)) := by
  rw [clientLine] at ran
  obtain ⟨⟨ended, status⟩, execed, ran⟩ := bind_eq_ok.mp ran
  refine ⟨ended, status, execed, ?_⟩
  simp only at ran
  split at ran
  · rename_i leaves
    obtain ⟨cli, isCli, ran⟩ := bind_eq_ok.mp ran
    obtain ⟨left, out, ran⟩ := bind_eq_ok.mp ran
    cases ran
    have found := client_eq_ok.mp isCli
    obtain ⟨g, before, sameFd, -⟩ :=
      (clientExec_registry execed).record (holders_getElem found)
    obtain ⟨c, inTable, rfl⟩ := holder_found before
    have ofFd : cli.fd = fd := sameFd.symm.trans (getClientByFd_fd inTable)
    exact .inr ⟨cli, left, leaves, found, ofFd, out, rfl⟩
  · rename_i stays
    cases ran
    exact .inl ⟨stays, rfl⟩

/-- No connection is closed by the client: departures are by `exit`. -/
def ByExit (_ : Server) : Event → Prop
  | .closed _ => False
  | _ => True

/-- A connection is closed only under a descriptor that is its client's id. -/
def ClosesOwnId (s : Server) : Event → Prop
  | .closed fd => ∀ c ∈ s.clientTable, c.fd = fd → c.id = fd
  | _ => True

instance decidableByExit (s : Server) : (event : Event) → Decidable (ByExit s event)
  | .closed _ => inferInstanceAs (Decidable False)
  | .accept _ _ => inferInstanceAs (Decidable True)
  | .line _ _ _ => inferInstanceAs (Decidable True)

instance decidableClosesOwnId (s : Server) : (event : Event) → Decidable (ClosesOwnId s event)
  | .closed fd => inferInstanceAs (Decidable (∀ c ∈ s.clientTable, c.fd = fd → c.id = fd))
  | .accept _ _ => inferInstanceAs (Decidable True)
  | .line _ _ _ => inferInstanceAs (Decidable True)

theorem ByExit.closesOwnId {s : Server} {event : Event} (byExit : ByExit s event) :
    ClosesOwnId s event := by
  cases event with
  | closed fd => exact byExit.elim
  | accept | line => exact trivial

/-- What an event does to the tables: a connection is refused or entered, a line
is executed and its client stays or leaves, or a connection that was closed
leaves under its own id. -/
inductive Moves (s : Server) : Event → Tables → Prop
  | refused {userIp : Str} {port : Nat} :
      Moves s (.accept userIp port) { s.tables with process := s.process.accept.2 }
  | enters {userIp : Str} {port : Nat} {id : Int} (positive : 1 ≤ id)
      (bounded : id ≤ maxClientSize) (free : s.idTable[(id - 1).toNat]? = some 0) :
      Moves s (.accept userIp port) (s.tables.enter s.process.accept.1 id)
  | stays {fd : Int} {chunk : Str} {world : World} {ended : Server} {status : Int}
      (execed : clientExec world s (s.getClientByFd fd) (cliMsg chunk) = .ok (ended, status)) :
      Moves s (.line fd chunk world) ended.tables
  | exits {fd : Int} {chunk : Str} {world : World} {ended : Server} {cli : ClientInfo}
      (execed : clientExec world s (s.getClientByFd fd) (cliMsg chunk) = .ok (ended, -1))
      (found : ended.clientTable[s.getClientByFd fd]? = some cli) (isFd : cli.fd = fd) :
      Moves s (.line fd chunk world) (ended.tables.depart cli.id fd
        (restore ((eraseClientVector cli.id ended.clientTable ended.process).2.close fd)))
  | closes {fd : Int} {cli : ClientInfo} (found : s.clientTable[s.getClientByFd fd]? = some cli)
      (isFd : cli.fd = fd) : Moves s (.closed fd) (s.tables.depart cli.id fd
        ((eraseClientVector cli.id s.clientTable s.process).2.close fd))

/-- With ids that agree, a record's id is in range. -/
theorem Agree.range {s : Server} (agree : Agree s.tables) {iter : Nat} {c : ClientInfo}
    (found : s.clientTable[iter]? = some c) : 1 ≤ c.id ∧ c.id ≤ s.idTable.length := by
  have member : c.holder ∈ s.tables.holders := List.mem_of_getElem? (holders_getElem found)
  have used := ((agree.inUse c.id).mp (List.mem_map_of_mem member)).1
  have size : s.idTable.length = maxClientSize := agree.size
  rw [size]
  exact used

/-- Every event served is one of the moves. The theorems on runs go by cases on these, and do not
take the events of the server apart again. -/
theorem serve_moves {s after : Server} {event : Event} (agree : Agree s.tables)
    (own : ClosesOwnId s event) (served : serve s event = .ok after) :
    Moves s event after.tables := by
  cases event with
  | accept userIp port =>
    obtain ⟨_, same, ⟨full, -⟩ | ⟨id, ⟨positive, bounded⟩, free, entered, -⟩⟩ :=
      acceptClient_enters s userIp port
    · cases same.symm.trans served
      rw [full]
      exact .refused
    · cases same.symm.trans served
      rw [show s.idTable.length = maxClientSize from agree.size] at bounded
      rw [entered]
      exact .enters positive bounded free
  | line fd chunk world =>
    obtain ⟨ended, status, execed, ⟨-, rfl⟩ | ⟨cli, left, rfl, found, isFd, out, rfl⟩⟩ :=
      clientLine_cases served
    · exact .stays execed
    · have kept := agree.same (clientExec_registry execed)
      obtain ⟨_, same, departed⟩ := logout_departs fd (kept.range found).1 (kept.range found).2
      cases same.symm.trans out
      rw [tables_withProcess, departed]
      have process : left.process = (eraseClientVector cli.id ended.clientTable
          ended.process).2.close fd := congrArg Tables.process departed
      rw [process]
      exact .exits execed found isFd
  | closed fd =>
    obtain ⟨cli, isCli, out⟩ := bind_eq_ok.mp served
    have found := client_eq_ok.mp isCli
    have isFd : cli.fd = fd := getClientByFd_fd found
    have ownId : cli.id = cli.fd := (own cli (List.mem_of_getElem? found) isFd).trans isFd.symm
    obtain ⟨_, same, departed⟩ := logout_departs fd (agree.range found).1 (agree.range found).2
    rw [← ownId, same] at out
    cases out
    rw [departed]
    exact .closes found isFd

/-- Every move keeps the ids in agreement. -/
theorem Agree.moves {s : Server} {event : Event} {u : Tables} (agree : Agree s.tables)
    (moves : Moves s event u) : Agree u := by
  cases moves with
  | refused => exact agree.same (.process _ _)
  | enters positive bounded free => exact agree.enter _ positive bounded free
  | stays execed => exact agree.same (clientExec_registry execed)
  | exits execed found isFd =>
    subst isFd
    have kept := agree.same (clientExec_registry execed)
    exact kept.depart (List.mem_of_getElem? (holders_getElem found)) _
  | closes found isFd =>
    subst isFd
    exact agree.depart (List.mem_of_getElem? (holders_getElem found)) _

/-- Nobody has logged in yet. -/
theorem Agree.initial : Agree Server.initial.tables where
  size := rfl
  distinct := by simp [Server.tables, Server.initial]
  inUse id := by
    simp only [Server.tables, Server.initial, List.map_nil, List.not_mem_nil, false_iff, not_and,
      not_not, List.getElem?_replicate]
    rintro ⟨positive, bounded⟩
    rw [if_pos (by omega)]
  watched fd member := by
    have same : fd = Server.initial.msock := by simpa [Server.tables, Server.initial] using member
    exact fun other => absurd same other

/-- In every run whose closed connections have their descriptor for an id, the ids agree. A closed
connection under another descriptor would free the id of somebody who stays. -/
theorem run_agree {events : List Event} {s : Server} (run : Run system ClosesOwnId events s) :
    Agree s.tables :=
  run.invariant (fun s => Agree s.tables) Agree.initial
    (fun _ _ _ agree _ own served => agree.moves (serve_moves agree own served))

/-- A number marked in the id table is the id of a record. -/
theorem Agree.marked {s : Server} (agree : Agree s.tables) {id mark : Int}
    (looked : s.idAt (id - 1) = .ok mark) (marked : mark ≠ 0) :
    id ∈ s.tables.holders.map Holder.id := by
  obtain ⟨nonneg, found⟩ := idAt_eq_ok.mp looked
  obtain ⟨bound, -⟩ := List.getElem?_eq_some_iff.mp found
  have size : s.idTable.length = maxClientSize := agree.size
  refine (agree.inUse id).mpr ⟨by omega, ?_⟩
  intro cleared
  cases found.symm.trans cleared
  exact marked rfl

end NetProg.SingleProc
