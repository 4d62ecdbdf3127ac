import Mathlib.Logic.Function.Iterate
import NetProg.Library.Batches
import NetProg.SingleProc.Agreement

/-!
# The passes of the main loop

`main` asks `select` once and then serves all that was ready: a connection first, and then
the descriptors from the lowest to `max_fd`. What was ready is in `rfds`, a copy; what a
pass does to `afds` takes effect in the next. `max_fd` follows the descriptors in the
client table at the head of each pass, and never goes down.

A pass is a batch of events. Where the table is full, the connection that is accepted
ends the pass, and what else was ready is not looked at.
-/

namespace NetProg.SingleProc

open Loops Outcomes Runs

/-- The bytes of one `recv`. -/
structure Chunk where
  bytes : Str
  filled : bytes ≠ []
  fits : bytes.length ≤ buffSize

/-- What the operating system answers in a pass: which descriptors are readable, the
address `accept` has a connection from, and what `recv` gets from each descriptor, which
is nothing where it returns zero or an error. -/
structure Answers where
  readable : Int → Bool
  connects : Option (Str × Nat)
  received : Int → Option (Chunk × World)

/-- The server and `max_fd`, the one variable of the main loop that outlives a pass. -/
structure Polling where
  server : Server
  maxFd : Int

/-- The loop over the client table at the head of a pass. -/
def widen (maxFd : Int) (clientTable : List ClientInfo) : Int :=
  clientTable.foldl (fun maxFd cli => if maxFd < cli.fd then cli.fd else maxFd) maxFd

/-- `select`, on a copy of the watched descriptors. -/
def select (maxFd : Int) (afds : List Int) (answers : Answers) : List Int :=
  afds.filter (fun fd => 0 ≤ fd && fd < maxFd + 1 && answers.readable fd)

/-- What `recv` on a descriptor amounts to. -/
def Answers.eventOf (answers : Answers) (fd : Int) : Event :=
  match answers.received fd with
  | none => .closed fd
  | some (chunk, world) => .line fd chunk.bytes world

/-- The numbers from 0 to `max_fd`. -/
def numbers (maxFd : Int) : List Int := (List.range (maxFd + 1).toNat).map Int.ofNat

/-- The loop over the descriptors. -/
def serveReady (answers : Answers) (rfds : List Int) (maxFd : Int) (s : Server) :
    Outcome Server :=
  (numbers maxFd).foldlM (fun s fd =>
    if fd ∈ rfds ∧ fd ≠ s.msock then serve s (answers.eventOf fd) else .ok s) s

/-- One pass of `main`. -/
def pass (answers : Answers) (p : Polling) : Outcome Polling := do
  let s := p.server
  let maxFd := widen p.maxFd s.clientTable
  let rfds := select maxFd s.afds answers
  match (if s.msock ∈ rfds then answers.connects else none) with
  | none => return ⟨← serveReady answers rfds maxFd s, maxFd⟩
  | some (userIp, port) =>
    let entered ← acceptClient s userIp port
    match getAvaliableID s.idTable with
    | none => return ⟨entered, maxFd⟩
    | some _ => return ⟨← serveReady answers rfds maxFd entered, maxFd⟩

/-- The server as a system of passes: `select` returns when something is ready. A pass is offered
with any answers for which there is one. -/
def passes : System Polling Answers (Fault × Server) where
  start := ⟨Server.initial, Server.initial.msock⟩
  offers p answers := select (widen p.maxFd p.server.clientTable) p.server.afds answers ≠ []
  serve p answers := pass answers p

instance (p : Polling) (answers : Answers) : Decidable (passes.offers p answers) :=
  inferInstanceAs (Decidable (_ ≠ _))

/-- The clients that are ready, in the order of their turns. -/
def readyClients (p : Polling) (answers : Answers) : List Int :=
  let maxFd := widen p.maxFd p.server.clientTable
  (numbers maxFd).filter (fun fd =>
    fd ∈ select maxFd p.server.afds answers && fd ≠ p.server.msock)

/-- The connection that a pass accepts. -/
def accepted (p : Polling) (answers : Answers) : Option (Str × Nat) :=
  if p.server.msock ∈ select (widen p.maxFd p.server.clientTable) p.server.afds answers then
    answers.connects
  else none

/-- A connection is accepted, and there is no id for it. -/
def TurnsAway (p : Polling) (answers : Answers) : Prop :=
  accepted p answers ≠ none ∧ getAvaliableID p.server.idTable = none

instance (p : Polling) (answers : Answers) : Decidable (TurnsAway p answers) :=
  inferInstanceAs (Decidable (_ ∧ _))

/-- The events of a pass. -/
def eventsOf (p : Polling) (answers : Answers) : List Event :=
  (match accepted p answers with
  | none => []
  | some (userIp, port) => [.accept userIp port]) ++
  if TurnsAway p answers then [] else (readyClients p answers).map answers.eventOf

/-- The descriptor of the client an event comes from. -/
def Event.client? : Event → Option Int
  | .accept _ _ => none
  | .line fd _ _ => some fd
  | .closed fd => some fd

section Serving

variable {s after : Server} {event : Event}

theorem client?_eventOf (answers : Answers) (fd : Int) :
    (answers.eventOf fd).client? = some fd := by
  rw [Answers.eventOf]
  split <;> rfl

/-- A departure takes no descriptor but its own off the watched ones. -/
theorem logout_watched {cli : ClientInfo} {erased fd : Int}
    (left : logout s cli erased fd = .ok after) :
    after.msock = s.msock ∧ after.afds = fdClr s.afds fd := by
  rw [logout] at left
  obtain ⟨told, tells, left⟩ := bind_eq_ok.mp left
  obtain ⟨output, rfl⟩ := (broadCast_ends s .logout [] cli (-1)).returned tells
  obtain ⟨freed, frees, left⟩ := bind_eq_ok.mp left
  rw [Server.clearId] at frees
  split at frees
  · cases frees
    cases left
    exact ⟨rfl, rfl⟩
  · cases frees

/-- A record has the descriptor. -/
def Server.Lists (s : Server) (fd : Int) : Prop := ∃ cli ∈ s.clientTable, cli.fd = fd

/-- An event leaves the other clients watched, and has at most one descriptor watched that was
not, the one of a new connection, for which there is a record then. So what a pass has found ready
is still there when its turn comes. -/
theorem serve_watched (served : serve s event = .ok after) : after.msock = s.msock ∧
    (∀ fd ∈ s.afds, event.client? ≠ some fd → fd ∈ after.afds) ∧
    ∀ fd ∈ after.afds, fd ∈ s.afds ∨ fd = s.process.accept.1 ∧ after.Lists fd := by
  have of_fdClr {fd : Int} (gone : after.afds = fdClr s.afds fd) :
      (∀ other ∈ s.afds, some fd ≠ some other → other ∈ after.afds) ∧
        ∀ other ∈ after.afds, other ∈ s.afds ∨ other = s.process.accept.1 ∧ after.Lists other := by
    rw [gone]
    constructor
    · intro other member apart
      exact List.mem_filter.mpr
        ⟨member, decide_eq_true (fun same => apart (congrArg some same.symm))⟩
    · intro other member
      exact .inl (List.mem_filter.mp member).1
  cases event with
  | accept userIp port =>
    obtain ⟨_, same, ⟨refused, -⟩ | ⟨id, -, -, entered, -⟩⟩ := acceptClient_enters s userIp port
    · cases same.symm.trans served
      have afds : after.afds = s.afds := congrArg Tables.afds refused
      exact ⟨congrArg Tables.msock refused, fun fd member _ => afds ▸ member,
        fun fd member => .inl (afds ▸ member)⟩
    · cases same.symm.trans served
      have afds : after.afds = fdSet s.afds s.process.accept.1 := congrArg Tables.afds entered
      refine ⟨congrArg Tables.msock entered, fun fd member _ => ?_, fun fd member => ?_⟩
      · rw [afds]
        exact mem_fdSet.mpr (.inl member)
      · rw [afds] at member
        refine (mem_fdSet.mp member).imp_right (fun new => ⟨new, ?_⟩)
        have holders : after.clientTable.map ClientInfo.holder = (s.tables.enter _ id).holders :=
          congrArg Tables.holders entered
        have listed : ⟨s.process.accept.1, id, s.process.made, [], []⟩ ∈
            after.clientTable.map ClientInfo.holder := by
          rw [holders]
          exact List.mem_append_right _ List.mem_cons_self
        obtain ⟨cli, member, same⟩ := List.mem_map.mp listed
        exact ⟨cli, member, (congrArg Holder.fd same).trans new.symm⟩
  | line fd chunk world =>
    obtain ⟨ended, status, execed, ⟨-, rfl⟩ | ⟨cli, left, -, -, -, out, rfl⟩⟩ :=
      clientLine_cases served
    · have registry := clientExec_registry execed
      have afds : after.afds = s.afds := registry.afds
      exact ⟨registry.msock, fun other member _ => afds ▸ member,
        fun other member => .inl (afds ▸ member)⟩
    · have registry := clientExec_registry execed
      obtain ⟨msock, afds⟩ := logout_watched out
      have gone : left.afds = fdClr s.afds fd := by
        rw [afds, show ended.afds = s.afds from registry.afds]
      exact ⟨msock.trans registry.msock, of_fdClr gone⟩
  | closed fd =>
    obtain ⟨cli, isCli, out⟩ := bind_eq_ok.mp served
    obtain ⟨msock, afds⟩ := logout_watched out
    exact ⟨msock, of_fdClr afds⟩

end Serving

section Batch

variable {p : Polling} {answers : Answers}

/-- The descriptors looked at are the numbers from 0 on. -/
theorem mem_numbers {maxFd fd : Int} : fd ∈ numbers maxFd ↔ 0 ≤ fd ∧ fd < maxFd + 1 := by
  simp only [numbers, List.mem_map, List.mem_range]
  constructor
  · rintro ⟨n, below, rfl⟩
    simp only [Int.ofNat_eq_natCast]
    omega
  · rintro ⟨nonneg, below⟩
    exact ⟨fd.toNat, by omega, by simp only [Int.ofNat_eq_natCast]; omega⟩

theorem numbers_ascending (maxFd : Int) : (numbers maxFd).Pairwise (· < ·) := by
  rw [numbers, List.pairwise_map]
  exact List.pairwise_lt_range.imp (fun less => Int.ofNat_lt.mpr less)

theorem readyClients_ascending (p : Polling) (answers : Answers) :
    (readyClients p answers).Pairwise (· < ·) :=
  (numbers_ascending _).filter _

theorem mem_readyClients {fd : Int} : fd ∈ readyClients p answers ↔
    fd ∈ select (widen p.maxFd p.server.clientTable) p.server.afds answers ∧
      fd ≠ p.server.msock := by
  simp only [readyClients, List.mem_filter, mem_numbers, Bool.and_eq_true, decide_eq_true_eq]
  constructor
  · exact And.right
  · intro ready
    refine ⟨?_, ready⟩
    simp only [select, List.mem_filter, Bool.and_eq_true, decide_eq_true_eq] at ready
    exact ready.1.2.1

/-- The loop over the descriptors serves the clients that are ready, as long as the
listening socket stays the same. -/
theorem serveReady_eq (answers : Answers) (rfds : List Int) (maxFd : Int) (s : Server) :
    serveReady answers rfds maxFd s =
      (((numbers maxFd).filter (fun fd => fd ∈ rfds && fd ≠ s.msock)).map
        answers.eventOf).foldlM serve s := by
  rw [serveReady]
  generalize numbers maxFd = fds
  induction fds generalizing s with
  | nil => rfl
  | cons fd rest ih =>
    rw [List.foldlM_cons, List.filter_cons]
    by_cases ready : fd ∈ rfds ∧ fd ≠ s.msock
    · rw [if_pos ready, if_pos (by simpa using ready), List.map_cons, List.foldlM_cons]
      cases served : serve s (answers.eventOf fd) with
      | error failure => rfl
      | ok after =>
        rw [← (serve_watched served).1]
        exact ih after
    · rw [if_neg ready, if_neg (by simpa using ready)]
      exact ih s

/-- The clients are gone through by ascending descriptors up to `max_fd`. -/
theorem readyClients_eq (p : Polling) (answers : Answers) : readyClients p answers =
    (numbers (widen p.maxFd p.server.clientTable)).filter (fun fd =>
      fd ∈ select (widen p.maxFd p.server.clientTable) p.server.afds answers &&
        fd ≠ p.server.msock) := rfl

/-- A pass serves its events one after the other. -/
theorem pass_serves (p : Polling) (answers : Answers) :
    (pass answers p).map Polling.server = (eventsOf p answers).foldlM serve p.server := by
  rw [pass, eventsOf]
  simp only [← accepted.eq_def]
  cases connection : accepted p answers with
  | none =>
    have stays : ¬ TurnsAway p answers := fun away => away.1 connection
    simp only [if_neg stays, List.nil_append, readyClients_eq, ← serveReady_eq]
    cases serveReady answers _ _ p.server <;> rfl
  | some pair =>
    obtain ⟨userIp, port⟩ := pair
    simp only [List.singleton_append, List.foldlM_cons]
    rw [show serve p.server (.accept userIp port) = acceptClient p.server userIp port from rfl]
    cases entered : acceptClient p.server userIp port with
    | error failure => rfl
    | ok after =>
      cases free : getAvaliableID p.server.idTable with
      | none =>
        have away : TurnsAway p answers := ⟨by simp [connection], free⟩
        simp only [if_pos away]
        rfl
      | some found =>
        have stays : ¬ TurnsAway p answers := fun away => by cases free.symm.trans away.2
        have isServed : serve p.server (.accept userIp port) = .ok after := entered
        have msock : after.msock = p.server.msock := (serve_watched isServed).1
        simp only [if_neg stays, readyClients_eq, ← msock]
        change Except.map Polling.server (serveReady answers _ _ after >>= fun last =>
          pure ⟨last, _⟩) = List.foldlM serve after _
        rw [← serveReady_eq]
        cases serveReady answers _ _ after <;> rfl

/-- What was on offer before an event is so after it, unless it comes from the same
client. -/
theorem offers_kept {s after : Server} {event other : Event} (served : serve s event = .ok after)
    (offered : offers s other) (apart : ∀ fd, other.client? = some fd → event.client? ≠ some fd) :
    offers after other := by
  obtain ⟨msock, kept, -⟩ := serve_watched served
  cases other with
  | accept => trivial
  | line fd chunk world =>
    obtain ⟨⟨watched, notListener⟩, received⟩ := offered
    exact ⟨⟨kept fd watched (apart fd rfl), msock ▸ notListener⟩, received⟩
  | closed fd =>
    obtain ⟨watched, notListener⟩ := offered
    exact ⟨kept fd watched (apart fd rfl), msock ▸ notListener⟩

/-- The clients that a pass serves. -/
theorem clients_eventsOf (p : Polling) (answers : Answers) :
    (eventsOf p answers).filterMap Event.client? =
      if TurnsAway p answers then [] else readyClients p answers := by
  have ready : ((readyClients p answers).map answers.eventOf).filterMap Event.client? =
      readyClients p answers := by
    rw [List.filterMap_map]
    have each : (Event.client? ∘ answers.eventOf) = some :=
      funext (fun fd => client?_eventOf answers fd)
    rw [each, List.filterMap_some]
  rw [eventsOf, List.filterMap_append]
  have front : (match accepted p answers with
      | none => []
      | some (userIp, port) => [Event.accept userIp port]).filterMap Event.client? = [] := by
    split <;> rfl
  rw [front, List.nil_append]
  split
  · rfl
  · exact ready

/-- Every event of a pass is on offer at its head. -/
theorem offers_eventsOf : ∀ event ∈ eventsOf p answers, offers p.server event := by
  intro event member
  rw [eventsOf, List.mem_append] at member
  rcases member with first | later
  · split at first
    · cases first
    · rw [List.mem_singleton.mp first]
      trivial
  · split at later
    · cases later
    · obtain ⟨fd, ready, rfl⟩ := List.mem_map.mp later
      obtain ⟨selected, notListener⟩ := mem_readyClients.mp ready
      have watched := (List.mem_filter.mp selected).1
      rw [Answers.eventOf]
      split
      · exact ⟨watched, notListener⟩
      · rename_i chunk world _
        exact ⟨⟨watched, notListener⟩, chunk.filled, chunk.fits⟩

/-- And still when its turn comes. -/
theorem eventsOf_offered (p : Polling) (answers : Answers) :
    Along system system.offers p.server (eventsOf p answers) := by
  refine along_of_kept (fun events s => (∀ event ∈ events, offers s event) ∧
    (events.filterMap Event.client?).Nodup) ?_ ?_ ⟨offers_eventsOf, ?_⟩
  · intro s event rest held
    exact held.1 event List.mem_cons_self
  · rintro s event rest after ⟨offered, distinct⟩ served
    constructor
    · intro other member
      apply offers_kept served (offered other (List.mem_cons_of_mem event member))
      intro fd isOther isEvent
      rw [List.filterMap_cons, isEvent] at distinct
      exact (List.nodup_cons.mp distinct).1 (List.mem_filterMap.mpr ⟨other, member, isOther⟩)
    · rw [List.filterMap_cons] at distinct
      split at distinct
      · exact distinct
      · exact distinct.of_cons
  · rw [clients_eventsOf]
    split
    · exact List.nodup_nil
    · exact (readyClients_ascending p answers).imp Int.ne_of_lt

end Batch

/-- The main loop serves the events of the server in batches. -/
def polling : Batches system Polling Answers where
  outer := passes
  inner := Polling.server
  events := eventsOf
  starts := rfl
  serves p answers := pass_serves p answers
  offered p answers _ := eventsOf_offered p answers

/-- The main loop from its start, whatever is ready in its passes: the state is that of a run of
the events that the passes serve, a connection first and then every client that was ready once, in
ascending order. A pass that fails does so in an event of such a run.

So the passes are batches of events, and this is the general fact about those; what is particular
to `select` is only which events a pass serves. -/
theorem passes_are_runs {log : List Answers} {p : Polling} (run : Run passes always log p) :
    Run system always (polling.served log) p.server ∧
      ∀ answers, (∀ failure, passes.offers p answers → pass answers p = .error failure →
          FailsIn system always failure) ∧
        ((eventsOf p answers).filterMap Event.client?).Pairwise (· < ·) := by
  have batched : Run passes (polling.Meets always) log p :=
    run.weaken (fun _ _ _ => along_always _ _)
  refine ⟨polling.run batched, fun answers => ⟨?_, ?_⟩⟩
  · intro failure offered failed
    exact polling.fails batched offered (along_always _ _) failed
  · rw [clients_eventsOf]
    split
    · exact .nil
    · exact readyClients_ascending p answers

/-- A connection and nothing else. -/
def connecting : Answers := ⟨(· = 3), some (str "127.0.0.1", 4001), fun _ => none⟩

/-- Four clients log in; then a fifth does, while the second hangs up. -/
def replaced : List Answers :=
  [connecting, connecting, connecting, connecting,
    ⟨fun fd => fd = 3 || fd = 5, some (str "127.0.0.1", 4005), fun _ => none⟩]

theorem passes_are_runs_replaced : ∃ p, Run passes always replaced p ∧
    Run system always (polling.served replaced) p.server := by
  have plays : (play passes always passes.start replaced).isSome := by decide +kernel
  obtain ⟨p, played⟩ := Option.isSome_iff_exists.mp plays
  have run := Run.played replaced p played
  exact ⟨p, run, (passes_are_runs run).1⟩

/-! ## Who is served in a pass -/

section Reach

variable {p q : Polling} {answers : Answers} {log : List Answers}

/-- `max_fd` is at least as high as a number if it was, or a record's descriptor is. -/
theorem le_widen_iff {maxFd fd : Int} {clientTable : List ClientInfo} :
    fd ≤ widen maxFd clientTable ↔ fd ≤ maxFd ∨ ∃ cli ∈ clientTable, fd ≤ cli.fd := by
  induction clientTable generalizing maxFd with
  | nil => simp [widen]
  | cons cli rest ih =>
    have step : widen maxFd (cli :: rest) =
        widen (if maxFd < cli.fd then cli.fd else maxFd) rest := rfl
    have one : fd ≤ (if maxFd < cli.fd then cli.fd else maxFd) ↔ fd ≤ maxFd ∨ fd ≤ cli.fd := by
      split <;> omega
    rw [step, ih, one, List.exists_mem_cons_iff, or_assoc]

theorem pass_maxFd (passed : pass answers p = .ok q) :
    q.maxFd = widen p.maxFd p.server.clientTable := by
  rw [pass] at passed
  simp only at passed
  split at passed
  · obtain ⟨last, -, same⟩ := bind_eq_ok.mp passed
    cases same
    rfl
  · obtain ⟨entered, -, passed⟩ := bind_eq_ok.mp passed
    split at passed
    · cases passed
      rfl
    · obtain ⟨last, -, same⟩ := bind_eq_ok.mp passed
      cases same
      rfl

/-- The descriptors in the client table at the heads of the passes so far. -/
def tableFds (p : Polling) (_ : Answers) : List Int := p.server.clientTable.map ClientInfo.fd

/-- `max_fd` in a pass, if it was the highest of those seen before. -/
theorem le_widen_seen {seen : List Int} {fd lowest : Int}
    (held : fd ≤ p.maxFd ↔ fd ≤ lowest ∨ ∃ other ∈ seen, fd ≤ other) (answers : Answers) :
    fd ≤ widen p.maxFd p.server.clientTable ↔
      fd ≤ lowest ∨ ∃ other ∈ seen ++ tableFds p answers, fd ≤ other := by
  rw [le_widen_iff, held]
  simp only [tableFds, List.mem_append, List.mem_map]
  constructor
  · rintro ((low | ⟨other, member, below⟩) | ⟨cli, member, below⟩)
    · exact .inl low
    · exact .inr ⟨other, .inl member, below⟩
    · exact .inr ⟨cli.fd, .inr ⟨cli, member, rfl⟩, below⟩
  · rintro (low | ⟨other, member | ⟨cli, member, rfl⟩, below⟩)
    · exact .inl (.inl low)
    · exact .inl (.inr ⟨other, member, below⟩)
    · exact .inr ⟨cli, member, below⟩

/-- `max_fd` is the highest of them, in every run of passes: it is raised at the head of a pass
and never lowered. -/
theorem le_maxFd_iff (run : Run passes always log p) (fd : Int) :
    fd ≤ p.maxFd ↔ fd ≤ Server.initial.msock ∨ ∃ seen ∈ gather passes tableFds passes.start log,
      fd ≤ seen := by
  refine run.logged tableFds (fun seen p =>
    ∀ fd, fd ≤ p.maxFd ↔ fd ≤ Server.initial.msock ∨ ∃ other ∈ seen, fd ≤ other) ?_ ?_ fd
  · intro fd
    simp [passes]
  · intro seen p answers after held _ _ served fd
    rw [pass_maxFd served]
    exact le_widen_seen (held fd) answers

/-- The listening socket stays watched, and every watched descriptor is a number. -/
theorem run_listens {events : List Event} {s : Server} (run : Run system always events s) :
    s.msock = Server.initial.msock ∧ s.msock ∈ s.afds ∧ ∀ fd ∈ s.afds, 0 ≤ fd := by
  refine run.invariant (fun s => s.msock = Server.initial.msock ∧ s.msock ∈ s.afds ∧
    ∀ fd ∈ s.afds, 0 ≤ fd) ⟨rfl, List.mem_singleton.mpr rfl, ?_⟩ ?_
  · intro fd member
    rw [List.mem_singleton.mp member]
    exact Int.natCast_nonneg _
  · rintro s event after ⟨same, listens, nonneg⟩ offered - served
    obtain ⟨msock, kept, confined⟩ := serve_watched served
    refine ⟨msock.trans same, ?_, ?_⟩
    · rw [msock]
      apply kept _ listens
      intro fromListener
      cases event with
      | accept => cases fromListener
      | line fd chunk world => exact offered.1.2 (Option.some.inj fromListener)
      | closed fd => exact offered.2 (Option.some.inj fromListener)
    · intro fd member
      rcases confined fd member with old | ⟨rfl, -⟩
      · exact nonneg fd old
      · exact Int.natCast_nonneg _

theorem mem_select {maxFd fd : Int} {afds : List Int} : fd ∈ select maxFd afds answers ↔
    fd ∈ afds ∧ 0 ≤ fd ∧ fd < maxFd + 1 ∧ answers.readable fd = true := by
  simp [select, and_assoc]

/-- The pass serves the client. -/
def IsServed (p : Polling) (answers : Answers) (fd : Int) : Prop :=
  ∃ event ∈ eventsOf p answers, event.client? = some fd

theorem isServed_iff {fd : Int} : IsServed p answers fd ↔
    ¬ TurnsAway p answers ∧ fd ∈ readyClients p answers := by
  have listed : IsServed p answers fd ↔ fd ∈ (eventsOf p answers).filterMap Event.client? :=
    List.mem_filterMap.symm
  rw [listed, clients_eventsOf]
  by_cases away : TurnsAway p answers <;> simp [away]

/-- In every run of passes, a client that is watched and readable is served in the next pass if
and only if that turns no connection away and some record, at the head of this pass or of an
earlier one, has a descriptor that is not lower.

For `max_fd` is only ever raised, and to the descriptors that the client table lists when a pass
begins. What a run has seen of these is gathered from its passes. -/
theorem ready_client_served_iff (run : Run passes always log p) (answers : Answers) {fd : Int}
    (watched : fd ∈ p.server.afds) (notListener : fd ≠ p.server.msock)
    (readable : answers.readable fd = true) :
    IsServed p answers fd ↔ ¬ TurnsAway p answers ∧ (fd ≤ Server.initial.msock ∨
      ∃ seen ∈ gather passes tableFds passes.start (log ++ [answers]), fd ≤ seen) := by
  have nonneg := (run_listens (passes_are_runs run).1).2.2 fd watched
  have seen : gather passes tableFds passes.start (log ++ [answers]) =
      gather passes tableFds passes.start log ++ tableFds p answers := by
    rw [run.gather_append tableFds [answers]]
    cases served : passes.serve p answers <;> simp [gather, served]
  have reach : fd ≤ widen p.maxFd p.server.clientTable ↔ fd ≤ Server.initial.msock ∨
      ∃ seen ∈ gather passes tableFds passes.start (log ++ [answers]), fd ≤ seen := by
    rw [seen]
    exact le_widen_seen (le_maxFd_iff run fd) answers
  rw [isServed_iff, mem_readyClients, mem_select, ← reach]
  constructor
  · rintro ⟨stays, ⟨-, -, below, -⟩, -⟩
    exact ⟨stays, by omega⟩
  · rintro ⟨stays, below⟩
    exact ⟨stays, ⟨watched, nonneg, by omega, readable⟩, notListener⟩

/-- The second client has descriptor 5, which is the id of the fifth. So it is the record of
the fifth that goes; its descriptor 8 is still watched, and out of reach. -/
theorem replaced_out_of_reach : ∃ p, Run passes always replaced p ∧ 8 ∈ p.server.afds ∧
    ¬ IsServed p ⟨(· = 8), none, fun _ => none⟩ 8 := by
  have plays : ((play passes always passes.start replaced).map (fun p =>
      decide (8 ∈ p.server.afds ∧ p.server.msock = 3))) = some true := by decide +kernel
  obtain ⟨p, played, facts⟩ := Option.map_eq_some_iff.mp plays
  obtain ⟨watched, msock⟩ := of_decide_eq_true facts
  have run := Run.played replaced p played
  refine ⟨p, run, watched, ?_⟩
  intro serves
  have reach := ((ready_client_served_iff run ⟨(· = 8), none, fun _ => none⟩ watched
    (by rw [msock]; decide) rfl).mp serves).2
  have low : ∀ seen ∈ gather passes tableFds passes.start
      (replaced ++ [⟨(· = 8), none, fun _ => none⟩]), seen < 8 := by decide +kernel
  rcases reach with listener | ⟨seen, member, above⟩
  · revert listener
    decide
  · have below := low seen member
    omega

end Reach

/-! ## One event a pass -/

section Singly

variable {p q : Polling} {answers : Answers} {event : Event}

/-- A pass in which one client is ready and no connection. -/
theorem eventsOf_one {fd : Int} (onlyOne : ∀ other, answers.readable other = decide (other = fd))
    (watched : fd ∈ p.server.afds) (notListener : fd ≠ p.server.msock) (nonneg : 0 ≤ fd)
    (inReach : fd ≤ widen p.maxFd p.server.clientTable) :
    eventsOf p answers = [answers.eventOf fd] ∧ passes.offers p answers := by
  have selected (other : Int) : other ∈ select (widen p.maxFd p.server.clientTable)
      p.server.afds answers ↔ other = fd := by
    rw [mem_select, onlyOne, decide_eq_true_eq]
    constructor
    · exact fun found => found.2.2.2
    · rintro rfl
      exact ⟨watched, nonneg, by omega, rfl⟩
  have noConnection : accepted p answers = none := by
    rw [accepted, if_neg]
    exact fun isReady => notListener ((selected _).mp isReady).symm
  have stays : ¬ TurnsAway p answers := fun away => away.1 noConnection
  have ready : readyClients p answers = [fd] := by
    apply List.perm_singleton.mp
    apply (List.perm_ext_iff_of_nodup
      ((readyClients_ascending p answers).imp Int.ne_of_lt) (List.nodup_singleton fd)).mpr
    intro other
    rw [mem_readyClients, selected, List.mem_singleton]
    constructor
    · exact And.left
    · rintro rfl
      exact ⟨rfl, notListener⟩
  constructor
  · rw [eventsOf, noConnection, if_neg stays, ready]
    rfl
  · exact List.ne_nil_of_mem ((selected fd).mpr rfl)

/-- A pass in which nothing is ready but a connection. -/
theorem eventsOf_connection (userIp : Str) (port : Nat)
    (listens : p.server.msock ∈ p.server.afds) (nonneg : 0 ≤ p.server.msock)
    (inReach : p.server.msock ≤ widen p.maxFd p.server.clientTable)
    (only : ∀ other, answers.readable other = decide (other = p.server.msock))
    (connects : answers.connects = some (userIp, port)) :
    eventsOf p answers = [.accept userIp port] ∧ passes.offers p answers := by
  have selected (other : Int) : other ∈ select (widen p.maxFd p.server.clientTable)
      p.server.afds answers ↔ other = p.server.msock := by
    rw [mem_select, only, decide_eq_true_eq]
    constructor
    · exact fun found => found.2.2.2
    · rintro rfl
      exact ⟨listens, nonneg, by omega, rfl⟩
  have connection : accepted p answers = some (userIp, port) := by
    rw [accepted, if_pos ((selected _).mpr rfl), connects]
  have nobody : readyClients p answers = [] := by
    apply List.eq_nil_iff_forall_not_mem.mpr
    intro other isReady
    obtain ⟨isListener, notListener⟩ := mem_readyClients.mp isReady
    exact notListener ((selected other).mp isListener)
  constructor
  · rw [eventsOf, connection, nobody]
    simp
  · exact List.ne_nil_of_mem ((selected _).mpr rfl)

/-- Where all watched descriptors are within reach, every event on offer can be a pass of its
own: nothing is ready but the descriptor it comes from. -/
theorem pass_of_event (offered : offers p.server event)
    (listens : p.server.msock ∈ p.server.afds) (nonneg : ∀ fd ∈ p.server.afds, 0 ≤ fd)
    (inReach : ∀ fd ∈ p.server.afds, fd ≤ widen p.maxFd p.server.clientTable) :
    ∃ answers, eventsOf p answers = [event] ∧ passes.offers p answers := by
  cases event with
  | accept userIp port =>
    exact ⟨⟨(· = p.server.msock), some (userIp, port), fun _ => none⟩,
      eventsOf_connection userIp port listens (nonneg _ listens) (inReach _ listens)
        (fun _ => rfl) rfl⟩
  | line fd chunk world =>
    obtain ⟨⟨watched, notListener⟩, filled, fits⟩ := offered
    exact ⟨⟨(· = fd), none, fun _ => some (⟨chunk, filled, fits⟩, world)⟩,
      eventsOf_one (fun _ => rfl) watched notListener (nonneg fd watched) (inReach fd watched)⟩
  | closed fd =>
    obtain ⟨watched, notListener⟩ := offered
    exact ⟨⟨(· = fd), none, fun _ => none⟩,
      eventsOf_one (fun _ => rfl) watched notListener (nonneg fd watched) (inReach fd watched)⟩

/-- A pass of one event keeps the watched descriptors within reach: `max_fd` stays at least as
high as it was in the pass, and a connection that is accepted has a record at the head of the
next. -/
theorem inReach_of_single (inReach : ∀ fd ∈ p.server.afds, fd ≤ widen p.maxFd p.server.clientTable)
    (served : serve p.server event = .ok q.server) (passed : pass answers p = .ok q) :
    ∀ fd ∈ q.server.afds, fd ≤ widen q.maxFd q.server.clientTable := by
  intro fd watched
  rw [le_widen_iff, pass_maxFd passed]
  rcases (serve_watched served).2.2 fd watched with old | ⟨-, cli, member, same⟩
  · exact .inl (inReach fd old)
  · exact .inr ⟨cli, member, Int.le_of_eq same.symm⟩

/-- Every run of the events is that of some passes, one event in each. -/
theorem passes_of_run {meets : Server → Event → Prop} {events : List Event} {s : Server}
    (run : Run system meets events s) :
    ∃ log p, Run passes (polling.Meets meets) log p ∧ p.server = s ∧
      polling.served log = events ∧
        ∀ fd ∈ p.server.afds, fd ≤ widen p.maxFd p.server.clientTable := by
  induction run with
  | start =>
    refine ⟨[], _, .start, rfl, rfl, fun fd watched => ?_⟩
    exact le_widen_iff.mpr (.inl (Int.le_of_eq (List.mem_singleton.mp watched)))
  | @next events s after event before offered met served ih =>
    obtain ⟨log, p, passed, rfl, rfl, inReach⟩ := ih
    have listens := run_listens (before.weaken (fun _ _ _ => trivial))
    obtain ⟨answers, single, ready⟩ := pass_of_event offered listens.2.1 listens.2.2 inReach
    have isServed : serve p.server event = .ok after := served
    have one : (pass answers p).map Polling.server = .ok after := by
      rw [pass_serves, single, List.foldlM_cons, isServed]
      rfl
    obtain ⟨q, isPass, rfl⟩ : ∃ q, pass answers p = .ok q ∧ q.server = after := by
      cases result : pass answers p with
      | error failure => simp [result, Except.map] at one
      | ok q =>
        rw [result] at one
        exact ⟨q, rfl, Except.ok.inj one⟩
    have meets : polling.Meets meets p answers := by
      change Along system meets p.server (eventsOf p answers)
      rw [single]
      exact ⟨met, fun _ _ => trivial⟩
    refine ⟨log ++ [answers], q, .next passed ready meets isPass, rfl, ?_,
      inReach_of_single inReach isServed isPass⟩
    rw [← single]
    exact passed.gather_next eventsOf isPass

/-- The main loop with its passes reaches exactly what the server does that takes one event after
the other, with the same events, and whatever is asked of the events: every result about all runs
of the events is one about the passes, and the other way round.

Passes in which one event is served are enough for a run of events. There no watched descriptor
gets out of reach of `max_fd`, as can happen where a record goes in the pass in which another is
entered; so every client that has sent something can be served next. -/
theorem passes_reach_iff (meets : Server → Event → Prop) (events : List Event) (s : Server) :
    Run system meets events s ↔ ∃ log p, Run passes (polling.Meets meets) log p ∧
      p.server = s ∧ polling.served log = events := by
  constructor
  · intro run
    obtain ⟨log, p, passed, same, served, -⟩ := passes_of_run run
    exact ⟨log, p, passed, same, served⟩
  · rintro ⟨log, p, run, rfl, rfl⟩
    exact polling.run run

end Singly

/-! ## A full table -/

section Full

variable {p : Polling} {answers : Answers} {log more : List Answers}

/-- A connection is ready, and `accept` returns it. -/
def Connects (p : Polling) (answers : Answers) : Prop :=
  answers.readable p.server.msock = true ∧ answers.connects ≠ none

instance (p : Polling) (answers : Answers) : Decidable (Connects p answers) :=
  inferInstanceAs (Decidable (_ ∧ _))

/-- The server with one more descriptor that nothing knows of. -/
def Server.forgets (s : Server) : Server := s.withProcess s.process.accept.2

/-- A pass that turns a connection away does nothing else. -/
theorem pass_full (full : getAvaliableID p.server.idTable = none)
    (connection : accepted p answers ≠ none) :
    pass answers p = .ok ⟨p.server.forgets, widen p.maxFd p.server.clientTable⟩ ∧
      ∀ fd, ¬ IsServed p answers fd := by
  refine ⟨?_, fun fd serves => (isServed_iff.mp serves).1 ⟨connection, full⟩⟩
  obtain ⟨⟨userIp, port⟩, isAccepted⟩ := Option.ne_none_iff_exists'.mp connection
  have entered : acceptClient p.server userIp port = .ok p.server.forgets := by
    rw [acceptClient, full]
    rfl
  rw [pass]
  simp only [← accepted.eq_def, isAccepted, entered, full]
  rfl

end Full

end NetProg.SingleProc
