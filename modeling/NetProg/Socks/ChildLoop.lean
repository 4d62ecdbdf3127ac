import Mathlib.Algebra.BigOperators.Group.Multiset.Basic
import Mathlib.Algebra.Ring.Nat
import NetProg.Socks.Outstanding
import NetProg.Socks.Rules

/-!
# The event loop of a forked child

`do_accept` forks for every connection. The child closes the acceptor it has inherited and
starts the session, and then its handler, like that of the parent, calls `do_accept` again.

A process runs its event loop as long as a handler is pending. The handlers of a session
come to an end once the client and the peer have closed: a read that ends or fails starts
at most a last send, and a send that fails starts nothing. The handler of the accept does
not: on the closed acceptor every accept completes with an error, and its handler starts
the next. So it is pending in every state of a child, and the loop is never left but by an
exception.
-/

namespace NetProg.Socks

open Runs

/-- The operations of a process outside its relay that can be pending: the accept of the
server, the read of a request and the send of a refusal, the three steps of a
`ConnectMode` and the three of a `BindMode` before they relay. -/
inductive Handler where
  | accept
  | readInfo
  | sendReject
  | resolve
  | connect
  | connectReply
  | bindReply
  | bindAccept
  | bindAnswer
  deriving DecidableEq

/-- A process of the proxy, with the operations that have been started and have not completed. It
has the message of a session that reads, or the relay of one that was granted. -/
structure EventLoop where
  acceptorOpen : Bool
  pending : Multiset Handler
  message : Str
  relay : Option (Mode × Relay)

/-- The two sides of a `fork`. -/
inductive Side where
  | parent
  | child
  deriving DecidableEq

/-- What a request meets: the rule file, whether the client is still connected, and whether a
`BindMode` can listen. Each read may meet other ones. -/
structure Circumstances where
  conf : Option Str
  connected : Bool
  listens : Bool

/-- What completes: an accept with a connection, on one side of the fork that follows; a
read of `read_info` with bytes; any other operation outside the relay, with an error or
without; an operation of the relay. -/
inductive LoopEvent where
  | accepted (side : Side)
  | reads (chunk : Str) (met : Circumstances)
  | completes (handler : Handler) (ok : Bool)
  | relays (completion : Completion)

/-- What leaves `run` before it returns: undefined behaviour, or an exception. -/
inductive Stop where
  | fault (fault : Fault)
  | exception
  deriving DecidableEq

namespace EventLoop

/-- Start an operation. -/
def issue (s : EventLoop) (handler : Handler) : EventLoop :=
  { s with pending := handler ::ₘ s.pending }

/-- An operation has completed. -/
def done (s : EventLoop) (handler : Handler) : EventLoop :=
  { s with pending := s.pending.erase handler }

/-- The relay of a mode, after `do_read(3)`. -/
def startRelay (s : EventLoop) (mode : Mode) : EventLoop :=
  { s with relay := some (mode, (relaySystem mode).start) }

/-- `do_accept`. -/
def doAccept (s : EventLoop) : EventLoop := s.issue .accept

/-- The handler of an accept, which has failed or is followed by a fork: the child closes
the acceptor and starts a session. -/
def acceptHandler (s : EventLoop) (accepted : Option Side) : EventLoop :=
  match accepted with
  | none => s.doAccept
  | some .parent => s.doAccept
  | some .child =>
    doAccept ({ s with acceptorOpen := false, message := List.replicate 1024 0 }.issue .readInfo)

/-- The handler of a read in `read_info`. A request is refused, and the session reads on, or
it is handed to the class for its command. -/
def readInfoHandler (s : EventLoop) (chunk : Str) (met : Circumstances) : Except Stop EventLoop :=
  let message := chunk ++ s.message.drop chunk.length
  let s := { s with message := message }
  match decision met.conf message with
  | .error fault => .error (.fault fault)
  | .ok isGranted =>
    if ! met.connected then .error .exception
    else if ! isGranted then .ok ((s.issue .sendReject).issue .readInfo)
    else if message.getD 1 0 = 1 then .ok (s.issue .resolve)
    else if message.getD 1 0 = 2 then
      if met.listens then .ok (s.issue .bindReply) else .error .exception
    else .ok s

/-- The handlers of the other operations. -/
def handler (s : EventLoop) (handler : Handler) (ok : Bool) : EventLoop :=
  match handler, ok with
  | .accept, _ => s.acceptHandler none
  | .resolve, true => s.issue .connect
  | .connect, true => s.issue .connectReply
  | .connectReply, true => s.startRelay .connect
  | .bindReply, true => s.issue .bindAccept
  | .bindAccept, true => s.issue .bindAnswer
  | .bindAnswer, true => s.startRelay .bind
  | _, _ => s

/-- The handler of an operation of the relay. -/
def relayHandler (s : EventLoop) (completion : Completion) : EventLoop :=
  { s with relay := s.relay.map fun (mode, r) => (mode, complete mode r completion) }

/-- Serve what completes. -/
def serve (s : EventLoop) (event : LoopEvent) : Except Stop EventLoop :=
  match event with
  | .accepted side => .ok ((s.done .accept).acceptHandler (some side))
  | .reads chunk met => (s.done .readInfo).readInfoHandler chunk met
  | .completes handler ok => .ok ((s.done handler).handler handler ok)
  | .relays completion => .ok (s.relayHandler completion)

/-- What can complete. A connection is only accepted while the acceptor is open; an accept
can fail at any time. -/
def Offers (s : EventLoop) (event : LoopEvent) : Prop :=
  match event with
  | .accepted _ => .accept ∈ s.pending ∧ s.acceptorOpen = true
  | .reads chunk _ => .readInfo ∈ s.pending ∧ chunk ≠ [] ∧ chunk.length ≤ 1024
  | .completes handler ok =>
    handler ∈ s.pending ∧ (ok = true → handler ≠ .accept ∧ handler ≠ .readInfo)
  | .relays completion => ∃ mode r, s.relay = some (mode, r) ∧ Possible mode r completion

instance decidableOffers (s : EventLoop) : (event : LoopEvent) → Decidable (s.Offers event)
  | .accepted _ => inferInstanceAs (Decidable (.accept ∈ s.pending ∧ s.acceptorOpen = true))
  | .reads chunk _ =>
    inferInstanceAs (Decidable (.readInfo ∈ s.pending ∧ chunk ≠ [] ∧ chunk.length ≤ 1024))
  | .completes handler ok =>
    inferInstanceAs (Decidable (handler ∈ s.pending ∧
      (ok = true → handler ≠ .accept ∧ handler ≠ .readInfo)))
  | .relays completion =>
    match found : s.relay with
    | none => isFalse (by simp [Offers, found])
    | some (mode, r) => decidable_of_iff (Possible mode r completion) (by simp [Offers, found])

/-- `SocksServer`, after its constructor. -/
def listening : EventLoop := doAccept ⟨true, 0, [], none⟩

/-- A child behind the handler that has forked it. -/
def forked : EventLoop := (listening.done .accept).acceptHandler (some .child)

/-- No handler is pending, and `run` returns. -/
structure Idle (s : EventLoop) : Prop where
  pending : s.pending = 0
  relay : ∀ mode r, s.relay = some (mode, r) → ∀ d, (r d).pending = []

end EventLoop

/-- A process of the proxy from some state on, as a system of completions. -/
def loopFrom (start : EventLoop) : System EventLoop LoopEvent Stop where
  start := start
  offers := EventLoop.Offers
  serve := EventLoop.serve

/-- A forked child: its session reads, and an accept on the closed acceptor is pending. -/
def childLoop : System EventLoop LoopEvent Stop := loopFrom .forked

instance (s : EventLoop) (event : LoopEvent) : Decidable (childLoop.offers s event) :=
  inferInstanceAs (Decidable (s.Offers event))

/-- The accept on the closed acceptor completes. -/
def acceptFails : LoopEvent := .completes .accept false

/-! ## The session -/

/-- How many completions the operations of both directions lead to. -/
def Relay.weight (r : Relay) : Nat := (r .one).weight + (r .two).weight

theorem weight_on (r : Relay) (d : Direction) (change : Channel → Channel) :
    (r.on d change).weight + (r d).weight = r.weight + (change (r d)).weight := by
  cases d with
  | one =>
    rw [Relay.weight, on_self, on_other r .one change (by decide : Direction.two ≠ .one),
      Relay.weight]
    omega
  | two =>
    rw [Relay.weight, on_self, on_other r .two change (by decide : Direction.one ≠ .two),
      Relay.weight]
    omega

theorem weight_erase {pending : List Operation} (reading : .read ∈ pending) :
    2 + ((pending.erase .read).map Operation.weight).sum = (pending.map Operation.weight).sum :=
  List.sum_map_erase Operation.weight reading

/-- An operation that completes takes its weight with it. -/
theorem weight_eraseIdx {pending : List Operation} {k : Nat} {operation : Operation}
    (found : pending[k]? = some operation) :
    operation.weight + ((pending.eraseIdx k).map Operation.weight).sum =
      (pending.map Operation.weight).sum := by
  obtain ⟨inside, isOperation⟩ := List.getElem?_eq_some_iff.mp found
  have perm := (List.getElem_cons_eraseIdx_perm inside).map Operation.weight
  rw [isOperation] at perm
  exact perm.sum_eq

/-- The completions once both ends have closed: a read ends or fails, a send fails or has
transmitted all it was asked for. -/
def Completion.Closes (r : Relay) : Completion → Prop
  | .reads _ _ => False
  | .readsEof _ => True
  | .readFails _ => True
  | .sends d k n => ∀ len relays, (r d).pending[k]? = some (.send len relays) → n = len
  | .sendFails _ _ => True

/-- A completion of that kind leaves less to come. A read that ends is followed by one send at
most and a whole send by one read, and an operation weighs more than what follows it here; a
failure is followed by nothing. -/
theorem Completion.Closes.weight_lt {mode : Mode} {r : Relay} {completion : Completion}
    (closes : completion.Closes r) (possible : Possible mode r completion) :
    (complete mode r completion).weight < r.weight := by
  have changes (d : Direction) (change : Channel → Channel)
      (fewer : (change (r d)).weight < (r d).weight) : (r.on d change).weight < r.weight := by
    have balance := weight_on r d change
    omega
  cases completion with
  | reads d bytes => exact closes.elim
  | readsEof d =>
    apply changes
    have left := weight_erase (show .read ∈ (r d).pending from possible)
    simp only [Channel.weight, Channel.endOfStream, List.map_append, List.sum_append,
      List.map_cons, List.map_nil, List.sum_singleton, Operation.weight]
    omega
  | readFails d =>
    apply changes
    have left := weight_erase (show .read ∈ (r d).pending from possible)
    simp only [Channel.weight]
    omega
  | sends d k n =>
    rcases sends_cases possible with ⟨len, found⟩ | ⟨len, found⟩
    · have left := weight_eraseIdx found
      have whole : n = len := closes len true found
      subst whole
      have goesOn : complete mode r (.sends d k n) =
          r.on d (fun c => (c.transmit k n).issue .read) := by
        rw [complete_sends found]
        cases mode with
        | connect => exact (doRead_number _ d).trans (on_on r d _ _)
        | bind => exact (if_pos rfl).trans ((doRead_number _ d).trans (on_on r d _ _))
      rw [goesOn]
      apply changes
      simp only [Channel.weight, Channel.issue, Channel.transmit, List.map_append, List.sum_append,
        List.map_cons, List.map_nil, List.sum_singleton, Operation.weight] at left ⊢
      omega
    · have left := weight_eraseIdx found
      rw [complete_closes found]
      apply changes
      simp only [Channel.weight, Channel.transmit, Operation.weight] at left ⊢
      omega
  | sendFails d k =>
    apply changes
    cases found : (r d).pending[k]? with
    | none => simp [Possible, Channel.asked, found] at possible
    | some operation =>
      have left := weight_eraseIdx found
      have some_ := operation.weight_pos
      simp only [Channel.weight] at left ⊢
      omega

/-- The same for the operations outside the relay. The accept is not counted. -/
def Handler.weight : Handler → Nat
  | .accept => 0
  | .readInfo => 1
  | .sendReject => 1
  | .resolve => 7
  | .connect => 6
  | .connectReply => 5
  | .bindReply => 7
  | .bindAccept => 6
  | .bindAnswer => 5

/-- The event is the end of an operation of the session, not of an accept. -/
def LoopEvent.ofSession : LoopEvent → Bool
  | .accepted _ => false
  | .completes .accept _ => false
  | _ => true

namespace EventLoop

variable {s : EventLoop}

/-- What the loop still has to do: its handlers, and the operations of its relay if it has one. -/
def weight (s : EventLoop) : Nat :=
  (s.pending.map Handler.weight).sum + s.relay.elim 0 (·.2.weight)

/-- What completes once the client and the peer have closed: no request is read, and the
relay completes as it does then. -/
def Closes (s : EventLoop) (event : LoopEvent) : Prop :=
  match event with
  | .accepted _ => False
  | .reads _ _ => False
  | .completes _ _ => True
  | .relays completion => ∀ mode r, s.relay = some (mode, r) → completion.Closes r

/-- Nothing but an accept is pending. -/
structure OnlyAccepts (s : EventLoop) : Prop where
  pending : ∀ handler ∈ s.pending, handler = .accept
  relay : ∀ mode r, s.relay = some (mode, r) → ∀ d, (r d).pending = []

theorem weight_issue (s : EventLoop) (handler : Handler) :
    (s.issue handler).weight = handler.weight + s.weight := by
  simp only [weight, issue, Multiset.map_cons, Multiset.sum_cons]
  omega

theorem weight_done {handler : Handler} (pending : handler ∈ s.pending) :
    handler.weight + (s.done handler).weight = s.weight := by
  have whole := Multiset.cons_erase pending
  rw [weight, weight, ← congrArg (fun rest => (rest.map Handler.weight).sum) whole]
  simp only [done, Multiset.map_cons, Multiset.sum_cons]
  omega

theorem weight_startRelay (s : EventLoop) (mode : Mode) :
    (s.startRelay mode).weight ≤ 4 + s.weight := by
  have reads : (relaySystem mode).start.weight = 4 := by
    cases mode <;> rfl
  simp only [weight, startRelay, Option.elim_some, reads]
  omega

/-- What a handler starts leads to less than its operation did. -/
theorem weight_handler (s : EventLoop) {handler : Handler} (ok : Bool) (other : handler ≠ .accept) :
    (s.handler handler ok).weight < handler.weight + s.weight := by
  cases handler with
  | accept => exact absurd rfl other
  | readInfo | sendReject =>
    simp only [EventLoop.handler, Handler.weight]
    omega
  | resolve | connect | bindReply | bindAccept =>
    cases ok <;> simp only [EventLoop.handler, weight_issue, Handler.weight] <;> omega
  | connectReply =>
    have relays := s.weight_startRelay .connect
    cases ok <;> simp only [EventLoop.handler, Handler.weight] <;> omega
  | bindAnswer =>
    have relays := s.weight_startRelay .bind
    cases ok <;> simp only [EventLoop.handler, Handler.weight] <;> omega

theorem weight_relaying {mode : Mode} {r : Relay} (isRelay : s.relay = some (mode, r)) :
    s.weight = (s.pending.map Handler.weight).sum + r.weight := by
  rw [weight, isRelay]
  rfl

/-- Once both ends have closed, every completion but that of an accept leaves less to come. -/
theorem weight_serve {event : LoopEvent} (offered : s.Offers event) (closes : s.Closes event)
    {after : EventLoop} (served : s.serve event = .ok after) :
    (if event.ofSession then 1 else 0) + after.weight ≤ s.weight := by
  cases event with
  | accepted side => exact closes.elim
  | reads chunk met => exact closes.elim
  | completes handler ok =>
    cases served
    have balance := weight_done offered.1
    by_cases isAccept : handler = .accept
    · subst isAccept
      have again := (s.done .accept).weight_issue .accept
      simp only [LoopEvent.ofSession, Bool.false_eq_true, if_false, EventLoop.handler,
        acceptHandler, doAccept]
      omega
    · have less := (s.done handler).weight_handler ok isAccept
      have counts : LoopEvent.ofSession (.completes handler ok) = true := by
        cases handler with
        | accept => exact absurd rfl isAccept
        | _ => rfl
      simp only [counts, if_true]
      omega
  | relays completion =>
    cases served
    obtain ⟨mode, r, isRelay, possible⟩ := offered
    have less := (closes mode r isRelay).weight_lt possible
    have isAfter : (s.relayHandler completion).relay = some (mode, complete mode r completion) := by
      rw [relayHandler, isRelay]
      rfl
    have pending : (s.relayHandler completion).pending = s.pending := rfl
    rw [weight_relaying isRelay, weight_relaying isAfter, pending]
    simp only [LoopEvent.ofSession, if_true]
    omega

/-- As long as something else than an accept is pending, something else can complete. -/
theorem exists_closing (others : ¬ s.OnlyAccepts) : ∃ event after,
    s.Offers event ∧ s.Closes event ∧ event.ofSession = true ∧ s.serve event = .ok after := by
  by_cases outside : ∀ handler ∈ s.pending, handler = .accept
  · have inside : ∃ mode r d, s.relay = some (mode, r) ∧ (r d).pending ≠ [] := by
      by_contra none
      apply others
      refine ⟨outside, ?_⟩
      intro mode r isRelay d
      by_contra some_
      exact none ⟨mode, r, d, isRelay, some_⟩
    obtain ⟨mode, r, d, isRelay, some_⟩ := inside
    obtain ⟨operation, rest, pending⟩ := List.exists_cons_of_ne_nil some_
    cases operation with
    | read =>
      have reading : .read ∈ (r d).pending := pending ▸ List.mem_cons_self
      exact ⟨.relays (.readFails d), _, ⟨mode, r, isRelay, reading⟩, fun _ _ _ => trivial, rfl, rfl⟩
    | send len relays =>
      have sending : Possible mode r (.sendFails d 0) := by
        simp [Possible, Channel.asked, pending]
      exact ⟨.relays (.sendFails d 0), _, ⟨mode, r, isRelay, sending⟩, fun _ _ _ => trivial, rfl, rfl⟩
  · have some_ : ∃ handler ∈ s.pending, handler ≠ .accept := by
      simpa using outside
    obtain ⟨handler, pending, other⟩ := some_
    refine ⟨.completes handler false, _,
      ⟨pending, fun succeeds => absurd succeeds Bool.false_ne_true⟩, trivial, ?_, rfl⟩
    cases handler with
    | accept => exact absurd rfl other
    | _ => rfl

end EventLoop

/-- From any state on, once both ends have closed, the session comes to its end in whatever
order its operations complete: no more of them complete than its weight, and every run can
go on to where only an accept is pending. -/
theorem session_comes_to_end {start s : EventLoop} {events : List LoopEvent}
    (run : Run (loopFrom start) EventLoop.Closes events s) :
    events.countP LoopEvent.ofSession ≤ start.weight ∧ ∃ more final,
      Run (loopFrom start) EventLoop.Closes (events ++ more) final ∧ final.OnlyAccepts := by
  have pays : ∀ s event after, (loopFrom start).offers s event → s.Closes event →
      (loopFrom start).serve s event = .ok after →
      (if event.ofSession then 1 else 0) + after.weight ≤ s.weight :=
    fun _ _ _ offered closes served => EventLoop.weight_serve offered closes served
  constructor
  · exact Nat.le_trans (Nat.le_add_right _ _) (run.countP_le pays)
  · exact run.reaches pays EventLoop.OnlyAccepts (fun s others => EventLoop.exists_closing others)

/-! ## The accept -/

namespace EventLoop

/-- The acceptor is closed, and an accept on it is pending. -/
structure Accepting (s : EventLoop) : Prop where
  closed : s.acceptorOpen = false
  pending : .accept ∈ s.pending

variable {s : EventLoop}

theorem Accepting.issue (accepting : s.Accepting) (handler : Handler) :
    (s.issue handler).Accepting :=
  ⟨accepting.closed, Multiset.mem_cons_of_mem accepting.pending⟩

theorem Accepting.done (accepting : s.Accepting) {handler : Handler} (other : handler ≠ .accept) :
    (s.done handler).Accepting :=
  ⟨accepting.closed, (Multiset.mem_erase_of_ne other.symm).mpr accepting.pending⟩

/-- The handler of a failed accept starts the next, and changes nothing else. -/
theorem acceptFails_same (pending : .accept ∈ s.pending) : s.serve acceptFails = .ok s := by
  have again : Handler.accept ::ₘ s.pending.erase .accept = s.pending := Multiset.cons_erase pending
  simp only [serve, acceptFails, handler, acceptHandler, doAccept, EventLoop.issue, EventLoop.done,
    again]

theorem Accepting.withMessage (accepting : s.Accepting) (message : Str) :
    Accepting { s with message := message } :=
  ⟨accepting.closed, accepting.pending⟩

theorem Accepting.startRelay (accepting : s.Accepting) (mode : Mode) :
    (s.startRelay mode).Accepting :=
  ⟨accepting.closed, accepting.pending⟩

/-- The handler of a request starts operations, if it does not leave `run`. -/
theorem Accepting.readInfoHandler (accepting : s.Accepting) {chunk : Str} {met : Circumstances}
    {after : EventLoop} (handled : s.readInfoHandler chunk met = .ok after) : after.Accepting := by
  have read := accepting.withMessage (chunk ++ s.message.drop chunk.length)
  rw [EventLoop.readInfoHandler] at handled
  split at handled
  · cases handled
  split at handled
  · cases handled
  split at handled
  · cases handled
    exact (read.issue _).issue _
  split at handled
  · cases handled
    exact read.issue _
  split at handled
  · split at handled
    · cases handled
      exact read.issue _
    · cases handled
  · cases handled
    exact read

/-- So do the handlers of the other operations. -/
theorem Accepting.handler (accepting : s.Accepting) {handler : Handler} (ok : Bool)
    (other : handler ≠ .accept) : (s.handler handler ok).Accepting := by
  cases handler with
  | accept => exact absurd rfl other
  | readInfo | sendReject => exact accepting
  | resolve | connect | bindReply | bindAccept =>
    cases ok with
    | false => exact accepting
    | true => exact accepting.issue _
  | connectReply | bindAnswer =>
    cases ok with
    | false => exact accepting
    | true => exact accepting.startRelay _

/-- Whatever completes in a child, an accept is pending again. -/
theorem Accepting.next (accepting : s.Accepting) {event : LoopEvent} (offered : s.Offers event)
    {after : EventLoop} (served : s.serve event = .ok after) : after.Accepting := by
  cases event with
  | accepted side =>
    have isOpen := offered.2
    rw [accepting.closed] at isOpen
    cases isOpen
  | reads chunk met => exact (accepting.done (by decide)).readInfoHandler served
  | completes handler ok =>
    by_cases isAccept : handler = .accept
    · subst isAccept
      cases served
      exact ⟨accepting.closed, Multiset.mem_cons_self _ _⟩
    · cases served
      exact (accepting.done isAccept).handler ok isAccept
  | relays completion =>
    cases served
    exact ⟨accepting.closed, accepting.pending⟩

/-- A child that has just been forked. -/
theorem forked_accepting : forked.Accepting := ⟨rfl, by decide⟩

/-- In every run of a child: whatever completes begins what it begins besides the accept, and the
accept begins itself again. -/
theorem run_accepting {events : List LoopEvent} (run : Run childLoop always events s) :
    s.Accepting :=
  run.invariant Accepting forked_accepting
    (fun _ _ _ accepting offered _ served => accepting.next offered served)

theorem Accepting.not_idle (accepting : s.Accepting) : ¬ s.Idle := by
  intro idle
  have pending := accepting.pending
  rw [idle.pending] at pending
  exact Multiset.notMem_zero _ pending

theorem Accepting.offersFailure (accepting : s.Accepting) : s.Offers acceptFails :=
  ⟨accepting.pending, fun succeeds => absurd succeeds Bool.false_ne_true⟩

/-- The accept may complete any number of times, and each time it is pending again. -/
theorem Accepting.again (accepting : s.Accepting) {events : List LoopEvent}
    (run : Run childLoop always events s) (times : Nat) :
    Run childLoop always (events ++ List.replicate times acceptFails) s := by
  induction times with
  | zero => simpa using run
  | succ times ih =>
    rw [List.replicate_succ', ← List.append_assoc]
    exact .next ih accepting.offersFailure trivial (acceptFails_same accepting.pending)

end EventLoop

/-- A child never comes to an end by itself: in every run, whatever has completed and in whatever
order, an accept is pending, so `run` does not return; it completes with an error, which leaves
the child as it was, and so any number of times.

A child closes its acceptor, so that every accept fails; but the handler begins the next one
whether there was an error or not. That an accept is pending is kept by all other completions. -/
theorem child_never_returns {events : List LoopEvent} {s : EventLoop}
    (run : Run childLoop always events s) :
    ¬ s.Idle ∧ s.Offers acceptFails ∧ s.serve acceptFails = .ok s ∧
      ∀ times, Run childLoop always (events ++ List.replicate times acceptFails) s := by
  have accepting := EventLoop.run_accepting run
  exact ⟨accepting.not_idle, accepting.offersFailure,
    EventLoop.acceptFails_same accepting.pending, accepting.again run⟩

/-- A request that no rule grants, and the end of the client behind it. -/
def refusedHistory : List LoopEvent :=
  [.reads (str "GET / HTTP/1.0") ⟨some [], true, true⟩, .completes .sendReject true,
    .completes .readInfo false]

theorem child_never_returns_refused : ∃ s, Run childLoop always refusedHistory s ∧
    s.pending = {.accept} ∧ ¬ s.Idle ∧
      ∀ times, Run childLoop always (refusedHistory ++ List.replicate times acceptFails) s := by
  have pending : (play childLoop always .forked refusedHistory).map EventLoop.pending =
      some {.accept} := by decide +kernel
  obtain ⟨s, played, only⟩ := Option.map_eq_some_iff.mp pending
  have run : Run childLoop always refusedHistory s := Run.played refusedHistory s played
  obtain ⟨notIdle, -, -, again⟩ := child_never_returns run
  exact ⟨s, run, only, notIdle, again⟩

/-- The client closes its connection at once. The session is over, and the accept goes on. -/
theorem closed_client_leaves_accept : ∃ s,
    Run childLoop always [.completes .readInfo false] s ∧ s.OnlyAccepts ∧ ¬ s.Idle ∧
      ∀ times, Run childLoop always
        ([.completes .readInfo false] ++ List.replicate times acceptFails) s := by
  have run : Run childLoop always [.completes .readInfo false] (EventLoop.forked.done .readInfo) :=
    .next .start ⟨by decide, by decide⟩ trivial rfl
  have accepting := EventLoop.run_accepting run
  refine ⟨_, run, ⟨by decide, ?_⟩, accepting.not_idle, accepting.again run⟩
  intro mode r isRelay
  cases isRelay

end NetProg.Socks
