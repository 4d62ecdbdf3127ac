import NetProg.Library.Refinements
import NetProg.Socks.ChildLoop
import NetProg.Socks.Replies
import NetProg.Socks.Session

/-!
# A session in the event loop of its child

What `read_info` does with a request is looked at from three sides: which decisions a session
takes and what it relays, when nothing fails on the way; what the client of a request gets,
whatever completes; and which operations of the child are pending. The last one follows every
handler, and says neither what is decided nor what is sent.

Here the first two are seen in the third. Every state of a session or a request has its pending
operations in the child, and what it does next is what the child does when these complete. So
the runs of all three are runs of one event loop.
-/

namespace NetProg.Socks

open Loops Outcomes Runs

/-- Only the two commands are ever granted: a rule has the mode of one of them. -/
theorem granted_command {conf : Option Str} {message : Str}
    (granted : decision conf message = .ok true) :
    message.getD 1 0 = 1 ∨ message.getD 1 0 = 2 := by
  cases conf with
  | none => cases granted
  | some text =>
    obtain ⟨isGranted, looped, returned⟩ := bind_eq_ok.mp granted
    have both : (isGranted && decide (message.getD 0 0 = 4)) = true := Except.ok.inj returned
    have byRule : isGranted = true := (Bool.and_eq_true_iff.mp both).1
    subst byRule
    have only := (ruleLoop message).run_keeps (fun _ => True)
      (fun leaves => leaves = true → message.getD 1 0 = 1 ∨ message.getD 1 0 = 2)
      (fun _ _ _ _ => trivial) ?_ trivial looped
    · exact only rfl
    · intro file leaves _ left isTrue
      subst isTrue
      change ruleRound message file = _ at left
      rw [ruleRound] at left
      split at left
      · cases left
      obtain ⟨⟨words, after⟩, -, left⟩ := bind_eq_ok.mp left
      simp only at left
      split at left
      · cases left
      split at left
      · obtain ⟨pass, -, left⟩ := bind_eq_ok.mp left
        split at left
        · rename_i covers
          have mode := (Bool.and_eq_true_iff.mp covers).1
          simp only [hasMode, Bool.or_eq_true, Bool.and_eq_true, decide_eq_true_eq] at mode
          exact mode.imp And.left And.left
        · cases left
      · cases left

/-! ## The reply to a request -/

/-- The operations of the child that are pending for a request, besides the accept. -/
def Stage.operations : Stage → Multiset Handler
  | .rejecting => {.sendReject, .readInfo}
  | .rejected => {.readInfo}
  | .bound => {.bindReply}
  | .resolving => {.resolve}
  | .connecting _ => {.connect}
  | .replying => {.connectReply}
  | .relaying _ | .dropped => 0

/-- The relay that runs for a request. -/
def Stage.relay : Stage → Option (Mode × Relay)
  | .relaying r => some (.connect, r)
  | _ => none

/-- What completes in the child. -/
def Report.event (stage : Stage) : Report → LoopEvent
  | .resolves found => .completes .resolve found
  | .connects reached => .completes .connect reached
  | .replies _ =>
    match stage with
    | .replying => .completes .connectReply true
    | _ => .completes .sendReject true
  | .repliesLate _ => .completes .sendReject true
  | .replyFails =>
    match stage with
    | .replying => .completes .connectReply false
    | _ => .completes .sendReject false
  | .relays completion => .relays completion

/-- The child of a request that nothing else is pending for: it waits for what the request waits
for, and for a connection. -/
def Conversation.child (c : Conversation) : EventLoop :=
  ⟨false, .accept ::ₘ c.stage.operations, c.message, c.stage.relay⟩

/-- A client that stays connected, and ports to listen on. -/
def staying (conf : Option Str) : Circumstances := ⟨conf, true, true⟩

/-- A child in which one of the operations of its request has completed, and others were started. -/
theorem child_eq {c : Conversation} {isOpen : Bool} {pending : Multiset Handler} {message : Str}
    {relay : Option (Mode × Relay)} (acceptor : isOpen = false)
    (operations : pending = .accept ::ₘ c.stage.operations) (same : message = c.message)
    (runs : relay = c.stage.relay) : (⟨isOpen, pending, message, relay⟩ : EventLoop) = c.child := by
  rw [Conversation.child, acceptor, operations, same, runs]

/-- A child that has read a request decides on it as the request does: both have the same
fault, or what is under way for the request is pending in the child. -/
theorem serve_reads (conf : Option Str) (message chunk : Str) :
    EventLoop.serve ⟨false, {.accept, .readInfo}, message, none⟩ (.reads chunk (staying conf)) =
      ((Conversation.readInfo conf (chunk ++ message.drop chunk.length)).map
        Conversation.child).mapError Stop.fault := by
  have rest : ({.accept, .readInfo} : Multiset Handler).erase .readInfo = {.accept} := by decide
  rw [EventLoop.serve, EventLoop.readInfoHandler, Conversation.readInfo]
  simp only [EventLoop.done, rest, staying]
  cases decided : decision conf (chunk ++ message.drop chunk.length) with
  | error fault => rfl
  | ok isGranted =>
    cases isGranted with
    | false =>
      have refused : Handler.readInfo ::ₘ .sendReject ::ₘ {.accept} =
          {.accept, .sendReject, .readInfo} := by decide
      exact congrArg Except.ok (child_eq rfl refused rfl rfl)
    | true =>
      rcases granted_command decided with connect | bind
      · have resolving : (Handler.resolve ::ₘ {.accept}) = {.accept, .resolve} := by decide
        simp only [connect, Bool.not_true, Bool.false_eq_true, if_false, if_true]
        exact congrArg Except.ok (child_eq rfl resolving rfl rfl)
      · have bound : (Handler.bindReply ::ₘ {.accept}) = {.accept, .bindReply} := by decide
        have other : ¬ ((2 : UInt8) = 1) := by decide
        simp only [bind, other, Bool.not_true, Bool.false_eq_true, if_false, if_true]
        exact congrArg Except.ok (child_eq rfl bound rfl rfl)

/-- What completes for a request completes in its child, and both go on alike. The cases are the
stages of a request with the reports that are possible there; the child waits for the same
operations, besides its accept. -/
theorem serve_report (c : Conversation) (library : AddressText) {report : Report}
    (possible : c.Possible report) : c.child.Offers (report.event c.stage) ∧
      c.child.serve (report.event c.stage) = .ok (c.handle library report).child := by
  obtain ⟨message, stage, toClient⟩ := c
  have waits {handler : Handler} (operation : handler ∈ stage.operations)
      (apart : handler ≠ .accept ∧ handler ≠ .readInfo) (ok : Bool) :
      (Conversation.child ⟨message, stage, toClient⟩).Offers (.completes handler ok) :=
    ⟨Multiset.mem_cons_of_mem operation, fun _ => apart⟩
  have only (handler : Handler) (apart : handler ≠ .accept) :
      ({.accept, handler} : Multiset Handler).erase handler = {.accept} := by
    revert apart
    cases handler <;> decide
  have next (first second : Handler) (apart : first ≠ .accept) :
      second ::ₘ ({.accept, first} : Multiset Handler).erase first = {.accept, second} := by
    rw [only first apart]
    exact Multiset.pair_comm second .accept
  have answered : ({.accept, .sendReject, .readInfo} : Multiset Handler).erase .sendReject =
      {.accept, .readInfo} := by decide
  cases report with
  | resolves found =>
    cases stage with
    | resolving =>
      refine ⟨waits (by decide) (by decide) found, congrArg Except.ok ?_⟩
      cases found with
      | true =>
        obtain ⟨endpoint, connects⟩ := doConnect_stage library ⟨message, .resolving, toClient⟩
        rw [Conversation.handle, connects]
        exact child_eq rfl (next .resolve .connect (by decide)) rfl rfl
      | false => exact child_eq rfl (only .resolve (by decide)) rfl rfl
    | _ => exact possible.elim
  | connects reached =>
    cases stage with
    | connecting endpoint =>
      refine ⟨waits (Multiset.mem_singleton_self _) (by decide) reached, congrArg Except.ok ?_⟩
      cases reached with
      | true => exact child_eq rfl (next .connect .connectReply (by decide)) rfl rfl
      | false => exact child_eq rfl (only .connect (by decide)) rfl rfl
    | _ => exact possible.elim
  | replies n =>
    cases stage with
    | replying =>
      exact ⟨waits (by decide) (by decide) true,
        congrArg Except.ok (child_eq rfl (only .connectReply (by decide)) rfl rfl)⟩
    | rejecting =>
      exact ⟨waits (by decide) (by decide) true, congrArg Except.ok (child_eq rfl answered rfl rfl)⟩
    | _ => exact possible.elim
  | repliesLate bytes =>
    cases stage with
    | rejecting =>
      exact ⟨waits (by decide) (by decide) true, congrArg Except.ok (child_eq rfl answered rfl rfl)⟩
    | _ => exact possible.elim
  | replyFails =>
    cases stage with
    | replying =>
      exact ⟨waits (by decide) (by decide) false,
        congrArg Except.ok (child_eq rfl (only .connectReply (by decide)) rfl rfl)⟩
    | rejecting =>
      exact ⟨waits (by decide) (by decide) false,
        congrArg Except.ok (child_eq rfl answered rfl rfl)⟩
    | _ => exact possible.elim
  | relays completion =>
    cases stage with
    | relaying r => exact ⟨⟨.connect, r, rfl, possible⟩, rfl⟩
    | _ => exact possible.elim

/-- One completion in the child. -/
theorem child_serves {s t : EventLoop} {event : LoopEvent} (offered : s.Offers event)
    (served : s.serve event = .ok t) : Continues childLoop always s [event] t :=
  .one offered trivial served

/-- So every course of a request is one of its child, from the decision on. -/
theorem conversation_in_child {library : AddressText} {start c : Conversation}
    {reports : List Report} (run : Run (conversation library start) always reports c) :
    ∃ events, Continues childLoop always start.child events c.child := by
  induction run with
  | start => exact ⟨[], .nil _⟩
  | next before possible _ served ih =>
    cases served
    obtain ⟨events, sofar⟩ := ih
    obtain ⟨offered, serves⟩ := serve_report _ library possible
    exact ⟨_, sofar.trans (child_serves offered serves)⟩

/-! ## What is received -/

/-- The child of a session that reads or relays: nothing is pending but the next read, or what the
relay has started. -/
def Session.child (s : Session) : EventLoop :=
  ⟨false, .accept ::ₘ (if s.relay.isNone then {.readInfo} else 0), s.message, s.relay⟩

/-- What one read can bring. -/
def Session.Fits (s : Session) (chunk : Str) : Prop :=
  chunk ≠ [] ∧ chunk.length ≤ match s.relay with
    | none => 1024
    | some (mode, _) => mode.maxLength

instance (s : Session) (chunk : Str) : Decidable (s.Fits chunk) :=
  inferInstanceAs (Decidable (_ ∧ _))

/-- A session from its start on, as a system of reads in which nothing fails. -/
def sessions (conf : Option Str) : System Session Str Fault where
  start := .start
  offers := Session.Fits
  serve := receive conf

instance (conf : Option Str) (s : Session) (chunk : Str) :
    Decidable ((sessions conf).offers s chunk) := inferInstanceAs (Decidable (s.Fits chunk))

/-- The relay of a session that has one has sent what it has read. -/
def Session.CaughtUp (s : Session) : Prop := ∀ mode r, s.relay = some (mode, r) → Socks.CaughtUp r

/-- A step of the child with nothing else pending than the accept and one operation, which has
completed and starts another one. -/
theorem completes_next (message : Str) (first second : Handler)
    (apart : first ≠ .accept ∧ first ≠ .readInfo)
    (issues : ∀ s : EventLoop, s.handler first true = s.issue second) :
    Continues childLoop always ⟨false, {.accept, first}, message, none⟩
      [.completes first true] ⟨false, {.accept, second}, message, none⟩ := by
  refine child_serves ⟨Multiset.mem_cons_of_mem (Multiset.mem_singleton_self first),
    fun _ => apart⟩ (congrArg Except.ok ?_)
  have rest : second ::ₘ ({.accept, first} : Multiset Handler).erase first = {.accept, second} := by
    revert apart
    cases first <;> cases second <;> decide
  rw [issues]
  exact congrArg (fun pending => (⟨false, pending, message, none⟩ : EventLoop)) rest

/-- And the last one starts the relay. -/
theorem completes_last (message : Str) (last : Handler) (mode : Mode)
    (apart : last ≠ .accept ∧ last ≠ .readInfo)
    (starts : ∀ s : EventLoop, s.handler last true = s.startRelay mode) :
    Continues childLoop always ⟨false, {.accept, last}, message, none⟩
      [.completes last true]
      (Session.child ⟨message, [], some (mode, (relaySystem mode).start)⟩) := by
  refine child_serves ⟨Multiset.mem_cons_of_mem (Multiset.mem_singleton_self last),
    fun _ => apart⟩ (congrArg Except.ok ?_)
  have rest : ({.accept, last} : Multiset Handler).erase last = {.accept} := by
    revert apart
    cases last <;> decide
  rw [starts]
  exact congrArg (fun pending =>
    (⟨false, pending, message, some (mode, (relaySystem mode).start)⟩ : EventLoop)) rest

/-- The read of a request, and the decision on it. -/
theorem reads_in_child {conf : Option Str} {message chunk : Str} {start : Conversation}
    (some_ : chunk ≠ []) (few : chunk.length ≤ 1024)
    (decided : Conversation.readInfo conf (chunk ++ message.drop chunk.length) = .ok start) :
    Continues childLoop always ⟨false, {.accept, .readInfo}, message, none⟩
      [.reads chunk (staying conf)] start.child := by
  have offered : EventLoop.Offers ⟨false, {.accept, .readInfo}, message, none⟩
      (.reads chunk (staying conf)) := by
    exact ⟨Multiset.mem_cons_of_mem (Multiset.mem_singleton_self _), some_, few⟩
  have served := serve_reads conf message chunk
  rw [decided] at served
  exact child_serves offered served

/-- What is under way first for a granted request. -/
def Mode.opening : Mode → Stage
  | .connect => .resolving
  | .bind => .bound

theorem readInfo_opens {conf : Option Str} {message : Str}
    (granted : decision conf message = .ok true) : Conversation.readInfo conf message =
      .ok ⟨message, (relayMode (message.getD 1 0)).opening, []⟩ := by
  have other : ¬ ((2 : UInt8) = 1) := by decide
  rw [Conversation.readInfo, granted]
  refine congrArg (fun stage => Except.ok (⟨message, stage, []⟩ : Conversation)) ?_
  rcases granted_command granted with command | command
  · rw [command, relayMode, if_pos rfl, if_pos rfl, if_pos rfl]
    rfl
  · rw [command, relayMode, if_pos rfl, if_neg other, if_neg other]
    rfl

/-- The steps of a `ConnectMode` or a `BindMode` up to the relay. -/
theorem opening_in_child (message : Str) (mode : Mode) : ∃ events,
    Continues childLoop always (Conversation.child ⟨message, mode.opening, []⟩) events
      (Session.child ⟨message, [], some (mode, (relaySystem mode).start)⟩) := by
  cases mode with
  | connect =>
    exact ⟨_, ((completes_next message .resolve .connect (by decide) (fun _ => rfl)).trans
      (completes_next message .connect .connectReply (by decide) (fun _ => rfl))).trans
      (completes_last message .connectReply .connect (by decide) (fun _ => rfl))⟩
  | bind =>
    exact ⟨_, ((completes_next message .bindReply .bindAccept (by decide) (fun _ => rfl)).trans
      (completes_next message .bindAccept .bindAnswer (by decide) (fun _ => rfl))).trans
      (completes_last message .bindAnswer .bind (by decide) (fun _ => rfl))⟩

/-- What a session makes of a request, its child does after the read: it sends the refusal, or
takes all steps up to the relay. -/
theorem readInfo_in_child {conf : Option Str} {s after : Session} {chunk : Str}
    (reads : s.relay = none) (fits : s.Fits chunk) (received : readInfo conf s chunk = .ok after) :
    after.CaughtUp ∧ ∃ events, Continues childLoop always s.child events after.child := by
  obtain ⟨message, decisions, relay⟩ := s
  obtain rfl : relay = none := reads
  obtain ⟨isGranted, decided, returned⟩ := bind_eq_ok.mp received
  simp only at decided
  cases isGranted with
  | false =>
    cases returned
    have refused : Conversation.readInfo conf (chunk ++ message.drop chunk.length) =
        .ok ⟨chunk ++ message.drop chunk.length, .rejecting, []⟩ := by
      rw [Conversation.readInfo, decided]
      rfl
    obtain ⟨offers, serves⟩ := serve_report ⟨chunk ++ message.drop chunk.length, .rejecting, []⟩
      addressText (show Conversation.Possible _ (.replies 8) from ⟨by decide, by decide⟩)
    exact ⟨fun mode r none => (by cases none), _,
      (reads_in_child fits.1 fits.2 refused).trans (child_serves offers serves)⟩
  | true =>
    cases returned
    obtain ⟨events, steps⟩ := opening_in_child (chunk ++ message.drop chunk.length)
      (relayMode ((chunk ++ message.drop chunk.length).getD 1 0))
    refine ⟨fun mode r isRelay => ?_, _,
      (reads_in_child fits.1 fits.2 (readInfo_opens decided)).trans steps⟩
    cases isRelay
    exact caughtUp_start _

/-- A relay that has caught up forwards what it reads. -/
theorem forward_in_child {message : Str} {mode : Mode} {r : Relay} {chunk : Str}
    (caughtUp : Socks.CaughtUp r) (some_ : chunk ≠ []) (few : chunk.length ≤ mode.maxLength) :
    ∃ events, Continues childLoop always (Session.child ⟨message, [], some (mode, r)⟩) events
      (Session.child ⟨message, [], some (mode, forward mode r chunk)⟩) := by
  have readable : Possible mode r (.reads .one chunk) := by
    refine ⟨?_, some_, few⟩
    rw [caughtUp.pending]
    exact List.mem_singleton_self _
  have filled : (complete mode r (.reads .one chunk) .one).pending =
      [.send chunk.length true] := by
    simp only [complete, doWrite_number, on_self]
    simp [Channel.issue, Channel.fill, caughtUp.pending]
  have sendable : Possible mode (complete mode r (.reads .one chunk))
      (.sends .one 0 chunk.length) := by
    have positive : 0 < chunk.length := List.length_pos_iff.mpr some_
    simp [Possible, Channel.asked, filled, few, positive]
  have reads := @child_serves (Session.child ⟨message, [], some (mode, r)⟩) _
    (.relays (.reads .one chunk)) ⟨mode, r, rfl, readable⟩ rfl
  have sends := @child_serves
    (Session.child ⟨message, [], some (mode, complete mode r (.reads .one chunk))⟩) _
    (.relays (.sends .one 0 chunk.length)) ⟨mode, _, rfl, sendable⟩ rfl
  exact ⟨_, reads.trans sends⟩

/-- What a session makes of a read its child does too, and then all that follows from it. -/
theorem receive_in_child {conf : Option Str} {s after : Session} {chunk : Str}
    (caughtUp : s.CaughtUp) (fits : s.Fits chunk) (received : receive conf s chunk = .ok after) :
    after.CaughtUp ∧ ∃ events, Continues childLoop always s.child events after.child := by
  cases isRelay : s.relay with
  | none =>
    rw [receive, isRelay] at received
    exact readInfo_in_child isRelay fits received
  | some relay =>
    obtain ⟨mode, r⟩ := relay
    rw [receive, isRelay] at received
    cases received
    have few : chunk.length ≤ mode.maxLength := by
      have bound := fits.2
      rwa [isRelay] at bound
    have current := caughtUp mode r isRelay
    obtain ⟨events, continues⟩ := @forward_in_child s.message mode r chunk current fits.1 few
    refine ⟨fun mode' r' same => ?_, events, ?_⟩
    · cases same
      exact (forward_caughtUp mode current chunk).1
    · rw [Session.child, isRelay]
      exact continues

end NetProg.Socks
