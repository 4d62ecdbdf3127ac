import NetProg.Socks.Fidelity
import NetProg.Socks.StreamEnds

/-!
# Two streams through the CONNECT relay

Between two parties that write to each other the relay carries both streams. What it reads is
what they have written, and while no error is reported and every send transmits all it was asked
for, the other side has got a beginning of that. Whatever has been written comes through, and then
nothing more is done until more is written. The end of a stream is the one thing that is read and
not passed on.
-/

namespace NetProg.Socks

/-- What was written for each direction to read, and whether more can follow. -/
structure Streams where
  source : Direction → Str
  Ended : Direction → Prop

/-- A read brings what was written, and the end of the stream when all of it was read. -/
def Streams.Arrives (streams : Streams) (r : Relay) : Completion → Prop
  | .reads d bytes => bytes <+: (streams.source d).drop (r d).received.length
  | .readsEof d => streams.Ended d ∧ (r d).received = streams.source d
  | _ => True

/-- A direction goes on from read to send, or its stream has come to the end. -/
inductive Channel.Forwards (c : Channel) (source : Str) (ended : Prop) : Prop
  | turning (turn : c.Turn .connect)
  | closing (atEnd : ended) (all : c.received = source) (pending : c.pending = [.send 0 false])
      (same : c.sent = c.received)
  | closed (atEnd : ended) (all : c.received = source) (pending : c.pending = [])
      (same : c.sent = c.received)

/-- A direction has read a beginning of its source and forwards it. -/
structure Channel.Carries (c : Channel) (source : Str) (ended : Prop) : Prop where
  received : c.received <+: source
  shutdown : c.shutdown = false
  forwards : c.Forwards source ended

/-- All there is has come through. -/
structure Channel.Settled (c : Channel) (source : Str) (ended : Prop) : Prop where
  sent : c.sent = source
  pending : c.pending = [.read] ∧ ¬ ended ∨ c.pending = []

/-- Both directions. -/
def Streams.Carried (streams : Streams) (r : Relay) : Prop :=
  ∀ d, (r d).Carries (streams.source d) (streams.Ended d)

/-- A completion of this kind is the source's own, without an error and whole. -/
structure Streams.Allows (streams : Streams) (r : Relay) (event : Completion) : Prop where
  arrives : streams.Arrives r event
  noError : event.NoError
  whole : WholeSend .connect r event

section Carries

variable {c : Channel} {source : Str} {ended : Prop}

/-- What was sent is a beginning of what was written. -/
theorem Channel.Carries.sent (carries : c.Carries source ended) : c.sent <+: source := by
  cases carries.forwards with
  | turning turn => exact turn.faithful.initialPart.trans carries.received
  | closing atEnd all pending same | closed atEnd all pending same =>
    exact ⟨[], by rw [List.append_nil, same, all]⟩

/-- More is written, but not behind the end. -/
theorem Channel.Carries.grows (carries : c.Carries source ended) {more : Str} {later : Prop}
    (grown : source <+: more) (open_ : ended → source = more ∧ later) : c.Carries more later := by
  refine ⟨carries.received.trans grown, carries.shutdown, ?_⟩
  cases carries.forwards with
  | turning turn => exact .turning turn
  | closing atEnd all pending same =>
    exact .closing (open_ atEnd).2 (all.trans (open_ atEnd).1) pending same
  | closed atEnd all pending same =>
    exact .closed (open_ atEnd).2 (all.trans (open_ atEnd).1) pending same

/-- A direction that reads. -/
theorem Channel.Carries.reading (carries : c.Carries source ended) (reads : .read ∈ c.pending) :
    c.pending = [.read] ∧ c.sent = c.received := by
  cases carries.forwards with
  | turning turn =>
    cases turn with
    | reads pending same => exact ⟨pending, same⟩
    | sends pending =>
      rw [pending] at reads
      simp at reads
  | closing atEnd all pending | closed atEnd all pending =>
    rw [pending] at reads
    simp at reads

/-- A read brings more of the source. -/
theorem Channel.Carries.fill (carries : c.Carries source ended) (reads : .read ∈ c.pending)
    {bytes : Str} (few : bytes.length ≤ Mode.maxLength .connect)
    (arrives : bytes <+: source.drop c.received.length) :
    ((c.fill bytes).issue (.send bytes.length true)).Carries source ended := by
  obtain ⟨pending, same⟩ := carries.reading reads
  refine ⟨?_, carries.shutdown, .turning ((Channel.Turn.reads pending same).fill reads few)⟩
  obtain ⟨rest, whole⟩ := carries.received
  obtain ⟨unread, next⟩ := arrives
  refine ⟨unread, ?_⟩
  rw [← whole, List.drop_left] at next
  change c.received ++ bytes ++ unread = source
  rw [List.append_assoc, next, whole]

/-- The end of the stream is read. -/
theorem Channel.Carries.endOfStream (carries : c.Carries source ended)
    (reads : .read ∈ c.pending) (atEnd : ended) (all : c.received = source) :
    (c.endOfStream .connect).Carries source ended := by
  obtain ⟨pending, same⟩ := carries.reading reads
  refine ⟨carries.received, ?_, .closing atEnd all ?_ same⟩
  · simp [Channel.endOfStream, carries.shutdown]
  · simp [Channel.endOfStream, pending]

end Carries

section Complete

variable {streams : Streams} {r : Relay} {event : Completion}

/-- The two kinds of sends. -/
theorem Channel.Carries.sends {d : Direction} {source : Str} {ended : Prop}
    (carries : (r d).Carries source ended) {k n : Nat}
    (possible : Possible .connect r (.sends d k n)) (whole : WholeSend .connect r (.sends d k n)) :
    ∃ change : Channel → Channel,
      complete .connect r (.sends d k n) = r.on d change ∧
      (change (r d)).Carries source ended ∧ (r d).sent <+: (change (r d)).sent ∧
      (change (r d)).received = (r d).received := by
  cases carries.forwards with
  | turning turn =>
    obtain ⟨len, found, asked, -, again⟩ := turn.read_faithful_iff possible
    have same : n = len := Option.some.inj (whole.symm.trans asked)
    refine ⟨fun c => (c.transmit k n).issue .read, ?_, ⟨carries.received, carries.shutdown,
      .turning (again same)⟩, List.prefix_append _ _, rfl⟩
    simp only [complete_sends found, writeHandler, doRead_number, on_on]
  | closing atEnd all pending same =>
    cases k with
    | succ k => simp [Possible, Channel.asked, pending] at possible
    | zero =>
      have none : n = 0 := by
        have asked : (r d).asked .connect 0 = some n := whole
        simpa [Channel.asked, pending, eq_comm] using asked
      subst none
      have found : (r d).pending[0]? = some (.send 0 false) := by rw [pending]; rfl
      refine ⟨fun c => c.transmit 0 0, complete_closes found, ⟨carries.received,
        carries.shutdown, .closed atEnd all ?_ ?_⟩, List.prefix_append _ _, rfl⟩
      · simp [Channel.transmit, pending]
      · simp [Channel.transmit, same]
  | closed atEnd all pending same => simp [Possible, Channel.asked, pending] at possible

/-- A completion keeps both directions carrying, and nothing that was sent is taken back. What a
read brings is what comes next of its source. -/
theorem complete_carried (carried : streams.Carried r) (possible : Possible .connect r event)
    (allowed : streams.Allows r event) :
    streams.Carried (complete .connect r event) ∧
      ∀ d, (r d).sent <+: (complete .connect r event d).sent := by
  have changed {d : Direction} {change : Channel → Channel}
      (carries : (change (r d)).Carries (streams.source d) (streams.Ended d))
      (kept : (r d).sent <+: (change (r d)).sent) :
      streams.Carried (r.on d change) ∧ ∀ e, (r e).sent <+: (r.on d change e).sent := by
    have both : ∀ e, (r.on d change e).Carries (streams.source e) (streams.Ended e) ∧
        (r e).sent <+: (r.on d change e).sent := by
      intro e
      by_cases same : e = d
      · subst same
        rw [on_self]
        exact ⟨carries, kept⟩
      · rw [on_other r d change same]
        exact ⟨carried e, List.prefix_rfl⟩
    exact ⟨fun e => (both e).1, fun e => (both e).2⟩
  cases event with
  | reads d bytes =>
    obtain ⟨reads, -, few⟩ := possible
    have same : complete .connect r (.reads d bytes) =
        r.on d (fun c => (c.fill bytes).issue (.send bytes.length true)) := by
      simp only [complete, doWrite_number, on_on]
    rw [same]
    exact changed ((carried d).fill reads few allowed.arrives) List.prefix_rfl
  | readsEof d =>
    have carries := (carried d).endOfStream possible allowed.arrives.1 allowed.arrives.2
    exact @changed d (·.endOfStream .connect) carries List.prefix_rfl
  | sends d k n =>
    obtain ⟨change, same, carries, kept, -⟩ := (carried d).sends possible allowed.whole
    rw [same]
    exact changed carries kept
  | readFails d | sendFails d k => exact allowed.noError.elim

/-! ## How far a relay goes -/

/-- What is left to be done in a direction. -/
def Channel.left (c : Channel) (source : Str) : Nat :=
  2 * (source.length - c.received.length) + c.weight

/-- What is left to be done. -/
def Streams.left (streams : Streams) (r : Relay) : Nat :=
  (r .one).left (streams.source .one) + (r .two).left (streams.source .two)

/-- A direction that has something left to do can do it. It reads what is still to come of its
stream, or its end when all has come, or sends on what it has read; each of these makes what is
left less. -/
theorem Channel.Carries.goesOn {d : Direction}
    (carries : (r d).Carries (streams.source d) (streams.Ended d))
    (unsettled : ¬ (r d).Settled (streams.source d) (streams.Ended d)) :
    ∃ event change, Possible .connect r event ∧ streams.Allows r event ∧
      complete .connect r event = r.on d change ∧
      (change (r d)).left (streams.source d) < (r d).left (streams.source d) := by
  cases carries.forwards with
  | turning turn =>
    cases turn with
    | reads pending same =>
      have reads : .read ∈ (r d).pending := by simp [pending]
      by_cases more : (r d).received = streams.source d
      · have atEnd : streams.Ended d := by
          by_contra open_
          exact unsettled ⟨same.trans more, .inl ⟨pending, open_⟩⟩
        refine ⟨.readsEof d, (·.endOfStream .connect), reads, ⟨⟨atEnd, more⟩, trivial, trivial⟩,
          rfl, ?_⟩
        simp [Channel.left, Channel.endOfStream, pending, Channel.weight, Operation.weight]
      · obtain ⟨rest, whole⟩ := carries.received
        have unread : (streams.source d).drop (r d).received.length = rest := by
          rw [← whole, List.drop_left]
        have some_ : rest ≠ [] := by
          rintro rfl
          exact more (by rw [← whole, List.append_nil])
        have positive := List.length_pos_iff.mpr some_
        refine ⟨.reads d (rest.take 8192), fun c => (c.fill (rest.take 8192)).issue
          (.send (rest.take 8192).length true), ⟨reads, ?_, ?_⟩, ⟨?_, trivial, trivial⟩, ?_, ?_⟩
        · simp [some_]
        · rw [List.length_take]
          exact Nat.min_le_left _ _
        · change rest.take 8192 <+: _
          rw [unread]
          exact List.take_prefix _ _
        · simp only [complete, doWrite_number, on_on]
        · have total := congrArg List.length whole
          rw [List.length_append] at total
          simp only [Channel.left, Channel.issue, Channel.fill, pending, Channel.weight, Operation.weight,
            List.length_append, List.length_take, List.erase_cons_head, List.nil_append,
            List.map_cons, List.map_nil, List.sum_singleton]
          omega
    | @sends len pending fits filled rest =>
      have found : (r d).pending[0]? = some (.send len true) := by rw [pending]; rfl
      have asked : (r d).asked .connect 0 = some len := by
        simp [Channel.asked, pending, Nat.min_eq_left fits]
      refine ⟨.sends d 0 len, fun c => (c.transmit 0 len).issue .read, ?_,
        ⟨trivial, trivial, asked⟩, ?_, ?_⟩
      · change ((r d).asked .connect 0).any _ = true
        rw [asked]
        simp
        omega
      · simp only [complete_sends found, writeHandler, doRead_number, on_on]
      · simp [Channel.left, Channel.transmit, Channel.issue, pending, Channel.weight, Operation.weight]
  | closing atEnd all pending same =>
    have found : (r d).pending[0]? = some (.send 0 false) := by rw [pending]; rfl
    have asked : (r d).asked .connect 0 = some 0 := by simp [Channel.asked, pending]
    refine ⟨.sends d 0 0, (·.transmit 0 0), ?_, ⟨trivial, trivial, asked⟩,
      complete_closes found, ?_⟩
    · change ((r d).asked .connect 0).any _ = true
      rw [asked]
      rfl
    · simp [Channel.left, Channel.transmit, pending, Channel.weight, Operation.weight]
  | closed atEnd all pending same => exact absurd ⟨same.trans all, .inr pending⟩ unsettled

/-- A change of one direction that leaves less to do. -/
theorem Streams.left_on {d : Direction} {change : Channel → Channel}
    (less : (change (r d)).left (streams.source d) < (r d).left (streams.source d)) :
    streams.left (r.on d change) < streams.left r := by
  cases d with
  | one =>
    rw [Streams.left, on_self, on_other r .one change (by decide)]
    exact Nat.add_lt_add_right less _
  | two =>
    rw [Streams.left, on_self, on_other r .two change (by decide)]
    exact Nat.add_lt_add_left less _

/-- As long as not all has come through, something completes that leaves less to do. -/
theorem exists_completes (carried : streams.Carried r)
    (unsettled : ¬ ∀ d, (r d).Settled (streams.source d) (streams.Ended d)) :
    ∃ event, Possible .connect r event ∧ streams.Allows r event ∧
      streams.left (complete .connect r event) < streams.left r := by
  push Not at unsettled
  obtain ⟨d, unsettled⟩ := unsettled
  obtain ⟨event, change, possible, allowed, same, less⟩ := (carried d).goesOn unsettled
  exact ⟨event, possible, allowed, same ▸ Streams.left_on less⟩

/-- When all has come through, nothing completes. -/
theorem settled_stops (carried : streams.Carried r)
    (settled : ∀ d, (r d).Settled (streams.source d) (streams.Ended d))
    (possible : Possible .connect r event) (allowed : streams.Allows r event) : False := by
  cases event with
  | reads d bytes =>
    obtain ⟨reads, some_, -⟩ := possible
    have all := (carried d).reading reads
    have arrives : bytes <+: (streams.source d).drop (r d).received.length := allowed.arrives
    rw [← all.2, (settled d).sent, List.drop_length] at arrives
    exact some_ (List.prefix_nil.mp arrives)
  | readsEof d =>
    have reads : .read ∈ (r d).pending := possible
    rcases (settled d).pending with ⟨-, open_⟩ | none
    · exact open_ allowed.arrives.1
    · simp [none] at reads
  | sends d k n =>
    have possible : ((r d).asked .connect k).any _ = true := possible
    rcases (settled d).pending with ⟨pending, -⟩ | pending
    · cases k <;> simp [Channel.asked, pending] at possible
    · simp [Channel.asked, pending] at possible
  | readFails d | sendFails d k => exact allowed.noError.elim

end Complete

end NetProg.Socks
