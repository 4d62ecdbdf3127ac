import NetProg.Socks.Turns

/-!
# What the CONNECT relay transmits

The handler of a completed send does not look at how many bytes were transmitted, and reads
on. So as long as every send is whole the directions take turns, and the relay is faithful: what
was transmitted is a beginning of what was read, and all of it when the next read is
outstanding. It is so up to the first send that transmits only a part, and not after it.
-/

namespace NetProg.Socks

open Runs

/-- What was transmitted is a part of what was read from its start, and all of it while a read and
no send is outstanding: nothing is lost, repeated or changed on the way. -/
structure Channel.Faithful (c : Channel) : Prop where
  initialPart : c.sent <+: c.received
  caughtUp : .read ∈ c.pending → (∀ len relays, .send len relays ∉ c.pending) → c.sent = c.received

/-- Both directions. -/
def Faithful (r : Relay) : Prop := ∀ d, (r d).Faithful

section Turn

variable {c : Channel} {mode : Mode}

theorem Channel.Turn.faithful (turn : c.Turn mode) : c.Faithful := by
  cases turn with
  | reads pending same =>
    constructor
    · exact ⟨[], by rw [List.append_nil, same]⟩
    · intro _ _
      exact same
  | sends pending fits filled rest =>
    constructor
    · exact ⟨_, rest⟩
    · intro reads
      rw [pending] at reads
      simp at reads

/-- The send of a turn, after which the next read is outstanding: the direction is faithful if
and only if all bytes were transmitted. -/
theorem Channel.Turn.read_faithful_iff (turn : c.Turn mode) {k n : Nat}
    (possible : (c.asked mode k).any (fun size => n ≤ size && (size = 0 || 0 < n)) = true) :
    ∃ len, c.pending[k]? = some (.send len true) ∧ c.asked mode k = some len ∧
      (((c.transmit k n).issue .read).Faithful ↔ n = len) ∧
      (n = len → ((c.transmit k n).issue .read).Turn mode) := by
  obtain ⟨len, pending, rfl, asked, enough, -, filled, rest⟩ := turn.completes possible
  have after : ((c.transmit 0 n).issue .read).pending = [.read] := by
    simp [Channel.transmit, Channel.issue, pending]
  have again (all : n = len) : ((c.transmit 0 n).issue .read).Turn mode := by
    rw [all]
    exact Channel.Turn.whole pending rest
  refine ⟨len, by rw [pending]; rfl, asked, ⟨?_, fun all => (again all).faithful⟩, again⟩
  intro faithful
  have same : c.sent ++ c.buffer.take n = c.received :=
    faithful.caughtUp (by rw [after]; simp) (by rw [after]; simp)
  have lengths := congrArg List.length (rest.trans same.symm)
  simp only [List.length_append, List.length_take] at lengths
  omega

end Turn

/-- A change of one direction is faithful when that direction is. -/
theorem faithful_on {r : Relay} (turns : ∀ d, (r d).Turn .connect) (d : Direction)
    (change : Channel → Channel) : Faithful (r.on d change) ↔ (change (r d)).Faithful := by
  constructor
  · intro all
    simpa using all d
  · exact all_on Channel.Faithful (fun other => (turns other).faithful) d

/-- What one completion without an error does to directions that take turns. A read fills the
buffer and begins the send of all of it; a whole send begins a read; and after a short one the
next read is begun with bytes left over. -/
theorem complete_faithful {r : Relay} (turns : ∀ d, (r d).Turn .connect) {event : Completion}
    (possible : Possible .connect r event) (plain : event.Plain) :
    (Faithful (complete .connect r event) ↔ WholeSend .connect r event) ∧
      (WholeSend .connect r event → ∀ d, (complete .connect r event d).Turn .connect) := by
  cases event with
  | reads d bytes =>
    obtain ⟨reads, -, few⟩ := possible
    have after := (turns d).fill reads few
    have same : complete .connect r (.reads d bytes) =
        r.on d (fun c => (c.fill bytes).issue (.send bytes.length true)) := by
      simp only [complete, doWrite_number, on_on]
    rw [same]
    exact ⟨iff_of_true ((faithful_on turns d _).mpr after.faithful) trivial,
      fun _ => all_on (·.Turn .connect) turns d after⟩
  | sends d k n =>
    obtain ⟨len, found, asked, faithful, again⟩ := (turns d).read_faithful_iff possible
    have same : complete .connect r (.sends d k n) =
        r.on d (fun c => (c.transmit k n).issue .read) := by
      simp only [complete_sends found, writeHandler, doRead_number, on_on]
    have whole : WholeSend .connect r (.sends d k n) ↔ n = len := by
      simp [WholeSend, asked, eq_comm]
    rw [same, whole]
    exact ⟨(faithful_on turns d _).trans faithful,
      fun all => all_on (·.Turn .connect) turns d (again all)⟩
  | readsEof d => exact plain.elim
  | readFails d => exact plain.elim
  | sendFails d k => exact plain.elim

/-- In every run without an error whose sends all transmit what they were asked for, the relay is
faithful: what it has passed on in a direction is a beginning of what it has read, and all of it
while it reads. And after a further completion without an error it is if and only if that one is
such a send or a read.

Each direction has its turns, a read and then a send of all it has read, and a completion hands
the turn on. After a short send the relay begins a read, and the rest is lost. -/
theorem relay_faithful_while_sends_are_whole {events : List Completion} {r : Relay}
    (run : Run (relaySystem .connect)
      (fun r event => event.Plain ∧ WholeSend .connect r event) events r) :
    Faithful r ∧ ∀ event after, (relaySystem .connect).offers r event → event.Plain →
      (relaySystem .connect).serve r event = .ok after →
      (Faithful after ↔ WholeSend .connect r event) := by
  have turns : ∀ d, (r d).Turn .connect := by
    apply run.invariant (fun r => ∀ d, (r d).Turn .connect) (turns_start .connect)
    intro state event after held possible met served
    cases served
    exact (complete_faithful held possible met.1).2 met.2
  constructor
  · intro d
    exact (turns d).faithful
  · intro event after possible plain served
    cases served
    exact (complete_faithful turns possible plain).1

/-- Both directions at work, with whole sends. -/
def bothWays : List Completion :=
  [.reads .one (str "GET"), .reads .two (str "220"), .sends .one 0 3, .reads .one (str "/"),
    .sends .two 0 3]

theorem relay_faithful_both_ways : ∃ r,
    Run (relaySystem .connect) (fun r event => event.Plain ∧ WholeSend .connect r event) bothWays r ∧
    (r .one).received = str "GET/" ∧ Faithful r := by
  have plays : ((play (relaySystem .connect) (fun r event => event.Plain ∧ WholeSend .connect r event)
      (relaySystem .connect).start bothWays).map (fun r =>
        decide ((r .one).received = str "GET/"))) = some true := by decide +kernel
  obtain ⟨r, played, received⟩ := Option.map_eq_some_iff.mp plays
  have run := Run.played bothWays r played
  exact ⟨r, run, of_decide_eq_true received, (relay_faithful_while_sends_are_whole run).1⟩

/-- A read of three bytes, of which the send transmits one. -/
def shortSend : List Completion := [.reads .one (str "GET"), .sends .one 0 1]

/-- The other two are lost: the next read is outstanding without them. -/
theorem short_send_loses_bytes : ∃ r,
    Run (relaySystem .connect) (fun _ event => event.Plain) shortSend r ∧
    (r .one).pending = [.read] ∧ (r .one).sent = str "G" ∧ (r .one).received = str "GET" ∧
    ¬ Faithful r := by
  have plays : ((play (relaySystem .connect) (fun _ event => event.Plain)
      (relaySystem .connect).start shortSend).map (fun r =>
        decide ((r .one).pending = [.read] ∧ (r .one).sent = str "G" ∧
          (r .one).received = str "GET"))) = some true := by decide +kernel
  obtain ⟨r, played, left⟩ := Option.map_eq_some_iff.mp plays
  obtain ⟨pending, sent, received⟩ := of_decide_eq_true left
  refine ⟨r, Run.played shortSend r played, pending, sent, received, ?_⟩
  intro faithful
  have same := (faithful .one).caughtUp (by rw [pending]; simp) (by rw [pending]; simp)
  rw [sent, received] at same
  exact absurd same (by decide)

end NetProg.Socks
