import Mathlib.Algebra.BigOperators.Group.Multiset.Basic
import Mathlib.Algebra.Ring.Nat
import NetProg.Socks.Relay

/-!
# What is outstanding on the sockets of a relay

A direction reads from one socket and sends to the other. Every handler starts at
most one operation, in the direction of the operation that completed. So a direction
never has more than one outstanding, and each socket at most the read of the one
direction and the send of the other.
-/

namespace NetProg.Socks

open Runs

/-- The two sockets. -/
inductive Socket where
  | inSocket
  | outSocket
  deriving DecidableEq

/-- The socket a direction reads from. -/
def Direction.source : Direction → Socket
  | .one => .inSocket
  | .two => .outSocket

/-- The socket a direction sends to. -/
def Direction.target : Direction → Socket
  | .one => .outSocket
  | .two => .inSocket

/-- The operation is a read. -/
def Operation.isRead : Operation → Bool
  | .read => true
  | .send _ _ => false

/-- How many completions an operation leads to at most, itself included, once its stream has
ended and all sends are whole: a read to that of the end and to one of the last send. -/
def Operation.weight : Operation → Nat
  | .read => 2
  | .send _ true => 3
  | .send _ false => 1

theorem Operation.weight_pos (operation : Operation) : 0 < operation.weight := by
  rcases operation with _ | ⟨len, _ | _⟩ <;> simp [Operation.weight]

/-- How many completions the operations of a direction lead to. -/
def Channel.weight (c : Channel) : Nat := (c.pending.map Operation.weight).sum

namespace Relay

/-- Both directions. -/
def directions : List Direction := [.one, .two]

/-- The reads outstanding on a socket. -/
def readsOn (r : Relay) (socket : Socket) : List Operation :=
  (directions.filter (·.source = socket)).flatMap (fun d => (r d).pending.filter Operation.isRead)

/-- The sends outstanding on a socket. -/
def sendsOn (r : Relay) (socket : Socket) : List Operation :=
  (directions.filter (·.target = socket)).flatMap
    (fun d => (r d).pending.filter (! Operation.isRead ·))

end Relay

/-- At most one operation is outstanding in a direction. -/
def Channel.Single (c : Channel) : Prop := c.pending.length ≤ 1

section Single

variable {c : Channel} {operation : Operation}

theorem Channel.single_of_empty (empty : c.pending = []) : c.Single := by
  rw [Channel.Single, empty]
  exact Nat.zero_le 1

/-- One operation is started where none is outstanding. -/
theorem Channel.Single.issue (empty : c.pending = []) : (c.issue operation).Single := by
  rw [Channel.Single, Channel.issue, empty]
  exact Nat.le_refl 1

/-- The only operation is a read, which completes. -/
theorem Channel.Single.erase (single : c.Single) (reads : .read ∈ c.pending) :
    c.pending.erase .read = [] := by
  have one := List.length_erase_of_mem reads
  have fewer : c.pending.length ≤ 1 := single
  exact List.eq_nil_of_length_eq_zero (by omega)

/-- The only operation is a send, which completes. -/
theorem Channel.Single.eraseIdx (single : c.Single) {k : Nat} {mode : Mode}
    (sends : (c.asked mode k).isSome = true) : c.pending.eraseIdx k = [] := by
  have within : k < c.pending.length := by
    by_contra beyond
    have none : c.pending[k]? = none := List.getElem?_eq_none (by omega)
    rw [Channel.asked, none] at sends
    cases sends
  have one := List.length_eraseIdx_of_lt within
  have fewer : c.pending.length ≤ 1 := single
  exact List.eq_nil_of_length_eq_zero (by omega)

end Single

/-- A handler starts an operation in its direction, where none is outstanding. -/
theorem writeHandler_single {mode : Mode} {r : Relay} {d : Direction} (len n : Nat)
    (single : ∀ e, (r e).Single) (empty : (r d).pending = []) :
    ∀ e, (writeHandler mode d len n r e).Single := by
  cases mode with
  | connect =>
    rw [writeHandler, doRead_number]
    exact all_on Channel.Single single d (.issue empty)
  | bind =>
    rw [writeHandler]
    split
    · rw [doRead_number]
      exact all_on Channel.Single single d (.issue empty)
    · rw [doWrite_number]
      exact all_on Channel.Single single d (.issue empty)

/-- Whatever completes, each direction is left with one operation at most. -/
theorem complete_single {mode : Mode} {r : Relay} (single : ∀ d, (r d).Single)
    {event : Completion} (possible : Possible mode r event) :
    ∀ d, (complete mode r event d).Single := by
  cases event with
  | reads d bytes =>
    have erased := (single d).erase possible.1
    have filled : ∀ e, (r.on d (·.fill bytes) e).Single :=
      all_on Channel.Single single d (Channel.single_of_empty erased)
    rw [complete, doWrite_number]
    refine all_on Channel.Single filled d (.issue ?_)
    rw [on_self]
    exact erased
  | readsEof d =>
    have erased := (single d).erase possible
    refine all_on Channel.Single single d ?_
    rw [Channel.Single, Channel.endOfStream, erased]
    exact Nat.le_refl 1
  | readFails d =>
    exact all_on Channel.Single single d (Channel.single_of_empty ((single d).erase possible))
  | sends d k n =>
    have asked : ((r d).asked mode k).isSome = true := by
      cases size : (r d).asked mode k with
      | none =>
        have impossible : Option.any _ ((r d).asked mode k) = true := possible
        rw [size] at impossible
        cases impossible
      | some size => rfl
    have erased := (single d).eraseIdx asked
    have transmitted : ∀ e, (r.on d (·.transmit k n) e).Single :=
      all_on Channel.Single single d (Channel.single_of_empty erased)
    obtain ⟨len, found⟩ | ⟨len, found⟩ := sends_cases possible
    · rw [complete_sends found]
      refine writeHandler_single len n transmitted ?_
      rw [on_self]
      exact erased
    · rw [complete_closes found]
      exact transmitted
  | sendFails d k =>
    exact all_on Channel.Single single d (Channel.single_of_empty ((single d).eraseIdx possible))

/-- In every run, after any completions, by the lemma for one of them. -/
theorem run_single {mode : Mode} {events : List Completion} {r : Relay}
    (run : Run (relaySystem mode) always events r) : ∀ d, (r d).Single := by
  refine run.invariant (fun r => ∀ d, (r d).Single) ?_ ?_
  · intro d
    cases d <;> exact Nat.le_refl 1
  · intro state event after single possible _ served
    cases served
    exact complete_single single possible

/-- What is outstanding of one kind on a socket is outstanding in one direction. -/
theorem readsOn_length {r : Relay} (single : ∀ d, (r d).Single) (socket : Socket) :
    (r.readsOn socket).length ≤ 1 := by
  have one (d : Direction) : ((r d).pending.filter Operation.isRead).length ≤ 1 :=
    (List.length_filter_le _ _).trans (single d)
  cases socket with
  | inSocket => simpa [Relay.readsOn, Relay.directions, Direction.source] using one .one
  | outSocket => simpa [Relay.readsOn, Relay.directions, Direction.source] using one .two

theorem sendsOn_length {r : Relay} (single : ∀ d, (r d).Single) (socket : Socket) :
    (r.sendsOn socket).length ≤ 1 := by
  have one (d : Direction) : ((r d).pending.filter (! Operation.isRead ·)).length ≤ 1 :=
    (List.length_filter_le _ _).trans (single d)
  cases socket with
  | inSocket => simpa [Relay.sendsOn, Relay.directions, Direction.target] using one .two
  | outSocket => simpa [Relay.sendsOn, Relay.directions, Direction.target] using one .one

/-- In every state of a relay, each socket has at most one read and at most one send outstanding,
and no buffer is read into while bytes are sent out of it. This holds of both relays, after
errors, short sends and ends of streams too.

The two directions have a buffer each, and a direction never has more than one operation
outstanding: every handler begins at most one, and is the only one of its direction. -/
theorem relay_buffers_owned {mode : Mode} {events : List Completion} {r : Relay}
    (run : Run (relaySystem mode) always events r) :
    (∀ socket, (r.readsOn socket).length ≤ 1 ∧ (r.sendsOn socket).length ≤ 1) ∧
    ∀ d, .read ∈ (r d).pending → ∀ len relays, .send len relays ∈ (r d).pending → len = 0 := by
  have single := run_single run
  refine ⟨fun socket => ⟨readsOn_length single socket, sendsOn_length single socket⟩, ?_⟩
  intro d reads len relays sends
  have erased := (single d).erase reads
  have other : Operation.send len relays ∈ (r d).pending.erase .read :=
    (List.mem_erase_of_ne (by simp)).mpr sends
  rw [erased] at other
  cases other

/-- Bytes from both sides, a short send, and the end of one stream. -/
def crossTraffic : List Completion :=
  [.reads .one (str "GET"), .reads .two (str "HTTP"), .sends .one 0 1, .sends .two 0 4,
    .readsEof .two, .sends .one 0 3]

theorem relay_buffers_owned_in_crossTraffic : ∃ r, Run (relaySystem .bind) always crossTraffic r ∧
    (r.sendsOn .inSocket).length = 1 ∧
    (∀ socket, (r.readsOn socket).length ≤ 1 ∧ (r.sendsOn socket).length ≤ 1) := by
  have plays : ((play (relaySystem .bind) always (relaySystem .bind).start crossTraffic).map
      (fun r => decide ((r.sendsOn .inSocket).length = 1))) = some true := by decide +kernel
  obtain ⟨r, played, outstanding⟩ := Option.map_eq_some_iff.mp plays
  have run := Run.played crossTraffic r played
  exact ⟨r, run, of_decide_eq_true outstanding, (relay_buffers_owned run).1⟩

end NetProg.Socks
