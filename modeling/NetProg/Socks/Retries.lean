import NetProg.Socks.Turns

/-!
# What the BIND relay asks for after a short send

The handler of `BindMode` looks at how many bytes were transmitted and, when some
are missing, starts another send. The length it asks for is the transmitted length
less the wanted one, in unsigned arithmetic, and the send starts again at the first
byte of the buffer. A relay is exact when every send outstanding is for the bytes
read and not transmitted yet. It stays exact through whole sends and reads, and is
not exact after any other send.
-/

namespace NetProg.Socks

open Runs

/-- A send outstanding is for exactly the bytes that were read and not transmitted, in number and
in content, and a read is outstanding only when there are none. -/
structure Channel.Exact (c : Channel) (mode : Mode) : Prop where
  asksRest : ∀ len, .send len true ∈ c.pending →
    c.sent.length + len = c.received.length ∧
      c.sent ++ c.buffer.take (min len mode.maxLength) = c.received
  readsNext : .read ∈ c.pending → c.sent = c.received

/-- Both directions. -/
def Exact (mode : Mode) (r : Relay) : Prop := ∀ d, (r d).Exact mode

/-- A direction that takes turns asks for the rest. -/
theorem Channel.Turn.exact {c : Channel} {mode : Mode} (turn : c.Turn mode) : c.Exact mode := by
  cases turn with
  | reads pending same =>
    constructor
    · intro len sends
      rw [pending] at sends
      simp at sends
    · intro _
      exact same
  | @sends len pending fits filled rest =>
    constructor
    · intro other sends
      have same : other = len := by simpa [pending] using sends
      have lengths := congrArg List.length rest
      rw [List.length_append, List.length_take] at lengths
      subst same
      exact ⟨by omega, by rw [Nat.min_eq_left fits, rest]⟩
    · intro reads
      rw [pending] at reads
      simp at reads

/-- After a send of a part, what is asked for next is not what is left. -/
theorem Channel.not_exact_after_part {c : Channel} {mode : Mode} {len n : Nat}
    (fits : len ≤ mode.maxLength) (filled : len ≤ c.buffer.length)
    (rest : c.sent ++ c.buffer.take len = c.received) (part : n < len) :
    ¬ ((c.transmit 0 n).issue (.send
      ((n + 18446744073709551616 - len) % 18446744073709551616) true)).Exact mode := by
  intro exact
  have asks := (exact.asksRest _ (by
    simp only [Channel.issue, Channel.transmit, List.mem_append, List.mem_singleton]
    exact .inr rfl)).1
  have lengths := congrArg List.length rest
  have small : mode.maxLength ≤ 100000 := by cases mode <;> decide
  simp only [Channel.issue, Channel.transmit, List.length_append, List.length_take] at asks lengths
  omega

/-- What one completion does to a `BindMode` relay whose directions take turns: it stays exact,
and goes on taking turns, unless it is a short send. -/
theorem complete_turn {r : Relay} (turns : ∀ d, (r d).Turn .bind) {event : Completion}
    (possible : Possible .bind r event) (plain : event.Plain) :
    (Exact .bind (complete .bind r event) ↔ WholeSend .bind r event) ∧
      (WholeSend .bind r event → ∀ d, (complete .bind r event d).Turn .bind) := by
  cases event with
  | reads d bytes =>
    obtain ⟨reads, -, few⟩ := possible
    have same : complete .bind r (.reads d bytes) =
        r.on d (fun c => (c.fill bytes).issue (.send bytes.length true)) := by
      simp only [complete, doWrite_number, on_on]
    have after : ∀ e, (r.on d
        (fun c => (c.fill bytes).issue (.send bytes.length true)) e).Turn .bind :=
      all_on (·.Turn .bind) turns d ((turns d).fill reads few)
    rw [same]
    exact ⟨iff_of_true (fun e => (after e).exact) trivial, fun _ => after⟩
  | sends d k n =>
    obtain ⟨len, pending, rfl, asked, enough, fits, filled, rest⟩ := (turns d).completes possible
    have found : (r d).pending[0]? = some (.send len true) := by
      rw [pending]
      rfl
    have whole : WholeSend .bind r (.sends d 0 n) ↔ len = n := by
      simp [WholeSend, asked]
    rw [whole, complete_sends found]
    by_cases all : len = n
    · subst all
      have same : writeHandler .bind d len len (r.on d (·.transmit 0 len)) =
          r.on d (fun c => (c.transmit 0 len).issue .read) := by
        simp only [writeHandler, if_true, doRead_number, on_on]
      have after : ∀ e, (r.on d (fun c => (c.transmit 0 len).issue .read) e).Turn .bind :=
        all_on (·.Turn .bind) turns d (Channel.Turn.whole pending rest)
      rw [same]
      exact ⟨iff_of_true (fun e => (after e).exact) rfl, fun _ => after⟩
    · refine ⟨iff_of_false ?_ all, fun same => absurd same all⟩
      intro exact
      have here := exact d
      simp only [writeHandler, if_neg all, doWrite_number, on_on, on_self] at here
      exact Channel.not_exact_after_part fits filled rest (by omega) here
  | readsEof d => exact plain.elim
  | readFails d => exact plain.elim
  | sendFails d k => exact plain.elim

/-- While all sends are whole the directions take turns. -/
theorem turns_of_whole_sends {events : List Completion} {r : Relay}
    (run : Run (relaySystem .bind) (fun r event => event.Plain ∧ WholeSend .bind r event)
      events r) : ∀ d, (r d).Turn .bind := by
  apply run.invariant (fun r => ∀ d, (r d).Turn .bind) (turns_start .bind)
  intro state event after turns possible met served
  cases served
  exact (complete_turn turns possible met.1).2 met.2

/-- The runs without an error of a `BindMode` relay in which it is exact after every completion
are those in which every send transmits all it was asked for.

A short send is followed by another one from the front of the buffer, for a number of bytes that
has wrapped around and takes in all of it. One completion keeps the relay exact exactly when it is
no short send; both directions are induction on the run with the turns as the invariant. -/
theorem bind_relay_exact_iff_sends_whole (events : List Completion) (r : Relay) :
    Run (relaySystem .bind)
        (fun r event => event.Plain ∧ Exact .bind (complete .bind r event)) events r ↔
      Run (relaySystem .bind)
        (fun r event => event.Plain ∧ WholeSend .bind r event) events r := by
  constructor
  · intro run
    induction run with
    | start => exact .start
    | next before offered met served ih =>
      have turned := complete_turn (turns_of_whole_sends ih) offered met.1
      exact .next ih offered ⟨met.1, turned.1.mp met.2⟩ served
  · intro run
    induction run with
    | start => exact .start
    | next before offered met served ih =>
      have turned := complete_turn (turns_of_whole_sends before) offered met.1
      exact .next ih offered ⟨met.1, turned.1.mpr met.2⟩ served

/-- A read of three bytes, of which the first send transmits one and the second
three. -/
def shortSendAndRetry : List Completion :=
  [.reads .one (str "GET"), .sends .one 0 1, .sends .one 0 3]

/-- The retry asked for all of the buffer from its start, and one byte was
transmitted twice. -/
theorem retry_transmits_bytes_twice : ∃ r,
    Run (relaySystem .bind) (fun _ event => event.Plain) shortSendAndRetry r ∧
    (complete .bind (complete .bind (relaySystem .bind).start (.reads .one (str "GET")))
      (.sends .one 0 1) .one).pending = [.send 18446744073709551614 true] ∧
    (r .one).received = str "GET" ∧ (r .one).sent = str "GGET" ∧ ¬ Exact .bind r := by
  have plays : ((play (relaySystem .bind) (fun _ event => event.Plain)
      (relaySystem .bind).start shortSendAndRetry).map (fun r =>
        decide ((r .one).pending = [.send 5 true] ∧ (r .one).received = str "GET" ∧
          (r .one).sent = str "GGET"))) = some true := by decide +kernel
  obtain ⟨r, played, left⟩ := Option.map_eq_some_iff.mp plays
  obtain ⟨pending, received, sent⟩ := of_decide_eq_true left
  refine ⟨r, Run.played shortSendAndRetry r played, by decide +kernel, received, sent, ?_⟩
  intro exact
  have asks := ((exact .one).asksRest 5 (by rw [pending]; simp)).1
  rw [received, sent] at asks
  exact absurd asks (by decide)

end NetProg.Socks
