import NetProg.Socks.Relay

/-!
# Directions that take turns

While no error is reported, no stream has ended and every send transmits all it was asked
for, a direction is in one of two situations: its read is outstanding and everything that was
read has been transmitted, or one send is outstanding for exactly the bytes of the last read.
This is so of both relays, which differ only in what they make of a short send.
-/

namespace NetProg.Socks

open Runs

/-- A send that completes has transmitted all it was asked for; other completions are none of a
send. -/
def WholeSend (mode : Mode) (r : Relay) (event : Completion) : Prop :=
  match event with
  | .sends d k n => (r d).asked mode k = some n
  | _ => True

instance decidableWholeSend (mode : Mode) (r : Relay) :
    (event : Completion) → Decidable (WholeSend mode r event)
  | .sends d k n => decEq ((r d).asked mode k) (some n)
  | .reads _ _ => isTrue trivial
  | .readsEof _ => isTrue trivial
  | .readFails _ => isTrue trivial
  | .sendFails _ _ => isTrue trivial

/-- A direction takes turns: its read is outstanding with nothing left to transmit, or one send of
all that is left, which is in the buffer from its start. Both relays keep it while sends are
whole. -/
inductive Channel.Turn (c : Channel) (mode : Mode) : Prop
  | reads (pending : c.pending = [.read]) (same : c.sent = c.received)
  | sends {len : Nat} (pending : c.pending = [.send len true]) (fits : len ≤ mode.maxLength)
      (filled : len ≤ c.buffer.length) (rest : c.sent ++ c.buffer.take len = c.received)

section Turn

variable {c : Channel} {mode : Mode} {len : Nat}

/-- A completed read gives the turn to the send of its bytes. -/
theorem Channel.Turn.fill (turn : c.Turn mode) (reads : .read ∈ c.pending) {bytes : Str}
    (few : bytes.length ≤ mode.maxLength) :
    ((c.fill bytes).issue (.send bytes.length true)).Turn mode := by
  cases turn with
  | reads pending same =>
    apply Channel.Turn.sends _ few
    · simp [Channel.issue, Channel.fill]
    · simp [Channel.issue, Channel.fill, same]
    · simp [Channel.issue, Channel.fill, pending]
  | sends pending fits filled rest =>
    rw [pending] at reads
    simp at reads

/-- The only send of a turn, when a part of it completes. -/
theorem Channel.Turn.completes (turn : c.Turn mode) {k n : Nat}
    (possible : (c.asked mode k).any (fun size => n ≤ size && (size = 0 || 0 < n)) = true) :
    ∃ len, c.pending = [.send len true] ∧ k = 0 ∧ c.asked mode k = some len ∧ n ≤ len ∧
      len ≤ mode.maxLength ∧ len ≤ c.buffer.length ∧ c.sent ++ c.buffer.take len = c.received := by
  cases turn with
  | reads pending same =>
    cases k with
    | zero => simp [Channel.asked, pending] at possible
    | succ k => simp [Channel.asked, pending] at possible
  | @sends len pending fits filled rest =>
    cases k with
    | succ k => simp [Channel.asked, pending] at possible
    | zero =>
      have asked : c.asked mode 0 = some len := by
        simp [Channel.asked, pending, Nat.min_eq_left fits]
      have enough : n ≤ len := by
        rw [asked] at possible
        simp at possible
        exact possible.1
      exact ⟨len, pending, rfl, asked, enough, fits, filled, rest⟩

/-- A send of everything gives the turn back to the read. -/
theorem Channel.Turn.whole (pending : c.pending = [.send len true])
    (rest : c.sent ++ c.buffer.take len = c.received) :
    ((c.transmit 0 len).issue .read).Turn mode := by
  apply Channel.Turn.reads
  · simp [Channel.transmit, Channel.issue, pending]
  · exact rest

end Turn

/-- Both directions begin with a read. -/
theorem turns_start (mode : Mode) : ∀ d, ((relaySystem mode).start d).Turn mode := by
  intro d
  cases d <;> exact .reads rfl rfl

end NetProg.Socks
