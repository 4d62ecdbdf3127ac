import NetProg.CText
import NetProg.Library.Runs
import Mathlib.Logic.Function.Basic

/-!
# The two relays

After a grant the session hands its socket to a `ConnectMode` or a `BindMode`,
which relays in both directions at once. In each direction there is one buffer; a
read into it is followed by a send out of it, and the send by the next read. The
two classes differ in the size of the buffers, in what they make of a send that
transmitted less than it was asked to, and in the shutdown after an end of stream.

The operations that have been started and not completed are explicit here. The
environment completes them in any order: a read with bytes, with the end of the
stream or with an error, a send with the number of bytes it transmitted or with an
error. What was read and what was transmitted is recorded for each direction. A relay
lives as long as an operation is outstanding; its sockets are closed with it.
-/

namespace NetProg.Socks

open Runs

/-- `ConnectMode` and `BindMode`. -/
inductive Mode where
  | connect
  | bind
  deriving DecidableEq

/-- `max_length` and `bind_max_length`. -/
def Mode.maxLength : Mode → Nat
  | .connect => 8192
  | .bind => 100000

/-- Direction 1 goes from `in_socket` through `in_data` to `out_socket`, direction
2 back through `out_data`. -/
inductive Direction where
  | one
  | two
  deriving DecidableEq

/-- The way back. -/
def Direction.other : Direction → Direction
  | .one => .two
  | .two => .one

/-- The number a direction has in `do_read` and `do_write`. -/
def Direction.number : Direction → Nat
  | .one => 1
  | .two => 2

/-- An operation that has been started: a read into the buffer, or a send of its
first bytes. The handler of a send is that of `do_write`, which relays on, or the
one of the end of the stream, which does nothing. -/
inductive Operation where
  | read
  | send (len : Nat) (relays : Bool)
  deriving DecidableEq

/-- One direction: its buffer, the operations outstanding, the bytes read and transmitted so far,
and whether its sending side has been shut down. The bytes so far are a log, which no handler
reads. -/
structure Channel where
  buffer : Str
  pending : List Operation
  received : Str
  sent : Str
  shutdown : Bool
  deriving DecidableEq

/-- Both directions. -/
abbrev Relay := Direction → Channel

/-- Change one direction. -/
def Relay.on (r : Relay) (d : Direction) (change : Channel → Channel) : Relay :=
  Function.update r d (change (r d))

/-- Start an operation. -/
def Channel.issue (c : Channel) (operation : Operation) : Channel :=
  { c with pending := c.pending ++ [operation] }

/-- `do_read`, for the directions in the mask. -/
def doRead (direction : Nat) (r : Relay) : Relay :=
  let one := if direction &&& 1 ≠ 0 then r.on .one (·.issue .read) else r
  if direction &&& 2 ≠ 0 then one.on .two (·.issue .read) else one

/-- `do_write`. -/
def doWrite (direction : Nat) (len : Nat) (r : Relay) : Relay :=
  match direction with
  | 1 => r.on .one (·.issue (.send len true))
  | 2 => r.on .two (·.issue (.send len true))
  | _ => r

/-- The handler in `do_write` of a send of `len` bytes that transmitted `n`. The
lengths are unsigned 64-bit numbers. -/
def writeHandler (mode : Mode) (d : Direction) (len n : Nat) (r : Relay) : Relay :=
  match mode with
  | .connect => doRead d.number r
  | .bind =>
    if len = n then doRead d.number r
    else doWrite d.number ((n + 18446744073709551616 - len) % 18446744073709551616) r

/-- The completions: a read with bytes, the end of the stream, or an error; the send at a position
with a number of bytes, or an error. A send may transmit less than it was asked for. -/
inductive Completion where
  | reads (d : Direction) (bytes : Str)
  | readsEof (d : Direction)
  | readFails (d : Direction)
  | sends (d : Direction) (k n : Nat)
  | sendFails (d : Direction) (k : Nat)

/-- The bytes of a completed read, in the buffer. -/
def Channel.fill (c : Channel) (bytes : Str) : Channel :=
  { c with
    pending := c.pending.erase .read
    buffer := bytes ++ c.buffer.drop bytes.length
    received := c.received ++ bytes }

/-- The end of the stream: a send of the no bytes read with it, and in `BindMode`
a shutdown. -/
def Channel.endOfStream (c : Channel) (mode : Mode) : Channel :=
  { c with
    pending := c.pending.erase .read ++ [.send 0 false]
    shutdown := c.shutdown || mode = .bind }

/-- The first bytes of the buffer, transmitted by the send at a position. -/
def Channel.transmit (c : Channel) (k n : Nat) : Channel :=
  { c with pending := c.pending.eraseIdx k, sent := c.sent ++ c.buffer.take n }

/-- The handlers of the completions. -/
def complete (mode : Mode) (r : Relay) (event : Completion) : Relay :=
  match event with
  | .reads d bytes => doWrite d.number bytes.length (r.on d (·.fill bytes))
  | .readsEof d => r.on d (·.endOfStream mode)
  | .readFails d => r.on d (fun c => { c with pending := c.pending.erase .read })
  | .sends d k n =>
    match (r d).pending[k]? with
    | some (.send len true) => writeHandler mode d len n (r.on d (·.transmit k n))
    | some (.send _ false) => r.on d (·.transmit k n)
    | _ => r
  | .sendFails d k => r.on d (fun c => { c with pending := c.pending.eraseIdx k })

/-- How many bytes the send at a position is asked for, as far as the buffer goes. -/
def Channel.asked (c : Channel) (mode : Mode) (k : Nat) : Option Nat :=
  match c.pending[k]? with
  | some (.send len _) => some (min len mode.maxLength)
  | _ => none

/-- What can complete: a read with at least one byte and at most a buffer of them,
and a send with a non-empty part of what it was asked for, or with nothing if it
was asked for nothing. -/
def Possible (mode : Mode) (r : Relay) (event : Completion) : Prop :=
  match event with
  | .reads d bytes => .read ∈ (r d).pending ∧ bytes ≠ [] ∧ bytes.length ≤ mode.maxLength
  | .readsEof d => .read ∈ (r d).pending
  | .readFails d => .read ∈ (r d).pending
  | .sends d k n => ((r d).asked mode k).any (fun size => n ≤ size && (size = 0 || 0 < n)) = true
  | .sendFails d k => ((r d).asked mode k).isSome = true

instance decidablePossible (mode : Mode) (r : Relay) :
    (event : Completion) → Decidable (Possible mode r event)
  | .reads d bytes =>
    inferInstanceAs (Decidable (.read ∈ (r d).pending ∧ bytes ≠ [] ∧
      bytes.length ≤ mode.maxLength))
  | .readsEof d => inferInstanceAs (Decidable (.read ∈ (r d).pending))
  | .readFails d => inferInstanceAs (Decidable (.read ∈ (r d).pending))
  | .sends _ _ _ => inferInstanceAs (Decidable (_ = true))
  | .sendFails _ _ => inferInstanceAs (Decidable (_ = true))

/-- A direction before anything was started. -/
def Channel.initial (mode : Mode) : Channel :=
  ⟨List.replicate mode.maxLength 0, [], [], [], false⟩

/-- The relay after `do_read(3)`, as a system of completions. Any operation that is outstanding
can be the next to complete. -/
def relaySystem (mode : Mode) : System Relay Completion Empty where
  start := doRead 3 (fun _ => Channel.initial mode)
  offers := Possible mode
  serve r event := .ok (complete mode r event)

instance (mode : Mode) (r : Relay) (event : Completion) :
    Decidable ((relaySystem mode).offers r event) :=
  inferInstanceAs (Decidable (Possible mode r event))

/-- The object of the relay is held by the handlers of the operations that are outstanding, which
have copied `self`, and by nothing else. When there are none left in either direction it is
destroyed, and with it both of its sockets are closed. -/
def Relay.Released (r : Relay) : Prop := ∀ d, (r d).pending = []

/-- The peer behind a direction comes to the end of its stream: the sending side of its socket
has been shut down, or the socket has been closed. -/
def Relay.Ends (r : Relay) (d : Direction) : Prop := (r d).shutdown = true ∨ r.Released

instance (r : Relay) : Decidable r.Released :=
  decidable_of_iff ((r .one).pending = [] ∧ (r .two).pending = [])
    ⟨fun both d => by cases d <;> [exact both.1; exact both.2], fun all => ⟨all .one, all .two⟩⟩

instance (r : Relay) (d : Direction) : Decidable (r.Ends d) :=
  inferInstanceAs (Decidable (_ ∨ _))

/-- No error is reported, and the streams go on. -/
def Completion.Plain : Completion → Prop
  | .reads _ _ => True
  | .sends _ _ _ => True
  | _ => False

instance decidablePlain : (event : Completion) → Decidable event.Plain
  | .reads _ _ => isTrue trivial
  | .sends _ _ _ => isTrue trivial
  | .readsEof _ => isFalse id
  | .readFails _ => isFalse id
  | .sendFails _ _ => isFalse id

section On

variable (r : Relay) (d : Direction) (change : Channel → Channel)

@[simp] theorem on_self : r.on d change d = change (r d) := Function.update_self _ _ _

theorem on_other {other : Direction} (apart : other ≠ d) : r.on d change other = r other :=
  Function.update_of_ne apart _ _

theorem doRead_number : doRead d.number r = r.on d (·.issue .read) := by
  cases d <;> rfl

theorem doWrite_number (len : Nat) :
    doWrite d.number len r = r.on d (·.issue (.send len true)) := by
  cases d <;> rfl

/-- Two changes of one direction are one. -/
theorem on_on (second : Channel → Channel) :
    (r.on d change).on d second = r.on d (fun c => second (change c)) := by
  simp [Relay.on]

end On

/-- A change of one direction concerns that direction. -/
theorem all_on (holds : Channel → Prop) {r : Relay} (all : ∀ d, holds (r d)) (d : Direction)
    {change : Channel → Channel} (changed : holds (change (r d))) :
    ∀ e, holds (r.on d change e) := by
  intro e
  by_cases same : e = d
  · subst same
    simpa using changed
  · rw [on_other r d change same]
    exact all e

/-- A send of `do_write` is handled by its handler. -/
theorem complete_sends {mode : Mode} {r : Relay} {d : Direction} {k n len : Nat}
    (found : (r d).pending[k]? = some (.send len true)) :
    complete mode r (.sends d k n) = writeHandler mode d len n (r.on d (·.transmit k n)) := by
  simp only [complete, found]

/-- The last send of a direction has no handler. -/
theorem complete_closes {mode : Mode} {r : Relay} {d : Direction} {k n len : Nat}
    (found : (r d).pending[k]? = some (.send len false)) :
    complete mode r (.sends d k n) = r.on d (·.transmit k n) := by
  simp only [complete, found]

/-- What completes as a send is one that relays on or the last one. -/
theorem sends_cases {mode : Mode} {r : Relay} {d : Direction} {k n : Nat}
    (possible : Possible mode r (.sends d k n)) :
    (∃ len, (r d).pending[k]? = some (.send len true)) ∨
      ∃ len, (r d).pending[k]? = some (.send len false) := by
  cases found : (r d).pending[k]? with
  | none => simp [Possible, Channel.asked, found] at possible
  | some operation =>
    cases operation with
    | read => simp [Possible, Channel.asked, found] at possible
    | send len goesOn =>
      cases goesOn with
      | true => exact .inl ⟨len, rfl⟩
      | false => exact .inr ⟨len, rfl⟩

end NetProg.Socks
