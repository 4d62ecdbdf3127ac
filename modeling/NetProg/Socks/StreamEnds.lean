import NetProg.Socks.Outstanding

/-!
# How a stream ends behind a relay

When a read reports the end of its stream, `BindMode` shuts down the sending side of the other
socket at once, and `ConnectMode` does not. Either relay is destroyed with both sockets when
no operation is outstanding any more. So behind a `BindMode` the peer learns that the stream has
ended; behind a `ConnectMode` it does so only when the other stream has ended as well, and
until then it waits, though nothing more will come.

What the peer has got by then depends on the sends. After a short send a `ConnectMode` has
lost bytes for good, and a `BindMode` starts at the beginning of its buffer again and has from
then on sent more bytes than were read. In both, a direction goes through the same stages, which
is what every completion is shown to keep; only the stage of a send differs.
-/

namespace NetProg.Socks

open Runs

/-- No error is reported. -/
def Completion.NoError : Completion → Prop
  | .readFails _ | .sendFails _ _ => False
  | _ => True

instance decidableNoError : (event : Completion) → Decidable event.NoError
  | .reads _ _ => isTrue trivial
  | .readsEof _ => isTrue trivial
  | .readFails _ => isFalse id
  | .sends _ _ _ => isTrue trivial
  | .sendFails _ _ => isFalse id

/-- The completion, if it is a send of a direction that has transmitted less than it
was asked for. -/
def partSend (mode : Mode) (d : Direction) (r : Relay) : Completion → List Completion
  | .sends e k n => if e = d ∧ (r e).asked mode k ≠ some n then [.sends e k n] else []
  | _ => []

/-- The short sends of a direction in a sequence of completions. -/
def partSends (mode : Mode) (d : Direction) (events : List Completion) : List Completion :=
  gather (relaySystem mode) (partSend mode d) (relaySystem mode).start events

/-- The peer behind a direction has got what was read, and the end of it. -/
def Relay.Ended (r : Relay) (d : Direction) : Prop := (r d).sent = (r d).received ∧ r.Ends d

/-- Exactly what was read has been transmitted, or after a short send less than that by a
`ConnectMode` and more than that by a `BindMode`. -/
structure Channel.Tally (c : Channel) (mode : Mode) (short : Prop) : Prop where
  clean : ¬ short → c.sent = c.received
  lost : mode = .connect → short → c.sent.length < c.received.length
  soiled : mode = .bind → short → c.received.length < c.sent.length

/-- Where a direction is. A `ConnectMode` is `passing` a send, and the bytes it has missed are
those between what was sent and what was read. For a `BindMode`, `extra` is how many bytes will
have been transmitted too many once the send is through. A retry asks for `2 ^ 64` bytes less
those it has missed. -/
inductive Channel.Stage (c : Channel) (mode : Mode) (ended short : Prop) : Prop
  | reading (pending : c.pending = [.read]) (goesOn : ¬ ended) (tally : c.Tally mode short)
  | passing {len : Nat} (isConnect : mode = .connect) (pending : c.pending = [.send len true])
      (goesOn : ¬ ended) (fits : len ≤ mode.maxLength)
      (sum : c.sent.length + len ≤ c.received.length)
      (lost : short → c.sent.length + len < c.received.length)
      (clean : ¬ short → c.sent ++ c.buffer.take len = c.received)
  | sending {len extra : Nat} (isBind : mode = .bind) (pending : c.pending = [.send len true])
      (goesOn : ¬ ended) (small : len < 18446744073709551616)
      (sum : c.sent.length + len = c.received.length + extra)
      (bound : 2 * len ≤ 200000 + extra) (soiled : short → 0 < extra)
      (clean : ¬ short → len ≤ 100000 ∧ c.sent ++ c.buffer.take len = c.received)
  | retrying {missed extra : Nat} (isBind : mode = .bind)
      (pending : c.pending = [.send (18446744073709551616 - missed) true])
      (goesOn : ¬ ended) (some_ : 0 < missed) (small : missed < 18446744073709551616)
      (sum : c.sent.length + missed = c.received.length + extra)
      (bound : 2 * missed ≤ 200000 + extra) (soiled : short)
  | closing (pending : c.pending = [.send 0 false]) (atEnd : ended) (tally : c.Tally mode short)
  | closed (pending : c.pending = []) (atEnd : ended) (tally : c.Tally mode short)

/-- A direction with its whole buffer, and how far it has come: what is outstanding in it, and
whether what was transmitted is what was read. -/
structure Channel.Course (c : Channel) (mode : Mode) (ended short : Prop) : Prop where
  full : c.buffer.length = mode.maxLength
  stage : c.Stage mode ended short

section Course

variable {c : Channel} {mode : Mode} {ended short : Prop}

theorem Channel.Course.congr (course : c.Course mode ended short) {other later : Prop}
    (sameEnd : ended ↔ other) (sameShort : short ↔ later) : c.Course mode other later := by
  rw [← propext sameEnd, ← propext sameShort]
  exact course

/-- Bytes are read into the buffer, and all of them are to be sent. A read is pending in one stage
only, in which nothing else is in flight, so that the send is the only operation after it. -/
theorem Channel.Course.fill (course : c.Course mode ended short) (reads : .read ∈ c.pending)
    {bytes : Str} (few : bytes.length ≤ mode.maxLength) :
    ((c.fill bytes).issue (.send bytes.length true)).Course mode ended short := by
  cases course.stage with
  | reading pending goesOn tally =>
    have toSend : ((c.fill bytes).issue (.send bytes.length true)).pending =
        [.send bytes.length true] := by
      simp [Channel.issue, Channel.fill, pending]
    have inBuffer (clean : ¬ short) : ((c.fill bytes).issue (.send bytes.length true)).sent ++
        ((c.fill bytes).issue (.send bytes.length true)).buffer.take bytes.length =
          ((c.fill bytes).issue (.send bytes.length true)).received := by
      simp [Channel.issue, Channel.fill, tally.clean clean]
    constructor
    · have full := course.full
      simp only [Channel.issue, Channel.fill, List.length_append, List.length_drop, full]
      omega
    · cases mode with
      | connect =>
        have ahead : c.sent.length ≤ c.received.length := by
          by_cases isShort : short
          · exact Nat.le_of_lt (tally.lost rfl isShort)
          · rw [tally.clean isShort]
        refine .passing rfl toSend goesOn few ?_ ?_ inBuffer
        · simp only [Channel.issue, Channel.fill, List.length_append]
          omega
        · intro isShort
          have less := tally.lost rfl isShort
          simp only [Channel.issue, Channel.fill, List.length_append]
          omega
      | bind =>
        have few' : bytes.length ≤ 100000 := few
        have behind : c.received.length ≤ c.sent.length := by
          by_cases isShort : short
          · exact Nat.le_of_lt (tally.soiled rfl isShort)
          · rw [tally.clean isShort]
        refine @Channel.Stage.sending _ _ _ _ bytes.length (c.sent.length - c.received.length)
          rfl toSend goesOn (by omega) ?_ (by omega) ?_ (fun clean => ⟨few', inBuffer clean⟩)
        · simp only [Channel.issue, Channel.fill, List.length_append]
          omega
        · intro isShort
          have more := tally.soiled rfl isShort
          omega
  | passing _ pending | sending _ pending | retrying _ pending | closing pending
  | closed pending =>
    rw [pending] at reads
    simp at reads

/-- The end of the stream. -/
theorem Channel.Course.endOfStream (course : c.Course mode ended short)
    (reads : .read ∈ c.pending) : (c.endOfStream mode).Course mode True short := by
  cases course.stage with
  | reading pending goesOn tally =>
    refine ⟨course.full, .closing ?_ trivial ⟨tally.clean, tally.lost, tally.soiled⟩⟩
    simp [Channel.endOfStream, pending]
  | passing _ pending | sending _ pending | retrying _ pending | closing pending
  | closed pending =>
    rw [pending] at reads
    simp at reads

/-- The handler of a completed send, in its direction. -/
def Channel.sendHandler (c : Channel) (mode : Mode) (k len n : Nat) : Channel :=
  (c.transmit k n).issue (if mode = .connect ∨ len = n then .read
    else .send ((n + 18446744073709551616 - len) % 18446744073709551616) true)

/-- A part of the buffer is transmitted. -/
theorem Channel.Course.sent_length (course : c.Course mode ended short) (k : Nat) {n : Nat}
    (few : n ≤ mode.maxLength) : (c.transmit k n).sent.length = c.sent.length + n := by
  have full := course.full
  simp only [Channel.transmit, List.length_append, List.length_take, full]
  omega

/-- A send that relays on is the only operation of a `ConnectMode`: what it has not transmitted
is lost, and the next read follows. -/
theorem Channel.Course.passes (course : c.Course .connect ended short) {k n len : Nat}
    (found : c.pending[k]? = some (.send len true))
    (enough : n ≤ min len Mode.connect.maxLength) :
    (c.sendHandler .connect k len n).Course .connect ended
      (short ∨ c.asked .connect k ≠ some n) := by
  have sum := course.sent_length k (n := n) (by omega)
  refine ⟨course.full, ?_⟩
  cases course.stage with
  | reading pending | closing pending | closed pending =>
    rw [pending] at found
    cases k <;> simp at found
  | sending isBind | retrying isBind => cases isBind
  | @passing other _ pending goesOn fits total lost clean =>
    have first : k = 0 ∧ other = len := by
      rw [pending] at found
      cases k <;> simp at found
      exact ⟨rfl, found⟩
    obtain ⟨rfl, rfl⟩ := first
    have asked : c.asked .connect 0 = some other := by
      simp [Channel.asked, found, Nat.min_eq_left fits]
    refine .reading ?_ goesOn ⟨?_, fun _ => ?_, fun isBind => by cases isBind⟩
    · simp [Channel.sendHandler, Channel.issue, Channel.transmit, pending]
    · intro still
      have whole : other = n := by
        by_contra part
        exact still (.inr (by rw [asked]; simpa using part))
      subst whole
      exact clean (fun isShort => still (.inl isShort))
    · intro isShort
      change (c.transmit 0 n).sent.length < c.received.length
      rcases isShort with isShort | part
      · have less := lost isShort
        omega
      · have fewer : n ≠ other := by
          rintro rfl
          exact part asked
        omega

/-- A send that relays on is the only operation of a `BindMode`, and its handler keeps the
course: the next read after a whole send, and a retry or the rest of one after a short send. -/
theorem Channel.Course.sends (course : c.Course .bind ended short) {k n len : Nat}
    (found : c.pending[k]? = some (.send len true)) (enough : n ≤ min len Mode.bind.maxLength)
    (some_ : 0 < len → 0 < n) :
    (c.sendHandler .bind k len n).Course .bind ended (short ∨ c.asked .bind k ≠ some n) := by
  have few : n ≤ Mode.bind.maxLength := by omega
  have few' : n ≤ 100000 := few
  have asked : c.asked .bind k = some (min len Mode.bind.maxLength) := by
    rw [Channel.asked, found]
  have sum := course.sent_length k few
  refine ⟨course.full, ?_⟩
  cases course.stage with
  | reading pending | closing pending | closed pending =>
    rw [pending] at found
    cases k <;> simp at found
  | passing isConnect => cases isConnect
  | @sending other extra _ pending goesOn small total bound soiled clean =>
    have first : k = 0 ∧ other = len := by
      rw [pending] at found
      cases k <;> simp at found
      exact ⟨rfl, found⟩
    obtain ⟨rfl, rfl⟩ := first
    by_cases whole : other = n
    · subst whole
      have isWhole : c.asked .bind 0 = some other := by rw [asked, Nat.min_eq_left few]
      refine .reading ?_ goesOn ⟨?_, fun isConnect => (by cases isConnect), fun _ => ?_⟩
      · simp [Channel.sendHandler, Channel.issue, Channel.transmit, pending]
      · intro still
        have before : ¬ short := fun isShort => still (.inl isShort)
        exact (clean before).2
      · rintro (isShort | part)
        · have more := soiled isShort
          change c.received.length < (c.transmit 0 other).sent.length
          omega
        · exact absurd isWhole part
    · have fewer : n < other := by omega
      refine @Channel.Stage.retrying _ _ _ _ (other - n) extra rfl ?_ goesOn (by omega)
        (by omega) ?_ (by omega) ?_
      · have retry : (n + 18446744073709551616 - other) % 18446744073709551616 =
            18446744073709551616 - (other - n) := by omega
        simp [Channel.sendHandler, Channel.issue, Channel.transmit, pending, whole, retry]
      · change (c.transmit 0 n).sent.length + (other - n) = c.received.length + extra
        omega
      · by_cases isShort : short
        · exact .inl isShort
        · right
          have fits : other ≤ Mode.bind.maxLength := (clean isShort).1
          rw [asked, Nat.min_eq_left fits]
          simpa using whole
  | @retrying missed extra _ pending goesOn positive small total bound soiled =>
    have first : k = 0 ∧ 18446744073709551616 - missed = len := by
      rw [pending] at found
      cases k <;> simp at found
      exact ⟨rfl, found⟩
    obtain ⟨rfl, rfl⟩ := first
    have one : 0 < n := some_ (by omega)
    by_cases whole : 18446744073709551616 - missed = n
    · refine .reading ?_ goesOn ⟨fun still => absurd (.inl soiled) still,
        fun isConnect => (by cases isConnect), fun _ _ => ?_⟩
      · simp [Channel.sendHandler, Channel.issue, Channel.transmit, pending, whole]
      · change c.received.length < (c.transmit 0 n).sent.length
        omega
    · refine @Channel.Stage.sending _ _ _ _ (n + missed) (extra + 2 * n) rfl ?_ goesOn (by omega)
        ?_ (by omega) (fun _ => by omega) (fun still => absurd (.inl soiled) still)
      · have retry : (n + 18446744073709551616 - (18446744073709551616 - missed)) %
            18446744073709551616 = n + missed := by omega
        simp [Channel.sendHandler, Channel.issue, Channel.transmit, pending, whole, retry]
      · change (c.transmit 0 n).sent.length + (n + missed) = c.received.length + (extra + 2 * n)
        omega

/-- The send after the end of the stream, which is for no bytes. -/
theorem Channel.Course.closes (course : c.Course mode ended short) {k n len : Nat}
    (found : c.pending[k]? = some (.send len false)) (enough : n ≤ min len mode.maxLength) :
    (c.transmit k n).Course mode ended (short ∨ c.asked mode k ≠ some n) := by
  refine ⟨course.full, ?_⟩
  cases course.stage with
  | reading pending | passing _ pending | sending _ pending | retrying _ pending
  | closed pending =>
    rw [pending] at found
    cases k <;> simp at found
  | closing pending atEnd tally =>
    have first : k = 0 ∧ 0 = len := by
      rw [pending] at found
      cases k <;> simp at found
      exact ⟨rfl, found⟩
    obtain ⟨rfl, rfl⟩ := first
    have none : n = 0 := by omega
    subst none
    have whole : c.asked mode 0 = some 0 := by
      simp [Channel.asked, found]
    have nothing : (c.transmit 0 0).sent = c.sent := List.append_nil _
    have before (isShort : short ∨ c.asked mode 0 ≠ some 0) : short :=
      isShort.resolve_right (fun part => part whole)
    refine .closed (by simp [Channel.transmit, pending]) atEnd ⟨?_, ?_, ?_⟩
    · intro still
      rw [nothing]
      exact tally.clean (fun isShort => still (.inl isShort))
    · intro isConnect isShort
      rw [nothing]
      exact tally.lost isConnect (before isShort)
    · intro isBind isShort
      rw [nothing]
      exact tally.soiled isBind (before isShort)

end Course

/-- The direction of a completion. -/
def Completion.direction : Completion → Direction
  | .reads d _ | .readsEof d | .readFails d | .sends d _ _ | .sendFails d _ => d

section Complete

variable {mode : Mode} {r : Relay} {event : Completion}

/-- A completion changes its direction alone, and a send by the handler of its kind. -/
theorem complete_on (possible : Possible mode r event) : ∃ change,
    complete mode r event = r.on event.direction change := by
  cases event with
  | reads d bytes =>
    rw [complete, doWrite_number, on_on]
    exact ⟨_, rfl⟩
  | readsEof d => exact ⟨(·.endOfStream mode), rfl⟩
  | readFails d => exact ⟨fun c => { c with pending := c.pending.erase .read }, rfl⟩
  | sendFails d k => exact ⟨fun c => { c with pending := c.pending.eraseIdx k }, rfl⟩
  | sends d k n =>
    obtain ⟨len, found⟩ | ⟨len, found⟩ := sends_cases possible
    · rw [complete_sends found]
      cases mode with
      | connect =>
        rw [writeHandler, doRead_number, on_on]
        exact ⟨_, rfl⟩
      | bind =>
        rw [writeHandler]
        split
        · rw [doRead_number, on_on]
          exact ⟨_, rfl⟩
        · rw [doWrite_number, on_on]
          exact ⟨_, rfl⟩
    · rw [complete_closes found]
      exact ⟨_, rfl⟩

theorem complete_other (possible : Possible mode r event) {d : Direction}
    (other : d ≠ event.direction) : complete mode r event d = r d := by
  obtain ⟨change, same⟩ := complete_on possible
  rw [same]
  exact on_other r event.direction change other

/-- A send that relays on, in its direction. -/
theorem complete_sends_self {d : Direction} {k n len : Nat}
    (found : (r d).pending[k]? = some (.send len true)) :
    complete mode r (.sends d k n) d = (r d).sendHandler mode k len n := by
  rw [complete_sends found]
  cases mode with
  | connect =>
    rw [writeHandler, doRead_number, on_on, on_self, Channel.sendHandler, if_pos (.inl rfl)]
  | bind =>
    rw [writeHandler]
    split
    · rename_i whole
      rw [doRead_number, on_on, on_self, Channel.sendHandler, if_pos (.inr whole)]
    · rename_i part
      rw [doWrite_number, on_on, on_self, Channel.sendHandler, if_neg (by simpa using part)]

/-- A completion without an error keeps every direction on course. In its own direction by the
handler that runs; the other one is as it was. -/
theorem complete_course {d : Direction} {ended short : Prop}
    (course : (r d).Course mode ended short) (possible : Possible mode r event)
    (noError : event.NoError) :
    (complete mode r event d).Course mode (ended ∨ event = .readsEof d)
      (short ∨ partSend mode d r event ≠ []) := by
  by_cases same : d = event.direction
  · cases event with
    | reads e bytes =>
      have same : d = e := same
      subst same
      have filled := course.fill possible.1 possible.2.2
      have isFilled : complete mode r (.reads d bytes) d =
          ((r d).fill bytes).issue (.send bytes.length true) := by
        rw [complete, doWrite_number, on_on, on_self]
      rw [isFilled]
      exact filled.congr (by simp) (by simp [partSend])
    | readsEof e =>
      have same : d = e := same
      subst same
      have isEnd : complete mode r (.readsEof d) d = (r d).endOfStream mode :=
        on_self r d (·.endOfStream mode)
      rw [isEnd]
      exact (course.endOfStream possible).congr (by simp) (by simp [partSend])
    | readFails e | sendFails e k => exact noError.elim
    | sends e k n =>
      have same : d = e := same
      subst same
      have ended : ended ↔ ended ∨ Completion.sends d k n = .readsEof d := by simp
      have short : short ∨ (r d).asked mode k ≠ some n ↔
          short ∨ partSend mode d r (.sends d k n) ≠ [] := by simp [partSend]
      obtain ⟨len, found⟩ | ⟨len, found⟩ := sends_cases possible
      · have range : n ≤ min len mode.maxLength ∧ (0 < len → 0 < n) := by
          simp only [Possible, Channel.asked, found, Option.any_some, Bool.and_eq_true,
            Bool.or_eq_true, decide_eq_true_eq] at possible
          have large : 0 < mode.maxLength := by cases mode <;> decide
          omega
        rw [complete_sends_self found]
        cases mode with
        | connect => exact (course.passes found range.1).congr ended short
        | bind => exact (course.sends found range.1 range.2).congr ended short
      · have range : n ≤ min len mode.maxLength := by
          simp only [Possible, Channel.asked, found, Option.any_some, Bool.and_eq_true,
            decide_eq_true_eq] at possible
          exact possible.1
        rw [complete_closes found, on_self]
        exact (course.closes found range).congr ended short
  · rw [complete_other possible same]
    refine course.congr ?_ ?_
    · have notEnd : event ≠ .readsEof d := by
        rintro rfl
        exact same rfl
      simp [notEnd]
    · have notPart : partSend mode d r event = [] := by
        cases event with
        | sends e k n =>
          have other : ¬ e = d := fun isSame => same isSame.symm
          simp [partSend, other]
        | reads | readsEof | readFails | sendFails => rfl
      simp [notPart]

/-- The handlers of reads and sends do not shut anything down, but for the handler of a `BindMode`
that reads the end of a stream. -/
theorem complete_shutdown (possible : Possible mode r event) (d : Direction) :
    (complete mode r event d).shutdown = true ↔
      (r d).shutdown = true ∨ mode = .bind ∧ event = .readsEof d := by
  by_cases same : d = event.direction
  · cases event with
    | readsEof e =>
      have same : d = e := same
      subst same
      have isEnd : complete mode r (.readsEof d) d = (r d).endOfStream mode :=
        on_self r d (·.endOfStream mode)
      rw [isEnd]
      simp [Channel.endOfStream]
    | reads e bytes =>
      have same : d = e := same
      subst same
      have isFilled : complete mode r (.reads d bytes) d =
          ((r d).fill bytes).issue (.send bytes.length true) := by
        rw [complete, doWrite_number, on_on, on_self]
      rw [isFilled]
      simp [Channel.issue, Channel.fill]
    | readFails e | sendFails e k =>
      have same : d = e := same
      subst same
      simp [complete]
    | sends e k n =>
      have same : d = e := same
      subst same
      obtain ⟨len, found⟩ | ⟨len, found⟩ := sends_cases possible
      · rw [complete_sends_self found]
        simp [Channel.sendHandler, Channel.issue, Channel.transmit]
      · rw [complete_closes found, on_self]
        simp [Channel.transmit]
  · rw [complete_other possible same]
    have notEnd : event ≠ .readsEof d := by
      rintro rfl
      exact same rfl
    simp [notEnd]

end Complete

section Runs

variable {mode : Mode} {events : List Completion} {r : Relay}

/-- Before anything has completed. -/
theorem start_course (mode : Mode) (d : Direction) :
    ((relaySystem mode).start d).Course mode False False := by
  have start : (relaySystem mode).start d = (Channel.initial mode).issue .read := by
    cases d <;> rfl
  rw [start]
  exact ⟨List.length_replicate, .reading rfl id ⟨fun _ => rfl, fun _ => False.elim,
    fun _ => False.elim⟩⟩

/-- In every run without errors, every direction is on course, by induction on the completions. -/
theorem run_course (run : Run (relaySystem mode) (fun _ event => event.NoError) events r)
    (d : Direction) : (r d).Course mode (.readsEof d ∈ events) (partSends mode d events ≠ []) := by
  induction run with
  | start => exact (start_course mode d).congr (by simp) (by simp [partSends, gather])
  | @next events state after event before possible noError served ih =>
    have more := before.gather_next (partSend mode d) served
    cases served
    refine (complete_course ih possible noError).congr ?_ ?_
    · simp [List.mem_append, eq_comm]
    · rw [partSends, partSends, more, ← not_and_or, ← List.append_eq_nil_iff]

/-- Only `BindMode` shuts down, at the end of a stream. -/
theorem run_shutdown (run : Run (relaySystem mode) (fun _ event => event.NoError) events r)
    (d : Direction) : (r d).shutdown = true ↔ mode = .bind ∧ .readsEof d ∈ events := by
  induction run with
  | start =>
    have start : (relaySystem mode).start d = (Channel.initial mode).issue .read := by
      cases d <;> rfl
    rw [start]
    simp [Channel.initial, Channel.issue]
  | next before possible noError served ih =>
    cases served
    rw [complete_shutdown possible, ih]
    simp only [List.mem_append, List.mem_singleton, eq_comm]
    tauto

/-- A direction in which nothing is outstanding has come to its end, and what was transmitted is
what was read if and only if no send was short. Every other handler begins an operation. -/
theorem quiet_ends (run : Run (relaySystem mode) (fun _ event => event.NoError) events r)
    {d : Direction} (quiet : (r d).pending = []) : .readsEof d ∈ events ∧
      ((r d).sent = (r d).received ↔ partSends mode d events = []) := by
  cases (run_course run d).stage with
  | reading pending | passing _ pending | sending _ pending | retrying _ pending
  | closing pending =>
    rw [pending] at quiet
    cases quiet
  | closed pending atEnd tally =>
    refine ⟨atEnd, fun same => ?_, fun whole => tally.clean (fun part => part whole)⟩
    by_contra part
    have lengths := congrArg List.length same
    cases mode with
    | connect =>
      have less := tally.lost rfl part
      omega
    | bind =>
      have more := tally.soiled rfl part
      omega

/-- The relay is released when both streams have ended and their last sends are through: no
handler is left then to keep it. -/
theorem released_iff (run : Run (relaySystem mode) (fun _ event => event.NoError) events r)
    {d : Direction} (quiet : (r d).pending = []) :
    r.Released ↔ .readsEof d.other ∈ events ∧ (r d.other).pending = [] := by
  constructor
  · intro released
    exact ⟨(quiet_ends run (released d.other)).1, released d.other⟩
  · rintro ⟨-, otherQuiet⟩ e
    by_cases same : e = d
    · rw [same, quiet]
    · have isOther : e = d.other := by
        cases e <;> cases d <;> first | rfl | exact absurd rfl same
      rw [isOther, otherQuiet]

end Runs

/-- Once a stream of a relay has ended without errors and nothing is outstanding in its direction,
the peer has got all bytes of it and its end if and only if none of the direction's sends was
short and the relay is a `BindMode`, or a `ConnectMode` whose other stream has ended as well, with
nothing outstanding there. The peers of the two relays come to the same endings for the same
completions if and only if no stream has ended or both have, with nothing outstanding.

A `BindMode` shuts the peer's socket down when it has read the end of a stream. A `ConnectMode`
only begins nothing any more in that direction; its sockets are closed when the relay goes, with
the last handler that holds it. -/
theorem stream_ends_iff (events : List Completion) (d : Direction) :
    (∀ mode r, Run (relaySystem mode) (fun _ event => event.NoError) events r →
      .readsEof d ∈ events → (r d).pending = [] →
      (r.Ended d ↔ partSends mode d events = [] ∧
        (mode = .bind ∨ .readsEof d.other ∈ events ∧ (r d.other).pending = []))) ∧
    ∀ r twin, Run (relaySystem .connect) (fun _ event => event.NoError) events r →
      Run (relaySystem .bind) (fun _ event => event.NoError) events twin →
      ((r.Ends d ↔ twin.Ends d) ↔
        (.readsEof d ∈ events → ∀ e, .readsEof e ∈ events ∧ (r e).pending = [])) := by
  constructor
  · intro mode r run ended quiet
    have whole := (quiet_ends run quiet).2
    have ends : r.Ends d ↔ mode = .bind ∨ .readsEof d.other ∈ events ∧
        (r d.other).pending = [] := by
      rw [Relay.Ends, run_shutdown run d, released_iff run quiet]
      simp [ended]
    rw [Relay.Ended, whole, ends]
  · intro r twin run twinRun
    have open_ : (r d).shutdown ≠ true := by
      rw [ne_eq, run_shutdown run d]
      simp
    have here : r.Ends d ↔ r.Released := by simp [Relay.Ends, open_]
    have there : twin.Ends d ↔ .readsEof d ∈ events := by
      rw [Relay.Ends, run_shutdown twinRun d]
      constructor
      · rintro (⟨-, ended⟩ | released)
        · exact ended
        · exact (quiet_ends twinRun (released d)).1
      · exact fun ended => .inl ⟨rfl, ended⟩
    have all : r.Released ↔ ∀ e, .readsEof e ∈ events ∧ (r e).pending = [] :=
      ⟨fun released e => ⟨(quiet_ends run (released e)).1, released e⟩,
        fun both e => (both e).2⟩
    rw [here, there, ← all]
    constructor
    · exact fun same ended => same.mpr ended
    · exact fun released => ⟨fun isReleased => (quiet_ends run (isReleased d)).1, released⟩

/-- The client closes its side, and the send that follows completes. -/
def clientCloses : List Completion := [.reads .one (str "GET"), .sends .one 0 3, .readsEof .one,
  .sends .one 0 0]

/-- Behind a `BindMode` the peer is told. -/
theorem stream_ends_iff_clientCloses : ∃ r,
    Run (relaySystem .bind) (fun _ event => event.NoError) clientCloses r ∧ r.Ended .one := by
  have plays : ((play (relaySystem .bind) (fun _ event => event.NoError)
      (relaySystem .bind).start clientCloses).map (fun r =>
        decide ((r .one).pending = []))) = some true := by decide +kernel
  obtain ⟨r, played, quiet⟩ := Option.map_eq_some_iff.mp plays
  have run := Run.played clientCloses r played
  have whole : partSends .bind .one clientCloses = [] := by decide +kernel
  have iff := (stream_ends_iff clientCloses .one).1 .bind r run (by simp [clientCloses])
    (of_decide_eq_true quiet)
  exact ⟨r, run, iff.mpr ⟨whole, .inl rfl⟩⟩

/-- Behind a `ConnectMode` the peer is not told, as long as the other stream goes on. -/
theorem connect_keeps_stream_open : ∃ r,
    Run (relaySystem .connect) (fun _ event => event.NoError) clientCloses r ∧
    .readsEof .one ∈ clientCloses ∧ (r .one).pending = [] ∧ (r .one).sent = (r .one).received ∧
    (r .one).shutdown = false ∧ ¬ r.Ends .one ∧ ¬ r.Ended .one := by
  have plays : ((play (relaySystem .connect) (fun _ event => event.NoError)
      (relaySystem .connect).start clientCloses).map (fun r =>
        decide ((r .one).pending = [] ∧ (r .one).sent = (r .one).received ∧
          (r .one).shutdown = false ∧ ¬ r.Ends .one))) = some true := by decide +kernel
  obtain ⟨r, played, left⟩ := Option.map_eq_some_iff.mp plays
  obtain ⟨pending, sent, open_, goesOn⟩ := of_decide_eq_true left
  exact ⟨r, Run.played clientCloses r played, by simp [clientCloses], pending, sent, open_, goesOn,
    fun ended => goesOn ended.2⟩

end NetProg.Socks
