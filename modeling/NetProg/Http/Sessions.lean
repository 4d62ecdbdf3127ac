import NetProg.Http.Parser
import NetProg.Library.Runs

/-!
# Sessions that share one parser state

Every accepted connection is a session with a request of its own, and `start`
puts the parser state, which is one global variable, back to the start. A session
has a read outstanding until its parse is decided; the completion of a read
parses the chunk from whatever the state variable holds at that moment.

As long as no other session has moved the state variable in between, each session
is parsed as if it were alone.
-/

namespace NetProg.Http

open Outcomes Runs

/-- The `max_length` of the buffer of a session. -/
def maxLength : Nat := 1024

/-- `HttpSession`. `_result` has no value before the first read completes. The
bytes received so far and the parser state the session's own last step left are
not in the source. -/
structure Session where
  request : Request
  result : Option Result
  reading : Bool
  received : Str
  left : State
  deriving DecidableEq

/-- The global parser state and the sessions accepted so far. A session has its own request. Which
state its last read has left is noted for the conditions, and no handler looks at that. -/
structure Server where
  state : State
  sessions : List Session
  deriving DecidableEq

/-- A connection is accepted; a read of a session completes with a chunk, or with
an error. -/
inductive Event where
  | accepts
  | reads (k : Nat) (chunk : Str)
  | fails (k : Nat)

/-- The session of a new connection, after `start`. -/
def Session.start : Session := ⟨.empty, none, true, [], .methodStart⟩

/-- The handler of a completed read, on the parse of its chunk. -/
def Session.handle (session : Session) (chunk : Str) (result : Result) (state : State)
    (req : Request) : Session where
  request := req
  result := some result
  reading := result = .indeterminate
  received := session.received ++ chunk
  left := state

/-- Serve one event. -/
def serve (s : Server) (event : Event) : Except Fault Server :=
  match event with
  | .accepts => .ok { state := .methodStart, sessions := s.sessions ++ [Session.start] }
  | .reads k chunk =>
    match s.sessions[k]? with
    | none => .ok s
    | some session => do
      let (result, state, req) ← parse s.state session.request chunk
      return { state := state, sessions := s.sessions.set k (session.handle chunk result state req) }
  | .fails k => .ok { s with sessions := s.sessions.modify k ({ · with reading := false }) }

/-- A read completes only where one is outstanding, with at most a buffer of
bytes. -/
def Offers (s : Server) (event : Event) : Prop :=
  match event with
  | .accepts => True
  | .reads k chunk => (s.sessions[k]?.any (·.reading)) = true ∧ chunk ≠ [] ∧
      chunk.length ≤ maxLength
  | .fails k => (s.sessions[k]?.any (·.reading)) = true

instance decidableOffers (s : Server) : (event : Event) → Decidable (Offers s event)
  | .accepts => isTrue trivial
  | .reads k chunk =>
    inferInstanceAs (Decidable ((s.sessions[k]?.any (·.reading)) = true ∧ chunk ≠ [] ∧
      chunk.length ≤ maxLength))
  | .fails k => inferInstanceAs (Decidable ((s.sessions[k]?.any (·.reading)) = true))

/-- The server as a system of events: connections and reads, in any order. -/
def system : System Server Event Fault where
  start := ⟨.methodStart, []⟩
  offers := Offers
  serve := serve

instance (s : Server) (event : Event) : Decidable (system.offers s event) :=
  inferInstanceAs (Decidable (Offers s event))

/-- The parser state is the one the session's own last step left. It is so as long as no other
session reads in between, and no new one has reset it. -/
def OwnState (s : Server) (event : Event) : Prop :=
  match event with
  | .reads k _ => s.sessions[k]?.all (fun session => decide (session.left = s.state)) = true
  | _ => True

instance decidableOwnState (s : Server) : (event : Event) → Decidable (OwnState s event)
  | .reads _ _ => inferInstanceAs (Decidable (_ = true))
  | .accepts => isTrue trivial
  | .fails _ => isTrue trivial

/-- The result and the request are those of the session's bytes alone. -/
def Session.ParsedAlone (session : Session) : Prop :=
  ∃ state, parseAlone session.received =
    .ok (session.result.getD .indeterminate, state, session.request)

/-- The session was parsed alone into the state it left, and goes on reading only
as long as its parse is not decided. -/
structure Session.Alone (session : Session) : Prop where
  parsed : parseAlone session.received =
    .ok (session.result.getD .indeterminate, session.left, session.request)
  undecided : session.reading = true → session.result.getD .indeterminate = .indeterminate

theorem alone_start : Session.start.Alone := ⟨rfl, fun _ => rfl⟩

/-- A chunk parsed from the session's own state is parsed as the rest of its
bytes. -/
theorem Session.Alone.parse {session : Session} (alone : session.Alone)
    (reading : session.reading = true) (chunk : Str) :
    parseAlone (session.received ++ chunk) = Http.parse session.left session.request chunk := by
  have parsed := alone.parsed
  rw [alone.undecided reading] at parsed
  exact parseAlone_append parsed chunk

/-- A session that was parsed alone and reads a chunk from its own state was parsed alone then. -/
theorem Session.Alone.handle {session : Session} (alone : session.Alone)
    (reading : session.reading = true) {chunk : Str} {result : Result} {state : State}
    {req : Request}
    (parsed : Http.parse session.left session.request chunk = .ok (result, state, req)) :
    (session.handle chunk result state req).Alone where
  parsed := (alone.parse reading chunk).trans parsed
  undecided still := by simpa [Session.handle] using still

/-- An offered read belongs to a session that reads, with its own state. -/
theorem own_session {s : Server} {k : Nat} {chunk : Str} (offered : Offers s (.reads k chunk))
    (own : OwnState s (.reads k chunk)) : ∃ session, s.sessions[k]? = some session ∧
      session.reading = true ∧ session.left = s.state := by
  simp only [Offers, OwnState] at offered own
  cases found : s.sessions[k]? with
  | none => simp [found] at offered
  | some session =>
    rw [found] at offered own
    exact ⟨session, rfl, by simpa using offered.1, by simpa using own⟩

/-- Serving an event with the session's own state keeps every session alone: a read continues the
parse of its session, and does nothing to any other. -/
theorem serve_alone {s after : Server} {event : Event} (alone : ∀ t ∈ s.sessions, t.Alone)
    (offered : Offers s event) (own : OwnState s event) (served : serve s event = .ok after) :
    ∀ t ∈ after.sessions, t.Alone := by
  cases event with
  | accepts =>
    cases served
    intro t member
    rcases List.mem_append.mp member with old | new
    · exact alone t old
    · rw [List.mem_singleton.mp new]
      exact alone_start
  | reads k chunk =>
    obtain ⟨session, found, reading, left⟩ := own_session offered own
    simp only [serve, found] at served
    obtain ⟨⟨result, state, req⟩, parsed, returned⟩ := bind_eq_ok.mp served
    cases returned
    intro t member
    rcases List.mem_or_eq_of_mem_set member with old | rfl
    · exact alone t old
    · rw [← left] at parsed
      exact (alone session (List.mem_of_getElem? found)).handle reading parsed
  | fails k =>
    cases served
    intro t member
    obtain ⟨i, isAt⟩ := List.getElem?_of_mem member
    rw [List.getElem?_modify] at isAt
    obtain ⟨old, isOld, rfl⟩ := Option.map_eq_some_iff.mp isAt
    have oldAlone := alone old (List.mem_of_getElem? isOld)
    split
    · exact ⟨oldAlone.parsed, fun reading => by cases reading⟩
    · exact oldAlone

/-- Serving it does not fail. -/
theorem serve_returns {s : Server} {event : Event} (alone : ∀ t ∈ s.sessions, t.Alone)
    (offered : Offers s event) (own : OwnState s event) : ∃ after, serve s event = .ok after := by
  cases event with
  | accepts => exact ⟨_, rfl⟩
  | reads k chunk =>
    obtain ⟨session, found, reading, left⟩ := own_session offered own
    have isAlone := alone session (List.mem_of_getElem? found)
    have ends := parseAlone_ends (session.received ++ chunk)
    rw [isAlone.parse reading chunk, left] at ends
    cases parsed : parse s.state session.request chunk with
    | error fault =>
      rw [parsed] at ends
      exact ends.elim
    | ok done =>
      refine ⟨⟨done.2.1, s.sessions.set k (session.handle chunk done.1 done.2.1 done.2.2)⟩, ?_⟩
      simp only [serve, found, parsed]
      rfl
  | fails k => exact ⟨_, rfl⟩

/-- In every run whose reads all find the parser state their own session left, each session's
result and request are those of its bytes parsed alone, and the next such event is served without
a failure.

The state is one global variable. The invariant is that each session is where it would be alone
after the bytes it has read, and says nothing of the variable: this is what the condition is for.
-/
theorem sessions_parse_alone {events : List Event} {s : Server}
    (run : Run system OwnState events s) :
    (∀ session ∈ s.sessions, session.ParsedAlone) ∧
    ∀ event, system.offers s event → OwnState s event →
      ∃ after, system.serve s event = .ok after := by
  have alone : ∀ session ∈ s.sessions, session.Alone := by
    refine run.invariant (fun s => ∀ session ∈ s.sessions, session.Alone) ?_ ?_
    · intro session member
      cases member
    · intro state event after held offered own served
      exact serve_alone held offered own served
  constructor
  · intro session member
    exact ⟨session.left, (alone session member).parsed⟩
  · intro event offered own
    exact serve_returns alone offered own

/-- One session in two chunks, and a second one after it. -/
def oneAfterTheOther : List Event :=
  [.accepts, .reads 0 (str "GET / HT"), .reads 0 (str "TP/1.0\r\n\r\n"), .accepts,
    .reads 1 (str "PUT")]

theorem sessions_parse_alone_one_after_the_other : ∃ s, Run system OwnState oneAfterTheOther s ∧
    s.sessions.map Session.result = [some .good, some .indeterminate] ∧
    ∀ session ∈ s.sessions, session.ParsedAlone := by
  have plays : ((play system OwnState system.start oneAfterTheOther).map (fun s =>
      decide (s.sessions.map Session.result = [some .good, some .indeterminate]))) = some true := by
    decide +kernel
  obtain ⟨s, played, results⟩ := Option.map_eq_some_iff.mp plays
  have run := Run.played oneAfterTheOther s played
  exact ⟨s, run, of_decide_eq_true results, (sessions_parse_alone run).1⟩

/-- A second connection is accepted in the middle of the request line of the
first. -/
def acceptedInBetween : List Event :=
  [.accepts, .reads 0 (str "GET"), .accepts, .reads 0 (str " / HTTP/1.0\r\n\r\n")]

/-- The first session is refused, although its bytes alone are a request. -/
theorem accept_in_between_spoils_a_request : ∃ s, Run system always acceptedInBetween s ∧
    ∃ session ∈ s.sessions, session.result = some .bad ∧
      (∃ state req, parseAlone session.received = .ok (.good, state, req)) ∧
      ¬ session.ParsedAlone := by
  have plays : ((play system always system.start acceptedInBetween).map (fun s =>
      decide (s.sessions.map (fun session => (session.result, session.received)) =
        [(some .bad, str "GET / HTTP/1.0\r\n\r\n"), (none, [])]))) = some true := by
    decide +kernel
  obtain ⟨s, played, sessions⟩ := Option.map_eq_some_iff.mp plays
  have first : (some Result.bad, str "GET / HTTP/1.0\r\n\r\n") ∈
      s.sessions.map (fun session => (session.result, session.received)) := by
    rw [of_decide_eq_true sessions]
    exact List.mem_cons_self
  obtain ⟨session, member, same⟩ := List.mem_map.mp first
  obtain ⟨isBad, isReceived⟩ := Prod.mk.inj same
  have good : ((parseAlone (str "GET / HTTP/1.0\r\n\r\n")).toOption.map Prod.fst) = some .good := by
    decide +kernel
  have accepted : ∃ state req, parseAlone session.received = .ok (.good, state, req) := by
    rw [isReceived]
    cases parsed : parseAlone (str "GET / HTTP/1.0\r\n\r\n") with
    | error fault =>
      rw [parsed] at good
      cases good
    | ok done =>
      obtain ⟨result, state, req⟩ := done
      rw [parsed] at good
      cases good
      exact ⟨state, req, rfl⟩
  refine ⟨s, Run.played _ s played, session, member, isBad, accepted, ?_⟩
  rintro ⟨state, alone⟩
  obtain ⟨_, _, parsed⟩ := accepted
  rw [parsed, isBad] at alone
  cases alone

end NetProg.Http
