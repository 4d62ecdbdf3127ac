import NetProg.CText
import NetProg.Library.Feeding

/-!
# The HTTP request parser

`consume` takes one character, moves the parser's state and fills in the request;
`parse` feeds it the characters of a chunk up to the first answer that is not
`indeterminate`. Both servers, `http_server` and the one of `main.cpp`, have the
same parser. Its state is a global variable, the request is the session's, so the
two are separate arguments and results here.

`headers.back()` of a request without headers and a version number that was never
set are failures. From the start state with an empty request neither is reached.
-/

namespace NetProg.Http

open Outcomes Feeding

/-- `result_type`. -/
inductive Result where
  | good
  | bad
  | indeterminate
  deriving DecidableEq

/-- `state`. -/
inductive State where
  | methodStart
  | method
  | uri
  | httpVersionH
  | httpVersionT1
  | httpVersionT2
  | httpVersionP
  | httpVersionSlash
  | httpVersionMajorStart
  | httpVersionMajor
  | httpVersionMinorStart
  | httpVersionMinor
  | expectingNewline1
  | headerLineStart
  | headerLws
  | headerName
  | spaceBeforeHeaderValue
  | headerValue
  | expectingNewline2
  | expectingNewline3
  deriving DecidableEq

/-- `header`. -/
structure Header where
  name : Str
  value : Str
  deriving DecidableEq

/-- `request`. The two numbers are not initialised by its constructor. -/
structure Request where
  rawUri : Str
  method : Str
  httpVersionMajor : Option Int
  httpVersionMinor : Option Int
  protocol : Str
  host : Str
  headers : List Header
  deriving DecidableEq

/-- The request of a new session. -/
def Request.empty : Request := ⟨[], [], none, none, [], [], []⟩

/-- The last of no headers, or a number nobody has set. -/
inductive Fault where
  | noHeader
  | uninitialised
  deriving DecidableEq

/-- A `char` as an `int`: bytes from 128 on are negative. -/
def charValue (c : UInt8) : Int := if c < 128 then c.toNat else (c.toNat : Int) - 256

/-- `is_char`. -/
def isChar (c : Int) : Bool := 0 ≤ c && c ≤ 127

/-- `is_ctl`. -/
def isCtl (c : Int) : Bool := (0 ≤ c && c ≤ 31) || c = 127

/-- `is_tspecial`. -/
def isTspecial (c : Int) : Bool :=
  c ∈ (str "()<>@,;:\\\"/[]?=\x7b\x7d \t").map charValue

/-- `is_digit`. -/
def isDigit (c : Int) : Bool := 48 ≤ c && c ≤ 57

/-- The characters a token may not contain. -/
def notToken (input : UInt8) : Bool :=
  !isChar (charValue input) || isCtl (charValue input) || isTspecial (charValue input)

/-- An answer with the state and the request after it. -/
abbrev Consumed := Except Fault (Result × State × Request)

/-- More bytes are asked for. -/
def goOn (state : State) (req : Request) : Consumed := .ok (.indeterminate, state, req)

/-- The request is bad, and what was read of it is kept. -/
def refuse (state : State) (req : Request) : Consumed := .ok (.bad, state, req)

/-- `req.headers.back()`. -/
def back (req : Request) : Except Fault Header :=
  match req.headers.getLast? with
  | some last => .ok last
  | none => .error .noHeader

/-- The request with its last header changed. -/
def setBack (req : Request) (last : Header) : Request :=
  { req with headers := req.headers.dropLast ++ [last] }

/-- `req.headers.back().name.push_back`. -/
def pushName (req : Request) (input : UInt8) : Except Fault Request := do
  let last ← back req
  return setBack req { last with name := last.name ++ [input] }

/-- `req.headers.back().value.push_back`. -/
def pushValue (req : Request) (input : UInt8) : Except Fault Request := do
  let last ← back req
  return setBack req { last with value := last.value ++ [input] }

/-- A version number as an `int`. -/
def number (value : Option Int) : Except Fault Int :=
  match value with
  | some n => .ok n
  | none => .error .uninitialised

/-- `number * 10 + input - '0'` in an `int`. An overflow is undefined in the
language; the machine wraps around. -/
def pushDigit (value : Option Int) (input : UInt8) : Except Fault (Option Int) := do
  let n ← number value
  return some ((n * 10 + charValue input - 48).bmod 4294967296)

/-- The characters of `HTTP/`, each expected in a state of its own. -/
def expect (wanted input : UInt8) (here next : State) (req : Request) : Consumed :=
  if input = wanted then goOn next req else refuse here req

/-- `consume`. -/
def consume (state : State) (req : Request) (input : UInt8) : Consumed :=
  match state with
  | .methodStart =>
    if notToken input then refuse state req
    else goOn .method { req with method := req.method ++ [input] }
  | .method =>
    if input = 32 then goOn .uri req
    else if notToken input then refuse state req
    else goOn state { req with method := req.method ++ [input] }
  | .uri =>
    if input = 32 then goOn .httpVersionH req
    else if isCtl (charValue input) then refuse state req
    else goOn state { req with rawUri := req.rawUri ++ [input] }
  | .httpVersionH => expect 72 input state .httpVersionT1 req
  | .httpVersionT1 => expect 84 input state .httpVersionT2 req
  | .httpVersionT2 => expect 84 input state .httpVersionP req
  | .httpVersionP => expect 80 input state .httpVersionSlash req
  | .httpVersionSlash =>
    if input = 47 then
      goOn .httpVersionMajorStart { req with httpVersionMajor := some 0, httpVersionMinor := some 0 }
    else refuse state req
  | .httpVersionMajorStart =>
    if isDigit (charValue input) then do
      let major ← pushDigit req.httpVersionMajor input
      goOn .httpVersionMajor { req with httpVersionMajor := major }
    else refuse state req
  | .httpVersionMajor =>
    if input = 46 then goOn .httpVersionMinorStart req
    else if isDigit (charValue input) then do
      let major ← pushDigit req.httpVersionMajor input
      goOn state { req with httpVersionMajor := major }
    else refuse state req
  | .httpVersionMinorStart =>
    if isDigit (charValue input) then do
      let minor ← pushDigit req.httpVersionMinor input
      goOn .httpVersionMinor { req with httpVersionMinor := minor }
    else refuse state req
  | .httpVersionMinor =>
    if input = 13 then do
      let major ← number req.httpVersionMajor
      let minor ← number req.httpVersionMinor
      goOn .expectingNewline1
        { req with protocol := str "HTTP/" ++ decimal major ++ str "." ++ decimal minor }
    else if isDigit (charValue input) then do
      let minor ← pushDigit req.httpVersionMinor input
      goOn state { req with httpVersionMinor := minor }
    else refuse state req
  | .expectingNewline1 => expect 10 input state .headerLineStart req
  | .headerLineStart =>
    if input = 13 then goOn .expectingNewline3 req
    else if req.headers ≠ [] ∧ (input = 32 ∨ input = 9) then goOn .headerLws req
    else if notToken input then refuse state req
    else goOn .headerName { req with headers := req.headers ++ [⟨[input], []⟩] }
  | .headerLws =>
    if input = 13 then goOn .expectingNewline2 req
    else if input = 32 ∨ input = 9 then goOn state req
    else if isCtl (charValue input) then refuse state req
    else do goOn .headerValue (← pushValue req input)
  | .headerName =>
    if input = 58 then goOn .spaceBeforeHeaderValue req
    else if notToken input then refuse state req
    else do goOn state (← pushName req input)
  | .spaceBeforeHeaderValue => expect 32 input state .headerValue req
  | .headerValue =>
    if input = 13 then do
      let last ← back req
      goOn .expectingNewline2 (if last.name = str "Host" then { req with host := last.value } else req)
    else if isCtl (charValue input) then refuse state req
    else do goOn state (← pushValue req input)
  | .expectingNewline2 => expect 10 input state .headerLineStart req
  | .expectingNewline3 => .ok (if input = 10 then .good else .bad, state, req)

/-- `parse`: the answer for a chunk, with the state and the request after it. -/
def parse (state : State) (req : Request) (chunk : Str) : Consumed :=
  feed (fun now input => consume now.1 now.2 input) .indeterminate (state, req) chunk

/-- The states in which a header has been begun. -/
def State.inHeader : State → Bool
  | .headerLws | .headerName | .spaceBeforeHeaderValue | .headerValue => true
  | _ => false

/-- The states in which the version numbers are being read. -/
def State.inVersion : State → Bool
  | .httpVersionMajorStart | .httpVersionMajor | .httpVersionMinorStart | .httpVersionMinor => true
  | _ => false

/-- The request has what the state relies on: a last header where one is being read, and numbers
where their digits are. -/
structure Fits (now : State × Request) : Prop where
  header : now.1.inHeader = true → now.2.headers ≠ []
  version : now.1.inVersion = true →
    now.2.httpVersionMajor ≠ none ∧ now.2.httpVersionMinor ≠ none

/-- The empty request fits the start of a method. -/
theorem fits_empty : Fits (.methodStart, .empty) := by
  constructor <;> intro inside <;> cases inside

/-- An answer that keeps the request fitting, and no failure. -/
def KeepsFit (consumed : Consumed) : Prop :=
  Ends consumed (fun done => Fits done.2) (fun _ => False)

/-- An answer with whose state and request what a header and a version need. -/
theorem keepsFit_answer {result : Result} {state : State} {req : Request}
    (header : state.inHeader = true → req.headers ≠ [])
    (version : state.inVersion = true → req.httpVersionMajor ≠ none ∧ req.httpVersionMinor ≠ none) :
    KeepsFit (.ok (result, state, req)) := ⟨header, version⟩

/-- One expected character keeps what the state needs, if the next one needs no more than this
one. -/
theorem keepsFit_expect {wanted input : UInt8} {here next : State} {req : Request}
    (fits : Fits (here, req)) (header : next.inHeader = true → here.inHeader = true)
    (version : next.inVersion = true → here.inVersion = true) :
    KeepsFit (expect wanted input here next req) := by
  rw [expect]
  split
  · exact ⟨fun inside => fits.header (header inside), fun inside => fits.version (version inside)⟩
  · exact fits

/-- The last header of a request that has one. -/
theorem back_ends {req : Request} (nonempty : req.headers ≠ []) :
    Ends (back req) (fun _ => True) (fun _ => False) := by
  have present : req.headers.getLast? = some (req.headers.getLast nonempty) :=
    List.getLast?_eq_some_getLast nonempty
  simp only [back, present]
  trivial

theorem pushDigit_ends {value : Option Int} (initialised : value ≠ none) (input : UInt8) :
    Ends (pushDigit value input) (fun pushed => pushed ≠ none) (fun _ => False) := by
  cases value with
  | none => exact absurd rfl initialised
  | some n => exact Option.some_ne_none _

theorem pushName_ends {req : Request} (nonempty : req.headers ≠ []) (input : UInt8) :
    Ends (pushName req input) (fun pushed => pushed.headers ≠ []) (fun _ => False) :=
  Ends.bind _ (back_ends nonempty) (fun last _ => by simp [setBack])

theorem pushValue_ends {req : Request} (nonempty : req.headers ≠ []) (input : UInt8) :
    Ends (pushValue req input) (fun pushed => pushed.headers ≠ []) (fun _ => False) :=
  Ends.bind _ (back_ends nonempty) (fun last _ => by simp [setBack])

/-- Consuming a character in a state that fits does not fail, and fits after it. One case for each
state; those that append to a header or to a number are where it is needed that there is one. -/
theorem consume_keepsFit {state : State} {req : Request} (fits : Fits (state, req))
    (input : UInt8) : KeepsFit (consume state req input) := by
  obtain ⟨header, version⟩ := fits
  cases state with
  | methodStart | method | uri =>
    simp only [consume]
    repeat' split
    all_goals exact keepsFit_answer (fun inside => by cases inside) (fun inside => by cases inside)
  | httpVersionH | httpVersionT1 | httpVersionT2 | httpVersionP | expectingNewline1
  | expectingNewline2 | spaceBeforeHeaderValue =>
    exact keepsFit_expect ⟨header, version⟩ (fun inside => by first | rfl | cases inside)
      (fun inside => by cases inside)
  | httpVersionSlash =>
    simp only [consume]
    split
    · exact keepsFit_answer (fun inside => by cases inside) (fun _ => by simp)
    · exact keepsFit_answer (fun inside => by cases inside) (fun inside => by cases inside)
  | httpVersionMajorStart =>
    obtain ⟨major, minor⟩ := version rfl
    simp only [consume]
    split
    · refine Ends.bind _ (pushDigit_ends major input) (fun pushed isSome => ?_)
      exact keepsFit_answer (fun inside => by cases inside) (fun _ => ⟨isSome, minor⟩)
    · exact keepsFit_answer header version
  | httpVersionMajor =>
    obtain ⟨major, minor⟩ := version rfl
    simp only [consume]
    split
    · exact keepsFit_answer (fun inside => by cases inside) (fun _ => ⟨major, minor⟩)
    split
    · refine Ends.bind _ (pushDigit_ends major input) (fun pushed isSome => ?_)
      exact keepsFit_answer (fun inside => by cases inside) (fun _ => ⟨isSome, minor⟩)
    · exact keepsFit_answer header version
  | httpVersionMinorStart =>
    obtain ⟨major, minor⟩ := version rfl
    simp only [consume]
    split
    · refine Ends.bind _ (pushDigit_ends minor input) (fun pushed isSome => ?_)
      exact keepsFit_answer (fun inside => by cases inside) (fun _ => ⟨major, isSome⟩)
    · exact keepsFit_answer header version
  | httpVersionMinor =>
    obtain ⟨major, minor⟩ := version rfl
    simp only [consume]
    split
    · obtain ⟨m, isMajor⟩ := Option.ne_none_iff_exists'.mp major
      obtain ⟨n, isMinor⟩ := Option.ne_none_iff_exists'.mp minor
      rw [isMajor, isMinor]
      exact keepsFit_answer (fun inside => by cases inside) (fun inside => by cases inside)
    split
    · refine Ends.bind _ (pushDigit_ends minor input) (fun pushed isSome => ?_)
      exact keepsFit_answer (fun inside => by cases inside) (fun _ => ⟨major, isSome⟩)
    · exact keepsFit_answer header version
  | headerLineStart =>
    simp only [consume]
    split
    · exact keepsFit_answer (fun inside => by cases inside) (fun inside => by cases inside)
    split
    · rename_i continued
      exact keepsFit_answer (fun _ => continued.1) (fun inside => by cases inside)
    split
    · exact keepsFit_answer (fun inside => by cases inside) (fun inside => by cases inside)
    · exact keepsFit_answer (fun _ => by simp) (fun inside => by cases inside)
  | headerLws =>
    have nonempty := header rfl
    simp only [consume]
    split
    · exact keepsFit_answer (fun inside => by cases inside) (fun inside => by cases inside)
    split
    · exact keepsFit_answer header version
    split
    · exact keepsFit_answer header version
    · refine Ends.bind _ (pushValue_ends nonempty input) (fun pushed isNonempty => ?_)
      exact keepsFit_answer (fun _ => isNonempty) (fun inside => by cases inside)
  | headerName =>
    have nonempty := header rfl
    simp only [consume]
    split
    · exact keepsFit_answer (fun _ => nonempty) (fun inside => by cases inside)
    split
    · exact keepsFit_answer header version
    · refine Ends.bind _ (pushName_ends nonempty input) (fun pushed isNonempty => ?_)
      exact keepsFit_answer (fun _ => isNonempty) (fun inside => by cases inside)
  | headerValue =>
    have nonempty := header rfl
    simp only [consume]
    split
    · refine Ends.bind _ (back_ends nonempty) (fun last _ => ?_)
      exact keepsFit_answer (fun inside => by cases inside) (fun inside => by cases inside)
    split
    · exact keepsFit_answer header version
    · refine Ends.bind _ (pushValue_ends nonempty input) (fun pushed isNonempty => ?_)
      exact keepsFit_answer (fun _ => isNonempty) (fun inside => by cases inside)
  | expectingNewline3 =>
    exact keepsFit_answer (fun inside => by cases inside) (fun inside => by cases inside)

/-- Parsing in a state that fits does not fail, however the bytes go on; each step leaves a state
that fits. -/
theorem parse_ends {state : State} {req : Request} (fits : Fits (state, req)) (chunk : Str) :
    Ends (parse state req chunk) (fun done => Fits done.2) (fun _ => False) :=
  feed_ends _ _ Fits (fun _ => False) (fun _ input held => consume_keepsFit held input) fits chunk

/-- The bytes of one request alone, from the start with an empty request. -/
def parseAlone (bytes : Str) : Consumed := parse .methodStart .empty bytes

theorem parseAlone_ends (bytes : Str) :
    Ends (parseAlone bytes) (fun done => Fits done.2) (fun _ => False) :=
  parse_ends fits_empty bytes

/-- A chunk after bytes that asked for more is parsed as if they had come together. -/
theorem parseAlone_append {received : Str} {state : State} {req : Request}
    (parsed : parseAlone received = .ok (.indeterminate, state, req)) (chunk : Str) :
    parseAlone (received ++ chunk) = parse state req chunk :=
  feed_append _ _ parsed chunk

end NetProg.Http
