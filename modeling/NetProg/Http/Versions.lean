import NetProg.Http.Language

/-!
# Version numbers in an `int`

The digits of a version are added to an `int` one by one, and nothing limits how many
there are. So the additions stay in range for a stream of bytes exactly as long as the
runs of version digits at its front do, and only then is the protocol of the request the
one that was sent.

What has been read when a digit arrives is told by the state of the parser. A run of
digits stands behind a front: the first line up to the slash, or up to the dot.
-/

namespace NetProg.Http

open Outcomes Feeding

/-- The value is one of a 32-bit `int`. -/
def InRange (value : Int) : Prop := -2147483648 ≤ value ∧ value ≤ 2147483647

/-- The number that `consume` appends a digit to. -/
def appendedTo (state : State) (req : Request) (input : UInt8) : Option Int :=
  match state with
  | .httpVersionMajorStart | .httpVersionMajor =>
    if isDigit (charValue input) then req.httpVersionMajor else none
  | .httpVersionMinorStart | .httpVersionMinor =>
    if isDigit (charValue input) then req.httpVersionMinor else none
  | _ => none

/-- While the bytes are parsed, this digit is appended to this number. -/
def Accumulates (bytes : Str) (n : Int) (input : UInt8) : Prop :=
  ∃ before rest state req, bytes = before ++ input :: rest ∧
    parseAlone before = .ok (.indeterminate, state, req) ∧ appendedTo state req input = some n

/-- Every accumulation stays in range, and the protocol of an accepted request has the two
numbers that were sent. -/
structure VersionsRight (bytes : Str) : Prop where
  inRange : ∀ n input, Accumulates bytes n input → InRange (n * 10 + (charValue input - 48))
  protocol : ∀ state req, parseAlone bytes = .ok (.good, state, req) →
    ∀ text : RequestText, text.bytes <+: bytes → req.protocol =
      str "HTTP/" ++ decimal (digitsValue text.major.chars) ++ str "." ++
        decimal (digitsValue text.minor.chars)

/-- The sums as they are written, before the character `0` is taken off, stay in range. -/
def SumsInRange (bytes : Str) : Prop :=
  ∀ n input, Accumulates bytes n input → InRange (n * 10 + charValue input)

/-- Every run of version digits at the front of the bytes denotes a number up to a
limit. -/
def VersionsWithin (limit : Nat) (bytes : Str) : Prop :=
  ∀ (method : Token) (uri : Uri) (major : Digits),
    requestLine method.chars uri.chars major.chars <+: bytes →
    digitsValue major.chars ≤ limit ∧
    ∀ minor : Digits,
      requestLine method.chars uri.chars major.chars ++ str "." ++ minor.chars <+: bytes →
      digitsValue minor.chars ≤ limit

/-! ## Fronts -/

/-- What stands in front of a run of version digits. -/
inductive Front : Str → Prop
  | slash (method : Token) (uri : Uri) : Front (requestLine method.chars uri.chars [])
  | dot (method : Token) (uri : Uri) (major : Digits) :
      Front (requestLine method.chars uri.chars major.chars ++ str ".")

theorem requestLine_append (method uri major : Str) :
    requestLine method uri major = requestLine method uri [] ++ major := by
  simp [requestLine]

/-- The runs of version digits are those behind a front. -/
theorem versionsWithin_iff {limit : Nat} {bytes : Str} : VersionsWithin limit bytes ↔
    ∀ front (digits : Digits), Front front → front ++ digits.chars <+: bytes →
      digitsValue digits.chars ≤ limit := by
  constructor
  · intro within front digits isFront starts
    cases isFront with
    | slash method uri =>
      rw [← requestLine_append] at starts
      exact (within method uri digits starts).1
    | dot method uri major =>
      have line : requestLine method.chars uri.chars major.chars <+: bytes := by
        rw [List.append_assoc] at starts
        exact (List.prefix_append _ _).trans starts
      exact (within method uri major line).2 digits starts
  · intro within method uri major line
    constructor
    · rw [requestLine_append] at line
      exact within _ major (.slash method uri) line
    · intro minor starts
      exact within _ minor (.dot method uri major) starts

/-- A digit that arrives is appended to the number of the digits so far. -/
def Awaits (digits : Str) (state : State) (req : Request) : Prop :=
  ∀ c, isdigit c = true → appendedTo state req c = some (wrapped digits)

/-- Digits are read from a state that goes on to the one that collects them, and the next is
awaited in either. -/
theorem parse_digits {start collecting : State} {req : Request} {collected : Str → Request}
    (awaits : Awaits [] start req)
    (first : ∀ c, isdigit c = true → consume start req c = goOn collecting (collected [c]))
    (reads : Reads (fun read => (collecting, collected read)) isdigit)
    (later : ∀ digits, Awaits digits collecting (collected digits)) {digits : Str}
    (all : ∀ c ∈ digits, isdigit c = true) : ∃ state filled,
      parse start req digits = .ok (.indeterminate, state, filled) ∧ Awaits digits state filled := by
  cases digits with
  | nil => exact ⟨_, _, rfl, awaits⟩
  | cons c cs =>
    have collects := reads.feed _ _ [c]
      (fun each member => all each (List.mem_cons_of_mem _ member)) []
    rw [List.append_nil] at collects
    exact ⟨_, _, (parse_goOn (first c (all c List.mem_cons_self)) cs).trans collects, later (c :: cs)⟩

/-- The first digits of the major version. -/
theorem parse_majorDigits {req : Request} (zero : req.httpVersionMajor = some 0) {digits : Str}
    (all : ∀ c ∈ digits, isdigit c = true) : ∃ state filled,
      parse .httpVersionMajorStart req digits = .ok (.indeterminate, state, filled) ∧
        Awaits digits state filled := by
  refine parse_digits ?_ (fun c digit => consume_majorStart zero digit) (major_reads req) ?_ all
  · intro c digit
    simp [appendedTo, isDigit_eq, digit, zero, show wrapped [] = 0 from rfl]
  · intro digits c digit
    simp [appendedTo, isDigit_eq, digit]

/-- The first digits of the minor version. -/
theorem parse_minorDigits {req : Request} (zero : req.httpVersionMinor = some 0) {digits : Str}
    (all : ∀ c ∈ digits, isdigit c = true) : ∃ state filled,
      parse .httpVersionMinorStart req digits = .ok (.indeterminate, state, filled) ∧
        Awaits digits state filled := by
  refine parse_digits ?_ (fun c digit => consume_minorStart zero digit) (minor_reads req) ?_ all
  · intro c digit
    simp [appendedTo, isDigit_eq, digit, zero, show wrapped [] = 0 from rfl]
  · intro digits c digit
    simp [appendedTo, isDigit_eq, digit]

/-- Behind a front, digits are read and the next one is awaited. -/
theorem Front.parse {front digits : Str} (isFront : Front front)
    (all : ∀ c ∈ digits, isdigit c = true) : ∃ state req,
      parseAlone (front ++ digits) = .ok (.indeterminate, state, req) ∧ Awaits digits state req := by
  cases isFront with
  | slash method uri =>
    have line : requestLine method.chars uri.chars [] ++ digits =
        method.chars ++ 32 :: (uri.chars ++ str " HTTP/" ++ digits) := by
      simp [requestLine, show str " " = [32] from by decide]
    rw [line, parseAlone, parse_method, parse_uri]
    exact parse_majorDigits rfl all
  | dot method uri major =>
    have line : requestLine method.chars uri.chars major.chars ++ str "." ++ digits =
        method.chars ++ 32 :: (uri.chars ++ str " HTTP/" ++ (major.chars ++ 46 :: digits)) := by
      simp [requestLine, show str " " = [32] from by decide, show str "." = [46] from by decide]
    rw [line, parseAlone, parse_method, parse_uri, parse_major major rfl]
    exact parse_minorDigits rfl all

/-! ## What has been read in a state -/

/-- A method, an address and the beginning of the protocol. -/
def OnLine (word before : Str) : Prop :=
  ∃ (method : Token) (uri : Uri), before = method.chars ++ 32 :: uri.chars ++ word

/-- What has been read by the time the parser is in a state of the first line. -/
def ReadSoFar (before : Str) (state : State) (req : Request) : Prop :=
  match state with
  | .methodStart => before = []
  | .method => ∃ method : Token, before = method.chars
  | .uri => OnLine [] before
  | .httpVersionH => OnLine (str " ") before
  | .httpVersionT1 => OnLine (str " H") before
  | .httpVersionT2 => OnLine (str " HT") before
  | .httpVersionP => OnLine (str " HTT") before
  | .httpVersionSlash => OnLine (str " HTTP") before
  | .httpVersionMajorStart => (∃ (method : Token) (uri : Uri),
      before = requestLine method.chars uri.chars []) ∧
      req.httpVersionMajor = some 0 ∧ req.httpVersionMinor = some 0
  | .httpVersionMajor => ∃ (method : Token) (uri : Uri) (major : Digits),
      before = requestLine method.chars uri.chars major.chars ∧
      req.httpVersionMajor = some (wrapped major.chars) ∧ req.httpVersionMinor = some 0
  | .httpVersionMinorStart => ∃ (method : Token) (uri : Uri) (major : Digits),
      before = requestLine method.chars uri.chars major.chars ++ str "." ∧
      req.httpVersionMinor = some 0
  | .httpVersionMinor => ∃ (method : Token) (uri : Uri) (major minor : Digits),
      before = requestLine method.chars uri.chars major.chars ++ str "." ++ minor.chars ∧
      req.httpVersionMinor = some (wrapped minor.chars)
  | _ => True

/-- Digits, and one more. -/
def Digits.snoc (digits : Digits) (c : UInt8) (digit : isdigit c = true) : Digits where
  chars := digits.chars ++ [c]
  nonempty := by simp
  allowed := List.forall_mem_append.mpr ⟨digits.allowed, by simpa using digit⟩

/-- One digit. -/
def Digits.single (c : UInt8) (digit : isdigit c = true) : Digits :=
  ⟨[c], by simp, by simpa using digit⟩

/-- The next character of the word `HTTP/`. -/
theorem OnLine.next {word before : Str} (onLine : OnLine word before) (c : UInt8) :
    OnLine (word ++ [c]) (before ++ [c]) := by
  obtain ⟨method, uri, rfl⟩ := onLine
  exact ⟨method, uri, by simp⟩

/-- A character that is expected and found. -/
theorem expect_goesOn {wanted input : UInt8} {here next after : State} {req filled : Request}
    (expected : expect wanted input here next req = .ok (.indeterminate, after, filled)) :
    input = wanted ∧ after = next ∧ filled = req := by
  rw [expect] at expected
  split at expected
  · cases expected
    exact ⟨‹_›, rfl, rfl⟩
  · cases expected

/-- A digit that is taken is appended to the number of the digits so far. -/
theorem pushed_goesOn {digits : Str} {input : UInt8} (digit : isdigit input = true)
    {next after : State} {filled : Request} {with_ : Option Int → Request}
    (pushed : (do goOn next (with_ (← pushDigit (some (wrapped digits)) input))) =
      .ok (.indeterminate, after, filled)) :
    after = next ∧ filled = with_ (some (wrapped (digits ++ [input]))) := by
  rw [pushDigit_wrapped digits digit] at pushed
  cases pushed
  exact ⟨rfl, rfl⟩

/-- The states behind the first line, of which nothing is told. -/
def State.behindLine : State → Bool
  | .expectingNewline1 | .headerLineStart | .headerLws | .headerName | .spaceBeforeHeaderValue
  | .headerValue | .expectingNewline2 | .expectingNewline3 => true
  | _ => false

theorem readSoFar_behind {state : State} (behind : state.behindLine = true) (before : Str)
    (req : Request) : ReadSoFar before state req := by
  cases state <;> trivial

/-- The parser does not come back to the first line, from any of the states behind it: a continued
header or a new one leads to states of the header lines only. -/
theorem consume_behind {state next : State} {req filled : Request} {input : UInt8}
    (behind : state.behindLine = true)
    (consumed : consume state req input = .ok (.indeterminate, next, filled)) :
    next.behindLine = true := by
  cases state with
  | methodStart | method | uri | httpVersionH | httpVersionT1 | httpVersionT2 | httpVersionP
  | httpVersionSlash | httpVersionMajorStart | httpVersionMajor | httpVersionMinorStart
  | httpVersionMinor => cases behind
  | expectingNewline1 | spaceBeforeHeaderValue | expectingNewline2 =>
    obtain ⟨-, rfl, -⟩ := expect_goesOn consumed
    rfl
  | expectingNewline3 =>
    simp only [consume] at consumed
    split at consumed <;> cases consumed
  | headerLineStart =>
    simp only [consume] at consumed
    split at consumed
    · cases consumed
      rfl
    split at consumed
    · cases consumed
      rfl
    split at consumed
    · cases consumed
    · cases consumed
      rfl
  | headerLws =>
    simp only [consume] at consumed
    split at consumed
    · cases consumed
      rfl
    split at consumed
    · cases consumed
      rfl
    split at consumed
    · cases consumed
    · obtain ⟨pushed, -, returned⟩ := bind_eq_ok.mp consumed
      cases returned
      rfl
  | headerName =>
    simp only [consume] at consumed
    split at consumed
    · cases consumed
      rfl
    split at consumed
    · cases consumed
    · obtain ⟨pushed, -, returned⟩ := bind_eq_ok.mp consumed
      cases returned
      rfl
  | headerValue =>
    simp only [consume] at consumed
    split at consumed
    · obtain ⟨last, -, returned⟩ := bind_eq_ok.mp consumed
      cases returned
      rfl
    split at consumed
    · cases consumed
    · obtain ⟨pushed, -, returned⟩ := bind_eq_ok.mp consumed
      cases returned
      rfl

/-- One character of the version numbers: a digit is appended to the ones read so far, a dot ends
the first number and the end of the line the second. -/
theorem ReadSoFar.next_version {before : Str} {state next : State} {req filled : Request}
    {input : UInt8} (inside : state.inVersion = true) (read : ReadSoFar before state req)
    (consumed : consume state req input = .ok (.indeterminate, next, filled)) :
    ReadSoFar (before ++ [input]) next filled := by
  cases state with
  | methodStart | method | uri | httpVersionH | httpVersionT1 | httpVersionT2 | httpVersionP
  | httpVersionSlash | expectingNewline1 | headerLineStart | headerLws | headerName
  | spaceBeforeHeaderValue | headerValue | expectingNewline2 | expectingNewline3 => cases inside
  | httpVersionMajorStart =>
    obtain ⟨⟨method, uri, rfl⟩, major, minor⟩ := read
    simp only [consume, isDigit_eq] at consumed
    split at consumed
    · rename_i digit
      rw [major] at consumed
      obtain ⟨rfl, rfl⟩ := @pushed_goesOn [] _ digit _ _ _ _ consumed
      exact ⟨method, uri, .single input digit, (requestLine_append _ _ _).symm, rfl, minor⟩
    · cases consumed
  | httpVersionMajor =>
    obtain ⟨method, uri, digits, rfl, major, minor⟩ := read
    simp only [consume, isDigit_eq] at consumed
    split at consumed
    · rename_i dot
      cases consumed
      exact ⟨method, uri, digits, by simp [dot, show str "." = [46] from by decide], minor⟩
    split at consumed
    · rename_i digit
      rw [major] at consumed
      obtain ⟨rfl, rfl⟩ := pushed_goesOn digit consumed
      exact ⟨method, uri, digits.snoc input digit, by simp [requestLine, Digits.snoc], rfl, minor⟩
    · cases consumed
  | httpVersionMinorStart =>
    obtain ⟨method, uri, major, rfl, minor⟩ := read
    simp only [consume, isDigit_eq] at consumed
    split at consumed
    · rename_i digit
      rw [minor] at consumed
      obtain ⟨rfl, rfl⟩ := @pushed_goesOn [] _ digit _ _ _ _ consumed
      exact ⟨method, uri, major, .single input digit, rfl, rfl⟩
    · cases consumed
  | httpVersionMinor =>
    obtain ⟨method, uri, major, digits, rfl, minor⟩ := read
    simp only [consume, isDigit_eq] at consumed
    split at consumed
    · obtain ⟨first, -, consumed⟩ := bind_eq_ok.mp consumed
      obtain ⟨second, -, returned⟩ := bind_eq_ok.mp consumed
      cases returned
      trivial
    split at consumed
    · rename_i digit
      rw [minor] at consumed
      obtain ⟨rfl, rfl⟩ := pushed_goesOn digit consumed
      exact ⟨method, uri, major, digits.snoc input digit, by simp [Digits.snoc], rfl⟩
    · cases consumed

/-- One character that asks for more, by the state it is read in: it becomes part of the method,
of the address or of the protocol, or leads behind the first line. -/
theorem ReadSoFar.next {before : Str} {state next : State} {req filled : Request} {input : UInt8}
    (read : ReadSoFar before state req)
    (consumed : consume state req input = .ok (.indeterminate, next, filled)) :
    ReadSoFar (before ++ [input]) next filled := by
  cases state with
  | methodStart =>
    cases read
    simp only [consume, notToken_eq] at consumed
    split at consumed
    · cases consumed
    · rename_i inside
      cases consumed
      exact ⟨⟨[input], by simp, by simpa using inside⟩, rfl⟩
  | method =>
    obtain ⟨method, rfl⟩ := read
    simp only [consume, notToken_eq] at consumed
    split at consumed
    · rename_i space
      cases consumed
      exact ⟨method, ⟨[], by simp⟩, by simp [space]⟩
    split at consumed
    · cases consumed
    · rename_i inside
      cases consumed
      have all : ∀ c ∈ method.chars ++ [input], tokenChar c = true :=
        List.forall_mem_append.mpr ⟨method.allowed, by simpa using inside⟩
      exact ⟨⟨method.chars ++ [input], by simp, all⟩, rfl⟩
  | uri =>
    obtain ⟨method, uri, rfl⟩ := read
    simp only [consume, isCtl_eq] at consumed
    split at consumed
    · rename_i space
      cases consumed
      exact ⟨method, uri, by simp [space, show str " " = [32] from by decide]⟩
    split at consumed
    · cases consumed
    · rename_i other inside
      cases consumed
      have all : ∀ c ∈ uri.chars ++ [input], uriChar c = true :=
        List.forall_mem_append.mpr ⟨uri.allowed, by simpa [uriChar, other] using inside⟩
      exact ⟨method, ⟨uri.chars ++ [input], all⟩, by simp⟩
  | httpVersionH =>
    obtain ⟨rfl, rfl, rfl⟩ := expect_goesOn consumed
    exact OnLine.next read 72
  | httpVersionT1 =>
    obtain ⟨rfl, rfl, rfl⟩ := expect_goesOn consumed
    exact OnLine.next read 84
  | httpVersionT2 =>
    obtain ⟨rfl, rfl, rfl⟩ := expect_goesOn consumed
    exact OnLine.next read 84
  | httpVersionP =>
    obtain ⟨rfl, rfl, rfl⟩ := expect_goesOn consumed
    exact OnLine.next read 80
  | httpVersionSlash =>
    obtain ⟨method, uri, rfl⟩ := read
    simp only [consume] at consumed
    split at consumed
    · rename_i slash
      cases consumed
      refine ⟨⟨method, uri, ?_⟩, rfl, rfl⟩
      simp [slash, requestLine, show str " " = [32] from by decide,
        show str " HTTP" = [32, 72, 84, 84, 80] from by decide,
        show str " HTTP/" = [32, 72, 84, 84, 80, 47] from by decide]
    · cases consumed
  | httpVersionMajorStart | httpVersionMajor | httpVersionMinorStart | httpVersionMinor =>
    exact read.next_version rfl consumed
  | expectingNewline1 | headerLineStart | headerLws | headerName | spaceBeforeHeaderValue
  | headerValue | expectingNewline2 | expectingNewline3 =>
    exact readSoFar_behind (consume_behind rfl consumed) _ _

/-- Whatever has been parsed and asks for more. -/
theorem readSoFar_of_parsed {before : Str} {state : State} {req : Request}
    (parsed : parseAlone before = .ok (.indeterminate, state, req)) :
    ReadSoFar before state req := by
  induction before using List.reverseRecOn generalizing state req with
  | nil =>
    cases parsed
    rfl
  | append_singleton init input ih =>
    have ends := parseAlone_ends init
    cases earlier : parseAlone init with
    | error fault =>
      rw [earlier] at ends
      exact ends.elim
    | ok done =>
      obtain ⟨result, middle, half⟩ := done
      by_cases more : result = .indeterminate
      · subst more
        rw [parseAlone_append earlier [input]] at parsed
        cases consumed : consume middle half input with
        | error fault =>
          rw [parse, feed_error _ _ consumed] at parsed
          cases parsed
        | ok done =>
          obtain ⟨answer, next, filled⟩ := done
          by_cases goesOn : answer = .indeterminate
          · subst goesOn
            rw [parse_goOn consumed] at parsed
            cases parsed
            exact (ih earlier).next consumed
          · rw [parse_stops consumed goesOn] at parsed
            cases parsed
            exact absurd rfl goesOn
      · have decided := feed_decided consumeAt .indeterminate earlier more [input]
        cases parsed.symm.trans decided
        exact absurd rfl more

/-- A digit that is appended stands behind a front and the digits before it. What the parser has
read when it is in a state of the first line is known, and only two of these states append. -/
theorem Accumulates.run {bytes : Str} {n : Int} {input : UInt8}
    (accumulates : Accumulates bytes n input) : ∃ front digits, Front front ∧
      (∀ c ∈ digits ++ [input], isdigit c = true) ∧ front ++ (digits ++ [input]) <+: bytes ∧
      n = wrapped digits := by
  obtain ⟨before, rest, state, req, rfl, parsed, appended⟩ := accumulates
  have read := readSoFar_of_parsed parsed
  have starts (front digits : Str) (same : before = front ++ digits) :
      front ++ (digits ++ [input]) <+: before ++ input :: rest := ⟨rest, by simp [same]⟩
  have behind (digits : Str) (all : ∀ c ∈ digits, isdigit c = true) (digit : isdigit input = true) :
      ∀ c ∈ digits ++ [input], isdigit c = true :=
    List.forall_mem_append.mpr ⟨all, by simpa using digit⟩
  cases state with
  | httpVersionMajorStart =>
    obtain ⟨⟨method, uri, same⟩, major, -⟩ := read
    simp only [appendedTo, isDigit_eq, major] at appended
    split at appended
    · rename_i digit
      exact ⟨_, [], .slash method uri, behind [] (by simp) digit, starts _ [] (by simpa using same),
        (Option.some.inj appended).symm⟩
    · cases appended
  | httpVersionMajor =>
    obtain ⟨method, uri, digits, same, major, -⟩ := read
    simp only [appendedTo, isDigit_eq, major] at appended
    split at appended
    · rename_i digit
      exact ⟨_, digits.chars, .slash method uri, behind _ digits.allowed digit,
        starts _ _ (same.trans (requestLine_append _ _ _)), (Option.some.inj appended).symm⟩
    · cases appended
  | httpVersionMinorStart =>
    obtain ⟨method, uri, major, same, minor⟩ := read
    simp only [appendedTo, isDigit_eq, minor] at appended
    split at appended
    · rename_i digit
      exact ⟨_, [], .dot method uri major, behind [] (by simp) digit,
        starts _ [] (by simpa using same), (Option.some.inj appended).symm⟩
    · cases appended
  | httpVersionMinor =>
    obtain ⟨method, uri, major, digits, same, minor⟩ := read
    simp only [appendedTo, isDigit_eq, minor] at appended
    split at appended
    · rename_i digit
      exact ⟨_, digits.chars, .dot method uri major, behind _ digits.allowed digit,
        starts _ _ same, (Option.some.inj appended).symm⟩
    · cases appended
  | _ => cases appended

/-- Behind a front, every digit is appended to the number of those before it. -/
theorem Front.accumulates {front digits bytes : Str} {input : UInt8} (isFront : Front front)
    (all : ∀ c ∈ digits ++ [input], isdigit c = true)
    (starts : front ++ (digits ++ [input]) <+: bytes) :
    Accumulates bytes (wrapped digits) input := by
  obtain ⟨allBefore, digit⟩ := List.forall_mem_append.mp all
  obtain ⟨state, req, parsed, awaits⟩ := isFront.parse allBefore
  obtain ⟨rest, whole⟩ := starts
  refine ⟨front ++ digits, rest, state, req, ?_, parsed, awaits input (by simpa using digit)⟩
  rw [← whole]
  simp

/-! ## The answers -/

/-- With something added to each sum, the sums stay in range exactly as long as the runs of
digits leave that much room. -/
theorem accumulations_inRange_iff (bytes : Str) {spare : Nat} (room : spare ≤ 2147483647) :
    (∀ n input, Accumulates bytes n input → InRange (n * 10 + (charValue input - 48) + spare)) ↔
      VersionsWithin (2147483647 - spare) bytes := by
  rw [versionsWithin_iff]
  constructor
  · intro inRange front digits isFront starts
    -- digit by digit: the ones before have left the number as it is
    have all (chars : Str) (allowed : ∀ c ∈ chars, isdigit c = true)
        (starts : front ++ chars <+: bytes) : digitsValue chars ≤ 2147483647 - spare := by
      induction chars using List.reverseRecOn with
      | nil => exact Nat.zero_le _
      | append_singleton chars c ih =>
        obtain ⟨before, digit⟩ := List.forall_mem_append.mp allowed
        have shorter : front ++ chars <+: bytes := by
          rw [← List.append_assoc] at starts
          exact (List.prefix_append _ _).trans starts
        have fits := ih before shorter
        have kept : wrapped chars = digitsValue chars :=
          wrapped_fits (show digitsValue chars ≤ 2147483647 by omega)
        obtain ⟨value, low⟩ := digit_toNat (digit c List.mem_cons_self)
        obtain ⟨-, high⟩ := inRange _ _ (isFront.accumulates allowed starts)
        rw [kept, value] at high
        rw [digitsValue_append]
        omega
    exact all digits.chars digits.allowed starts
  · intro within n input accumulates
    obtain ⟨front, chars, isFront, allowed, starts, isNumber⟩ := accumulates.run
    have value := within front ⟨chars ++ [input], by simp, allowed⟩ isFront starts
    rw [digitsValue_append] at value
    have kept : wrapped chars = digitsValue chars :=
      wrapped_fits (show digitsValue chars ≤ 2147483647 by omega)
    obtain ⟨isValue, low⟩ := digit_toNat (allowed input (by simp))
    rw [isNumber, kept, isValue]
    constructor <;> omega

/-- For every stream of bytes the accumulations stay in range, and the protocol is the one that
was sent, if and only if every run of version digits at its front fits an `int`. The sums as they
are written stay in range if and only if the runs leave room for the value of the character `0`.

For `n * 10 + input - '0'` is computed from the left, and the sum in its middle is the larger one.
Both halves are one fact about accumulations with a surplus, which is 0 for the first. -/
theorem versions_right_iff (bytes : Str) :
    (VersionsRight bytes ↔ VersionsFit bytes) ∧
      (SumsInRange bytes ↔ VersionsWithin 2147483599 bytes) := by
  have plain := accumulations_inRange_iff bytes (Nat.zero_le 2147483647)
  have written := accumulations_inRange_iff bytes (show 48 ≤ 2147483647 by decide)
  simp only [Int.ofNat_zero, Int.add_zero, Nat.sub_zero] at plain
  constructor
  · constructor
    · intro right
      exact plain.mp right.inRange
    · intro fit
      refine ⟨plain.mpr fit, fun state req accepted text starts => ?_⟩
      cases accepted.symm.trans (parseAlone_starts starts)
      rw [kept_eq fit starts]
      rfl
  · rw [← written, SumsInRange]
    have same (n : Int) (input : UInt8) :
        n * 10 + (charValue input - 48) + (48 : Nat) = n * 10 + charValue input := by omega
    simp only [same]

/-- A request whose major version is one more than 2 to the 32. -/
def largeVersion : RequestText :=
  { continuedHost with
    major := ⟨str "4294967297", by decide +kernel, by decide +kernel⟩
    headers := [] }

/-- It is taken for version 1. -/
theorem large_version_wraps :
    parseAlone (str "GET / HTTP/4294967297.0\r\n\r\n") =
      .ok (.good, .expectingNewline3, largeVersion.kept) ∧
    largeVersion.kept.protocol = str "HTTP/1.0" ∧
    ¬ VersionsRight (str "GET / HTTP/4294967297.0\r\n\r\n") := by
  have bytes : largeVersion.bytes = str "GET / HTTP/4294967297.0\r\n\r\n" := by decide +kernel
  have parsed : parseAlone (str "GET / HTTP/4294967297.0\r\n\r\n") =
      .ok (.good, .expectingNewline3, largeVersion.kept) := bytes ▸ parseAlone_bytes largeVersion
  have protocol : largeVersion.kept.protocol = str "HTTP/1.0" := by decide +kernel
  refine ⟨parsed, protocol, ?_⟩
  intro right
  have sent := right.protocol _ _ parsed largeVersion (bytes ▸ List.prefix_rfl)
  rw [protocol] at sent
  exact absurd sent (by decide +kernel)

end NetProg.Http
