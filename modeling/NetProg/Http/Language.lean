import NetProg.Http.Grammar

/-!
# The parser accepts its grammar

Reading: each part of a request takes the parser from the state before it to the
state behind it and puts into the request what the part stands for. So the bytes
of a request are accepted with its meaning.

Recognising: a state that ends up accepting was given the part it expects. So
what is accepted starts with a request.

Every state the parser asks for more in can be carried on to an accepted request.
Together these decide all three answers by the grammar alone, and since feeding
pieces is feeding what they make up, for every cut into chunks.
-/

namespace NetProg.Http

open Outcomes Feeding

/-- One character at a state and a request. -/
abbrev consumeAt (now : State × Request) (input : UInt8) : Consumed := consume now.1 now.2 input

/-- The answer for chunks that arrive one after another, up to the first that is
decided. -/
def parseAll (state : State) (req : Request) (chunks : List Str) : Consumed :=
  feedAll consumeAt .indeterminate (state, req) chunks

theorem parseAll_eq (state : State) (req : Request) (chunks : List Str) :
    parseAll state req chunks = parse state req chunks.flatten :=
  feedAll_eq consumeAt .indeterminate (state, req) chunks

/-- A character that asks for more. -/
theorem parse_goOn {state next : State} {req filled : Request} {input : UInt8}
    (consumed : consume state req input = goOn next filled) (rest : Str) :
    parse state req (input :: rest) = parse next filled rest :=
  feed_idle consumeAt .indeterminate consumed

/-- A character that is answered with good or bad. -/
theorem parse_stops {state next : State} {req filled : Request} {input : UInt8} {result : Result}
    (consumed : consume state req input = .ok (result, next, filled))
    (stops : result ≠ .indeterminate) (rest : Str) :
    parse state req (input :: rest) = .ok (result, next, filled) :=
  feed_stops consumeAt .indeterminate consumed stops

/-- The states indexed by what they have read go on with every character inside. -/
abbrev Reads (here : Str → State × Request) (inside : UInt8 → Bool) : Prop :=
  Collects consumeAt .indeterminate here inside

/-! ## Parts that are read character by character -/

theorem method_reads (req : Request) :
    Reads (fun read => (.method, { req with method := req.method ++ read })) tokenChar := by
  intro read c inside
  have space : c ≠ 32 := by
    rintro rfl
    exact absurd inside (by decide)
  simp [consumeAt, consume, space, notToken_eq, inside, goOn]

theorem uri_reads (req : Request) :
    Reads (fun read => (.uri, { req with rawUri := req.rawUri ++ read })) uriChar := by
  intro read c inside
  simp only [uriChar, Bool.and_eq_true, bne_iff_ne, ne_eq] at inside
  simp [consumeAt, consume, inside.2, isCtl_eq, inside.1, goOn]

/-- A version number as the machine keeps it. -/
def wrapped (digits : Str) : Int := (digitsValue digits : Int).bmod 4294967296

theorem digit_toNat {c : UInt8} (digit : isdigit c = true) :
    charValue c = (c.toNat : Int) ∧ 48 ≤ c.toNat := by
  simp only [isdigit, Bool.and_eq_true, decide_eq_true_eq, UInt8.le_iff_toNat_le] at digit
  have low : 48 ≤ c.toNat := digit.1
  have high : c.toNat ≤ 57 := digit.2
  have small : c < 128 := UInt8.lt_iff_toNat_lt.mpr (Nat.lt_of_le_of_lt high (by decide))
  exact ⟨by rw [charValue, if_pos small], low⟩

/-- Wrapping around before a digit is appended changes nothing after it. -/
theorem bmod_digit (modulus : Nat) (n d : Int) :
    (n.bmod modulus * 10 + d - 48).bmod modulus = (n * 10 + d - 48).bmod modulus := by
  rw [Int.add_sub_assoc, ← Int.bmod_add_bmod, Int.bmod_mul_bmod, Int.bmod_add_bmod,
    Int.add_sub_assoc]

/-- Pushing a digit is reading one digit more. -/
theorem pushDigit_wrapped (read : Str) {c : UInt8} (digit : isdigit c = true) :
    pushDigit (some (wrapped read)) c = .ok (some (wrapped (read ++ [c]))) := by
  obtain ⟨value, low⟩ := digit_toNat digit
  have more := digitsValue_append read c
  have appended : (digitsValue read : Int) * 10 + charValue c - 48 =
      (digitsValue (read ++ [c]) : Int) := by omega
  have same : (wrapped read * 10 + charValue c - 48).bmod 4294967296 = wrapped (read ++ [c]) :=
    (bmod_digit _ _ _).trans (congrArg (Int.bmod · 4294967296) appended)
  rw [← same]
  rfl

theorem major_reads (req : Request) :
    Reads (fun read => (.httpVersionMajor, { req with httpVersionMajor := some (wrapped read) }))
      isdigit := by
  intro read c digit
  have dot : c ≠ 46 := by
    rintro rfl
    exact absurd digit (by decide)
  simp only [consumeAt, consume, dot, if_false, isDigit_eq, digit, if_true,
    pushDigit_wrapped read digit]
  rfl

theorem minor_reads (req : Request) :
    Reads (fun read => (.httpVersionMinor, { req with httpVersionMinor := some (wrapped read) }))
      isdigit := by
  intro read c digit
  have cr : c ≠ 13 := by
    rintro rfl
    exact absurd digit (by decide)
  simp only [consumeAt, consume, cr, if_false, isDigit_eq, digit, if_true,
    pushDigit_wrapped read digit]
  rfl

/-- The request with these headers and a last one. -/
def withLast (req : Request) (init : List Header) (last : Header) : Request :=
  { req with headers := init ++ [last] }

theorem back_withLast (req : Request) (init : List Header) (last : Header) :
    back (withLast req init last) = .ok last := by
  simp [back, withLast]

theorem setBack_withLast (req : Request) (init : List Header) (last other : Header) :
    setBack (withLast req init last) other = withLast req init other := by
  simp [setBack, withLast]

theorem pushName_withLast (req : Request) (init : List Header) (last : Header) (c : UInt8) :
    pushName (withLast req init last) c =
      .ok (withLast req init { last with name := last.name ++ [c] }) := by
  rw [pushName, back_withLast]
  exact congrArg Except.ok (setBack_withLast req init last _)

theorem pushValue_withLast (req : Request) (init : List Header) (last : Header) (c : UInt8) :
    pushValue (withLast req init last) c =
      .ok (withLast req init { last with value := last.value ++ [c] }) := by
  rw [pushValue, back_withLast]
  exact congrArg Except.ok (setBack_withLast req init last _)

theorem name_reads (req : Request) (init : List Header) (last : Header) :
    Reads (fun read => (.headerName, withLast req init { last with name := last.name ++ read }))
      tokenChar := by
  intro read c inside
  have colon : c ≠ 58 := by
    rintro rfl
    exact absurd inside (by decide)
  simp only [consumeAt, consume, colon, if_false, notToken_eq, inside, Bool.not_true,
    Bool.false_eq_true, pushName_withLast, List.append_assoc]
  rfl

theorem value_reads (req : Request) (init : List Header) (last : Header) :
    Reads (fun read => (.headerValue, withLast req init { last with value := last.value ++ read }))
      printable := by
  intro read c inside
  have cr : c ≠ 13 := by
    rintro rfl
    exact absurd inside (by decide)
  simp only [consumeAt, consume, cr, if_false, isCtl_eq, inside, Bool.not_true,
    Bool.false_eq_true, pushValue_withLast, List.append_assoc]
  rfl

theorem blanks_read (req : Request) : Reads (fun _ => (.headerLws, req)) blank := by
  intro read c inside
  simp only [blank, Bool.or_eq_true, beq_iff_eq] at inside
  have cr : c ≠ 13 := by
    rintro rfl
    exact absurd inside (by decide)
  simp only [consumeAt, consume, cr, if_false, inside, if_true]
  rfl

/-! ## The bytes of a request are accepted -/

/-- The method with the space behind it. -/
theorem parse_method (token : Token) (req : Request) (rest : Str) :
    parse .methodStart req (token.chars ++ 32 :: rest) =
      parse .uri { req with method := req.method ++ token.chars } rest := by
  obtain ⟨c, cs, chars⟩ := List.exists_cons_of_ne_nil token.nonempty
  have allowed := token.allowed
  rw [chars] at allowed ⊢
  have begun : consume .methodStart req c =
      goOn .method { req with method := req.method ++ [c] } := by
    simp [consume, notToken_eq, allowed c List.mem_cons_self]
  have collected := (method_reads req).feed _ _ [c]
    (fun each member => allowed each (List.mem_cons_of_mem _ member)) (32 :: rest)
  rw [List.cons_append, parse_goOn begun]
  exact collected.trans (parse_goOn rfl rest)

/-- The address with the name of the protocol behind it. -/
theorem parse_uri (uri : Uri) (req : Request) (rest : Str) :
    parse .uri req (uri.chars ++ str " HTTP/" ++ rest) = parse .httpVersionMajorStart
      { req with rawUri := req.rawUri ++ uri.chars, httpVersionMajor := some 0,
                 httpVersionMinor := some 0 } rest := by
  have collected := (uri_reads req).feed _ _ [] uri.allowed (str " HTTP/" ++ rest)
  rw [List.nil_append, List.append_nil] at collected
  rw [List.append_assoc]
  refine Eq.trans collected ?_
  rw [show str " HTTP/" ++ rest = 32 :: 72 :: 84 :: 84 :: 80 :: 47 :: rest from by
    simp only [show str " HTTP/" = [32, 72, 84, 84, 80, 47] from by decide]
    rfl]
  exact (parse_goOn rfl _).trans <| (parse_goOn rfl _).trans <| (parse_goOn rfl _).trans <|
    (parse_goOn rfl _).trans <| (parse_goOn rfl _).trans <| parse_goOn rfl rest

/-- The first digit of the major version. -/
theorem consume_majorStart {req : Request} (zero : req.httpVersionMajor = some 0) {c : UInt8}
    (digit : isdigit c = true) : consume .httpVersionMajorStart req c =
      goOn .httpVersionMajor { req with httpVersionMajor := some (wrapped [c]) } := by
  have pushed := pushDigit_wrapped [] digit
  rw [show wrapped [] = 0 from rfl] at pushed
  simp only [consume, isDigit_eq, digit, if_true, zero, pushed]
  rfl

/-- The first digit of the minor version. -/
theorem consume_minorStart {req : Request} (zero : req.httpVersionMinor = some 0) {c : UInt8}
    (digit : isdigit c = true) : consume .httpVersionMinorStart req c =
      goOn .httpVersionMinor { req with httpVersionMinor := some (wrapped [c]) } := by
  have pushed := pushDigit_wrapped [] digit
  rw [show wrapped [] = 0 from rfl] at pushed
  simp only [consume, isDigit_eq, digit, if_true, zero, pushed]
  rfl

/-- The end of the minor version fills in the protocol. -/
theorem consume_minorEnd {req : Request} {major : Int} (isMajor : req.httpVersionMajor = some major)
    (minor : Int) : consume .httpVersionMinor { req with httpVersionMinor := some minor } 13 =
      goOn .expectingNewline1
        { req with httpVersionMinor := some minor,
                   protocol := str "HTTP/" ++ decimal major ++ str "." ++ decimal minor } := by
  simp only [consume, if_true, isMajor]
  rfl

/-- The major version, with the dot behind it. -/
theorem parse_major (digits : Digits) {req : Request} (zero : req.httpVersionMajor = some 0)
    (rest : Str) : parse .httpVersionMajorStart req (digits.chars ++ 46 :: rest) =
      parse .httpVersionMinorStart { req with httpVersionMajor := some (wrapped digits.chars) }
        rest := by
  obtain ⟨c, cs, chars⟩ := List.exists_cons_of_ne_nil digits.nonempty
  have allowed := digits.allowed
  rw [chars] at allowed ⊢
  have first := allowed c List.mem_cons_self
  have collected := (major_reads req).feed _ _ [c]
    (fun each member => allowed each (List.mem_cons_of_mem _ member)) (46 :: rest)
  rw [List.cons_append, parse_goOn (consume_majorStart zero first)]
  exact collected.trans (parse_goOn rfl rest)

/-- The minor version, with the line break behind it. -/
theorem parse_minor (digits : Digits) {req : Request} {major : Int}
    (isMajor : req.httpVersionMajor = some major) (zero : req.httpVersionMinor = some 0)
    (rest : Str) : parse .httpVersionMinorStart req (digits.chars ++ crlf ++ rest) =
      parse .headerLineStart
        { req with httpVersionMinor := some (wrapped digits.chars),
                   protocol := str "HTTP/" ++ decimal major ++ str "." ++
                     decimal (wrapped digits.chars) } rest := by
  obtain ⟨c, cs, chars⟩ := List.exists_cons_of_ne_nil digits.nonempty
  have allowed := digits.allowed
  rw [chars] at allowed ⊢
  have first := allowed c List.mem_cons_self
  have collected := (minor_reads req).feed _ _ [c]
    (fun each member => allowed each (List.mem_cons_of_mem _ member)) (crlf ++ rest)
  have ended := parse_goOn (consume_minorEnd isMajor (wrapped ([c] ++ cs))) (10 :: rest)
  rw [List.append_assoc, List.cons_append, parse_goOn (consume_minorStart zero first)]
  exact collected.trans (ended.trans (parse_goOn rfl rest))

/-- The request whose last header is complete. -/
def closed (req : Request) (init : List Header) (last : Header) : Request :=
  { req with headers := init ++ [last],
             host := if last.name = str "Host" then last.value else req.host }

/-- The end of a value completes the last header. -/
theorem consume_valueEnd (req : Request) (init : List Header) (last : Header) :
    consume .headerValue (withLast req init last) 13 =
      goOn .expectingNewline2 (closed req init last) := by
  have filled : (if last.name = str "Host" then
      { withLast req init last with host := last.value } else withLast req init last) =
        closed req init last := by
    rw [closed]
    split <;> rfl
  simp only [consume, if_true, back_withLast]
  exact congrArg (goOn .expectingNewline2) filled

/-- The line break behind a value. -/
theorem parse_valueEnd (req : Request) (init : List Header) (last : Header) (rest : Str) :
    parse .headerValue (withLast req init last) (crlf ++ rest) =
      parse .headerLineStart (closed req init last) rest :=
  (parse_goOn (consume_valueEnd req init last) (10 :: rest)).trans (parse_goOn rfl rest)

/-- The rest of a value, with the line break behind it. -/
theorem parse_value (req : Request) (init : List Header) (last : Header) {chars : Str}
    (allowed : ∀ c ∈ chars, printable c = true) (rest : Str) :
    parse .headerValue (withLast req init last) (chars ++ crlf ++ rest) =
      parse .headerLineStart (closed req init { last with value := last.value ++ chars }) rest := by
  have collected := (value_reads req init last).feed _ _ [] allowed (crlf ++ rest)
  rw [List.nil_append, List.append_nil] at collected
  rw [List.append_assoc]
  exact collected.trans (parse_valueEnd req init { last with value := last.value ++ chars } rest)

/-- A header line. -/
theorem parse_headerLine (name : Token) (value : Value) (req : Request) (rest : Str) :
    parse .headerLineStart req (name.chars ++ str ": " ++ value.chars ++ crlf ++ rest) =
      parse .headerLineStart (closed req req.headers ⟨name.chars, value.chars⟩) rest := by
  obtain ⟨c, cs, chars⟩ := List.exists_cons_of_ne_nil name.nonempty
  have allowed := name.allowed
  rw [chars] at allowed ⊢
  have first := allowed c List.mem_cons_self
  have notBlank : c ≠ 13 ∧ c ≠ 32 ∧ c ≠ 9 := by
    refine ⟨?_, ?_, ?_⟩ <;>
    · rintro rfl
      exact absurd first (by decide)
  have begun : consume .headerLineStart req c =
      goOn .headerName (withLast req req.headers ⟨[c], []⟩) := by
    simp [consume, notBlank, notToken_eq, first, withLast]
  have collected := (name_reads req req.headers ⟨[c], []⟩).feed _ _ []
    (fun each member => allowed each (List.mem_cons_of_mem _ member))
    (58 :: 32 :: (value.chars ++ crlf ++ rest))
  have named : parse .headerName (withLast req req.headers ⟨[c], []⟩)
      (cs ++ 58 :: 32 :: (value.chars ++ crlf ++ rest)) =
        parse .headerValue (withLast req req.headers ⟨c :: cs, []⟩) (value.chars ++ crlf ++ rest) :=
    collected.trans ((parse_goOn rfl _).trans (parse_goOn rfl _))
  calc parse .headerLineStart req (c :: cs ++ str ": " ++ value.chars ++ crlf ++ rest)
      _ = parse .headerLineStart req (c :: (cs ++ 58 :: 32 :: (value.chars ++ crlf ++ rest))) := by
        simp only [show str ": " = [58, 32] from by decide, List.cons_append, List.append_assoc,
          List.nil_append]
      _ = parse .headerName (withLast req req.headers ⟨[c], []⟩)
          (cs ++ 58 :: 32 :: (value.chars ++ crlf ++ rest)) := parse_goOn begun _
      _ = parse .headerValue (withLast req req.headers ⟨c :: cs, []⟩)
          (value.chars ++ crlf ++ rest) := named
      _ = parse .headerLineStart (closed req req.headers ⟨c :: cs, value.chars⟩) rest :=
        parse_value req req.headers ⟨c :: cs, []⟩ value.allowed rest

/-- A header that is completed again with more of a value. -/
theorem closed_again (req : Request) (init : List Header) (name old new : Str) :
    closed (closed req init ⟨name, old⟩) init ⟨name, new⟩ = closed req init ⟨name, new⟩ := by
  simp only [closed]
  split <;> rfl

/-- The rest of a line that continues the last header, behind its blanks. -/
theorem parse_continued (value : Value) (starts : ∀ c ∈ value.chars.head?, blank c = false)
    (req : Request) (init : List Header) (last : Header) (rest : Str) :
    parse .headerLws (closed req init last) (value.chars ++ crlf ++ rest) =
      parse .headerLineStart
        (closed req init { last with value := last.value ++ value.chars }) rest := by
  have allowed := value.allowed
  cases chars : value.chars with
  | nil =>
    rw [List.append_nil]
    exact (parse_goOn rfl (10 :: rest)).trans (parse_goOn rfl rest)
  | cons c cs =>
    rw [chars] at starts allowed
    have first := allowed c List.mem_cons_self
    have notBlank : c ≠ 32 ∧ c ≠ 9 := by simpa [blank] using starts c rfl
    have cr : c ≠ 13 := by
      rintro rfl
      exact absurd first (by decide)
    have begun : consume .headerLws (closed req init last) c =
        goOn .headerValue
          (withLast (closed req init last) init { last with value := last.value ++ [c] }) := by
      have pushed := pushValue_withLast (closed req init last) init last c
      simp only [consume, cr, notBlank, if_false, or_self, isCtl_eq, first, Bool.not_true,
        Bool.false_eq_true]
      rw [show closed req init last = withLast (closed req init last) init last from rfl, pushed]
      rfl
    have continued := parse_value (closed req init last) init
      { last with value := last.value ++ [c] }
      (fun each member => allowed each (List.mem_cons_of_mem _ member)) rest
    rw [List.cons_append, List.cons_append, parse_goOn begun, continued, closed_again,
      List.append_assoc, List.singleton_append]

/-- A line that continues the last header. -/
theorem parse_continuation (line : Continuation) (req : Request) (init : List Header)
    (last : Header) (rest : Str) :
    parse .headerLineStart (closed req init last) (line.bytes ++ rest) =
      parse .headerLineStart
        (closed req init { last with value := last.value ++ line.value.chars }) rest := by
  obtain ⟨c, cs, chars⟩ := List.exists_cons_of_ne_nil line.nonempty
  have allBlank := line.allBlank
  rw [Continuation.bytes, chars]
  rw [chars] at allBlank
  have first : c = 32 ∨ c = 9 := by simpa [blank] using allBlank c List.mem_cons_self
  have begun : consume .headerLineStart (closed req init last) c =
      goOn .headerLws (closed req init last) := by
    rcases first with rfl | rfl <;> simp [consume, closed]
  have collected := (blanks_read (closed req init last)).feed _ _ []
    (fun each member => allBlank each (List.mem_cons_of_mem _ member))
    (line.value.chars ++ crlf ++ rest)
  rw [show c :: cs ++ line.value.chars ++ crlf ++ rest =
    c :: (cs ++ (line.value.chars ++ crlf ++ rest)) from by
      simp only [List.append_assoc, List.cons_append], parse_goOn begun]
  exact collected.trans (parse_continued line.value line.starts req init last rest)

/-- A header with the lines that continue it. -/
theorem parse_header (text : HeaderText) (req : Request) (rest : Str) :
    parse .headerLineStart req (text.bytes ++ rest) =
      parse .headerLineStart (closed req req.headers text.header) rest := by
  have continued (lines : List Continuation) (last : Header) (rest : Str) :
      parse .headerLineStart (closed req req.headers last)
        (lines.flatMap Continuation.bytes ++ rest) =
      parse .headerLineStart (closed req req.headers
        { last with value := last.value ++ lines.flatMap (·.value.chars) }) rest := by
    induction lines generalizing last with
    | nil => rw [List.flatMap_nil, List.flatMap_nil, List.nil_append, List.append_nil]
    | cons line lines ih =>
      rw [List.flatMap_cons, List.flatMap_cons, List.append_assoc, parse_continuation, ih,
        List.append_assoc]
  rw [HeaderText.bytes, List.append_assoc, parse_headerLine, continued]
  rfl

/-- All headers: the host is the value of the last one of that name. -/
theorem parse_headers (texts : List HeaderText) (req : Request) (rest : Str) :
    parse .headerLineStart req (texts.flatMap HeaderText.bytes ++ rest) =
      parse .headerLineStart
        { req with headers := req.headers ++ texts.map HeaderText.header,
                   host := (((texts.map HeaderText.header).filter
                     (fun header => header.name = str "Host")).getLast?.map
                       Header.value).getD req.host } rest := by
  induction texts generalizing req with
  | nil => rw [List.map_nil, List.append_nil]; rfl
  | cons text texts ih =>
    rw [List.flatMap_cons, List.append_assoc, parse_header, ih]
    congr 1
    by_cases host : text.header.name = str "Host"
    · simp [closed, host, List.getLast?_cons]
    · simp [closed, host]


/-- The empty line at the end. -/
theorem parse_end (req : Request) :
    parse .headerLineStart req crlf = .ok (.good, .expectingNewline3, req) :=
  (parse_goOn rfl [10]).trans (parse_stops rfl (by decide) [])

/-- The request as the machine keeps it, whose version numbers are wrapped around. -/
def RequestText.kept (text : RequestText) : Request where
  rawUri := text.uri.chars
  method := text.method.chars
  httpVersionMajor := some (wrapped text.major.chars)
  httpVersionMinor := some (wrapped text.minor.chars)
  protocol := str "HTTP/" ++ decimal (wrapped text.major.chars) ++ str "." ++
    decimal (wrapped text.minor.chars)
  host := hostOf (text.headers.map HeaderText.header)
  headers := text.headers.map HeaderText.header

/-- Versions that fit are kept as they are. -/
theorem wrapped_fits {digits : Str} (fits : FitsInt digits) :
    wrapped digits = digitsValue digits := by
  have fits : digitsValue digits ≤ 2147483647 := fits
  refine Int.bmod_eq_of_le ?_ ?_ <;> omega

/-- The bytes of a request are accepted, with what the request stands for. -/
theorem parseAlone_bytes (text : RequestText) :
    parseAlone text.bytes = .ok (.good, .expectingNewline3, text.kept) := by
  have line : text.bytes = text.method.chars ++ 32 :: (text.uri.chars ++ str " HTTP/" ++
      (text.major.chars ++ 46 :: (text.minor.chars ++ crlf ++
        (text.headers.flatMap HeaderText.bytes ++ crlf)))) := by
    simp only [RequestText.bytes, requestLine, show str " " = [32] from by decide,
      show str "." = [46] from by decide, List.append_assoc, List.cons_append, List.nil_append]
  rw [line, parseAlone, parse_method, parse_uri, parse_major text.major rfl,
    parse_minor text.minor rfl rfl, parse_headers, parse_end]
  rfl

/-! ## What is accepted starts with a request -/

/-- The bytes are accepted in the end, from a state with a request. It is the language of a state,
which is described for one state after the other, from the last to the first. -/
def Accepts (state : State) (req : Request) (bytes : Str) : Prop :=
  ∃ final, parse state req bytes = .ok (.good, final)

/-- What is accepted goes on with its first character, or ends with it. -/
theorem Accepts.first {state : State} {req : Request} {bytes : Str}
    (accepts : Accepts state req bytes) :
    ∃ c rest, bytes = c :: rest ∧
      ((∃ final, consume state req c = .ok (.good, final)) ∨
        ∃ next filled, consume state req c = goOn next filled ∧ Accepts next filled rest) := by
  obtain ⟨final, parsed⟩ := accepts
  cases bytes with
  | nil => cases parsed
  | cons c rest =>
    refine ⟨c, rest, rfl, ?_⟩
    cases consumed : consumeAt (state, req) c with
    | error fault =>
      have failed : parse state req (c :: rest) = .error fault :=
        feed_error consumeAt .indeterminate consumed
      cases failed.symm.trans parsed
    | ok done =>
      obtain ⟨result, next, filled⟩ := done
      by_cases more : result = .indeterminate
      · subst more
        exact Or.inr ⟨next, filled, consumed, final, (parse_goOn consumed rest).symm.trans parsed⟩
      · cases (parse_stops consumed more rest).symm.trans parsed
        exact Or.inl ⟨_, consumed⟩

/-- One expected character. -/
theorem Accepts.expect {state next : State} {req : Request} {bytes : Str} {wanted : UInt8}
    (expects : ∀ c, consume state req c = Http.expect wanted c state next req)
    (accepts : Accepts state req bytes) :
    ∃ rest, bytes = wanted :: rest ∧ Accepts next req rest := by
  obtain ⟨c, rest, rfl, ends⟩ := accepts.first
  rw [expects c, Http.expect] at ends
  split at ends
  · rename_i same
    subst same
    rcases ends with ⟨final, ended⟩ | ⟨_, _, consumed, accepts⟩
    · cases ended
    · cases consumed
      exact ⟨rest, rfl, accepts⟩
  · rcases ends with ⟨final, ended⟩ | ⟨_, _, consumed, _⟩
    · cases ended
    · cases consumed

/-- A refused character accepts nothing. -/
theorem not_accepts_refused {state : State} {req : Request} {c : UInt8} {rest : Str}
    (refused : consume state req c = refuse state req) : ¬ Accepts state req (c :: rest) := by
  rintro ⟨final, parsed⟩
  cases (parse_stops refused (by decide) rest).symm.trans parsed

/-- A character asking for more accepts what the state behind it accepts. -/
theorem accepts_goOn {state next : State} {req filled : Request} {c : UInt8} {rest : Str}
    (consumed : consume state req c = goOn next filled) :
    Accepts state req (c :: rest) ↔ Accepts next filled rest := by
  rw [Accepts, Accepts, parse_goOn consumed]

/-- States that read the characters inside up to one that ends them. -/
theorem Accepts.part {here : Str → State × Request} {inside : UInt8 → Bool} {stop : UInt8}
    {next : State} {filled : Str → Request} (reads : Reads here inside)
    (ends : ∀ read, consume (here read).1 (here read).2 stop = goOn next (filled read))
    (refuses : ∀ read c, inside c = false → c ≠ stop →
      consume (here read).1 (here read).2 c = refuse (here read).1 (here read).2)
    {read bytes : Str} (accepts : Accepts (here read).1 (here read).2 bytes) :
    ∃ inner rest, bytes = inner ++ stop :: rest ∧ (∀ c ∈ inner, inside c = true) ∧
      Accepts next (filled (read ++ inner)) rest := by
  obtain ⟨final, parsed⟩ := accepts
  obtain ⟨inner, c, rest, rfl, all, outside, left⟩ :=
    reads.leaves consumeAt .indeterminate read parsed (by decide)
  have remaining : Accepts (here (read ++ inner)).1 (here (read ++ inner)).2 (c :: rest) :=
    ⟨final, left⟩
  by_cases same : c = stop
  · subst same
    exact ⟨inner, rest, rfl, all, (accepts_goOn (ends _)).mp remaining⟩
  · exact absurd remaining (not_accepts_refused (refuses (read ++ inner) c outside same))

/-- A value up to its line break. -/
theorem Accepts.value {req : Request} {init : List Header} {last : Header} {bytes : Str}
    (accepts : Accepts .headerValue (withLast req init last) bytes) :
    ∃ (value : Value) (rest : Str), bytes = value.chars ++ crlf ++ rest ∧
      ∃ filled : Request, filled.headers ≠ [] ∧ Accepts .headerLineStart filled rest := by
  have begun : Accepts .headerValue (withLast req init { last with value := last.value ++ [] })
      bytes := by rwa [List.append_nil]
  obtain ⟨chars, rest, rfl, all, ended⟩ :=
    Accepts.part (value_reads req init last) (fun read => consume_valueEnd req init _)
      (fun read c outside other => by
        simp only [consume, other, if_false, isCtl_eq, outside, Bool.not_false, if_true])
      begun
  obtain ⟨rest, rfl, started⟩ := ended.expect (fun _ => rfl)
  exact ⟨⟨chars, all⟩, rest, by simp [crlf], _, by simp [closed], started⟩

/-- A header name with the value behind it. -/
theorem Accepts.name {req : Request} {init : List Header} {last : Header} {bytes : Str}
    (accepts : Accepts .headerName (withLast req init last) bytes) :
    ∃ (chars : Str) (value : Value) (rest : Str),
      bytes = chars ++ str ": " ++ value.chars ++ crlf ++ rest ∧
      (∀ c ∈ chars, tokenChar c = true) ∧
      ∃ filled : Request, filled.headers ≠ [] ∧ Accepts .headerLineStart filled rest := by
  have begun : Accepts .headerName (withLast req init { last with name := last.name ++ [] })
      bytes := by rwa [List.append_nil]
  have ends (read : Str) : consume .headerName
      (withLast req init { last with name := last.name ++ read }) 58 =
        goOn .spaceBeforeHeaderValue (withLast req init { last with name := last.name ++ read }) :=
    rfl
  obtain ⟨chars, rest, rfl, all, named⟩ :=
    Accepts.part (name_reads req init last) ends
      (fun read c outside other => by
        simp only [consume, other, if_false, notToken_eq, outside, Bool.not_false, if_true])
      begun
  obtain ⟨rest, rfl, valued⟩ := named.expect (fun _ => rfl)
  obtain ⟨value, rest, rfl, more⟩ := valued.value
  exact ⟨chars, value, rest, by simp [show str ": " = [58, 32] from by decide], all, more⟩

/-- The rest of a continuation line. -/
theorem Accepts.continued {req : Request} {init : List Header} {last : Header} {bytes : Str}
    (accepts : Accepts .headerLws (withLast req init last) bytes) :
    ∃ (blanks : Str) (value : Value) (rest : Str), bytes = blanks ++ value.chars ++ crlf ++ rest ∧
      (∀ c ∈ blanks, blank c = true) ∧ (∀ c ∈ value.chars.head?, blank c = false) ∧
      ∃ filled : Request, filled.headers ≠ [] ∧ Accepts .headerLineStart filled rest := by
  obtain ⟨final, parsed⟩ := accepts
  have reads := blanks_read (withLast req init last)
  obtain ⟨blanks, c, rest, rfl, all, outside, left⟩ :=
    reads.leaves consumeAt .indeterminate [] parsed (by decide)
  have remaining : Accepts .headerLws (withLast req init last) (c :: rest) := ⟨final, left⟩
  have notBlank : c ≠ 32 ∧ c ≠ 9 := by simpa [blank] using outside
  by_cases cr : c = 13
  · subst cr
    have ended := (accepts_goOn rfl).mp remaining
    obtain ⟨rest, rfl, started⟩ := Accepts.expect (fun _ => rfl) ended
    exact ⟨blanks, ⟨[], by simp⟩, rest, by simp [crlf], all, by simp, _, by simp [withLast], started⟩
  · by_cases inside : printable c = true
    · have begun : consume .headerLws (withLast req init last) c = goOn .headerValue
          (withLast req init { last with value := last.value ++ [c] }) := by
        simp only [consume, cr, notBlank, if_false, or_self, isCtl_eq, inside, Bool.not_true,
          Bool.false_eq_true, pushValue_withLast]
        rfl
      obtain ⟨value, rest, rfl, more⟩ := ((accepts_goOn begun).mp remaining).value
      refine ⟨blanks, ⟨c :: value.chars, ?_⟩, rest, by simp, all, ?_, more⟩
      · intro each member
        rcases List.mem_cons.mp member with rfl | later
        · exact inside
        · exact value.allowed each later
      · intro each isFirst
        cases isFirst
        exact outside
    · refine absurd remaining (not_accepts_refused ?_)
      simp only [consume, cr, notBlank, if_false, or_self, isCtl_eq, inside, Bool.not_false, if_true]


/-- The first character of a line: the end, a continuation or a header name. What is accepted
behind the line is accepted from the start of a line again, with a header there. -/
theorem Accepts.line {req : Request} {bytes : Str} (accepts : Accepts .headerLineStart req bytes) :
    (∃ rest, bytes = crlf ++ rest) ∨
    ∃ (filled : Request) (rest : Str), filled.headers ≠ [] ∧
      Accepts .headerLineStart filled rest ∧
      ((req.headers ≠ [] ∧ ∃ line : Continuation, bytes = line.bytes ++ rest) ∨
        ∃ (name : Token) (value : Value),
          bytes = name.chars ++ str ": " ++ value.chars ++ crlf ++ rest) := by
  obtain ⟨c, rest, rfl, -⟩ := accepts.first
  by_cases cr : c = 13
  · subst cr
    have ended := (accepts_goOn rfl).mp accepts
    obtain ⟨d, rest, rfl, -⟩ := ended.first
    by_cases lf : d = 10
    · subst lf
      exact Or.inl ⟨rest, rfl⟩
    · refine absurd ended (not_accepts_refused ?_)
      simp only [consume, lf, if_false]
      rfl
  right
  by_cases continues : req.headers ≠ [] ∧ (c = 32 ∨ c = 9)
  · obtain ⟨nonempty, isBlank⟩ := continues
    have begun : consume .headerLineStart req c =
        goOn .headerLws (withLast req req.headers.dropLast (req.headers.getLast nonempty)) := by
      simp only [withLast, List.dropLast_concat_getLast]
      simp [consume, cr, nonempty, isBlank]
    obtain ⟨blanks, value, rest, rfl, all, starts, filled, more⟩ :=
      ((accepts_goOn begun).mp accepts).continued
    have allBlank : ∀ each ∈ c :: blanks, blank each = true := by
      intro each member
      rcases List.mem_cons.mp member with rfl | later
      · rcases isBlank with rfl | rfl <;> rfl
      · exact all each later
    exact ⟨filled, rest, more.1, more.2,
      Or.inl ⟨nonempty, ⟨c :: blanks, by simp, allBlank, value, starts⟩, rfl⟩⟩
  by_cases inside : tokenChar c = true
  · have begun : consume .headerLineStart req c =
        goOn .headerName (withLast req req.headers ⟨[c], []⟩) := by
      simp only [consume, cr, continues, if_false, notToken_eq, inside, Bool.not_true,
        Bool.false_eq_true]
      rfl
    obtain ⟨chars, value, rest, rfl, all, filled, more⟩ := ((accepts_goOn begun).mp accepts).name
    have allToken : ∀ each ∈ c :: chars, tokenChar each = true :=
      List.forall_mem_cons.mpr ⟨inside, all⟩
    exact ⟨filled, rest, more.1, more.2, Or.inr ⟨⟨c :: chars, by simp, allToken⟩, value, rfl⟩⟩
  · refine absurd accepts (not_accepts_refused ?_)
    simp only [consume, cr, continues, if_false, notToken_eq, inside, Bool.not_false, if_true]

/-- Lines that continue the last header if there is one, headers, and the end. -/
theorem Accepts.lines {req : Request} {bytes : Str}
    (accepts : Accepts .headerLineStart req bytes) :
    ∃ (lines : List Continuation) (headers : List HeaderText) (rest : Str),
      (req.headers = [] → lines = []) ∧
      bytes = lines.flatMap Continuation.bytes ++ headers.flatMap HeaderText.bytes ++ crlf ++
              rest := by
  induction len : bytes.length using Nat.strong_induction_on generalizing req bytes with
  | _ n ih =>
    rcases accepts.line with ⟨rest, rfl⟩ | ⟨filled, rest, nonempty, started, shape⟩
    · exact ⟨[], [], rest, fun _ => rfl, rfl⟩
    rcases shape with ⟨continues, line, rfl⟩ | ⟨name, value, rfl⟩
    · have shorter : rest.length < n := by
        have some := List.length_pos_iff.mpr line.nonempty
        simp only [Continuation.bytes, List.length_append] at len
        omega
      obtain ⟨lines, headers, rest, -, rfl⟩ := ih rest.length shorter started rfl
      exact ⟨line :: lines, headers, rest, fun empty => absurd empty continues, by simp⟩
    · have shorter : rest.length < n := by
        have some := List.length_pos_iff.mpr name.nonempty
        simp only [List.length_append] at len
        omega
      obtain ⟨lines, headers, rest, -, rfl⟩ := ih rest.length shorter started rfl
      exact ⟨[], ⟨name, value, lines⟩ :: headers, rest, fun _ => rfl, by simp [HeaderText.bytes]⟩

/-- A method up to the space behind it. -/
theorem Accepts.method {req : Request} {bytes : Str} (accepts : Accepts .methodStart req bytes) :
    ∃ (token : Token) (rest : Str), bytes = token.chars ++ 32 :: rest ∧
      Accepts .uri { req with method := req.method ++ token.chars } rest := by
  obtain ⟨c, rest, rfl, -⟩ := accepts.first
  by_cases inside : tokenChar c = true
  · have begun : consume .methodStart req c =
        goOn .method { req with method := req.method ++ [c] } := by
      simp [consume, notToken_eq, inside]
    have ends (read : Str) : consume .method { req with method := req.method ++ read } 32 =
        goOn .uri { req with method := req.method ++ read } := rfl
    obtain ⟨chars, rest, rfl, all, behind⟩ := Accepts.part (method_reads req) ends
      (fun read d outside other => by
        simp only [consume, other, if_false, notToken_eq, outside, Bool.not_false, if_true])
      ((accepts_goOn begun).mp accepts)
    have allToken : ∀ each ∈ c :: chars, tokenChar each = true :=
      List.forall_mem_cons.mpr ⟨inside, all⟩
    exact ⟨⟨c :: chars, by simp, allToken⟩, rest, rfl, behind⟩
  · refine absurd accepts (not_accepts_refused ?_)
    simp only [consume, notToken_eq, inside, Bool.not_false, if_true]

/-- An address up to the version. -/
theorem Accepts.uri {req : Request} {bytes : Str} (accepts : Accepts .uri req bytes) :
    ∃ (uri : Uri) (rest : Str), bytes = uri.chars ++ str " HTTP/" ++ rest ∧
      Accepts .httpVersionMajorStart
        { req with rawUri := req.rawUri ++ uri.chars, httpVersionMajor := some 0,
                   httpVersionMinor := some 0 } rest := by
  have begun : Accepts .uri { req with rawUri := req.rawUri ++ [] } bytes := by
    rwa [List.append_nil]
  have ends (read : Str) : consume .uri { req with rawUri := req.rawUri ++ read } 32 =
      goOn .httpVersionH { req with rawUri := req.rawUri ++ read } := rfl
  obtain ⟨chars, rest, rfl, all, h⟩ := Accepts.part (uri_reads req) ends
    (fun read c outside other => by
      have control : printable c = false := by simpa [uriChar, other] using outside
      simp only [consume, other, if_false, isCtl_eq, control, Bool.not_false, if_true])
    begun
  obtain ⟨_, rfl, t⟩ := h.expect (fun _ => rfl)
  obtain ⟨_, rfl, tt⟩ := t.expect (fun _ => rfl)
  obtain ⟨_, rfl, p⟩ := tt.expect (fun _ => rfl)
  obtain ⟨_, rfl, slash⟩ := p.expect (fun _ => rfl)
  obtain ⟨c, rest, rfl, -⟩ := slash.first
  by_cases isSlash : c = 47
  · subst isSlash
    exact ⟨⟨chars, all⟩, rest, by simp [show str " HTTP/" = [32, 72, 84, 84, 80, 47] from by decide],
      (accepts_goOn rfl).mp slash⟩
  · refine absurd slash (not_accepts_refused ?_)
    simp only [consume, isSlash, if_false]

/-- The major version up to its dot. -/
theorem Accepts.major {req : Request} {bytes : Str} (zero : req.httpVersionMajor = some 0)
    (accepts : Accepts .httpVersionMajorStart req bytes) :
    ∃ (digits : Digits) (rest : Str), bytes = digits.chars ++ 46 :: rest ∧
      Accepts .httpVersionMinorStart { req with httpVersionMajor := some (wrapped digits.chars) }
        rest := by
  obtain ⟨c, rest, rfl, -⟩ := accepts.first
  by_cases digit : isdigit c = true
  · have ends (read : Str) :
        consume .httpVersionMajor { req with httpVersionMajor := some (wrapped read) } 46 =
          goOn .httpVersionMinorStart { req with httpVersionMajor := some (wrapped read) } := rfl
    obtain ⟨chars, rest, rfl, all, behind⟩ := Accepts.part (major_reads req) ends
      (fun read d outside other => by
        simp only [consume, other, if_false, isDigit_eq, outside, Bool.false_eq_true])
      ((accepts_goOn (consume_majorStart zero digit)).mp accepts)
    have allDigits : ∀ each ∈ c :: chars, isdigit each = true :=
      List.forall_mem_cons.mpr ⟨digit, all⟩
    exact ⟨⟨c :: chars, by simp, allDigits⟩, rest, rfl, behind⟩
  · refine absurd accepts (not_accepts_refused ?_)
    simp only [consume, isDigit_eq, digit, if_false, Bool.false_eq_true]

/-- The minor version up to the end of its line. -/
theorem Accepts.minor {req : Request} {bytes : Str} {major : Int}
    (isMajor : req.httpVersionMajor = some major) (zero : req.httpVersionMinor = some 0)
    (accepts : Accepts .httpVersionMinorStart req bytes) :
    ∃ (digits : Digits) (rest : Str), bytes = digits.chars ++ crlf ++ rest ∧
      ∃ filled : Request, filled.headers = req.headers ∧ Accepts .headerLineStart filled rest := by
  obtain ⟨c, rest, rfl, -⟩ := accepts.first
  by_cases digit : isdigit c = true
  · obtain ⟨chars, rest, rfl, all, behind⟩ := Accepts.part (minor_reads req)
      (fun read => consume_minorEnd isMajor (wrapped read))
      (fun read d outside other => by
        simp only [consume, other, if_false, isDigit_eq, outside, Bool.false_eq_true])
      ((accepts_goOn (consume_minorStart zero digit)).mp accepts)
    obtain ⟨rest, rfl, started⟩ := behind.expect (fun _ => rfl)
    have allDigits : ∀ each ∈ c :: chars, isdigit each = true :=
      List.forall_mem_cons.mpr ⟨digit, all⟩
    exact ⟨⟨c :: chars, by simp, allDigits⟩, rest, by simp [crlf], _, by rfl, started⟩
  · refine absurd accepts (not_accepts_refused ?_)
    simp only [consume, isDigit_eq, digit, if_false, Bool.false_eq_true]

/-- What is accepted from the start of a method starts with a request. -/
theorem Accepts.starts {req : Request} {bytes : Str} (empty : req.headers = [])
    (accepts : Accepts .methodStart req bytes) : Starts bytes := by
  obtain ⟨method, _, rfl, atUri⟩ := accepts.method
  obtain ⟨uri, _, rfl, atMajor⟩ := atUri.uri
  obtain ⟨major, _, rfl, atMinor⟩ := atMajor.major rfl
  obtain ⟨minor, _, rfl, filled, same, atLine⟩ := atMinor.minor rfl rfl
  obtain ⟨lines, headers, rest, first, rfl⟩ := atLine.lines
  rw [first (same.trans empty)]
  refine ⟨⟨method, uri, major, minor, headers⟩, rest, ?_⟩
  simp [RequestText.bytes, requestLine, show str " " = [32] from by decide,
    show str "." = [46] from by decide]


/-! ## A state that asks for more can be carried on -/

/-- Something more is accepted. Every state that the parser can be in between two bytes does. -/
def Lives (state : State) (req : Request) : Prop := ∃ more, Accepts state req more

theorem lives_goOn {state next : State} {req filled : Request} (c : UInt8)
    (consumed : consume state req c = goOn next filled) (lives : Lives next filled) :
    Lives state req := by
  obtain ⟨more, accepts⟩ := lives
  exact ⟨c :: more, (accepts_goOn consumed).mpr accepts⟩

theorem lives_lineStart (req : Request) : Lives .headerLineStart req :=
  ⟨crlf, _, parse_end req⟩

theorem lives_newline2 (req : Request) : Lives .expectingNewline2 req :=
  lives_goOn 10 rfl (lives_lineStart req)

/-- A header that has been begun can be ended. -/
theorem lives_value {req : Request} (nonempty : req.headers ≠ []) : Lives .headerValue req := by
  have whole : withLast req req.headers.dropLast (req.headers.getLast nonempty) = req := by
    simp only [withLast, List.dropLast_concat_getLast]
  have ended := consume_valueEnd req req.headers.dropLast (req.headers.getLast nonempty)
  rw [whole] at ended
  exact lives_goOn 13 ended (lives_newline2 _)

/-- Versions that have been begun can be ended. -/
theorem lives_minor {req : Request} {major minor : Int} (isMajor : req.httpVersionMajor = some major)
    (isMinor : req.httpVersionMinor = some minor) : Lives .httpVersionMinor req := by
  have ended := consume_minorEnd isMajor minor
  rw [show ({ req with httpVersionMinor := some minor } : Request) = req from by rw [← isMinor]]
    at ended
  exact lives_goOn 13 ended (lives_goOn 10 rfl (lives_lineStart _))

theorem lives_minorStart {req : Request} {major minor : Int}
    (isMajor : req.httpVersionMajor = some major) (isMinor : req.httpVersionMinor = some minor) :
    Lives .httpVersionMinorStart req := by
  obtain ⟨n, pushed⟩ : ∃ n, pushDigit (some minor) 48 = .ok (some n) := ⟨_, rfl⟩
  have begun : consume .httpVersionMinorStart req 48 =
      goOn .httpVersionMinor { req with httpVersionMinor := some n } := by
    simp only [consume, isMinor, pushed, show isDigit (charValue 48) = true from rfl, if_true]
    rfl
  have minorLives : Lives .httpVersionMinor { req with httpVersionMinor := some n } :=
    lives_minor isMajor rfl
  exact lives_goOn 48 begun minorLives

theorem lives_majorStart {req : Request} {major minor : Int}
    (isMajor : req.httpVersionMajor = some major) (isMinor : req.httpVersionMinor = some minor) :
    Lives .httpVersionMajorStart req := by
  obtain ⟨n, pushed⟩ : ∃ n, pushDigit (some major) 48 = .ok (some n) := ⟨_, rfl⟩
  have begun : consume .httpVersionMajorStart req 48 =
      goOn .httpVersionMajor { req with httpVersionMajor := some n } := by
    simp only [consume, isMajor, pushed, show isDigit (charValue 48) = true from rfl, if_true]
    rfl
  have minorLives : Lives .httpVersionMinorStart { req with httpVersionMajor := some n } :=
    lives_minorStart rfl isMinor
  exact lives_goOn 48 begun (lives_goOn 46 rfl minorLives)

/-- From the address on: the version behind it sets both of its parts. -/
theorem lives_slash (req : Request) : Lives .httpVersionSlash req := by
  have version : Lives .httpVersionMajorStart
      { req with httpVersionMajor := some 0, httpVersionMinor := some 0 } := lives_majorStart rfl rfl
  exact lives_goOn 47 rfl version

theorem lives_t2 (req : Request) : Lives .httpVersionT2 req :=
  lives_goOn 84 rfl (lives_goOn 80 rfl (lives_slash req))

theorem lives_h (req : Request) : Lives .httpVersionH req :=
  lives_goOn 72 rfl (lives_goOn 84 rfl (lives_t2 req))

/-- Every state that fits its request can be carried on: for each state there is a shortest text
that leads from it to the end of a request. States of the version need its two numbers for that,
and states of a header its last one. -/
theorem lives_of_fits {state : State} {req : Request} (fits : Fits (state, req)) :
    Lives state req := by
  obtain ⟨header, version⟩ := fits
  cases state with
  | methodStart => exact lives_goOn 71 rfl (lives_goOn 32 rfl (lives_goOn 32 rfl (lives_h _)))
  | method => exact lives_goOn 32 rfl (lives_goOn 32 rfl (lives_h req))
  | uri => exact lives_goOn 32 rfl (lives_h req)
  | httpVersionH => exact lives_h req
  | httpVersionT1 => exact lives_goOn 84 rfl (lives_t2 req)
  | httpVersionT2 => exact lives_t2 req
  | httpVersionP => exact lives_goOn 80 rfl (lives_slash req)
  | httpVersionSlash => exact lives_slash req
  | httpVersionMajorStart =>
    obtain ⟨⟨_, isMajor⟩, ⟨_, isMinor⟩⟩ := (version rfl).imp Option.ne_none_iff_exists'.mp
      Option.ne_none_iff_exists'.mp
    exact lives_majorStart isMajor isMinor
  | httpVersionMajor =>
    obtain ⟨⟨_, isMajor⟩, ⟨_, isMinor⟩⟩ := (version rfl).imp Option.ne_none_iff_exists'.mp
      Option.ne_none_iff_exists'.mp
    exact lives_goOn 46 rfl (lives_minorStart isMajor isMinor)
  | httpVersionMinorStart =>
    obtain ⟨⟨_, isMajor⟩, ⟨_, isMinor⟩⟩ := (version rfl).imp Option.ne_none_iff_exists'.mp
      Option.ne_none_iff_exists'.mp
    exact lives_minorStart isMajor isMinor
  | httpVersionMinor =>
    obtain ⟨⟨_, isMajor⟩, ⟨_, isMinor⟩⟩ := (version rfl).imp Option.ne_none_iff_exists'.mp
      Option.ne_none_iff_exists'.mp
    exact lives_minor isMajor isMinor
  | expectingNewline1 => exact lives_goOn 10 rfl (lives_lineStart req)
  | headerLineStart => exact lives_lineStart req
  | headerLws => exact lives_goOn 13 rfl (lives_newline2 req)
  | headerName =>
    exact lives_goOn 58 rfl (lives_goOn 32 rfl (lives_value (header rfl)))
  | spaceBeforeHeaderValue => exact lives_goOn 32 rfl (lives_value (header rfl))
  | headerValue => exact lives_value (header rfl)
  | expectingNewline2 => exact lives_newline2 req
  | expectingNewline3 => exact ⟨[10], _, parse_stops rfl (by decide) []⟩

/-! ## The answers -/

/-- The answer for bytes that start with a request. -/
theorem parseAlone_starts {bytes : Str} {text : RequestText} (starts : text.bytes <+: bytes) :
    parseAlone bytes = .ok (.good, .expectingNewline3, text.kept) := by
  obtain ⟨rest, rfl⟩ := starts
  exact feed_decided consumeAt .indeterminate (parseAlone_bytes text) (by decide) rest

/-- Good is answered exactly to what starts with a request: the first state accepts what does, and
nothing else. -/
theorem good_iff {bytes : Str} {result : Result} {state : State} {req : Request}
    (parsed : parseAlone bytes = .ok (result, state, req)) : result = .good ↔ Starts bytes := by
  constructor
  · rintro rfl
    exact Accepts.starts rfl ⟨_, parsed⟩
  · rintro ⟨text, starts⟩
    cases parsed.symm.trans (parseAlone_starts starts)
    rfl

/-- More is asked for exactly as long as a request can still come of the bytes, since every state
that asks for more can be carried on to an accepting one. -/
theorem indeterminate_iff {bytes : Str} {result : Result} {state : State} {req : Request}
    (parsed : parseAlone bytes = .ok (result, state, req)) :
    result = .indeterminate ↔ ¬ Starts bytes ∧ Continues bytes := by
  constructor
  · rintro rfl
    have undecided : ¬ Starts bytes := fun starts => by cases (good_iff parsed).mpr starts
    have ends := parseAlone_ends bytes
    rw [parsed] at ends
    obtain ⟨more, final, accepted⟩ := lives_of_fits ends
    obtain ⟨text, starts⟩ : Starts (bytes ++ more) :=
      Accepts.starts rfl ⟨final, (parseAlone_append parsed more).trans accepted⟩
    refine ⟨undecided, text, ?_⟩
    rcases List.prefix_or_prefix_of_prefix starts (List.prefix_append bytes more) with short | long
    · exact absurd ⟨text, short⟩ undecided
    · exact long
  · rintro ⟨undecided, text, rest, whole⟩
    by_contra decided
    have answered := feed_decided consumeAt .indeterminate parsed decided rest
    have accepted := parseAlone_bytes text
    rw [← whole] at accepted
    cases accepted.symm.trans answered
    exact undecided ((good_iff parsed).mp rfl)

/-- A request whose versions fit is kept as it is meant. -/
theorem kept_eq {bytes : Str} (fit : VersionsFit bytes) {text : RequestText}
    (starts : text.bytes <+: bytes) : text.kept = text.request := by
  have line : requestLine text.method.chars text.uri.chars text.major.chars ++ str "." ++
      text.minor.chars <+: bytes := by
    refine List.IsPrefix.trans ⟨crlf ++ text.headers.flatMap HeaderText.bytes ++ crlf, ?_⟩ starts
    simp [RequestText.bytes]
  have front : requestLine text.method.chars text.uri.chars text.major.chars <+: bytes := by
    refine List.IsPrefix.trans ⟨str "." ++ text.minor.chars, ?_⟩ line
    rw [List.append_assoc]
  obtain ⟨major, minors⟩ := fit text.method text.uri text.major front
  rw [RequestText.kept, wrapped_fits major, wrapped_fits (minors text.minor line)]
  rfl

/-- However bytes whose version numbers fit an `int` are cut into chunks, the answer is good when
they start with a request, and the request is then what that text stands for; it is bad as soon as
they neither start with a request nor can be continued to one.

The grammar is stated without the states of the parser. The chunks do not matter, because the
state is handed on. For each state it is then said what is accepted from there, and every state
that fits its request can be carried on: so what is refused cannot be continued either. -/
theorem accepts_its_grammar (bytes : Str) (fit : VersionsFit bytes) (chunks : List Str)
    (cut : chunks.flatten = bytes) :
    ∃ result state req, parseAll .methodStart .empty chunks = .ok (result, state, req) ∧
      (result = .good ↔ Starts bytes) ∧
      (result = .bad ↔ ¬ Starts bytes ∧ ¬ Continues bytes) ∧
      ∀ text : RequestText, text.bytes <+: bytes → req = text.request := by
  have whole : parseAll .methodStart .empty chunks = parseAlone bytes := by
    rw [parseAll_eq, cut, parseAlone]
  have ends := parseAlone_ends bytes
  cases parsed : parseAlone bytes with
  | error fault =>
    rw [parsed] at ends
    exact ends.elim
  | ok done =>
    obtain ⟨result, state, req⟩ := done
    have good := good_iff parsed
    have more := indeterminate_iff parsed
    refine ⟨result, state, req, whole.trans parsed, good, ?_, ?_⟩
    · cases result with
      | good =>
        have starts := good.mp rfl
        simp [starts]
      | bad =>
        have undecided : ¬ Starts bytes := fun starts => by cases good.mpr starts
        have stuck : ¬ Continues bytes := fun continues => by cases more.mpr ⟨undecided, continues⟩
        simp [undecided, stuck]
      | indeterminate => simp [(more.mp rfl).2]
    · intro text starts
      cases parsed.symm.trans (parseAlone_starts starts)
      exact kept_eq fit starts


/-- Nine digits always fit. -/
theorem versionsFit_of_few_digits {bytes : Str} (few : bytes.countP isdigit ≤ 9) :
    VersionsFit bytes := by
  have fits (digits : Digits) (part : digits.chars.Sublist bytes) : FitsInt digits.chars := by
    have all : digits.chars.countP isdigit = digits.chars.length :=
      List.countP_eq_length.mpr digits.allowed
    have short : digits.chars.length ≤ 9 := all ▸ (part.countP_le).trans few
    have value := digitsValue_lt digits.chars digits.allowed
    have bound : 10 ^ digits.chars.length ≤ 10 ^ 9 := Nat.pow_le_pow_right (by decide) short
    exact Nat.le_of_lt_succ (value.trans_le (bound.trans (by decide)))
  intro method uri major front
  refine ⟨fits major ((List.sublist_append_right _ _).trans front.sublist), ?_⟩
  intro minor line
  exact fits minor ((List.sublist_append_right _ _).trans line.sublist)

/-- A request with a header on two lines. -/
def continuedHost : RequestText where
  method := ⟨str "GET", by decide +kernel, by decide +kernel⟩
  uri := ⟨str "/", by decide +kernel⟩
  major := ⟨str "1", by decide +kernel, by decide +kernel⟩
  minor := ⟨str "0", by decide +kernel, by decide +kernel⟩
  headers := [⟨⟨str "Host", by decide +kernel, by decide +kernel⟩, ⟨str "a", by decide +kernel⟩,
    [⟨str " \t", by decide +kernel, by decide +kernel, ⟨str "b", by decide +kernel⟩,
      by decide +kernel⟩]⟩]

/-- A request whose host is continued on a second line, in three chunks. -/
theorem accepts_its_grammar_continued_host :
    continuedHost.bytes = str "GET / HTTP/1.0\r\nHost: a\r\n \tb\r\n\r\n" ∧
    ∃ state req, parseAll .methodStart .empty
        [str "GET / HT", str "TP/1.0\r\nHost: a\r\n", str " \tb\r\n\r\n"] =
      .ok (.good, state, req) ∧ req.host = str "ab" := by
  have bytes : continuedHost.bytes = str "GET / HTTP/1.0\r\nHost: a\r\n \tb\r\n\r\n" := by
    decide +kernel
  refine ⟨bytes, ?_⟩
  obtain ⟨result, state, req, parsed, good, -, meant⟩ :=
    accepts_its_grammar continuedHost.bytes
      (versionsFit_of_few_digits (by rw [bytes]; decide +kernel))
      [str "GET / HT", str "TP/1.0\r\nHost: a\r\n", str " \tb\r\n\r\n"]
      (by rw [bytes]; decide +kernel)
  cases good.mpr ⟨continuedHost, List.prefix_rfl⟩
  refine ⟨state, req, parsed, ?_⟩
  rw [meant continuedHost List.prefix_rfl]
  decide +kernel

end NetProg.Http
