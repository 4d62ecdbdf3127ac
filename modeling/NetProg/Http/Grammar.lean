import NetProg.Http.Parser

/-!
# Requests as texts

What a request is, told without the parser: a request line, header lines that may
be continued on further lines, and an empty line. Every part carries the
condition on its characters, so that each text of this module is a request. A
text has bytes, which are what arrives on the connection, and a meaning, which is
the request a reader of those bytes should be left with.
-/

namespace NetProg.Http

/-- No control character. Bytes from 128 on are none. -/
def printable (c : UInt8) : Bool := 32 ≤ c && c != 127

/-- The characters that separate tokens. -/
def separators : Str := str "()<>@,;:\\\"/[]?=\x7b\x7d \t"

/-- A 7-bit character that is neither a control character nor a separator. -/
def tokenChar (c : UInt8) : Bool := c < 128 && printable c && !separators.contains c

/-- A space or a tab. -/
def blank (c : UInt8) : Bool := c == 32 || c == 9

/-- A character of an address. -/
def uriChar (c : UInt8) : Bool := printable c && c != 32

/-- A method or the name of a header. -/
structure Token where
  chars : Str
  nonempty : chars ≠ []
  allowed : ∀ c ∈ chars, tokenChar c = true

/-- An address, which may be empty. -/
structure Uri where
  chars : Str
  allowed : ∀ c ∈ chars, uriChar c = true

/-- One part of a version. -/
structure Digits where
  chars : Str
  nonempty : chars ≠ []
  allowed : ∀ c ∈ chars, isdigit c = true

/-- What a header line says, which may be nothing. -/
structure Value where
  chars : Str
  allowed : ∀ c ∈ chars, printable c = true

/-- A line that continues a header: blanks in front, then nothing or a value that
starts with another character. -/
structure Continuation where
  blanks : Str
  nonempty : blanks ≠ []
  allBlank : ∀ c ∈ blanks, blank c = true
  value : Value
  starts : ∀ c ∈ value.chars.head?, blank c = false

/-- A header line with the lines that continue it. -/
structure HeaderText where
  name : Token
  value : Value
  continuations : List Continuation

/-- A request. -/
structure RequestText where
  method : Token
  uri : Uri
  major : Digits
  minor : Digits
  headers : List HeaderText

/-- The end of a line. -/
def crlf : Str := [13, 10]

/-- The bytes of a continuation line. -/
def Continuation.bytes (line : Continuation) : Str := line.blanks ++ line.value.chars ++ crlf

/-- The bytes of a header with its continuation lines. -/
def HeaderText.bytes (header : HeaderText) : Str :=
  header.name.chars ++ str ": " ++ header.value.chars ++ crlf ++
    header.continuations.flatMap Continuation.bytes

/-- The first line up to the end of its major version. -/
def requestLine (method uri major : Str) : Str :=
  method ++ str " " ++ uri ++ str " HTTP/" ++ major

/-- The bytes of a request. -/
def RequestText.bytes (text : RequestText) : Str :=
  requestLine text.method.chars text.uri.chars text.major.chars ++ str "." ++ text.minor.chars ++
    crlf ++ text.headers.flatMap HeaderText.bytes ++ crlf

/-- The header a text stands for: continuations follow the value without the
blanks in front of them. -/
def HeaderText.header (text : HeaderText) : Header where
  name := text.name.chars
  value := text.value.chars ++ text.continuations.flatMap (·.value.chars)

/-- The host is the value of the last header of that name. -/
def hostOf (headers : List Header) : Str :=
  ((headers.filter (fun header => header.name = str "Host")).getLast?.map Header.value).getD []

/-- The request a text stands for. -/
def RequestText.request (text : RequestText) : Request where
  rawUri := text.uri.chars
  method := text.method.chars
  httpVersionMajor := some (digitsValue text.major.chars)
  httpVersionMinor := some (digitsValue text.minor.chars)
  protocol := str "HTTP/" ++ decimal (digitsValue text.major.chars) ++ str "." ++
    decimal (digitsValue text.minor.chars)
  host := hostOf (text.headers.map HeaderText.header)
  headers := text.headers.map HeaderText.header

/-- The digits denote a number that fits an `int`. -/
def FitsInt (digits : Str) : Prop := digitsValue digits ≤ 2147483647

/-- Every run of version digits at the front of the bytes denotes a number that fits an `int`,
also when the first line is not complete. It speaks of the bytes and not of the parser. -/
def VersionsFit (bytes : Str) : Prop :=
  ∀ (method : Token) (uri : Uri) (major : Digits),
    requestLine method.chars uri.chars major.chars <+: bytes →
    FitsInt major.chars ∧
    ∀ minor : Digits,
      requestLine method.chars uri.chars major.chars ++ str "." ++ minor.chars <+: bytes →
      FitsInt minor.chars

/-- Some request starts the bytes. What stands behind it does not matter, as the parser does not
read on. -/
def Starts (bytes : Str) : Prop := ∃ text : RequestText, text.bytes <+: bytes

/-- The bytes can be continued to a request. -/
def Continues (bytes : Str) : Prop := ∃ text : RequestText, bytes <+: text.bytes

/-- What holds of the 256 bytes holds of every byte. -/
theorem every_byte {motive : UInt8 → Prop} (all : ∀ n : Fin 256, motive (UInt8.ofFin n))
    (c : UInt8) : motive c := all c.toFin

theorem notToken_eq (c : UInt8) : notToken c = !tokenChar c := by
  refine every_byte (motive := fun c => notToken c = !tokenChar c) ?_ c
  decide +kernel

theorem isCtl_eq (c : UInt8) : isCtl (charValue c) = !printable c := by
  refine every_byte (motive := fun c => isCtl (charValue c) = !printable c) ?_ c
  decide +kernel

theorem isDigit_eq (c : UInt8) : isDigit (charValue c) = isdigit c := by
  refine every_byte (motive := fun c => isDigit (charValue c) = isdigit c) ?_ c
  decide +kernel

end NetProg.Http
