import Mathlib.Algebra.Group.Nat.Defs
import Mathlib.Data.List.Induction
import Mathlib.Data.List.TakeWhile

/-!
# Byte strings and the text functions of the C and C++ libraries

Strings of the sources are sequences of bytes. The functions here are the ones
the programs call on them, in the default locale: word extraction from a string
stream, the two conversions from decimal text and the conversion back. A
`find` of one character that is compared with `npos` is membership.
-/

namespace NetProg

/-- A `string`, or a character array up to its terminating zero. -/
abbrev Str := List UInt8

/-- The bytes of a literal of the source. -/
def str (literal : String) : Str := literal.toList.map (fun c => c.toNat.toUInt8)

/-- The string a C function reads behind `c_str()`: the bytes before the first zero. -/
def cstr (text : Str) : Str := text.takeWhile (· ≠ 0)

/-- A text without zeros is read to its end. -/
theorem cstr_eq {text : Str} (nonzero : ∀ c ∈ text, c ≠ 0) : cstr text = text := by
  rw [cstr, List.takeWhile_eq_self_iff]
  intro c member
  simpa using nonzero c member

/-- `isspace`: blank, or one of tab, newline, vertical tab, form feed and
carriage return. -/
def isspace (c : UInt8) : Bool := c == 32 || (9 ≤ c && c ≤ 13)

/-- `while (in >> t)` over an `istringstream`: the maximal runs of characters
that are not white space, in order. -/
def words (line : Str) : List Str := (line.splitOnP isspace).filter (· ≠ [])

/-- `isdigit`. -/
def isdigit (c : UInt8) : Bool := 48 ≤ c && c ≤ 57

/-- The value of a run of decimal digits, most significant first. -/
def digitsValue (digits : Str) : Nat := digits.foldl (fun value c => value * 10 + (c.toNat - 48)) 0

/-- The number at the start of a text: white space, an optional sign and at
least one digit. What follows the digits is ignored. -/
def leadingInt (text : Str) : Option Int :=
  let rest := text.dropWhile isspace
  let sign := rest.head?
  let digits := (if sign = some 45 ∨ sign = some 43 then rest.tail else rest).takeWhile isdigit
  if digits = [] then none
  else if sign = some 45 then some (-(digitsValue digits : Int))
  else some (digitsValue digits)

/-- `atoi`: zero when no number starts the text. Its behaviour on numbers that
do not fit an `int` is undefined, and no caller here relies on it. -/
def atoi (text : Str) : Int := (leadingInt text).getD 0

/-- `stoi`: without a value where the library throws `invalid_argument` or
`out_of_range`. -/
def stoi (text : Str) : Option Int :=
  (leadingInt text).filter (fun n => -2147483648 ≤ n && n ≤ 2147483647)

/-- `to_string`, and the insertion of an `int` into a stream. -/
def decimal (n : Int) : Str := str (toString n)

theorem words_space {c : UInt8} (space : isspace c = true) (rest : Str) :
    words (c :: rest) = words rest := by
  simp [words, List.splitOnP_cons_eq_if_modifyHead, space]

/-- White space separates words. -/
theorem words_append_space {c : UInt8} (space : isspace c = true) (first rest : Str) :
    words (first ++ c :: rest) = words first ++ words rest := by
  simp [words, List.splitOnP_append_cons first rest space, List.filter_append]

theorem words_dropWhile (text : Str) : words (text.dropWhile isspace) = words text := by
  induction text with
  | nil => rfl
  | cons c rest ih =>
    by_cases space : isspace c = true
    · rw [List.dropWhile_cons_of_pos space, ih, words_space space]
    · rw [List.dropWhile_cons_of_neg space]

/-- After the white space is skipped there is none in front. -/
theorem head_not_space {text more : Str} {c : UInt8}
    (skipped : text.dropWhile isspace = c :: more) : isspace c = false := by
  have stops := List.head?_dropWhile_not isspace text
  rw [skipped] at stops
  simpa using stops

/-- A text without white space is one word. -/
theorem words_singleton {word : Str} (nonempty : word ≠ [])
    (solid : ∀ c ∈ word, isspace c = false) : words word = [word] := by
  simp [words, List.splitOnP_eq_singleton solid, nonempty]

/-- A text that does not start with white space starts with its first word. -/
theorem words_takeWhile {c : UInt8} (solid : isspace c = false) (rest : Str) :
    words (c :: rest) = (c :: rest).takeWhile (! isspace ·) ::
      words ((c :: rest).dropWhile (! isspace ·)) := by
  have all : ∀ d ∈ (c :: rest).takeWhile (! isspace ·), isspace d = false := by
    intro d member
    simpa using List.mem_takeWhile_imp member
  have nonempty : (c :: rest).takeWhile (! isspace ·) ≠ [] := by simp [solid]
  have parts : (c :: rest).takeWhile (! isspace ·) ++ (c :: rest).dropWhile (! isspace ·) =
      c :: rest := List.takeWhile_append_dropWhile
  have whole := congrArg words parts
  cases left : (c :: rest).dropWhile (! isspace ·) with
  | nil =>
    rw [left, List.append_nil, words_singleton nonempty all] at whole
    exact whole.symm
  | cons d more =>
    have space : isspace d = true := by
      have stops := List.head?_dropWhile_not (! isspace ·) (c :: rest)
      rw [left] at stops
      simpa using stops
    rw [left, words_append_space space, words_singleton nonempty all] at whole
    rw [← whole, words_space space]
    rfl

/-- Behind the white space at its start, a text that has words starts with the first. -/
theorem words_cut {text word : Str} {left : List Str} (holds : words text = word :: left) :
    ∃ c more, text.dropWhile isspace = c :: more ∧
      (c :: more).takeWhile (! isspace ·) = word ∧
      words ((c :: more).dropWhile (! isspace ·)) = left ∧
      word ++ (c :: more).dropWhile (! isspace ·) = c :: more := by
  have skipped := words_dropWhile text
  rw [holds] at skipped
  cases behind : text.dropWhile isspace with
  | nil =>
    rw [behind] at skipped
    cases skipped
  | cons c more =>
    rw [behind, words_takeWhile (head_not_space behind)] at skipped
    obtain ⟨isWord, isLeft⟩ := List.cons.inj skipped
    refine ⟨c, more, rfl, isWord, isLeft, ?_⟩
    rw [← isWord]
    exact List.takeWhile_append_dropWhile

/-- A decimal text reads back as the value of its digits. -/
theorem atoi_digits (digits : Str) (nonempty : digits ≠ [])
    (all : ∀ c ∈ digits, isdigit c = true) : atoi digits = digitsValue digits := by
  obtain ⟨first, rest, rfl⟩ := List.exists_cons_of_ne_nil nonempty
  have firstDigit : isdigit first = true := all first List.mem_cons_self
  have range : 48 ≤ first ∧ first ≤ 57 := by simpa [isdigit] using firstDigit
  have notSpace : isspace first = false := by
    simp only [isspace, Bool.or_eq_false_iff, beq_eq_false_iff_ne, ne_eq, Bool.and_eq_false_iff,
      decide_eq_false_iff_not]
    constructor
    · rintro rfl
      exact absurd range.1 (by decide)
    · right
      intro small
      exact absurd (UInt8.le_trans range.1 small) (by decide)
  have notSign : first ≠ 45 ∧ first ≠ 43 := by
    constructor
    · rintro rfl
      exact absurd range.1 (by decide)
    · rintro rfl
      exact absurd range.1 (by decide)
  have whole : (first :: rest).takeWhile isdigit = first :: rest :=
    List.takeWhile_eq_self_iff.mpr all
  simp only [atoi, leadingInt, List.dropWhile_cons, notSpace, Bool.false_eq_true, if_false,
    List.head?_cons, Option.some.injEq, notSign.1, notSign.2, or_self, whole, reduceCtorEq,
    Option.getD_some]

theorem digitChar_byte {d : Nat} (small : d < 10) :
    (Nat.digitChar d).toNat.toUInt8 = (48 + d).toUInt8 := by
  match d, small with
  | 0, _ | 1, _ | 2, _ | 3, _ | 4, _ | 5, _ | 6, _ | 7, _ | 8, _ | 9, _ => rfl

theorem str_ofList (chars : List Char) :
    str (String.ofList chars) = chars.map (fun c => c.toNat.toUInt8) := by
  simp [str]

/-- The last digit comes off the end. -/
theorem decimal_eq (n : Nat) :
    decimal n = (if n < 10 then [] else decimal (n / 10 : Nat)) ++ [(48 + n % 10).toUInt8] := by
  have text (m : Nat) : decimal m = (Nat.toDigits 10 m).map (fun c => c.toNat.toUInt8) :=
    str_ofList (Nat.toDigits 10 m)
  rw [text, text, Nat.toDigits_eq_if (by decide)]
  by_cases small : n < 10
  · simp [small, Nat.mod_eq_of_lt small, digitChar_byte small]
  · simp [small, digitChar_byte (Nat.mod_lt n (by decide : 0 < 10))]

theorem isdigit_byte {d : Nat} (small : d < 10) : isdigit (48 + d).toUInt8 = true := by
  match d, small with
  | 0, _ | 1, _ | 2, _ | 3, _ | 4, _ | 5, _ | 6, _ | 7, _ | 8, _ | 9, _ => rfl

theorem digitsValue_append (digits : Str) (c : UInt8) :
    digitsValue (digits ++ [c]) = digitsValue digits * 10 + (c.toNat - 48) := by
  simp [digitsValue]

/-- A run of digits is below the power of ten of its length. -/
theorem digitsValue_lt (digits : Str) (all : ∀ c ∈ digits, isdigit c = true) :
    digitsValue digits < 10 ^ digits.length := by
  induction digits using List.reverseRecOn with
  | nil => decide
  | append_singleton digits c ih =>
    have before := ih (fun each member => all each (List.mem_append_left _ member))
    have digit : c ≤ 57 := by
      have range := all c (List.mem_append_right _ List.mem_cons_self)
      simp only [isdigit, Bool.and_eq_true, decide_eq_true_eq] at range
      exact range.2
    have last : c.toNat ≤ 57 := UInt8.le_iff_toNat_le.mp digit
    rw [digitsValue_append, List.length_append, List.length_singleton, Nat.pow_succ]
    omega

/-- A number is printed in digits, whose value it is. -/
theorem decimal_digits (n : Nat) :
    decimal n ≠ [] ∧ (∀ c ∈ decimal n, isdigit c = true) ∧ digitsValue (decimal n) = n := by
  induction n using Nat.strongRecOn with
  | _ n ih =>
    have small : n % 10 < 10 := Nat.mod_lt n (by decide)
    have last : ((48 + n % 10).toUInt8).toNat - 48 = n % 10 := by
      rw [Nat.toUInt8, UInt8.toNat_ofNat']
      omega
    rw [decimal_eq]
    refine ⟨by simp, ?_, ?_⟩
    · intro c member
      rcases List.mem_append.mp member with early | late
      · by_cases one : n < 10
        · simp [one] at early
        · rw [if_neg one] at early
          exact (ih (n / 10) (by omega)).2.1 c early
      · rw [List.mem_singleton.mp late]
        exact isdigit_byte small
    · rw [digitsValue_append, last]
      by_cases one : n < 10
      · simp [one, digitsValue, Nat.mod_eq_of_lt one]
      · rw [if_neg one, (ih (n / 10) (by omega)).2.2]
        omega

/-- What `atoi` reads of a printed number. -/
theorem atoi_decimal (n : Nat) : atoi (decimal n) = n := by
  obtain ⟨nonempty, digits, value⟩ := decimal_digits n
  rw [atoi_digits _ nonempty digits, value]

end NetProg
