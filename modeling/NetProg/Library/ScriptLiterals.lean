import Mathlib.Algebra.Group.Nat.Defs
import Mathlib.Data.List.Basic

/-!
# Reading a single-quoted string literal of a script

A script is a text of UTF-8 bytes. A string literal in it runs from its opening
quote to the next quote that is not taken by an escape, and must not contain a line
feed or a carriage return on the way. Every other byte stands for itself, except
that a backslash starts an escape. The escapes are those of ECMAScript outside of
strict mode, with line continuations and octal numbers. The separators U+2028 and
U+2029 are allowed in a literal, as they are since the edition of 2019; a code unit
above U+FFFF given as two escapes counts as two characters.

An escape is longer than what it stands for. So the value of a literal is the text
between its quotes exactly when there is no backslash in it.
-/

namespace NetProg.ScriptLiterals

/-- The UTF-8 bytes of a code point. -/
def utf8 (point : Nat) : List UInt8 :=
  if point < 128 then [point.toUInt8]
  else if point < 2048 then [(192 + point / 64).toUInt8, (128 + point % 64).toUInt8]
  else if point < 65536 then
    [(224 + point / 4096).toUInt8, (128 + point / 64 % 64).toUInt8, (128 + point % 64).toUInt8]
  else
    [(240 + point / 262144).toUInt8, (128 + point / 4096 % 64).toUInt8,
      (128 + point / 64 % 64).toUInt8, (128 + point % 64).toUInt8]

/-- The value of an octal digit. -/
def octalDigit (c : UInt8) : Option Nat :=
  if 48 ≤ c ∧ c ≤ 55 then some (c.toNat - 48) else none

/-- The value of a hexadecimal digit. -/
def hexDigit (c : UInt8) : Option Nat :=
  if 48 ≤ c ∧ c ≤ 57 then some (c.toNat - 48)
  else if 97 ≤ c ∧ c ≤ 102 then some (c.toNat - 87)
  else if 65 ≤ c ∧ c ≤ 70 then some (c.toNat - 55)
  else none

/-- A given number of hexadecimal digits, and what follows them. -/
def hexDigits : Nat → Nat → List UInt8 → Option (Nat × List UInt8)
  | 0, value, rest => some (value, rest)
  | _ + 1, _, [] => none
  | left + 1, value, c :: rest =>
    (hexDigit c).bind (fun digit => hexDigits left (16 * value + digit) rest)

/-- An octal number of at most three digits whose first digit has been read, below
256. -/
def octalEscape (first : Nat) (rest : List UInt8) : List UInt8 × List UInt8 :=
  match rest.head?.bind octalDigit with
  | none => (utf8 first, rest)
  | some second =>
    match if first ≤ 3 then (rest.drop 1).head?.bind octalDigit else none with
    | none => (utf8 (8 * first + second), rest.drop 1)
    | some third => (utf8 (64 * first + 8 * second + third), rest.drop 2)

/-- What follows a `u`: four hexadecimal digits, or a code point in braces. -/
def unicodeEscape (rest : List UInt8) : Option (List UInt8 × List UInt8) :=
  if rest.head? = some 123 then
    let digits := rest.tail.takeWhile (· ≠ 125)
    match hexDigits digits.length 0 rest.tail with
    | some (point, 125 :: after) =>
      if digits ≠ [] ∧ point ≤ 1114111 then some (utf8 point, after) else none
    | _ => none
  else (hexDigits 4 0 rest).map (fun read => (utf8 read.1, read.2))

/-- The single characters that stand for another one; every other character stands
for itself. -/
def singleEscape (c : UInt8) : UInt8 :=
  if c = 98 then 8
  else if c = 116 then 9
  else if c = 110 then 10
  else if c = 118 then 11
  else if c = 102 then 12
  else if c = 114 then 13
  else c

/-- What the text behind a backslash stands for, and what follows it. A line
terminator stands for nothing. -/
def escape : List UInt8 → Option (List UInt8 × List UInt8)
  | [] => none
  | c :: rest =>
    if c = 10 then some ([], rest)
    else if c = 13 then some ([], if rest.head? = some 10 then rest.drop 1 else rest)
    else if c = 226 ∧ (rest.take 2 = [128, 168] ∨ rest.take 2 = [128, 169]) then
      some ([], rest.drop 2)
    else if c = 120 then (hexDigits 2 0 rest).map (fun read => (utf8 read.1, read.2))
    else if c = 117 then unicodeEscape rest
    else
      match octalDigit c with
      | some first => some (octalEscape first rest)
      | none => some ([singleEscape c], rest)

/-- A literal behind its opening quote: its value, and what follows the closing
quote. Every character or escape takes one unit of fuel. -/
def literalWith : Nat → List UInt8 → Option (List UInt8 × List UInt8)
  | 0, _ => none
  | _ + 1, [] => none
  | fuel + 1, c :: rest =>
    if c = 39 then some ([], rest)
    else if c = 10 ∨ c = 13 then none
    else if c = 92 then
      (escape rest).bind (fun escaped =>
        (literalWith fuel escaped.2).map (fun read => (escaped.1 ++ read.1, read.2)))
    else (literalWith fuel rest).map (fun read => (c :: read.1, read.2))

/-- A literal behind its opening quote, with fuel for all of the text. -/
def literal (text : List UInt8) : Option (List UInt8 × List UInt8) :=
  literalWith text.length text

/-- A byte that stands for itself in a literal. -/
def Plain (c : UInt8) : Prop := c ≠ 39 ∧ c ≠ 10 ∧ c ≠ 13 ∧ c ≠ 92

/-- Plain text up to a quote is its own value. -/
theorem literalWith_plain {fuel : Nat} {body : List UInt8} (plain : ∀ c ∈ body, Plain c)
    (enough : body.length < fuel) (rest : List UInt8) :
    literalWith fuel (body ++ 39 :: rest) = some (body, rest) := by
  induction body generalizing fuel with
  | nil =>
    obtain ⟨fuel, rfl⟩ := Nat.exists_eq_add_one.mpr (Nat.zero_lt_of_lt enough)
    rfl
  | cons c more ih =>
    obtain ⟨fuel, rfl⟩ := Nat.exists_eq_add_one.mpr (Nat.zero_lt_of_lt enough)
    obtain ⟨noQuote, noFeed, noReturn, noBackslash⟩ := plain c List.mem_cons_self
    have later : literalWith fuel (more ++ 39 :: rest) = some (more, rest) :=
      ih (fun d member => plain d (List.mem_cons_of_mem c member)) (by simpa using enough)
    simp [literalWith, noQuote, noFeed, noReturn, noBackslash, later]

theorem literal_plain {body : List UInt8} (plain : ∀ c ∈ body, Plain c) (rest : List UInt8) :
    literal (body ++ 39 :: rest) = some (body, rest) := by
  apply literalWith_plain plain
  simp

/-- A text taken apart: a part that stands for no more bytes than it has, and the
rest. -/
def Shrinks (text : List UInt8) (read : List UInt8 × List UInt8) : Prop :=
  ∃ body, text = body ++ read.2 ∧ read.1.length ≤ body.length

theorem utf8_length_le (point : Nat) : (utf8 point).length ≤ 4 := by
  rw [utf8]
  split
  · simp
  · split
    · simp
    · split <;> simp

theorem utf8_length_one {point : Nat} (small : point < 128) : (utf8 point).length = 1 := by
  simp [utf8, small]

theorem utf8_length_two {point : Nat} (small : point < 2048) : (utf8 point).length ≤ 2 := by
  rw [utf8]
  split
  · simp
  · simp

theorem octalDigit_lt {c : UInt8} {digit : Nat} (read : octalDigit c = some digit) : digit < 8 := by
  rw [octalDigit] at read
  split at read
  · rename_i range
    have high : c.toNat ≤ 55 := range.2
    simp only [Option.some.injEq] at read
    omega
  · cases read

theorem hexDigit_lt {c : UInt8} {digit : Nat} (read : hexDigit c = some digit) : digit < 16 := by
  have decimal : c ≤ 57 → c.toNat ≤ 57 := id
  have lower : c ≤ 102 → c.toNat ≤ 102 := id
  have upper : c ≤ 70 → c.toNat ≤ 70 := id
  rw [hexDigit] at read
  split at read
  · have high := decimal (by tauto)
    simp only [Option.some.injEq] at read
    omega
  · split at read
    · have high := lower (by tauto)
      simp only [Option.some.injEq] at read
      omega
    · split at read
      · have high := upper (by tauto)
        simp only [Option.some.injEq] at read
        omega
      · cases read

/-- Digits read are that many bytes of the text, and their number is below that
power of sixteen. -/
theorem hexDigits_reads {left value number : Nat} {text rest : List UInt8}
    (read : hexDigits left value text = some (number, rest)) :
    ∃ body, text = body ++ rest ∧ body.length = left ∧ number < (value + 1) * 16 ^ left := by
  induction left generalizing value text with
  | zero =>
    simp only [hexDigits, Option.some.injEq, Prod.mk.injEq] at read
    obtain ⟨rfl, rfl⟩ := read
    exact ⟨[], rfl, rfl, by omega⟩
  | succ left ih =>
    cases text with
    | nil => cases read
    | cons c more =>
      obtain ⟨digit, isDigit, later⟩ := Option.bind_eq_some_iff.mp read
      obtain ⟨body, rfl, length, bound⟩ := ih later
      have small := hexDigit_lt isDigit
      have wider : (16 * value + digit + 1) * 16 ^ left ≤ (value + 1) * 16 ^ (left + 1) := by
        rw [Nat.pow_succ, Nat.mul_comm (16 ^ left), ← Nat.mul_assoc]
        exact Nat.mul_le_mul_right _ (by omega)
      exact ⟨c :: body, rfl, by rw [List.length_cons, length], by omega⟩

theorem octalEscape_shrinks {c : UInt8} {first : Nat} (digit : octalDigit c = some first)
    (rest : List UInt8) : Shrinks (c :: rest) (octalEscape first rest) := by
  have firstSmall := octalDigit_lt digit
  rw [octalEscape]
  split
  · exact ⟨[c], rfl, Nat.le_of_eq (utf8_length_one (by omega))⟩
  · rename_i second found
    obtain ⟨d, isHead, isSecond⟩ := Option.bind_eq_some_iff.mp found
    obtain ⟨more, rfl⟩ := List.head?_eq_some_iff.mp isHead
    have secondSmall := octalDigit_lt isSecond
    split
    · refine ⟨[c, d], rfl, ?_⟩
      exact Nat.le_trans (Nat.le_of_eq (utf8_length_one (by omega))) (by simp)
    · rename_i third found
      split at found
      · obtain ⟨e, isHead, isThird⟩ := Option.bind_eq_some_iff.mp found
        obtain ⟨last, same⟩ := List.head?_eq_some_iff.mp isHead
        have thirdSmall := octalDigit_lt isThird
        simp only [List.drop_one, List.tail_cons] at same
        subst same
        refine ⟨[c, d, e], rfl, ?_⟩
        exact Nat.le_trans (utf8_length_two (by omega)) (by simp)
      · cases found

theorem unicodeEscape_shrinks {rest : List UInt8} {read : List UInt8 × List UInt8}
    (escaped : unicodeEscape rest = some read) : Shrinks (117 :: rest) read := by
  rw [unicodeEscape] at escaped
  split at escaped
  · rename_i brace
    obtain ⟨more, rfl⟩ := List.head?_eq_some_iff.mp brace
    simp only [List.tail_cons] at escaped
    split at escaped
    · rename_i point after found
      obtain ⟨body, same, length, -⟩ := hexDigits_reads found
      obtain ⟨fits, made⟩ := Option.ite_none_right_eq_some.mp escaped
      cases made
      have digits := List.length_pos_iff.mpr fits.1
      have most := utf8_length_le point
      refine ⟨117 :: 123 :: body ++ [125], by simp [same], ?_⟩
      simp only [List.cons_append, List.length_cons, List.length_append, List.length_nil]
      omega
    · cases escaped
  · obtain ⟨⟨point, after⟩, found, rfl⟩ := Option.map_eq_some_iff.mp escaped
    obtain ⟨body, rfl, length, bound⟩ := hexDigits_reads found
    have most := utf8_length_le point
    exact ⟨117 :: body, rfl, by rw [List.length_cons, length]; exact Nat.le_succ_of_le most⟩

/-- What an escape stands for is not longer than the text behind its backslash. -/
theorem escape_shrinks {text : List UInt8} {read : List UInt8 × List UInt8}
    (escaped : escape text = some read) : Shrinks text read := by
  cases text with
  | nil => cases escaped
  | cons c rest =>
    rw [escape] at escaped
    split at escaped
    · cases escaped
      exact ⟨[c], rfl, Nat.zero_le _⟩
    split at escaped
    · cases escaped
      split
      · rename_i feed
        obtain ⟨more, rfl⟩ := List.head?_eq_some_iff.mp feed
        exact ⟨[c, 10], rfl, Nat.zero_le _⟩
      · exact ⟨[c], rfl, Nat.zero_le _⟩
    split at escaped
    · cases escaped
      exact ⟨c :: rest.take 2, by simp, Nat.zero_le _⟩
    split at escaped
    · obtain ⟨⟨point, after⟩, found, rfl⟩ := Option.map_eq_some_iff.mp escaped
      obtain ⟨body, rfl, length, bound⟩ := hexDigits_reads found
      have most : (utf8 point).length ≤ 2 := utf8_length_two (by omega)
      exact ⟨c :: body, rfl, by rw [List.length_cons, length]; exact Nat.le_succ_of_le most⟩
    split at escaped
    · rename_i isU
      rw [isU]
      exact unicodeEscape_shrinks escaped
    split at escaped
    · rename_i first digit
      cases escaped
      exact octalEscape_shrinks digit rest
    · cases escaped
      exact ⟨[c], rfl, Nat.le_refl _⟩

/-- The value of a literal is not longer than the text between its quotes, and shorter when there
is a backslash in it. By induction on the fuel: a plain byte stands for itself, and an escape for
fewer bytes than it has. -/
theorem literalWith_shrinks {fuel : Nat} {text value rest : List UInt8}
    (read : literalWith fuel text = some (value, rest)) :
    ∃ body, text = body ++ 39 :: rest ∧ value.length ≤ body.length ∧
      (92 ∈ body → value.length < body.length) := by
  induction fuel generalizing text value rest with
  | zero => cases read
  | succ fuel ih =>
    cases text with
    | nil => cases read
    | cons c more =>
      rw [literalWith] at read
      split at read
      · rename_i quote
        cases read
        exact ⟨[], by rw [quote]; rfl, Nat.le_refl _, by simp⟩
      split at read
      · cases read
      split at read
      · rename_i backslash
        obtain ⟨⟨short, after⟩, escaped, later⟩ := Option.bind_eq_some_iff.mp read
        obtain ⟨⟨tail, following⟩, found, same⟩ := Option.map_eq_some_iff.mp later
        obtain ⟨taken, rfl, shorter⟩ := escape_shrinks escaped
        cases same
        obtain ⟨body, rfl, fewer, -⟩ := ih found
        have less : (short ++ tail).length < (c :: (taken ++ body)).length := by
          simp only [List.length_append, List.length_cons] at shorter ⊢
          omega
        exact ⟨c :: (taken ++ body), by simp, Nat.le_of_lt less, fun _ => less⟩
      · rename_i noBackslash
        obtain ⟨⟨tail, following⟩, found, same⟩ := Option.map_eq_some_iff.mp read
        cases same
        obtain ⟨body, rfl, fewer, less⟩ := ih found
        refine ⟨c :: body, rfl, by simpa using fewer, ?_⟩
        intro member
        have inBody : 92 ∈ body := by
          rcases List.mem_cons.mp member with here | there
          · exact absurd here.symm noBackslash
          · exact there
        simpa using less inBody

/-- A text in front of a closing quote is the value of its literal only if it has no
backslash. -/
theorem no_backslash_of_literal {body rest : List UInt8}
    (read : literal (body ++ 39 :: rest) = some (body, rest)) : 92 ∉ body := by
  obtain ⟨between, same, -, less⟩ := literalWith_shrinks read
  obtain rfl : body = between := List.append_cancel_right same
  intro member
  exact absurd (less member) (Nat.lt_irrefl _)

end NetProg.ScriptLiterals
