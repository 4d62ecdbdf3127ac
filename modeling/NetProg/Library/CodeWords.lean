import Mathlib.Data.List.Basic
import Mathlib.Data.List.Infix

/-!
# Tables of code words

A table of words, each standing for a character, and the decoder that replaces them in
one pass from left to right. An encoder that writes words of the table for some
characters, drops some, and leaves the others as they are is undone by that pass when
no word starts another and no character that is left alone starts a word.
-/

namespace NetProg.CodeWords

variable {α : Type} [DecidableEq α]

/-- Code words with the characters they stand for. -/
abbrev Table (α : Type) := List (List α × α)

/-- The first entry whose word starts a text. -/
def entryAt (table : Table α) (text : List α) : Option (List α × α) :=
  table.find? (fun entry => entry.1.isPrefixOf text)

/-- The pass, with the number of characters to skip that belong to a word already
replaced. -/
def decodeFrom (table : Table α) : Nat → List α → List α
  | _, [] => []
  | skip + 1, _ :: rest => decodeFrom table skip rest
  | 0, c :: rest =>
    match entryAt table (c :: rest) with
    | some (word, value) => value :: decodeFrom table (word.length - 1) rest
    | none => c :: decodeFrom table 0 rest

/-- Every code word of a text replaced, in a single pass from left to right. -/
def decode (table : Table α) (text : List α) : List α := decodeFrom table 0 text

/-- An encoder of single characters that goes with a table. -/
structure Encodes (table : Table α) (code : α → List α) : Prop where
  /-- A character is dropped, left as it is, or written as its word. -/
  cases (c : α) : code c = [] ∨ code c = [c] ∨ (code c, c) ∈ table
  /-- A character that is left as it is starts no word. -/
  plain (c : α) : code c = [c] → ∀ entry ∈ table, entry.1.head? ≠ some c
  nonempty : ∀ entry ∈ table, entry.1 ≠ []
  /-- No word starts another. -/
  prefixFree : ∀ entry ∈ table, ∀ other ∈ table, entry.1 <+: other.1 → entry = other

theorem decodeFrom_skip (table : Table α) (skipped rest : List α) :
    decodeFrom table skipped.length (skipped ++ rest) = decode table rest := by
  induction skipped with
  | nil => rfl
  | cons c skipped ih => exact ih

theorem decode_none {table : Table α} {c : α} {rest : List α}
    (noWord : entryAt table (c :: rest) = none) :
    decode table (c :: rest) = c :: decode table rest := by
  rw [decode, decodeFrom, noWord]
  rfl

theorem decode_some {table : Table α} {word rest : List α} {value : α} (nonempty : word ≠ [])
    (found : entryAt table (word ++ rest) = some (word, value)) :
    decode table (word ++ rest) = value :: decode table rest := by
  cases word with
  | nil => exact absurd rfl nonempty
  | cons c word =>
    rw [List.cons_append] at found ⊢
    rw [decode, decodeFrom, found]
    exact congrArg (value :: ·) (decodeFrom_skip table word rest)

section
variable {table : Table α} {code : α → List α}

/-- The entry found where a word stands is the entry of that word: any other word found
there would start it, or it would start the other. -/
theorem Encodes.entryAt_word (encodes : Encodes table code) {entry : List α × α}
    (member : entry ∈ table) (rest : List α) : entryAt table (entry.1 ++ rest) = some entry := by
  cases found : entryAt table (entry.1 ++ rest) with
  | none =>
    have absent := List.find?_eq_none.mp found entry member
    simp at absent
  | some other =>
    have otherMember : other ∈ table := List.mem_of_find?_eq_some found
    have starts : other.1 <+: entry.1 ++ rest := by
      simpa using List.find?_some found
    have comparable := List.prefix_or_prefix_of_prefix starts (List.prefix_append entry.1 rest)
    rcases comparable with before | after
    · rw [encodes.prefixFree other otherMember entry member before]
    · rw [encodes.prefixFree entry member other otherMember after]

theorem Encodes.entryAt_plain (encodes : Encodes table code) {c : α} (alone : code c = [c])
    (rest : List α) : entryAt table (c :: rest) = none := by
  apply List.find?_eq_none.mpr
  intro entry member starts
  have noHead := encodes.plain c alone entry member
  obtain ⟨first, word, split⟩ := List.exists_cons_of_ne_nil (encodes.nonempty entry member)
  rw [split] at starts noHead
  simp at starts
  exact noHead (congrArg some starts.1)

/-- What one character contributes. -/
theorem Encodes.decode_code (encodes : Encodes table code) (c : α) (rest : List α) :
    decode table (code c ++ rest) = (if code c = [] then [] else [c]) ++ decode table rest := by
  rcases encodes.cases c with dropped | alone | written
  · rw [dropped]
    rfl
  · rw [alone, if_neg (List.cons_ne_nil c []), List.singleton_append, List.singleton_append]
    exact decode_none (encodes.entryAt_plain alone rest)
  · have nonempty : code c ≠ [] := encodes.nonempty _ written
    rw [if_neg nonempty, List.singleton_append]
    exact decode_some nonempty (encodes.entryAt_word written rest)

/-- The pass gives back a text less the characters that its encoder drops. -/
theorem Encodes.decode_encode (encodes : Encodes table code) (text : List α) :
    decode table (text.flatMap code) = text.filter (fun c => code c ≠ []) := by
  induction text with
  | nil => rfl
  | cons c text ih =>
    rw [List.flatMap_cons, encodes.decode_code, ih]
    by_cases dropped : code c = []
    · simp [dropped]
    · simp [dropped]

omit [DecidableEq α] in
/-- Where a character that is never left as it is and stands in no word behind its first
place occurs in an encoded text, a word starts. -/
theorem Encodes.marker_starts (encodes : Encodes table code) {marker : α}
    (inner : ∀ entry ∈ table, marker ∉ entry.1.tail) (escaped : code marker ≠ [marker])
    {text : List α} :
    ∀ before rest : List α, text.flatMap code = before ++ marker :: rest →
      ∃ entry ∈ table, entry.1 <+: marker :: rest := by
  induction text with
  | nil => simp
  | cons c text ih =>
    intro before rest split
    rw [List.flatMap_cons, List.append_eq_append_iff] at split
    rcases split with ⟨later, -, inText⟩ | ⟨part, whole, more⟩
    · exact ih later rest inText
    · cases part with
      | nil => exact ih [] rest more.symm
      | cons first part =>
        obtain ⟨rfl, same⟩ := List.cons_eq_cons.mp more
        have inside : marker ∈ code c := by simp [whole]
        -- the marker is in no character that is left alone, so it is in a word
        rcases encodes.cases c with dropped | alone | written
        · simp [dropped] at inside
        · rw [alone, List.mem_singleton] at inside
          exact absurd (inside ▸ alone) escaped
        · -- and there it is the first character
          cases before with
          | nil =>
            refine ⟨(code c, c), written, text.flatMap code, ?_⟩
            rw [whole, same]
            rfl
          | cons d before =>
            have late := inner (code c, c) written
            rw [whole] at late
            simp at late

end

end NetProg.CodeWords
