import NetProg.Console.Output
import NetProg.Library.CodeWords

/-!
# The entities of the page

`encode` writes six characters as the entities that name them and drops carriage
returns. Reading the entities back, in one pass, gives the text without its carriage
returns: what already looks like an entity in a text is encoded once and read back once.
-/

namespace NetProg.Console

open CodeWords

/-- The entities that `encode` writes, with the characters they name. -/
def entities : Table UInt8 :=
  [(str "&amp;", 38), (str "&quot;", 34), (str "&apos;", 39), (str "&lt;", 60), (str "&gt;", 62),
    (str "&NewLine;", 10)]

/-- A character is dropped, written as its entity, or left as it is; in the last case it
is not the ampersand. -/
theorem encodeChar_cases (c : UInt8) :
    (c = 13 ∧ encodeChar c = []) ∨ (encodeChar c, c) ∈ entities ∨
      (encodeChar c = [c] ∧ c ∉ [38, 34, 39, 60, 62, 10, 13]) := by
  rw [encodeChar.eq_def]
  split
  case h_7 => exact Or.inl ⟨rfl, rfl⟩
  case h_8 =>
    right
    right
    simp_all
  all_goals
    right
    left
    decide +kernel

/-- `encode` is the encoder of the table of entities. -/
theorem encodes_entities : Encodes entities encodeChar where
  cases := by
    intro c
    rcases encodeChar_cases c with ⟨-, dropped⟩ | written | ⟨alone, -⟩
    · exact Or.inl dropped
    · exact Or.inr (Or.inr written)
    · exact Or.inr (Or.inl alone)
  plain := by
    have heads : ∀ entry ∈ entities, entry.1.head? = some 38 := by decide +kernel
    intro c alone entry member isHead
    rw [heads entry member] at isHead
    cases isHead
    exact absurd alone (by decide +kernel)
  nonempty := by decide +kernel
  prefixFree := by decide +kernel

theorem encodeChar_eq_nil_iff (c : UInt8) : encodeChar c = [] ↔ c = 13 := by
  constructor
  · intro dropped
    rcases encodeChar_cases c with ⟨isReturn, -⟩ | written | ⟨alone, -⟩
    · exact isReturn
    · exact absurd dropped (encodes_entities.nonempty _ written)
    · rw [alone] at dropped
      cases dropped
  · rintro rfl
    rfl

/-- What the pass reads of an encoded text is the text without its carriage returns. -/
theorem decode_encode (s : Str) : decode entities (encode s) = s.filter (· ≠ 13) := by
  rw [encode, encodes_entities.decode_encode]
  simp only [ne_eq, encodeChar_eq_nil_iff]

/-- No quote, no character of a tag and no line end is left in an encoded text. -/
theorem encode_clear (s : Str) : ∀ c ∈ encode s, c ∉ [34, 39, 60, 62, 10, 13] := by
  have inEntity : ∀ entry ∈ entities, ∀ c ∈ entry.1, c ∉ [34, 39, 60, 62, 10, 13] := by
    decide +kernel
  intro c member
  obtain ⟨source, -, encoded⟩ := List.mem_flatMap.mp member
  rcases encodeChar_cases source with ⟨-, dropped⟩ | written | ⟨alone, other⟩
  · rw [dropped] at encoded
    cases encoded
  · exact inEntity _ written c encoded
  · rw [alone, List.mem_singleton] at encoded
    subst encoded
    intro special
    exact other (List.mem_cons_of_mem _ (by simp_all))

/-- An ampersand of an encoded text starts an entity. -/
theorem encode_ampersand {s before rest : Str} (split : encode s = before ++ 38 :: rest) :
    ∃ entity ∈ entities, entity.1 <+: 38 :: rest :=
  encodes_entities.marker_starts (by decide +kernel) (by decide +kernel) before rest split

/-- Encoding loses nothing but the carriage returns. -/
theorem encode_inj {s t : Str} (noReturn : 13 ∉ s) (noReturn' : 13 ∉ t)
    (same : encode s = encode t) : s = t := by
  have whole {u : Str} (clear : 13 ∉ u) : decode entities (encode u) = u := by
    rw [decode_encode]
    apply List.filter_eq_self.mpr
    intro c member
    simpa using fun isReturn : c = 13 => clear (isReturn ▸ member)
  calc s = decode entities (encode s) := (whole noReturn).symm
    _ = decode entities (encode t) := by rw [same]
    _ = t := whole noReturn'

/-- What the consoles make of a text is read back without its carriage returns, has no character
that means something to the page but the ampersands of its entities, and belongs to one text
without carriage returns only.

The last part is a consequence of the first; the others go through the text character by
character, as `encode` does. -/
theorem encode_round_trip (s : Str) :
    decode entities (encode s) = s.filter (· ≠ 13) ∧
      (∀ c ∈ encode s, c ∉ [34, 39, 60, 62, 10, 13]) ∧
      (∀ before rest, encode s = before ++ 38 :: rest →
        ∃ entity ∈ entities, entity.1 <+: 38 :: rest) ∧
      (13 ∉ s → ∀ t, 13 ∉ t → encode s = encode t → s = t) := by
  constructor
  · exact decode_encode s
  constructor
  · exact encode_clear s
  constructor
  · intro before rest split
    exact encode_ampersand split
  · intro noReturn t noReturn' same
    exact encode_inj noReturn noReturn' same

/-- A text that looks like an entity stays the text it is. -/
example : encode (str "&lt;") = str "&amp;lt;" ∧
    decode entities (encode (str "&lt;")) = str "&lt;" := by
  decide +kernel

end NetProg.Console
