import NetProg.Socks.Firewall

/-!
# Address patterns

`read_info` keeps a star as the number 0 and lets 0 pass against every octet. A literal
0 becomes the same number. So a pattern is decided as it is written, unless the only
parts of it that do not match are literal zeros.
-/

namespace NetProg.Socks

open Outcomes

/-- A pattern of four parts. -/
structure Pattern where
  parts : Vector Part 4
  wellFormed : ∀ part ∈ parts.toList, part.WellFormed

/-- The pattern as it is written. -/
def Pattern.text (pattern : Pattern) : Str := [46].intercalate (pattern.parts.toList.map Part.text)

/-- What the matching code makes of an address word and a message: the parse into
`addr_pass` and the four comparisons. -/
def accepts (addr message : Str) : Except Fault Bool := do
  let pass ← addrPass addr
  return admits pass message

namespace Part

/-- A literal other than 0 and other than the octet: the code refuses the octet. -/
def Refuses (part : Part) (octet : UInt8) : Prop := part.value ≠ 0 ∧ part.value ≠ octet.toNat

/-- A literal 0 at an octet other than 0: the code takes it for a star. -/
def TakenForStar (part : Part) (octet : UInt8) : Prop := part ≠ any ∧ part.value = 0 ∧ octet ≠ 0

theorem not_admits_iff {part : Part} {octet : UInt8} :
    ¬ part.Admits octet ↔ part.Refuses octet := by
  simp only [Admits, Refuses, not_or, ne_eq]

/-- What the code lets through without a match is a literal 0 taken for a star. -/
theorem Admits.matches_iff {part : Part} {octet : UInt8} (passes : part.Admits octet) :
    part.Matches octet ↔ ¬ part.TakenForStar octet := by
  constructor
  · rintro (isStar | same) ⟨literal, zero, other⟩
    · exact literal isStar
    · apply other
      apply UInt8.toNat_inj.mp
      rw [← same, zero]
      rfl
  · intro plain
    by_cases isStar : part = any
    · exact Or.inl isStar
    · right
      rcases passes with zero | same
      · have isZero : octet = 0 := by
          apply Classical.byContradiction
          intro other
          exact plain ⟨isStar, zero, other⟩
        rw [zero, isZero]
        rfl
      · exact same

end Part

theorem forall₂_toList_iff {α β : Type} {n : Nat} (related : α → β → Prop) (xs : Vector α n)
    (ys : Vector β n) :
    List.Forall₂ related xs.toList ys.toList ↔ ∀ i : Fin n, related xs[i] ys[i] := by
  rw [List.forall₂_iff_get]
  constructor
  · rintro ⟨-, each⟩ i
    exact each i (by simp) (by simp)
  · intro each
    refine ⟨by simp, fun i inside _ => ?_⟩
    exact each ⟨i, by simpa using inside⟩

/-- The matching code accepts an address when every part lets its octet through: the text of the
pattern is split into its parts again, and each compared by its number. -/
theorem accepts_iff (pattern : Pattern) (header address : Vector UInt8 4) (rest : Str) :
    accepts pattern.text (header.toList ++ address.toList ++ rest) = .ok true ↔
      ∀ i : Fin 4, pattern.parts[i].Admits address[i] := by
  -- the pattern as the address of a line, whose other words play no role here
  let line : Line := ⟨[], [], pattern.parts.toList⟩
  have wellFormed : line.WellFormed := ⟨List.not_mem_nil, by simp [line], pattern.wellFormed⟩
  have octets : ((header.toList ++ address.toList ++ rest).drop 4).take 4 = address.toList := by
    rw [List.append_assoc, List.drop_left' (by simp), List.take_left' (by simp)]
  have whole : 8 ≤ (header.toList ++ address.toList ++ rest).length := by
    simp only [List.length_append, Vector.length_toList]
    omega
  have parsed : addrPass pattern.text =
      .ok (pattern.parts.toList.map (fun part => octet part.text)) :=
    addrPass_address wellFormed
  have compared := admits_parts whole wellFormed
  rw [octets, forall₂_toList_iff] at compared
  rw [← compared, accepts, parsed]
  simp [line, bind, Except.bind, pure, Except.pure]

/-- The matching code accepts exactly the addresses that a pattern matches if and only if some
part of it refuses its octet, or no literal 0 of it stands at another octet.

For a part is compared by its number and a `*` is stored as 0, so that a literal 0 is taken for a
star. The four parts are decided one by one; what the code accepts are the addresses that all of
them admit. -/
theorem pattern_decided_iff (pattern : Pattern) (header address : Vector UInt8 4) (rest : Str) :
    (accepts pattern.text (header.toList ++ address.toList ++ rest) = .ok true ↔
        ∀ i : Fin 4, pattern.parts[i].Matches address[i]) ↔
      (∃ i : Fin 4, pattern.parts[i].Refuses address[i]) ∨
        ∀ i : Fin 4, ¬ pattern.parts[i].TakenForStar address[i] := by
  rw [accepts_iff]
  by_cases passes : ∀ i : Fin 4, pattern.parts[i].Admits address[i]
  · have noRefusal : ¬ ∃ i : Fin 4, pattern.parts[i].Refuses address[i] := by
      rintro ⟨i, refuses⟩
      exact Part.not_admits_iff.mpr refuses (passes i)
    have each : (∀ i : Fin 4, pattern.parts[i].Matches address[i]) ↔
        ∀ i : Fin 4, ¬ pattern.parts[i].TakenForStar address[i] :=
      forall_congr' fun i => (passes i).matches_iff
    simp only [passes, noRefusal, false_or, ← each, implies_true, true_iff]
  · obtain ⟨i, stops⟩ := not_forall.mp passes
    have noMatch : ¬ ∀ i : Fin 4, pattern.parts[i].Matches address[i] := by
      intro every
      exact stops (every i).admits
    have refusal : ∃ i : Fin 4, pattern.parts[i].Refuses address[i] :=
      ⟨i, Part.not_admits_iff.mp stops⟩
    simp only [passes, noMatch, refusal, true_or]

theorem networkParts_wellFormed : ∀ part ∈ [Part.literal (str "10"), .literal (str "0"),
    .literal (str "0"), .literal (str "0")], part.WellFormed := by
  have ten : (Part.literal (str "10")).WellFormed :=
    ⟨by decide, by decide +kernel, by decide +kernel⟩
  have zero : (Part.literal (str "0")).WellFormed :=
    ⟨by decide, by decide +kernel, by decide +kernel⟩
  simpa using ⟨ten, zero⟩

/-- `10.0.0.0`. -/
def networkPattern : Pattern where
  parts := #v[.literal (str "10"), .literal (str "0"), .literal (str "0"), .literal (str "0")]
  wellFormed := networkParts_wellFormed

/-- It accepts the address 10.1.2.3, which it does not match. -/
theorem literal_zero_accepts_every_octet :
    accepts networkPattern.text ([4, 1, 0, 80] ++ [10, 1, 2, 3] ++ []) = .ok true ∧
      ¬ ∀ i : Fin 4, networkPattern.parts[i].Matches (#v[10, 1, 2, 3] : Vector UInt8 4)[i] := by
  constructor
  · decide +kernel
  · intro every
    rcases every 1 with isStar | same
    · cases isStar
    · exact absurd same (by decide)

end NetProg.Socks
