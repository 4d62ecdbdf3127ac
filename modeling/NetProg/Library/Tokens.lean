import Mathlib.Data.List.Basic

/-!
# Splitting a text at compressed separators

A run of separators counts as one. A separator at the start or at the end of a text has
an empty token on its outer side, and a text without separators is a single token, also
when it is empty. So there is one token more than there are runs of separators.
-/

namespace NetProg.Tokens

variable {α : Type} {isSeparator : α → Bool}

/-- The tokens of what is left of a text; in a run of separators the token before it has
been ended already. -/
def splitFrom (isSeparator : α → Bool) : Bool → List α → List (List α)
  | _, [] => [[]]
  | inRun, c :: rest =>
    if isSeparator c then
      if inRun then splitFrom isSeparator true rest else [] :: splitFrom isSeparator true rest
    else (splitFrom isSeparator false rest).modifyHead (c :: ·)

/-- The tokens of a text, runs of separators compressed. -/
def split (isSeparator : α → Bool) (text : List α) : List (List α) :=
  splitFrom isSeparator false text

/-- The number of runs of separators that start in what is left of a text. -/
def runsFrom (isSeparator : α → Bool) : Bool → List α → Nat
  | _, [] => 0
  | inRun, c :: rest =>
    if isSeparator c then (if inRun then 0 else 1) + runsFrom isSeparator true rest
    else runsFrom isSeparator false rest

/-- The number of runs of separators in a text: the separators that do not stand directly
behind another one. -/
def runs (isSeparator : α → Bool) (text : List α) : Nat := runsFrom isSeparator false text

theorem splitFrom_length (inRun : Bool) (text : List α) :
    (splitFrom isSeparator inRun text).length = 1 + runsFrom isSeparator inRun text := by
  induction text generalizing inRun with
  | nil => rfl
  | cons c rest ih =>
    by_cases separator : isSeparator c
    · cases inRun with
      | true => simp [splitFrom, runsFrom, separator, ih]
      | false =>
        simp only [splitFrom, runsFrom, separator, if_true, Bool.false_eq_true, if_false,
          List.length_cons, ih]
        omega
    · simp [splitFrom, runsFrom, separator, ih]

/-- There is one token more than there are runs of separators. -/
theorem split_length (text : List α) :
    (split isSeparator text).length = 1 + runs isSeparator text :=
  splitFrom_length false text

/-- A token in front ends up in front of the first token. -/
theorem split_append {token : List α} (solid : ∀ c ∈ token, isSeparator c = false)
    (rest : List α) :
    split isSeparator (token ++ rest) = (split isSeparator rest).modifyHead (token ++ ·) := by
  induction token with
  | nil =>
    rw [List.nil_append]
    cases split isSeparator rest <;> rfl
  | cons c token ih =>
    have plain : isSeparator c = false := solid c List.mem_cons_self
    have before := ih (fun d member => solid d (List.mem_cons_of_mem c member))
    rw [split] at before
    rw [List.cons_append, split, splitFrom, if_neg (by simp [plain]), before]
    cases split isSeparator rest <;> rfl

/-- A text without separators is one token. -/
theorem split_solid {token : List α} (solid : ∀ c ∈ token, isSeparator c = false) :
    split isSeparator token = [token] := by
  have whole := split_append solid []
  rw [List.append_nil] at whole
  rw [whole, split, splitFrom, List.modifyHead, List.append_nil]

/-- A separator that no other one follows ends the token before it. -/
theorem split_cons {token rest : List α} {separator : α}
    (solid : ∀ c ∈ token, isSeparator c = false) (separates : isSeparator separator = true)
    (alone : ∀ c ∈ rest.head?, isSeparator c = false) :
    split isSeparator (token ++ separator :: rest) = token :: split isSeparator rest := by
  have behind : splitFrom isSeparator true rest = split isSeparator rest := by
    cases rest with
    | nil => rfl
    | cons c rest =>
      have plain : isSeparator c = false := alone c rfl
      rw [split, splitFrom, splitFrom, if_neg (by simp [plain]), if_neg (by simp [plain])]
  rw [split_append solid, split, splitFrom, if_pos separates, if_neg Bool.false_ne_true, behind,
    List.modifyHead, List.append_nil]

/-- In a run of separators the rest of it is passed over. -/
theorem splitFrom_true (text : List α) :
    splitFrom isSeparator true text = split isSeparator (text.dropWhile isSeparator) := by
  induction text with
  | nil => rfl
  | cons c rest ih =>
    by_cases separates : isSeparator c
    · rw [splitFrom, if_pos separates, if_pos rfl, ih, List.dropWhile_cons_of_pos separates]
    · rw [List.dropWhile_cons_of_neg separates, split, splitFrom, splitFrom, if_neg separates,
        if_neg separates]

/-- A text up to its first run of separators, and what is left behind the run. -/
theorem split_eq (text : List α) : split isSeparator text =
    text.takeWhile (! isSeparator ·) ::
      match text.dropWhile (! isSeparator ·) with
      | [] => []
      | _ :: rest => split isSeparator (rest.dropWhile isSeparator) := by
  induction text with
  | nil => rfl
  | cons c rest ih =>
    by_cases separates : isSeparator c
    · rw [split, splitFrom, if_pos separates, if_neg Bool.false_ne_true, splitFrom_true,
        List.takeWhile_cons_of_neg (by simpa using separates),
        List.dropWhile_cons_of_neg (by simpa using separates)]
    · rw [split] at ih
      rw [split, splitFrom, if_neg separates, ih, List.modifyHead,
        List.takeWhile_cons_of_pos (by simpa using separates),
        List.dropWhile_cons_of_pos (by simpa using separates)]

/-- The first token is what stands in front of the first separator. -/
theorem split_head? (text : List α) :
    (split isSeparator text).head? = some (text.takeWhile (! isSeparator ·)) := by
  rw [split_eq, List.head?_cons]

/-- Tokens that are not empty and have no separator in them are split again where they
were put together. -/
theorem split_intercalate {separator : α} (separates : isSeparator separator = true)
    {tokens : List (List α)} (some : tokens ≠ [])
    (nonempty : ∀ token ∈ tokens, token ≠ [])
    (solid : ∀ token ∈ tokens, ∀ c ∈ token, isSeparator c = false) :
    split isSeparator ([separator].intercalate tokens) = tokens := by
  induction tokens with
  | nil => exact absurd rfl some
  | cons token tokens ih =>
    have here := solid token List.mem_cons_self
    cases tokens with
    | nil =>
      rw [List.intercalate_singleton]
      exact split_solid here
    | cons next tokens =>
      have later := ih (List.cons_ne_nil next tokens)
        (fun other member => nonempty other (List.mem_cons_of_mem token member))
        (fun other member => solid other (List.mem_cons_of_mem token member))
      have nextMember : next ∈ token :: next :: tokens :=
        List.mem_cons_of_mem token List.mem_cons_self
      -- the next token starts with a character, which is no separator
      have alone : ∀ c ∈ ([separator].intercalate (next :: tokens)).head?,
          isSeparator c = false := by
        obtain ⟨first, more, rfl⟩ := List.exists_cons_of_ne_nil (nonempty next nextMember)
        have plain := solid _ nextMember first List.mem_cons_self
        cases tokens <;> simp [plain]
      rw [List.intercalate_cons_cons, List.append_assoc, List.singleton_append,
        split_cons here separates alone, later]

end NetProg.Tokens
