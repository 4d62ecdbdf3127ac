import NetProg.Environment

/-!
# What `Split` returns

`find` gives the first occurrence, so the piece in front of it has no delimiter in
it, and the search goes on behind it. The pieces found so far, each with a delimiter
behind it, and what is left make up the string at the head of every round.

For a delimiter of one character there is only one way to cut a string like this.
So the search path is what stands between the colons of the value, empty parts
included.
-/

namespace NetProg

open Loops Outcomes

/-- In front of the first occurrence there is none. -/
theorem findFirst_some {delimiter text : Str} {k : Nat} (nonempty : delimiter ≠ [])
    (found : findFirst delimiter text = some k) :
    text.take k ++ delimiter ++ text.drop (k + delimiter.length) = text ∧
      ¬ delimiter <:+: text.take k := by
  induction text generalizing k with
  | nil => simp [findFirst, nonempty] at found
  | cons c rest ih =>
    by_cases here : delimiter.isPrefixOf (c :: rest) = true
    · have same : 0 = k := by simpa [findFirst, here] using found
      subst same
      obtain ⟨behind, whole⟩ := List.isPrefixOf_iff_prefix.mp here
      rw [← whole]
      simp [nonempty]
    · have later : ∃ a, findFirst delimiter rest = some a ∧ a + 1 = k := by
        simpa [findFirst, here] using found
      obtain ⟨a, inRest, rfl⟩ := later
      obtain ⟨whole, absent⟩ := ih inRest
      constructor
      · rw [Nat.add_right_comm, List.take_succ_cons, List.drop_succ_cons, List.cons_append,
          List.cons_append, whole]
      · rw [List.take_succ_cons, List.infix_cons_iff]
        rintro (front | inside)
        · apply here
          have longer : c :: rest.take a <+: c :: rest :=
            List.cons_prefix_cons.mpr ⟨rfl, List.take_prefix a rest⟩
          exact List.isPrefixOf_iff_prefix.mpr (front.trans longer)
        · exact absent inside

/-- Where nothing is found there is no occurrence. -/
theorem findFirst_none {delimiter text : Str} (nonempty : delimiter ≠ [])
    (missing : findFirst delimiter text = none) : ¬ delimiter <:+: text := by
  induction text with
  | nil => simpa using nonempty
  | cons c rest ih =>
    by_cases here : delimiter.isPrefixOf (c :: rest) = true
    · simp [findFirst, here] at missing
    · have notInRest : findFirst delimiter rest = none := by
        simpa [findFirst, here] using missing
      rw [List.infix_cons_iff]
      rintro (front | inside)
      · exact here (List.isPrefixOf_iff_prefix.mpr front)
      · exact ih notInRest inside

/-- Pieces with a delimiter behind each, and a last one. -/
theorem intercalate_concat (delimiter : Str) (pieces : List Str) (last : Str) :
    delimiter.intercalate (pieces ++ [last]) = pieces.flatMap (· ++ delimiter) ++ last := by
  induction pieces with
  | nil => simp
  | cons piece pieces ih =>
    rw [List.cons_append, List.intercalate_cons_of_ne_nil (by simp), ih]
    simp

/-- Pieces, at least one, that are free of the delimiter and make up a string when they are joined
by it. It does not say how they were found; for one character they are unique. -/
structure CutAt (s delimiter : Str) (pieces : List Str) : Prop where
  some_ : pieces ≠ []
  joined : delimiter.intercalate pieces = s
  free : ∀ piece ∈ pieces, ¬ delimiter <:+: piece

/-- At the head of every round: the pieces so far and what is left of the string make it up, and
the pieces are free of the delimiter. The invariant of the loop. -/
structure CutSoFar (s delimiter : Str) (state : Nat × List Str) : Prop where
  joined : state.2.flatMap (· ++ delimiter) ++ s.drop state.1 = s
  free : ∀ piece ∈ state.2, ¬ delimiter <:+: piece

section Cut

variable {s delimiter : Str} {state : Nat × List Str}

/-- A piece more, and the delimiter behind it. -/
theorem CutSoFar.again (cut : CutSoFar s delimiter state) (nonempty : delimiter ≠ []) {posEnd : Nat}
    (found : find s delimiter state.1 = some posEnd) :
    CutSoFar s delimiter (posEnd + delimiter.length,
      state.2 ++ [(s.drop state.1).take (posEnd - state.1)]) := by
  obtain ⟨a, inRest, rfl⟩ := Option.map_eq_some_iff.mp found
  obtain ⟨whole, absent⟩ := findFirst_some nonempty inRest
  rw [Nat.add_sub_cancel]
  constructor
  · have left : s.drop (a + state.1 + delimiter.length) =
        (s.drop state.1).drop (a + delimiter.length) := by
      rw [List.drop_drop]
      congr 1
      omega
    rw [left, List.flatMap_append, List.flatMap_singleton, List.append_assoc, whole]
    exact cut.joined
  · exact List.forall_mem_append.mpr ⟨cut.free, List.forall_mem_singleton.mpr absent⟩

/-- The last piece. -/
theorem CutSoFar.leave (cut : CutSoFar s delimiter state) (nonempty : delimiter ≠ [])
    (missing : find s delimiter state.1 = none) :
    CutAt s delimiter (state.2 ++ [s.drop state.1]) := by
  have absent := findFirst_none nonempty (Option.map_eq_none_iff.mp missing)
  constructor
  · simp
  · rw [intercalate_concat]
    exact cut.joined
  · exact List.forall_mem_append.mpr ⟨cut.free, List.forall_mem_singleton.mpr absent⟩

/-- `Split` cuts its string at the delimiter. -/
theorem split_cutAt (s : Str) {delimiter : Str} (nonempty : delimiter ≠ []) :
    CutAt s delimiter (split s delimiter nonempty) := by
  have ends : Ends ((splitLoop s delimiter nonempty).run (0, [])) (CutAt s delimiter)
      (fun _ => False) := by
    apply (splitLoop s delimiter nonempty).run_ends (CutSoFar s delimiter) (fun _ => True)
    · intro state cut _
      rw [splitLoop]
      dsimp only
      split
      · rename_i posEnd found
        exact cut.again nonempty found
      · rename_i missing
        exact cut.leave nonempty missing
    · constructor
      · rfl
      · intro piece member
        cases member
    · intro _ _
      trivial
  rw [split]
  split
  · rename_i pieces returned
    exact ends.returned returned

end Cut

/-- One character is in a piece or not. -/
theorem singleton_infix_iff {c : UInt8} {piece : Str} : [c] <:+: piece ↔ c ∈ piece := by
  constructor
  · intro inside
    exact inside.subset List.mem_cons_self
  · intro member
    obtain ⟨before, after, rfl⟩ := List.append_of_mem member
    exact ⟨before, after, by simp⟩

/-- There is one way to cut a string at a character. -/
theorem CutAt.unique {s : Str} {c : UInt8} {pieces components : List Str}
    (cut : CutAt s [c] pieces) (other : CutAt s [c] components) : components = pieces := by
  have known {parts : List Str} (cut : CutAt s [c] parts) : s.splitOn c = parts := by
    rw [← cut.joined]
    apply List.splitOn_intercalate c _ cut.some_
    intro piece member inside
    exact cut.free piece member (singleton_infix_iff.mpr inside)
  rw [← known cut, ← known other]

/-- For every string and delimiter the loop of `Split` returns pieces that are free of the
delimiter and make up the string, and setting `PATH` leaves the one list of components that are
free of colons and make up the value.

The loop ends because what is left of the string becomes shorter each time. Its pieces are the
only ones that there can be, which is what makes the search path a function of the value. -/
theorem split_cuts (s : Str) {delimiter : Str} (nonempty : delimiter ≠ []) (e : Environment) :
    (splitLoop s delimiter nonempty).run (0, []) = .ok (split s delimiter nonempty) ∧
      CutAt s delimiter (split s delimiter nonempty) ∧
      CutAt s (str ":") (e.setEnv (str "PATH") s).pathVector ∧
      ∀ components, CutAt s (str ":") components →
        components = (e.setEnv (str "PATH") s).pathVector := by
  have path : (e.setEnv (str "PATH") s).pathVector = split s (str ":") (by decide) := by
    rw [Environment.setEnv, if_pos rfl]
  have cut : CutAt s (str ":") (split s (str ":") (by decide)) := split_cutAt s _
  refine ⟨?_, split_cutAt s nonempty, ?_, ?_⟩
  · rw [split]
    split
    · assumption
  · rw [path]
    exact cut
  · intro components other
    rw [path]
    exact CutAt.unique cut other

/-- Delimiters that overlap are found from the left. -/
theorem split_cuts_overlapping : split (str "xaaay") (str "aa") (by decide) = [str "x", str "ay"] ∧
    CutAt (str "xaaay") (str "aa") [str "x", str "ay"] := by
  have pieces : split (str "xaaay") (str "aa") (by decide) = [str "x", str "ay"] := by
    decide +kernel
  have cut := (split_cuts (str "xaaay") (by decide : str "aa" ≠ []) ⟨[], []⟩).2.1
  rw [pieces] at cut
  exact ⟨pieces, cut⟩

end NetProg
