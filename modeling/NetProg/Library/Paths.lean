import Mathlib.Data.List.Basic

/-!
# Paths by their segments

A path is walked from a directory segment by segment: down to a name, up, or nowhere.
The root is its own parent. Where a walk ends can be told from its segments without
walking: it ends at the last name that the segments behind it do not undo, in the
directory the segments in front of it lead to.
-/

namespace NetProg.Paths

variable {α : Type}

/-- One segment of a path. -/
inductive Segment (α : Type) where
  | stay
  | up
  | down (name : α)
  deriving DecidableEq

/-- One step from a directory, given by the names on the way to it. -/
def step (dir : List α) : Segment α → List α
  | .stay => dir
  | .up => dir.dropLast
  | .down name => dir ++ [name]

/-- Where the segments lead from a directory. -/
def walk (dir : List α) (segments : List (Segment α)) : List α := segments.foldl step dir

/-- How far below its start a walk is behind the segments, if it never goes above it. -/
def rise : Nat → List (Segment α) → Option Nat
  | depth, [] => some depth
  | depth, .stay :: rest => rise depth rest
  | 0, .up :: _ => none
  | depth + 1, .up :: rest => rise depth rest
  | depth, .down _ :: rest => rise (depth + 1) rest

/-- Every name is undone by a later segment, and nothing else is. -/
def TakenBack (segments : List (Segment α)) : Prop := rise 0 segments = some 0

instance (segments : List (Segment α)) : Decidable (TakenBack segments) :=
  inferInstanceAs (Decidable (_ = _))

theorem walk_append (dir : List α) (first second : List (Segment α)) :
    walk dir (first ++ second) = walk (walk dir first) second :=
  List.foldl_append

theorem walk_cons (dir : List α) (segment : Segment α) (rest : List (Segment α)) :
    walk dir (segment :: rest) = walk (step dir segment) rest := rfl

theorem rise_append (depth : Nat) (first second : List (Segment α)) :
    rise depth (first ++ second) = (rise depth first).bind (rise · second) := by
  induction first generalizing depth with
  | nil => rfl
  | cons segment rest ih =>
    cases segment with
    | stay | down name => exact ih _
    | up =>
      cases depth with
      | zero => rfl
      | succ depth => exact ih depth

/-- Further below, the same segments lead as far. -/
theorem rise_add {depth final : Nat} {segments : List (Segment α)}
    (rises : rise depth segments = some final) (more : Nat) :
    rise (depth + more) segments = some (final + more) := by
  induction segments generalizing depth with
  | nil => exact congrArg (fun n => some (n + more)) (Option.some.inj rises)
  | cons segment rest ih =>
    cases segment with
    | stay => exact ih rises
    | down name =>
      have below := ih rises
      rwa [Nat.add_right_comm] at below
    | up =>
      cases depth with
      | zero => cases rises
      | succ depth =>
        rw [Nat.succ_add]
        exact ih rises

/-- What stays below a directory leaves the way to it alone. -/
theorem walk_of_rise {depth final : Nat} {segments : List (Segment α)}
    (rises : rise depth segments = some final) (dir : List α) {names : List α}
    (deep : names.length = depth) :
    ∃ left, left.length = final ∧ walk (dir ++ names) segments = dir ++ left := by
  induction segments generalizing depth names with
  | nil => exact ⟨names, deep.trans (Option.some.inj rises), rfl⟩
  | cons segment rest ih =>
    rw [walk_cons]
    cases segment with
    | stay => exact ih rises deep
    | down name =>
      rw [step, List.append_assoc]
      exact ih rises (by simp [deep])
    | up =>
      cases depth with
      | zero => cases rises
      | succ depth =>
        have nonempty : names ≠ [] := List.ne_nil_of_length_eq_add_one deep
        rw [step, List.dropLast_append_of_ne_nil nonempty]
        exact ih rises (by simp [deep])

/-- What takes itself back leads nowhere. -/
theorem TakenBack.walk_eq {segments : List (Segment α)} (back : TakenBack segments)
    (dir : List α) : walk dir segments = dir := by
  obtain ⟨left, none, same⟩ := walk_of_rise back dir List.length_nil
  rw [List.append_nil, List.length_eq_zero_iff.mp none, List.append_nil] at same
  exact same

/-- A name, segments that take themselves back, and a step up, behind others of the
kind. -/
theorem TakenBack.append_up {first second : List (Segment α)} (back : TakenBack first)
    (again : TakenBack second) (name : α) :
    TakenBack (first ++ .down name :: (second ++ [.up])) := by
  have one : rise 1 second = some 1 := rise_add again 1
  rw [TakenBack, rise_append, back, Option.bind_some, rise, rise_append, one]
  rfl

theorem TakenBack.append_stay {segments : List (Segment α)} (back : TakenBack segments) :
    TakenBack (segments ++ [.stay]) := by
  rw [TakenBack, rise_append, back]
  rfl

/-- A walk that ends at a name below its directory was at that name last where its
segments say so. -/
theorem walk_last {dir base : List α} {name : α} {segments : List (Segment α)}
    (ends : walk dir segments = base ++ [name]) (below : dir <+: base) :
    ∃ before after, segments = before ++ .down name :: after ∧ TakenBack after ∧
      walk dir before = base := by
  induction size : segments.length using Nat.strongRecOn generalizing segments base name with
  | ind size ih =>
    rcases List.eq_nil_or_concat segments with rfl | ⟨init, last, rfl⟩
    · -- nothing was walked, and the name would be one of the directory's own
      have length := below.length_le
      rw [show dir = base ++ [name] from ends, List.length_append, List.length_singleton] at length
      omega
    · rw [List.concat_eq_append] at ends size ⊢
      rw [List.length_append, List.length_singleton] at size
      rw [walk_append] at ends
      cases last with
      | stay =>
        obtain ⟨before, after, rfl, back, leads⟩ := ih init.length (by omega) ends below rfl
        exact ⟨before, after ++ [.stay], by simp, back.append_stay, leads⟩
      | down other =>
        obtain ⟨isBase, isName⟩ := List.append_inj' (show walk dir init ++ [other] = _ from ends) rfl
        cases isName
        exact ⟨init, [], rfl, rfl, isBase⟩
      | up =>
        have dropped : (walk dir init).dropLast = base ++ [name] := ends
        have nonempty : walk dir init ≠ [] := by
          intro none
          rw [none] at dropped
          simp at dropped
        obtain ⟨last, whole⟩ : ∃ last, walk dir init = (base ++ [name]) ++ [last] :=
          ⟨_, by rw [← dropped, List.dropLast_concat_getLast nonempty]⟩
        -- first the name that the step up takes back, then the one in front of it
        obtain ⟨middle, undone, rfl, second, leads⟩ := ih init.length (by omega) whole
          (below.trans (List.prefix_append _ _)) rfl
        simp only [List.length_append, List.length_cons] at size
        obtain ⟨before, after, rfl, first, leads⟩ := ih middle.length (by omega) leads below rfl
        exact ⟨before, after ++ .down last :: (undone ++ [.up]), by simp,
          first.append_up second last, leads⟩

/-- A walk ends at a name below its directory if and only if that name stands in the path
with segments behind it that take themselves back, and with segments in front of it that
lead to the directory or below it. -/
theorem walk_below_iff (good : α → Prop) (dir : List α) (segments : List (Segment α)) :
    (∃ names name, walk dir segments = dir ++ names ++ [name] ∧ good name) ↔
      ∃ before name after, segments = before ++ .down name :: after ∧ good name ∧
        TakenBack after ∧ dir <+: walk dir before := by
  constructor
  · rintro ⟨names, name, ends, isGood⟩
    obtain ⟨before, after, same, back, leads⟩ := walk_last ends (List.prefix_append dir names)
    refine ⟨before, name, after, same, isGood, back, ?_⟩
    rw [leads]
    exact List.prefix_append dir names
  · rintro ⟨before, name, after, rfl, isGood, back, names, leads⟩
    refine ⟨names, name, ?_, isGood⟩
    rw [walk_append, walk_cons, back.walk_eq, step, leads]

end NetProg.Paths
