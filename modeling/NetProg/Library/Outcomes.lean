import Mathlib.Logic.Basic

/-!
# Postconditions of computations that can fail

`Ends x good bad` says that a computation returns a value satisfying `good` or
fails with an error satisfying `bad`. The rules compose it along sequencing:
the error postcondition is shared by the parts, and the value postcondition of
the first part is what the second part may assume.
-/

namespace NetProg.Outcomes

universe u v w u' v'
variable {ε : Type u} {α : Type v} {β : Type v}

/-- The returned value satisfies `good`, or the error satisfies `bad`. Both are always asked for,
so that a computation is followed through its failures as well. -/
def Ends (x : Except ε α) (good : α → Prop) (bad : ε → Prop) : Prop :=
  match x with
  | .ok a => good a
  | .error e => bad e

@[simp] theorem ends_ok (a : α) (good : α → Prop) (bad : ε → Prop) :
    Ends (.ok a) good bad ↔ good a := Iff.rfl

@[simp] theorem ends_error (e : ε) (good : α → Prop) (bad : ε → Prop) :
    Ends (.error e : Except ε α) good bad ↔ bad e := Iff.rfl

@[simp] theorem ends_pure (a : α) (good : α → Prop) (bad : ε → Prop) :
    Ends (pure a : Except ε α) good bad ↔ good a := Iff.rfl

/-- Weaker postconditions are met as well. -/
theorem Ends.mono {x : Except ε α} {good better : α → Prop} {bad worse : ε → Prop}
    (ends : Ends x better worse) (ok : ∀ a, better a → good a) (error : ∀ e, worse e → bad e) :
    Ends x good bad := by
  cases x with
  | ok a => exact ok a ends
  | error e => exact error e ends

/-- Sequencing: the continuation has to meet the postconditions from every
value the first part can return. -/
theorem Ends.bind {x : Except ε α} {f : α → Except ε β} (middle : α → Prop)
    {good : β → Prop} {bad : ε → Prop} (first : Ends x middle bad)
    (second : ∀ a, middle a → Ends (f a) good bad) : Ends (x >>= f) good bad := by
  cases x with
  | ok a => exact second a first
  | error e => exact first

/-- The same rule for a first part whose value is known. -/
theorem Ends.bind_eq {x : Except ε α} {f : α → Except ε β}
    {good : β → Prop} {bad : ε → Prop} (failed : ∀ e, x = .error e → bad e)
    (second : ∀ a, x = .ok a → Ends (f a) good bad) : Ends (x >>= f) good bad := by
  cases x with
  | ok a => exact second a rfl
  | error e => exact failed e rfl

/-- A postcondition of the returned value alone. -/
theorem Ends.of_returned {x : Except ε α} {good : α → Prop} (ok : ∀ a, x = .ok a → good a) :
    Ends x good (fun _ => True) := by
  cases x with
  | ok a => exact ok a rfl
  | error e => exact trivial

/-- What is known of every returned value joins the postcondition. -/
theorem Ends.and_returned {x : Except ε α} {good known : α → Prop} {bad : ε → Prop}
    (ends : Ends x good bad) (ok : ∀ a, x = .ok a → known a) :
    Ends x (fun a => good a ∧ known a) bad := by
  cases x with
  | ok a => exact ⟨ends, ok a rfl⟩
  | error e => exact ends

/-- A returned value satisfies the value postcondition. -/
theorem Ends.returned {x : Except ε α} {good : α → Prop} {bad : ε → Prop} {a : α}
    (ends : Ends x good bad) (returned : x = .ok a) : good a := by
  subst returned
  exact ends

/-- A raised error satisfies the error postcondition. -/
theorem Ends.raised {x : Except ε α} {good : α → Prop} {bad : ε → Prop} {e : ε}
    (ends : Ends x good bad) (raised : x = .error e) : bad e := by
  subst raised
  exact ends

/-- Two computations that both return, related values, or both fail, with related errors. Neither
is allowed to return where the other fails. -/
inductive Parallel {α : Type v} {β : Type v'} {ε : Type u} {δ : Type u'} (holds : α → β → Prop)
    (fails : ε → δ → Prop) : Except ε α → Except δ β → Prop
  | ok {a : α} {b : β} (related : holds a b) : Parallel holds fails (.ok a) (.ok b)
  | error {e : ε} {d : δ} (related : fails e d) : Parallel holds fails (.error e) (.error d)

/-- A part of what the first one returns. -/
theorem Parallel.map_left {β : Type v'} {δ : Type u'} {γ : Type v} {part : α → γ}
    {holds : γ → β → Prop} {fails : ε → δ → Prop} {x : Except ε α} {y : Except δ β}
    (parallel : Parallel (fun a b => holds (part a) b) fails x y) :
    Parallel holds fails (x.map part) y := by
  cases parallel with
  | ok related => exact .ok related
  | error related => exact .error related

/-- The same steps on one item after another. -/
theorem Parallel.foldlM {β : Type v'} {δ : Type u'} {γ : Type w} {holds : α → β → Prop}
    {fails : ε → δ → Prop} {step : α → γ → Except ε α} {twin : β → γ → Except δ β}
    {items : List γ}
    (keeps : ∀ c ∈ items, ∀ a b, holds a b → Parallel holds fails (step a c) (twin b c))
    {a : α} {b : β} (start : holds a b) :
    Parallel holds fails (items.foldlM step a) (items.foldlM twin b) := by
  induction items generalizing a b with
  | nil => exact .ok start
  | cons item items ih =>
    have first := keeps item List.mem_cons_self a b start
    rw [List.foldlM_cons, List.foldlM_cons]
    generalize step a item = left at first
    generalize twin b item = right at first
    cases first with
    | ok related => exact ih (fun c member => keeps c (List.mem_cons_of_mem item member)) related
    | error related => exact .error related

/-- A sequence returns exactly when both parts do. -/
theorem bind_eq_ok {x : Except ε α} {f : α → Except ε β} {b : β} :
    (x >>= f) = .ok b ↔ ∃ a, x = .ok a ∧ f a = .ok b := by
  cases x with
  | ok a => exact ⟨fun same => ⟨a, rfl, same⟩, fun ⟨_, same, next⟩ => by cases same; exact next⟩
  | error e => exact ⟨fun same => (by cases same), fun ⟨_, same, _⟩ => (by cases same)⟩

/-- A sequence fails in its first part or, that part having returned, in its
second. -/
theorem bind_eq_error {x : Except ε α} {f : α → Except ε β} {e : ε} :
    (x >>= f) = .error e ↔ x = .error e ∨ ∃ a, x = .ok a ∧ f a = .error e := by
  cases x with
  | ok a =>
    constructor
    · intro same
      exact .inr ⟨a, rfl, same⟩
    · rintro (same | ⟨_, same, next⟩)
      · cases same
      · cases same
        exact next
  | error d =>
    constructor
    · intro same
      cases same
      exact .inl rfl
    · rintro (same | ⟨_, same, _⟩)
      · cases same
        rfl
      · cases same

end NetProg.Outcomes
