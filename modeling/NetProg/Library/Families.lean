import NetProg.Library.Runs

/-!
# Processes that fork

A program serves one event after another and may fork while it does so. A child that
was meant for something else may be left as one more process of the same program, and
then the events of one input are served by several of them, by whichever takes one.

The family of a program is the list of its processes. It starts as one, the children
stand behind the process that forked them, and any of them serves the next event. As
long as no child is left, there is at most one process.
-/

namespace NetProg.Families

open Runs

universe u v
variable {σ : Type u} {ε : Type v}

/-- What an event does to the process that serves it: what it is left as, if it goes on, and a
child that goes on as a process of the same program. A child that ends by itself or executes
something else is none of these. -/
structure Program (σ : Type u) (ε : Type v) where
  offers : σ → ε → Prop
  goesOn : σ → ε → Option σ
  child : σ → ε → Option σ

/-- The processes that are left in the place of the one that serves an event. -/
def Program.leaves (program : Program σ ε) (process : σ) (event : ε) : List σ :=
  (program.goesOn process event).toList ++ (program.child process event).toList

/-- The process at a position serves an event. -/
def serve (program : Program σ ε) (group : List σ) (event : Nat × ε) : List σ :=
  match group[event.1]? with
  | none => group
  | some process =>
    group.take event.1 ++ program.leaves process event.2 ++ group.drop (event.1 + 1)

/-- An event is offered to one of the processes. -/
def Offers (program : Program σ ε) (group : List σ) (event : Nat × ε) : Prop :=
  match group[event.1]? with
  | none => False
  | some process => program.offers process event.2

instance decidableOffers (program : Program σ ε)
    [∀ process event, Decidable (program.offers process event)] (group : List σ)
    (event : Nat × ε) : Decidable (Offers program group event) :=
  match found : group[event.1]? with
  | none => isFalse (by simp [Offers, found])
  | some process => decidable_of_iff (program.offers process event.2) (by simp [Offers, found])

/-- The processes of a program that starts as one. An event is served by one of them, and the
child it leaves comes behind all others. -/
def family (program : Program σ ε) (first : σ) : System (List σ) (Nat × ε) Empty where
  start := [first]
  offers := Offers program
  serve group event := .ok (serve program group event)

/-- The process that serves the event meets a condition. -/
def Each (meets : σ → ε → Prop) (group : List σ) (event : Nat × ε) : Prop :=
  ∀ process ∈ group[event.1]?, meets process event.2

/-- The event leaves no child of the process that serves it. -/
def Program.Childless (program : Program σ ε) (process : σ) (event : ε) : Prop :=
  program.child process event = none

instance (program : Program σ ε) (first : σ)
    [∀ process event, Decidable (program.offers process event)] (group : List σ)
    (event : Nat × ε) : Decidable ((family program first).offers group event) :=
  inferInstanceAs (Decidable (Offers program group event))

instance (program : Program σ ε) (group : List σ) (event : Nat × ε) :
    Decidable (Each program.Childless group event) :=
  decidable_of_iff ((group[event.1]?.bind (program.child · event.2)).isNone = true) (by
    simp [Each, Program.Childless])

/-- An event that leaves no child leaves no more processes than there were. -/
theorem serve_length_le {program : Program σ ε} {group : List σ} {event : Nat × ε}
    (childless : Each program.Childless group event) :
    (serve program group event).length ≤ group.length := by
  rw [serve]
  split
  · exact Nat.le_refl _
  · rename_i process found
    have none : program.child process event.2 = none := childless process found
    have inside : event.1 < group.length := (List.getElem?_eq_some_iff.mp found).1
    have few : (program.leaves process event.2).length ≤ 1 := by
      rw [Program.leaves, none]
      cases program.goesOn process event.2 <;> simp
    simp only [List.length_append, List.length_take, List.length_drop]
    omega

/-- What all processes have, and the one that serves the event hands on, all of them still
have. -/
theorem serve_members {program : Program σ ε} {group : List σ} {event : Nat × ε}
    {holds : σ → Prop} (all : ∀ process ∈ group, holds process)
    (kept : ∀ process ∈ group[event.1]?, ∀ left ∈ program.leaves process event.2, holds left) :
    ∀ process ∈ serve program group event, holds process := by
  intro process member
  rw [serve] at member
  split at member
  · exact all process member
  · rename_i serving found
    rcases List.mem_append.mp member with early | behind
    · rcases List.mem_append.mp early with before | left
      · exact all process (List.mem_of_mem_take before)
      · exact kept serving found process left
    · exact all process (List.mem_of_mem_drop behind)

/-- Where every event that is served leaves no child, there is at most one process. What the first
process has and every event keeps may be used to show it.

By induction on the run, with this invariant of all processes: a group of at most one that is
served by one of its members does not grow. -/
theorem family_alone {program : Program σ ε} {first : σ} {meets : σ → ε → Prop}
    (holds : σ → Prop) (initial : holds first)
    (kept : ∀ process event, holds process → meets process event →
      program.Childless process event ∧ ∀ left ∈ program.leaves process event, holds left)
    {events : List (Nat × ε)} {group : List σ}
    (run : Run (family program first) (Each meets) events group) :
    group.length ≤ 1 ∧ ∀ process ∈ group, holds process := by
  apply run.invariant (fun group => group.length ≤ 1 ∧ ∀ process ∈ group, holds process)
  · refine ⟨Nat.le_refl 1, ?_⟩
    intro process member
    rw [List.mem_singleton.mp member]
    exact initial
  · rintro group event after ⟨few, all⟩ _ met served
    cases served
    have each : ∀ process ∈ group[event.1]?, program.Childless process event.2 ∧
        ∀ left ∈ program.leaves process event.2, holds left :=
      fun process taken => kept process event.2 (all process (List.mem_of_getElem? taken))
        (met process taken)
    constructor
    · exact Nat.le_trans (serve_length_le fun process taken => (each process taken).1) few
    · exact serve_members all (fun process taken => (each process taken).2)

/-- So there is where the condition on an event rules out a child by itself. -/
theorem family_length_le {program : Program σ ε} {first : σ} {meets : σ → ε → Prop}
    (childless : ∀ process event, meets process event → program.Childless process event)
    {events : List (Nat × ε)} {group : List σ}
    (run : Run (family program first) (Each meets) events group) : group.length ≤ 1 := by
  refine (family_alone (fun _ => True) trivial ?_ run).1
  intro process event _ met
  exact ⟨childless process event met, fun _ _ => trivial⟩

/-- A play of a family is a run, to a group with as many processes. -/
theorem run_played {program : Program σ ε} {first : σ} {meets : List σ → Nat × ε → Prop}
    [∀ process event, Decidable (program.offers process event)]
    [∀ group event, Decidable (meets group event)] (events : List (Nat × ε)) {count : Nat}
    (played : (play (family program first) meets [first] events).map List.length = some count) :
    ∃ group, Run (family program first) meets events group ∧ group.length = count := by
  obtain ⟨group, ends, length⟩ := Option.map_eq_some_iff.mp played
  exact ⟨group, Run.played events group ends, length⟩

end NetProg.Families
