import Mathlib.Data.List.Induction
import NetProg.Library.Outcomes
import NetProg.Library.Runs

/-!
# Events served in batches

A loop around an event-driven system asks its environment once and then serves several
events, which it works out from the state and the answer before it serves the first of
them. Its runs are runs of the system if every event of a batch is still on offer when
its turn comes.
-/

namespace NetProg.Runs

open Outcomes

universe u v w
variable {σ τ : Type u} {ε α : Type v} {φ : Type w}

/-- A condition is met by every event of a sequence, in the state it is served in. A sequence that
fails on the way meets it as far as it gets, the event that fails included. -/
def Along (system : System σ ε φ) (meets : σ → ε → Prop) : σ → List ε → Prop
  | _, [] => True
  | s, event :: rest =>
    meets s event ∧ ∀ after, system.serve s event = .ok after → Along system meets after rest

instance decidableAlong {system : System σ ε φ} {meets : σ → ε → Prop}
    [∀ s event, Decidable (meets s event)] :
    (s : σ) → (events : List ε) → Decidable (Along system meets s events)
  | _, [] => isTrue trivial
  | s, event :: rest =>
    match served : system.serve s event with
    | .ok after =>
      have later : Decidable (Along system meets after rest) := decidableAlong after rest
      decidable_of_iff (meets s event ∧ Along system meets after rest) (by simp [Along, served])
    | .error _ => decidable_of_iff (meets s event) (by simp [Along, served])

/-- A failure that an event of a run ends in: the run has come to a state, and from there an event
that is offered and meets the condition fails with it. -/
def FailsIn (system : System σ ε φ) (meets : σ → ε → Prop) (failure : φ) : Prop :=
  ∃ events s event, Run system meets events s ∧ system.offers s event ∧ meets s event ∧
    system.serve s event = .error failure

section Along

variable {system : System σ ε φ} {meets : σ → ε → Prop}

/-- A condition on sequences that tells of their first event, and that the rest still
meets it. -/
theorem along_of_kept (holds : List ε → σ → Prop)
    (first : ∀ s event rest, holds (event :: rest) s → meets s event)
    (kept : ∀ s event rest after, holds (event :: rest) s → system.serve s event = .ok after →
      holds rest after) {events : List ε} {s : σ} (initial : holds events s) :
    Along system meets s events := by
  induction events generalizing s with
  | nil => trivial
  | cons event rest ih =>
    exact ⟨first s event rest initial,
      fun after served => ih (kept s event rest after initial served)⟩

theorem Along.weaken {allows : σ → ε → Prop} {s : σ} {events : List ε}
    (met : Along system meets s events) (weaker : ∀ s event, meets s event → allows s event) :
    Along system allows s events := by
  induction events generalizing s with
  | nil => trivial
  | cons event rest ih =>
    exact ⟨weaker s event met.1, fun after served => ih (met.2 after served)⟩

theorem along_always (s : σ) (events : List ε) : Along system always s events :=
  along_of_kept (fun _ _ => True) (fun _ _ _ _ => trivial) (fun _ _ _ _ _ _ => trivial) trivial

/-- A run goes on with a sequence, up to its end or to the event that fails. -/
theorem Run.along {before events : List ε} {s : σ} (run : Run system meets before s)
    (offered : Along system system.offers s events) (met : Along system meets s events) :
    Ends (events.foldlM system.serve s) (Run system meets (before ++ events))
      (FailsIn system meets) := by
  induction events generalizing before s with
  | nil => simpa using run
  | cons event rest ih =>
    rw [List.foldlM_cons]
    refine Ends.bind_eq (fun failure failed => ?_) (fun after served => ?_)
    · exact ⟨before, s, event, run, offered.1, met.1, failed⟩
    · have further := ih (.next run offered.1 met.1 served) (offered.2 after served)
        (met.2 after served)
      simpa using further

end Along

section Longer

variable {system : System σ ε φ} {meets allows : σ → ε → Prop}

/-- The last event of a run. -/
theorem Run.last {events : List ε} {event : ε} {t : σ}
    (run : Run system meets (events ++ [event]) t) : ∃ s, Run system meets events s ∧
      system.offers s event ∧ meets s event ∧ system.serve s event = .ok t := by
  generalize whole : events ++ [event] = all at run
  cases run with
  | start => simp at whole
  | @next before s _ last earlier offered met served =>
    obtain ⟨rfl, same⟩ := List.append_inj' whole rfl
    obtain rfl : event = last := List.singleton_inj.mp same
    exact ⟨s, earlier, offered, met, served⟩

/-- The events determine the state. -/
theorem Run.unique {events : List ε} {s t : σ} (run : Run system meets events s)
    (other : Run system allows events t) : s = t := by
  induction run generalizing t with
  | start =>
    generalize none : ([] : List ε) = events at other
    cases other with
    | start => rfl
    | next => simp at none
  | next _ _ _ served ih =>
    obtain ⟨before, earlier, -, -, alsoServed⟩ := other.last
    rw [ih earlier, alsoServed] at served
    exact (Except.ok.inj served).symm

/-- What a run began with. -/
theorem Run.cut {before further : List ε} {t : σ}
    (run : Run system meets (before ++ further) t) : ∃ s, Run system meets before s := by
  induction further using List.reverseRecOn generalizing t with
  | nil => exact ⟨t, by simpa using run⟩
  | append_singleton further event ih =>
    rw [← List.append_assoc] at run
    obtain ⟨s, earlier, -⟩ := run.last
    exact ih earlier

/-- What holds at one point of a run and is kept holds at every later one. -/
theorem Run.since (holds : σ → Prop) (kept : ∀ s event t, holds s → system.offers s event →
      meets s event → system.serve s event = .ok t → holds t) {before further : List ε} {s t : σ}
    (run : Run system allows before s) (initial : holds s)
    (longer : Run system meets (before ++ further) t) : holds t := by
  induction further using List.reverseRecOn generalizing t with
  | nil =>
    rw [List.append_nil] at longer
    rwa [← run.unique longer]
  | append_singleton further event ih =>
    rw [← List.append_assoc] at longer
    obtain ⟨m, earlier, offered, met, served⟩ := longer.last
    exact kept m event t (ih earlier) offered met served

/-- A run that meets a condition up to some point and then goes on with events that
meet it. -/
theorem Run.meeting {before further : List ε} {s t : σ} (run : Run system meets before s)
    (met : Along system meets s further) (longer : Run system always (before ++ further) t) :
    Run system meets (before ++ further) t := by
  induction further generalizing before s with
  | nil =>
    rw [List.append_nil] at longer ⊢
    rwa [← run.unique longer]
  | cons event rest ih =>
    rw [List.append_cons] at longer ⊢
    obtain ⟨after, first⟩ := longer.cut
    obtain ⟨m, earlier, offered, -, served⟩ := first.last
    obtain rfl := run.unique earlier
    exact ih (.next run offered met.1 served) (met.2 after served) longer

end Longer

/-- A system that serves the events of another in batches. Its state has that of the inner system
in it and may have more; which events a batch has may depend on all of it. Serving a batch is
serving its events one after the other, and it fails if one of them does. -/
structure Batches (system : System σ ε φ) (τ : Type u) (α : Type v) where
  outer : System τ α φ
  inner : τ → σ
  events : τ → α → List ε
  starts : inner outer.start = system.start
  /-- A batch is its events, one after the other. -/
  serves : ∀ t a, (outer.serve t a).map inner = (events t a).foldlM system.serve (inner t)
  /-- Every event of a batch is on offer when its turn comes. -/
  offered : ∀ t a, outer.offers t a → Along system system.offers (inner t) (events t a)

namespace Batches

variable {system : System σ ε φ} (batches : Batches system τ α) (meets : σ → ε → Prop)

/-- All events of a batch meet a condition. -/
def Meets (t : τ) (a : α) : Prop := Along system meets (batches.inner t) (batches.events t a)

/-- The events of a run of batches. -/
def served (log : List α) : List ε := gather batches.outer batches.events batches.outer.start log

variable {meets}

/-- A run of batches is a run of the events in them, in the same order. By induction on the
batches: each of them continues the run by its events. -/
theorem run {log : List α} {t : τ} (run : Run batches.outer (batches.Meets meets) log t) :
    Run system meets (batches.served log) (batches.inner t) := by
  refine run.logged batches.events (fun events t => Run system meets events (batches.inner t)) ?_ ?_
  · rw [batches.starts]
    exact .start
  · intro events t a after before offered met served
    have ends := before.along (batches.offered t a offered) met
    rw [← batches.serves, served] at ends
    exact ends

/-- A batch that fails does so in one of its events. -/
theorem fails {log : List α} {t : τ} (run : Run batches.outer (batches.Meets meets) log t) {a : α}
    (offered : batches.outer.offers t a) (met : batches.Meets meets t a) {failure : φ}
    (failed : batches.outer.serve t a = .error failure) : FailsIn system meets failure := by
  have ends := (batches.run run).along (batches.offered t a offered) met
  rw [← batches.serves, failed] at ends
  exact ends

end Batches

end NetProg.Runs
