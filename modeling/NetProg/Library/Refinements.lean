import NetProg.Library.Batches

/-!
# Refinements

A system refines another one when everything it does can be seen there. Its states have
a view in the other system, and an event that it serves is seen there as a sequence of
events, often as none at all. So its runs are seen as runs.

Nothing is lost by the refinement if the system can also answer: wherever the other one
serves an event, it comes to an end of what is not seen and then does the same.
-/

namespace NetProg.Runs

universe u v w
variable {σ τ : Type u} {ε α : Type v} {φ ψ : Type w}

/-- Every run that has come to a state goes on with these events, and to another state. Unlike a
run it can begin anywhere, and two of them can be joined. -/
def Continues (system : System σ ε φ) (meets : σ → ε → Prop) (s : σ) (events : List ε)
    (t : σ) : Prop :=
  ∀ before, Run system meets before s → Run system meets (before ++ events) t

section Continues

variable {system : System σ ε φ} {meets : σ → ε → Prop}

theorem Continues.nil (s : σ) : Continues system meets s [] s := by
  intro before run
  rwa [List.append_nil]

theorem Continues.one {s t : σ} {event : ε} (offered : system.offers s event)
    (met : meets s event) (served : system.serve s event = .ok t) :
    Continues system meets s [event] t :=
  fun _ run => .next run offered met served

theorem Continues.trans {s m t : σ} {first second : List ε}
    (one : Continues system meets s first m) (two : Continues system meets m second t) :
    Continues system meets s (first ++ second) t := by
  intro before run
  rw [← List.append_assoc]
  exact two _ (one before run)

/-- With events of some kind what is left to be done becomes less, until it is done. -/
theorem exists_continues (holds finished : σ → Prop) (kind : ε → Prop) (measure : σ → Nat)
    (goesOn : ∀ s, holds s → ¬ finished s → ∃ event t, kind event ∧ system.offers s event ∧
      meets s event ∧ system.serve s event = .ok t ∧ holds t ∧ measure t < measure s) {s : σ}
    (held : holds s) : ∃ events t, (∀ event ∈ events, kind event) ∧
      Continues system meets s events t ∧ holds t ∧ finished t := by
  induction size : measure s using Nat.strongRecOn generalizing s with
  | ind size ih =>
    by_cases ended : finished s
    · exact ⟨[], s, by simp, .nil s, held, ended⟩
    · obtain ⟨event, m, isKind, offered, met, served, heldNext, less⟩ := goesOn s held ended
      obtain ⟨events, t, kinds, rest, heldLast, done⟩ := ih (measure m) (by omega) heldNext rfl
      refine ⟨event :: events, t, ?_, (Continues.one offered met served).trans rest, heldLast, done⟩
      intro other member
      rcases List.mem_cons.mp member with rfl | later
      · exact isKind
      · exact kinds other later

/-- What is seen of events that look the same in all states. -/
theorem Run.gather_flatMap {γ : Type*} (look : ε → List γ) {events : List ε} {s : σ}
    (run : Run system meets events s) :
    gather system (fun _ => look) system.start events = events.flatMap look := by
  induction run with
  | start => rfl
  | next before offered met served ih =>
    rw [before.gather_next _ served, ih, List.flatMap_append, List.flatMap_singleton]

/-- A run whose events are all of some kind. -/
theorem Run.only {events : List ε} {s : σ} (run : Run system meets events s) (kind : ε → Prop)
    (all : ∀ event ∈ events, kind event) :
    Run system (fun s event => kind event ∧ meets s event) events s := by
  induction run with
  | start => exact .start
  | next before offered met served ih =>
    refine .next (ih (fun event member => all event (List.mem_append_left _ member))) offered
      ⟨all _ (List.mem_append_right _ List.mem_cons_self), met⟩ served

end Continues

/-- The states and events of a system as they are seen in another one, in its runs under a
condition. An event may be seen as any number of events, or as none; and there is an invariant
that may be used to show that they continue a run. -/
structure Refinement (concrete : System σ ε φ) (meets : σ → ε → Prop) (abstract : System τ α ψ)
    (allows : τ → α → Prop) where
  holds : σ → Prop
  view : σ → τ
  seen : σ → ε → List α
  initial : holds concrete.start
  starts : view concrete.start = abstract.start
  kept : ∀ s event t, holds s → concrete.offers s event → meets s event →
    concrete.serve s event = .ok t → holds t
  follows : ∀ s event t, holds s → concrete.offers s event → meets s event →
    concrete.serve s event = .ok t → Continues abstract allows (view s) (seen s event) (view t)

namespace Refinement

variable {concrete : System σ ε φ} {meets : σ → ε → Prop} {abstract : System τ α ψ}
  {allows : τ → α → Prop} (refinement : Refinement concrete meets abstract allows)

/-- What is seen of a run. -/
def trace (events : List ε) : List α := gather concrete refinement.seen concrete.start events

/-- A run is seen as a run, and the invariant holds at its end. By induction on the run: what each
of its events is seen as continues what was seen so far. -/
theorem run {events : List ε} {s : σ} (run : Run concrete meets events s) :
    refinement.holds s ∧ Run abstract allows (refinement.trace events) (refinement.view s) := by
  refine run.logged refinement.seen (fun log s => refinement.holds s ∧
    Run abstract allows log (refinement.view s)) ⟨refinement.initial, ?_⟩ ?_
  · rw [refinement.starts]
    exact .start
  · rintro log s event t ⟨held, sofar⟩ offered met served
    exact ⟨refinement.kept s event t held offered met served,
      refinement.follows s event t held offered met served log sofar⟩

/-- If every event of the other system can be answered in some states, with nothing else seen
before and after it, and such a state can be reached, then every run of the other system is
seen in some run. -/
theorem answered (ready : σ → Prop)
    (first : ∃ events s, Run concrete meets events s ∧ ready s ∧
      refinement.view s = abstract.start ∧ refinement.trace events = [])
    (answers : ∀ s, ready s → ∀ event t, abstract.offers (refinement.view s) event →
      allows (refinement.view s) event → abstract.serve (refinement.view s) event = .ok t →
      ∃ events after, Continues concrete meets s events after ∧ ready after ∧
        refinement.view after = t ∧ ∀ before, Run concrete meets before s →
          refinement.trace (before ++ events) = refinement.trace before ++ [event])
    {log : List α} {t : τ} (run : Run abstract allows log t) :
    ∃ events s, Run concrete meets events s ∧ ready s ∧ refinement.view s = t ∧
      refinement.trace events = log := by
  induction run with
  | start => exact first
  | @next log t later event before offered met served ih =>
    obtain ⟨events, s, sofar, isReady, rfl, seen⟩ := ih
    obtain ⟨more, after, continues, stillReady, view, answer⟩ :=
      answers s isReady event later offered met served
    refine ⟨events ++ more, after, continues events sofar, stillReady, view, ?_⟩
    rw [answer events sofar, seen]

end Refinement

end NetProg.Runs
