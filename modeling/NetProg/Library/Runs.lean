import Mathlib.Data.List.Basic
import Mathlib.Tactic.TypeStar

/-!
# Runs of an event-driven system

A system starts in one state, is offered events by its environment, and serves
each of them or fails. A run is a finite sequence of events served one after
the other without a failure, each of them offered in the state it is served in
and meeting a condition on that state. The condition is a parameter: the runs
of the system itself are those whose condition is always true, and a law that
needs every step to keep off some branch states that as its condition.

An invariant is established once at the start and once for a served event, and
then holds after every run. A measure that no event adds to bounds the events that
take something off it. `play` executes a sequence of events, so that a
concrete run can be evaluated instead of derived.
-/

namespace NetProg.Runs

universe u v w
variable {σ : Type u} {ε : Type v} {φ : Type w}

/-- The start state, the events the environment can offer in a state, and what serving an event
does. A failure carries what is left of the system, and no further event is served then. -/
structure System (σ : Type u) (ε : Type v) (φ : Type w) where
  start : σ
  offers : σ → ε → Prop
  serve : σ → ε → Except φ σ

/-- The condition met by every event of a state. -/
def always (_ : σ) (_ : ε) : Prop := True

instance (state : σ) (event : ε) : Decidable (always state event) :=
  inferInstanceAs (Decidable True)

/-- The events served so far, in order, and the state they lead to. Each of them was offered in
the state it came in, met the condition there and was served without a failure; so the theorems
that speak of runs speak of all orders in which the environment can offer its events. -/
inductive Run (system : System σ ε φ) (meets : σ → ε → Prop) : List ε → σ → Prop
  | start : Run system meets [] system.start
  | next {events : List ε} {state after : σ} {event : ε}
      (before : Run system meets events state) (offered : system.offers state event)
      (met : meets state event) (served : system.serve state event = .ok after) :
      Run system meets (events ++ [event]) after

/-- What holds at the start and is kept by every offered event that meets the
condition and is served holds after every run. -/
theorem Run.invariant {system : System σ ε φ} {meets : σ → ε → Prop} (holds : σ → Prop)
    (initial : holds system.start)
    (kept : ∀ state event after, holds state → system.offers state event → meets state event →
      system.serve state event = .ok after → holds after)
    {events : List ε} {state : σ} (run : Run system meets events state) : holds state := by
  induction run with
  | start => exact initial
  | next _ offered met served ih => exact kept _ _ _ ih offered met served

/-- A run under a condition is a run under every weaker one. -/
theorem Run.weaken {system : System σ ε φ} {meets allows : σ → ε → Prop}
    (weaker : ∀ state event, meets state event → allows state event)
    {events : List ε} {state : σ} (run : Run system meets events state) :
    Run system allows events state := by
  induction run with
  | start => exact .start
  | next _ offered met served ih => exact .next ih offered (weaker _ _ met) served

/-- Two conditions that agree wherever an invariant holds have the same runs. It is the rule for
the equivalences of this kind: that a property holds after every event, and that every event meets
a condition. -/
theorem run_congr {system : System σ ε φ} {meets allows : σ → ε → Prop} (holds : σ → Prop)
    (initial : holds system.start)
    (agree : ∀ state event, holds state → system.offers state event →
      (meets state event ↔ allows state event))
    (kept : ∀ state event after, holds state → system.offers state event → meets state event →
      system.serve state event = .ok after → holds after)
    (events : List ε) (state : σ) :
    Run system meets events state ↔ Run system allows events state := by
  have forth {events : List ε} {state : σ} (run : Run system meets events state) :
      Run system allows events state ∧ holds state := by
    induction run with
    | start => exact ⟨.start, initial⟩
    | next _ offered met served ih =>
      exact ⟨.next ih.1 offered ((agree _ _ ih.2 offered).mp met) served,
        kept _ _ _ ih.2 offered met served⟩
  have back {events : List ε} {state : σ} (run : Run system allows events state) :
      Run system meets events state ∧ holds state := by
    induction run with
    | start => exact ⟨.start, initial⟩
    | next _ offered allowed served ih =>
      have met := (agree _ _ ih.2 offered).mpr allowed
      exact ⟨.next ih.1 offered met served, kept _ _ _ ih.2 offered met served⟩
  exact ⟨fun run => (forth run).1, fun run => (back run).1⟩

section Measured

variable {system : System σ ε φ} {meets : σ → ε → Prop} {counts : ε → Bool} {measure : σ → Nat}
  {events : List ε} {state : σ}

/-- Events that count take something off a measure that no event adds to. So there are no
more of them in a run than the measure is at its start. -/
theorem Run.countP_le (pays : ∀ state event after, system.offers state event →
      meets state event → system.serve state event = .ok after →
      (if counts event then 1 else 0) + measure after ≤ measure state)
    (run : Run system meets events state) :
    events.countP counts + measure state ≤ measure system.start := by
  induction run with
  | start => simp
  | @next events before after event _ offered met served ih =>
    have paid := pays before event after offered met served
    rw [List.countP_append, List.countP_singleton]
    omega

/-- If one of them can be served wherever the end has not been reached, every run can go on
to the end. -/
theorem Run.reaches (pays : ∀ state event after, system.offers state event →
      meets state event → system.serve state event = .ok after →
      (if counts event then 1 else 0) + measure after ≤ measure state)
    (finished : σ → Prop) (goesOn : ∀ state, ¬ finished state → ∃ event after,
      system.offers state event ∧ meets state event ∧ counts event = true ∧
        system.serve state event = .ok after)
    (run : Run system meets events state) :
    ∃ more final, Run system meets (events ++ more) final ∧ finished final := by
  induction size : measure state using Nat.strongRecOn generalizing state events with
  | ind size ih =>
    by_cases ended : finished state
    · exact ⟨[], state, by simpa using run, ended⟩
    · obtain ⟨event, after, offered, met, counted, served⟩ := goesOn state ended
      have paid := pays state event after offered met served
      rw [if_pos counted] at paid
      obtain ⟨more, final, longer, ends⟩ :=
        ih (measure after) (by omega) (.next run offered met served) rfl
      exact ⟨event :: more, final, by simpa using longer, ends⟩

end Measured

/-- Serve a sequence of events from a state; an event that is not offered, does
not meet the condition or fails ends the play without a state. -/
def play (system : System σ ε φ) (meets : σ → ε → Prop)
    [∀ state event, Decidable (system.offers state event)]
    [∀ state event, Decidable (meets state event)] : σ → List ε → Option σ
  | state, [] => some state
  | state, event :: rest =>
    if system.offers state event ∧ meets state event then
      match system.serve state event with
      | .ok after => play system meets after rest
      | .error _ => none
    else none

/-- A play that ends in a state extends a run by the events it served. -/
theorem Run.extended {system : System σ ε φ} {meets : σ → ε → Prop}
    [∀ state event, Decidable (system.offers state event)]
    [∀ state event, Decidable (meets state event)]
    {events : List ε} {state : σ} (before : Run system meets events state)
    (further : List ε) (final : σ) (played : play system meets state further = some final) :
    Run system meets (events ++ further) final := by
  induction further generalizing events state with
  | nil =>
    have same : state = final := Option.some.inj played
    simpa [same] using before
  | cons event rest ih =>
    by_cases fits : system.offers state event ∧ meets state event
    · cases served : system.serve state event with
      | error failure => simp [play, fits, served] at played
      | ok after =>
        have remaining : play system meets after rest = some final := by
          simpa [play, fits, served] using played
        have joined := ih (.next before fits.1 fits.2 served) remaining
        simpa only [List.append_assoc, List.singleton_append] using joined
    · simp [play, fits] at played

/-- A play from the start that ends in a state is a run. -/
theorem Run.played {system : System σ ε φ} {meets : σ → ε → Prop}
    [∀ state event, Decidable (system.offers state event)]
    [∀ state event, Decidable (meets state event)]
    (events : List ε) (final : σ) (played : play system meets system.start events = some final) :
    Run system meets events final := by
  simpa using Run.extended (.start : Run system meets [] system.start) events final played

/-- What is looked at before each event of a sequence, as far as the events can be served. It is
how the past of a run is spoken of where the state does not keep it. -/
def gather {γ : Type*} (system : System σ ε φ) (look : σ → ε → List γ) : σ → List ε → List γ
  | _, [] => []
  | state, event :: rest =>
    look state event ++
      match system.serve state event with
      | .ok after => gather system look after rest
      | .error _ => []

/-- What is looked at in a run that goes on. -/
theorem Run.gather_append {γ : Type*} {system : System σ ε φ} {meets : σ → ε → Prop}
    (look : σ → ε → List γ) {events : List ε} {state : σ} (run : Run system meets events state)
    (further : List ε) : gather system look system.start (events ++ further) =
      gather system look system.start events ++ gather system look state further := by
  induction run generalizing further with
  | start => rfl
  | @next events before after event earlier offered met served ih =>
    have one : gather system look before [event] = look before event := by
      simp [gather, served]
    have more : gather system look before (event :: further) =
        look before event ++ gather system look after further := by
      simp [gather, served]
    rw [ih [event], one, List.append_assoc, List.append_assoc, ← more]
    exact ih (event :: further)

/-- One more event adds what is looked at before it. -/
theorem Run.gather_next {γ : Type*} {system : System σ ε φ} {meets : σ → ε → Prop}
    (look : σ → ε → List γ) {events : List ε} {state after : σ} {event : ε}
    (run : Run system meets events state) (served : system.serve state event = .ok after) :
    gather system look system.start (events ++ [event]) =
      gather system look system.start events ++ look state event := by
  rw [run.gather_append look [event]]
  simp [gather, served]

/-- The rule for an invariant that speaks of what was looked at so far. -/
theorem Run.logged {γ : Type*} {system : System σ ε φ} {meets : σ → ε → Prop}
    (look : σ → ε → List γ) (holds : List γ → σ → Prop) (initial : holds [] system.start)
    (kept : ∀ log state event after, holds log state → system.offers state event →
      meets state event → system.serve state event = .ok after →
      holds (log ++ look state event) after)
    {events : List ε} {state : σ} (run : Run system meets events state) :
    holds (gather system look system.start events) state := by
  induction run with
  | start => exact initial
  | next before offered met served ih =>
    rw [before.gather_next look served]
    exact kept _ _ _ _ ih offered met served

end NetProg.Runs
