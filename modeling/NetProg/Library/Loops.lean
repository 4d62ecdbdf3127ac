import Mathlib.Data.List.Basic
import Mathlib.Tactic.TypeStar
import NetProg.Library.Outcomes

/-!
# Loops that can fail, leave early or go round again

A loop is a body together with a measure that every further round decreases,
so running it needs no fuel argument and always returns what its rounds say.
`rounds` lists the states at the head of each round, which is where a condition
on the way through the loop is stated. Induction over a loop is induction over
its rounds.
-/

namespace NetProg.Loops

open Outcomes

universe u v w u' v' w'
variable {σ : Type u} {β : Type v} {ε : Type w}

/-- A round ends with another round or leaves the loop with a value. -/
inductive Round (σ : Type u) (β : Type v) where
  | again (state : σ)
  | leave (value : β)
  deriving DecidableEq

/-- One condition on the state of another round and one on the value left with. -/
def Round.Holds (again : σ → Prop) (leave : β → Prop) : Round σ β → Prop
  | .again state => again state
  | .leave value => leave value

@[simp] theorem Round.holds_again (again : σ → Prop) (leave : β → Prop) (state : σ) :
    (Round.again state).Holds again leave ↔ again state := Iff.rfl

@[simp] theorem Round.holds_leave (again : σ → Prop) (leave : β → Prop) (value : β) :
    (Round.leave value : Round σ β).Holds again leave ↔ leave value := Iff.rfl

/-- Where a round leads: to a further state, or out of the loop with a result. -/
def leads : Except ε (Round σ β) → σ ⊕ Except ε β
  | .ok (.again next) => .inl next
  | .ok (.leave value) => .inr (.ok value)
  | .error e => .inr (.error e)

/-- A body whose further rounds decrease a measure: each round goes on with a smaller state,
returns a value or fails. So a loop is run to its end without fuel in the statements. -/
structure Loop (σ : Type u) (β : Type v) (ε : Type w) where
  body : σ → Except ε (Round σ β)
  measure : σ → Nat
  decreases : ∀ state next, body state = .ok (.again next) → measure next < measure state

namespace Loop

variable (loop : Loop σ β ε)

/-- At most `fuel` rounds; without a result when they do not suffice. -/
def iterate : Nat → σ → Option (Except ε β)
  | 0, _ => none
  | fuel + 1, state =>
    match loop.body state with
    | .error e => some (.error e)
    | .ok (.leave value) => some (.ok value)
    | .ok (.again next) => iterate fuel next

/-- More fuel than the measure suffices. -/
theorem iterate_isSome (fuel : Nat) (state : σ) (enough : loop.measure state < fuel) :
    (loop.iterate fuel state).isSome := by
  induction fuel generalizing state with
  | zero => omega
  | succ fuel ih =>
    cases round : loop.body state with
    | error e => simp [iterate, round]
    | ok result =>
      cases result with
      | leave value => simp [iterate, round]
      | again next =>
        have smaller : loop.measure next < loop.measure state := loop.decreases state next round
        simpa [iterate, round] using ih next (by omega)

/-- Any two sufficient amounts of fuel give the same result. -/
theorem iterate_stable (first second : Nat) (state : σ) (enough : loop.measure state < first)
    (alsoEnough : loop.measure state < second) :
    loop.iterate first state = loop.iterate second state := by
  induction first generalizing second state with
  | zero => omega
  | succ first ih =>
    cases second with
    | zero => omega
    | succ second =>
      cases round : loop.body state with
      | error e => simp [iterate, round]
      | ok result =>
        cases result with
        | leave value => simp [iterate, round]
        | again next =>
          have smaller : loop.measure next < loop.measure state := loop.decreases state next round
          simpa [iterate, round] using ih second next (by omega) (by omega)

/-- Run the loop to its end. -/
def run (state : σ) : Except ε β :=
  (loop.iterate (loop.measure state + 1) state).get
    (loop.iterate_isSome _ state (Nat.lt_succ_self _))

/-- The loop does what its body says, one round at a time. The fuel that the definition of a run
needs is gone here, and no proof behind this one speaks of it. -/
theorem run_eq (state : σ) : loop.run state =
    match loop.body state with
    | .error e => .error e
    | .ok (.leave value) => .ok value
    | .ok (.again next) => loop.run next := by
  apply Option.some.inj
  simp only [run, Option.some_get]
  cases round : loop.body state with
  | error e => simp [iterate, round]
  | ok result =>
    cases result with
    | leave value => simp [iterate, round]
    | again next =>
      have smaller : loop.measure next < loop.measure state := loop.decreases state next round
      simp only [iterate, round, Option.some_get]
      exact loop.iterate_stable _ _ next smaller (Nat.lt_succ_self _)

theorem run_again {state next : σ} (round : loop.body state = .ok (.again next)) :
    loop.run state = loop.run next := by
  rw [run_eq, round]

theorem run_leave {state : σ} {value : β} (round : loop.body state = .ok (.leave value)) :
    loop.run state = .ok value := by
  rw [run_eq, round]

theorem run_error {state : σ} {e : ε} (round : loop.body state = .error e) :
    loop.run state = .error e := by
  rw [run_eq, round]

/-- Induction over the rounds of the loop from any state. -/
theorem induction {motive : σ → Prop}
    (step : ∀ state, (∀ next, loop.body state = .ok (.again next) → motive next) → motive state)
    (state : σ) : motive state := by
  induction size : loop.measure state using Nat.strongRecOn generalizing state with
  | ind size ih =>
    refine step state (fun next round => ?_)
    have smaller : loop.measure next < loop.measure state := loop.decreases state next round
    exact ih (loop.measure next) (by omega) next rfl

/-- The states at the head of the first `fuel` rounds. -/
def heads : Nat → σ → List σ
  | 0, _ => []
  | fuel + 1, state =>
    state :: match loop.body state with
      | .ok (.again next) => heads fuel next
      | _ => []

/-- The states at the head of every round the loop makes from a state. -/
def rounds (state : σ) : List σ := loop.heads (loop.measure state + 1) state

/-- Any two sufficient amounts of fuel list the same rounds. -/
theorem heads_stable (first second : Nat) (state : σ) (enough : loop.measure state < first)
    (alsoEnough : loop.measure state < second) :
    loop.heads first state = loop.heads second state := by
  induction first generalizing second state with
  | zero => omega
  | succ first ih =>
    cases second with
    | zero => omega
    | succ second =>
      cases round : loop.body state with
      | error e => simp [heads, round]
      | ok result =>
        cases result with
        | leave value => simp [heads, round]
        | again next =>
          have smaller : loop.measure next < loop.measure state := loop.decreases state next round
          simpa [heads, round] using ih second next (by omega) (by omega)

theorem mem_rounds_self (state : σ) : state ∈ loop.rounds state := by
  simp [rounds, heads]

/-- A further round's heads are among the rounds of the state before it. -/
theorem rounds_again {state next : σ} (round : loop.body state = .ok (.again next)) :
    loop.rounds state = state :: loop.rounds next := by
  have smaller : loop.measure next < loop.measure state := loop.decreases state next round
  have listed : loop.heads (loop.measure state + 1) state =
      state :: loop.heads (loop.measure state) next := by
    simp [heads, round]
  have stable : loop.heads (loop.measure state) next = loop.rounds next :=
    loop.heads_stable _ _ next smaller (Nat.lt_succ_self _)
  exact listed.trans (congrArg (state :: ·) stable)

/-- What holds at the start and is kept by every round that goes on holds at the head of
every round. -/
theorem rounds_invariant (holds : σ → Prop) {start : σ} (initial : holds start)
    (again : ∀ state next, state ∈ loop.rounds start → holds state →
      loop.body state = .ok (.again next) → next ∈ loop.rounds start → holds next) :
    ∀ head ∈ loop.rounds start, holds head := by
  have all (state : σ) (within : loop.rounds state ⊆ loop.rounds start) (held : holds state) :
      ∀ head ∈ loop.rounds state, holds head := by
    induction state using loop.induction with
    | step state ih =>
      intro head member
      cases outcome : loop.body state with
      | ok result =>
        cases result with
        | again next =>
          have listed := loop.rounds_again outcome
          rw [listed] at member within
          have further : loop.rounds next ⊆ loop.rounds start :=
            fun other inNext => within (List.mem_cons_of_mem state inNext)
          rcases List.mem_cons.mp member with rfl | later
          · exact held
          · exact ih next outcome further
              (again state next (within List.mem_cons_self) held outcome
                (further (loop.mem_rounds_self next))) head later
        | leave value =>
          have single : head = state := by simpa [rounds, heads, outcome] using member
          rwa [single]
      | error e =>
        have single : head = state := by simpa [rounds, heads, outcome] using member
        rwa [single]
  exact all start (fun _ member => member) initial

/-- A relation of every round to the next that is carried on to the rounds behind holds
between every round and all later ones. -/
theorem rounds_pairwise (related : σ → σ → Prop)
    (next : ∀ state after, loop.body state = .ok (.again after) → related state after)
    (further : ∀ state later after, related state later →
      loop.body later = .ok (.again after) → related state after)
    (start : σ) : (loop.rounds start).Pairwise related := by
  induction start using loop.induction with
  | step state ih =>
    cases outcome : loop.body state with
    | ok result =>
      cases result with
      | again after =>
        rw [loop.rounds_again outcome, List.pairwise_cons]
        refine ⟨?_, ih after outcome⟩
        apply loop.rounds_invariant (related state) (next state after outcome)
        intro later final _ held again _
        exact further state later final held again
      | leave value => simp [rounds, heads, outcome]
    | error e => simp [rounds, heads, outcome]

/-- A run comes to the same from the head of each of its rounds. -/
theorem run_of_mem_rounds {start head : σ} (member : head ∈ loop.rounds start) :
    loop.run head = loop.run start :=
  loop.rounds_invariant (fun state => loop.run state = loop.run start) rfl
    (fun _ _ _ same again _ => (loop.run_again again).symm.trans same) head member

/-- The rule for a loop with an invariant. The invariant may speak of what was seen at
the heads of the rounds so far and use a condition met at the head of every round; each
way out of a round has its own obligation. -/
theorem run_traces {γ : Type*} (look : σ → List γ) (holds : List γ → σ → Prop)
    (meets : σ → Prop) (good : List γ → β → Prop) (bad : List γ → ε → Prop)
    (round : ∀ log state, holds log state → meets state →
      Ends (loop.body state) (Round.Holds (holds (log ++ look state)) (good (log ++ look state)))
        (bad (log ++ look state)))
    (log : List γ) (state : σ) (initial : holds log state)
    (met : ∀ head ∈ loop.rounds state, meets head) :
    Ends (loop.run state) (good (log ++ (loop.rounds state).flatMap look))
      (bad (log ++ (loop.rounds state).flatMap look)) := by
  induction state using loop.induction generalizing log with
  | step state ih =>
    have here := round log state initial (met state (loop.mem_rounds_self state))
    cases outcome : loop.body state with
    | error e =>
      rw [loop.run_error outcome]
      simpa [outcome, rounds, heads] using here
    | ok result =>
      cases result with
      | leave value =>
        rw [loop.run_leave outcome]
        simpa [outcome, rounds, heads] using here
      | again next =>
        have listed := loop.rounds_again outcome
        rw [outcome, ends_ok, Round.holds_again] at here
        rw [loop.run_again outcome, listed, List.flatMap_cons, ← List.append_assoc]
        refine ih next outcome _ here (fun head member => met head ?_)
        rw [listed]
        exact List.mem_cons_of_mem state member

/-- The same for an invariant of the state alone. -/
theorem run_ends (holds meets : σ → Prop) (good : β → Prop) (bad : ε → Prop)
    (round : ∀ state, holds state → meets state →
      Ends (loop.body state) (Round.Holds holds good) bad)
    (state : σ) (initial : holds state) (met : ∀ head ∈ loop.rounds state, meets head) :
    Ends (loop.run state) good bad :=
  loop.run_traces (fun _ => ([] : List Unit)) (fun _ => holds) meets (fun _ => good) (fun _ => bad)
    (fun _ => round) [] state initial met

/-- What every round keeps, whether it goes on or leaves, holds of the value the loop returns.
This is the invariant rule for a loop where nothing is said of its failures. -/
theorem run_keeps (holds : σ → Prop) (good : β → Prop)
    (again : ∀ state next, holds state → loop.body state = .ok (.again next) → holds next)
    (leave : ∀ state value, holds state → loop.body state = .ok (.leave value) → good value)
    {state : σ} {value : β} (initial : holds state) (returned : loop.run state = .ok value) :
    good value := by
  have ends : Ends (loop.run state) good (fun _ => True) := by
    refine loop.run_ends holds (fun _ => True) good (fun _ => True) ?_ state initial
      (fun _ _ => trivial)
    intro head held _
    apply Ends.of_returned
    intro result ended
    cases result with
    | again next => exact again head next held ended
    | leave value => exact leave head value held ended
  exact ends.returned returned

/-- The rule for two loops. If related states lead to related states, or out of both
loops with results that match, then the results of both loops match. -/
theorem run_matches {σ' : Type u'} {β' : Type v'} {ε' : Type w'} (other : Loop σ' β' ε')
    (related : σ → σ' → Prop) (matching : Except ε β → Except ε' β' → Prop)
    (step : ∀ state twin, related state twin →
      Sum.LiftRel related matching (leads (loop.body state)) (leads (other.body twin)))
    (state : σ) (twin : σ') (initial : related state twin) :
    matching (loop.run state) (other.run twin) := by
  induction state using loop.induction generalizing twin with
  | step state ih =>
    have here := step state twin initial
    rw [loop.run_eq, other.run_eq]
    generalize outcome : loop.body state = round at here
    generalize other.body twin = twinRound at here
    cases round with
    | error e =>
      rcases twinRound with e' | _ | value <;> cases here
      · assumption
      · assumption
    | ok result =>
      cases result with
      | leave value =>
        rcases twinRound with e' | _ | value <;> cases here
        · assumption
        · assumption
      | again next =>
        rcases twinRound with e' | nextTwin | value <;> cases here
        rename_i relatedNext
        exact ih next outcome nextTwin relatedNext

/-- The rule for a loop that another one follows under a view. If the views of the
states lead where the states lead, then a run that returns is followed to the end:
the same is seen at the heads of the rounds, and the other loop returns what the
view says of the value. -/
theorem run_follows {σ' : Type u'} {β' : Type v'} {ε' : Type w'} {γ : Type*}
    (other : Loop σ' β' ε') (view : σ → σ') (ends : β → β') (meets : σ → Prop)
    (look : σ → γ) (twinLook : σ' → γ)
    (again : ∀ state next, meets state → loop.body state = .ok (.again next) →
      meets next ∧ other.body (view state) = .ok (.again (view next)))
    (leave : ∀ state value, meets state → loop.body state = .ok (.leave value) →
      other.body (view state) = .ok (.leave (ends value)))
    (seen : ∀ state result, meets state → loop.body state = .ok result →
      look state = twinLook (view state))
    {state : σ} {value : β} (initial : meets state) (returned : loop.run state = .ok value) :
    (loop.rounds state).map look = (other.rounds (view state)).map twinLook ∧
      other.run (view state) = .ok (ends value) := by
  induction state using loop.induction with
  | step state ih =>
    cases outcome : loop.body state with
    | error e =>
      rw [loop.run_error outcome] at returned
      cases returned
    | ok result =>
      have here := seen state result initial outcome
      cases result with
      | leave left =>
        rw [loop.run_leave outcome] at returned
        cases returned
        have followed := leave state value initial outcome
        refine ⟨?_, other.run_leave followed⟩
        simp [rounds, heads, outcome, followed, here]
      | again next =>
        rw [loop.run_again outcome] at returned
        obtain ⟨met, followed⟩ := again state next initial outcome
        obtain ⟨rounds, result⟩ := ih next outcome met returned
        refine ⟨?_, (other.run_again followed).trans result⟩
        rw [loop.rounds_again outcome, other.rounds_again followed, List.map_cons, List.map_cons,
          rounds, here]

/-- What a round of a loop has to do with another loop that goes as many rounds as it
takes: both go on, both come to a value, or both to an error. -/
inductive Refines {σ' : Type u'} {β' : Type v'} {ε' : Type w'} (other : Loop σ' β' ε')
    (related : σ → σ' → Prop) (holds : β → β' → Prop) (fails : ε → ε' → Prop) (state : σ)
    (twin : σ') : Prop
  | again {next : σ} {twinNext : σ'} (round : loop.body state = .ok (.again next))
      (rounds : other.run twin = other.run twinNext) (still : related next twinNext)
  | leave {value : β} {result : β'} (round : loop.body state = .ok (.leave value))
      (ends : other.run twin = .ok result) (alike : holds value result)
  | fail {e : ε} {d : ε'} (round : loop.body state = .error e)
      (ends : other.run twin = .error d) (alike : fails e d)

/-- The rule for a loop that refines another one: from related states both come to related values
or fail with related errors.

By induction on the measure of the first one; how many rounds the second one goes for a round of
the first is in `Refines`. -/
theorem run_refines {σ' : Type u'} {β' : Type v'} {ε' : Type w'} {other : Loop σ' β' ε'}
    {related : σ → σ' → Prop} {holds : β → β' → Prop} {fails : ε → ε' → Prop}
    (step : ∀ state twin, related state twin → loop.Refines other related holds fails state twin)
    {state : σ} {twin : σ'} (initial : related state twin) :
    Parallel holds fails (loop.run state) (other.run twin) := by
  induction state using loop.induction generalizing twin with
  | step state ih =>
    cases step state twin initial with
    | again round rounds still =>
      rw [loop.run_again round, rounds]
      exact ih _ round still
    | leave round ends alike =>
      rw [loop.run_leave round, ends]
      exact .ok alike
    | fail round ends alike =>
      rw [loop.run_error round, ends]
      exact .error alike

end Loop

end NetProg.Loops
