import Mathlib.Data.Nat.Find
import Mathlib.Logic.Relation
import NetProg.Library.Runs

/-!
# Processes launched in order that wait for each other

A launcher starts processes one after the other. Some it starts in the foreground: it
waits for their end before it starts the next. A process ends when the processes it
waits for have ended, all of which were launched before it, and when enough processes
have been launched to take what it has to say. Apart from that the launcher and the
processes take their steps in any order.

The launcher can always get to its end if and only if no foreground process waits,
through any number of others, for one that needs a launch still to come. Every
sequence of steps is finite.
-/

namespace NetProg.Launches

open Runs Relation

/-- How many processes there are, which of them a process waits for, how many launches it needs
before it can end, and which are in the foreground, so that the launcher waits for them. -/
structure Plan where
  count : Nat
  waits : Nat → Nat → Prop
  need : Nat → Nat
  foreground : Nat → Bool
  /-- A process waits for earlier ones. -/
  earlier : ∀ i k, waits i k → k < i
  inRange : ∀ k, foreground k = true → k < count

/-- How many processes have been launched, and which have ended. -/
structure Progress where
  launched : Nat
  ended : Nat → Bool

/-- The next process is launched; a process ends. -/
inductive Event where
  | launch
  | ends (i : Nat)

/-- What a step does. -/
def Progress.serve (s : Progress) : Event → Progress
  | .launch => { s with launched := s.launched + 1 }
  | .ends i => { s with ended := fun k => k == i || s.ended k }

namespace Plan

variable (plan : Plan)

/-- The launcher waits for the process launched last. -/
def Waiting (s : Progress) : Prop :=
  ∃ k, s.launched = k + 1 ∧ plan.foreground k = true ∧ s.ended k = false

/-- Everything has been launched, and the launcher waits for nothing. -/
def Through (s : Progress) : Prop := plan.count ≤ s.launched ∧ ¬ plan.Waiting s

/-- The steps that are possible. -/
def offers (s : Progress) : Event → Prop
  | .launch => s.launched < plan.count ∧ ¬ plan.Waiting s
  | .ends i => i < s.launched ∧ s.ended i = false ∧ plan.need i ≤ s.launched ∧
      ∀ k, plan.waits i k → s.ended k = true

/-- The launcher with its processes. The next process is launched when the launcher does not wait;
a process ends when all that it waits for have ended and there have been the launches it needs. -/
def system : System Progress Event Empty where
  start := ⟨0, fun _ => false⟩
  offers := plan.offers
  serve s event := .ok (s.serve event)

/-- No foreground process waits, through others, for one that needs more launches than there have
been when it runs. While the launcher waits for it there are no more of them. -/
def Open : Prop :=
  ∀ k, plan.foreground k = true → ∀ i, ReflTransGen plan.waits k i → plan.need i ≤ k + 1

/-- How many launches and endings there can still be. -/
def left (s : Progress) : Nat :=
  2 * (plan.count - s.launched) + ((List.range s.launched).filter (fun i => !s.ended i)).length

variable {plan}

/-- Whatever a process waits for, through others, is no later than it. -/
theorem le_of_waits {k i : Nat} (waits : ReflTransGen plan.waits k i) : i ≤ k := by
  induction waits with
  | refl => exact Nat.le_refl k
  | tail _ last ih => exact Nat.le_trans (Nat.le_of_lt (plan.earlier _ _ last)) ih

/-- Every step takes something off it. -/
theorem left_serve {s : Progress} {event : Event} (offered : plan.offers s event) :
    1 + plan.left (s.serve event) ≤ plan.left s := by
  cases event with
  | launch =>
    have more : s.launched < plan.count := offered.1
    have grown : ((List.range (s.launched + 1)).filter (fun i => !s.ended i)).length ≤
        ((List.range s.launched).filter (fun i => !s.ended i)).length + 1 := by
      rw [List.range_succ, List.filter_append, List.length_append]
      exact Nat.add_le_add_left (List.length_filter_le _ [s.launched]) _
    simp only [left, Progress.serve]
    omega
  | ends i =>
    obtain ⟨isLaunched, running, -, -⟩ := offered
    have member : i ∈ (List.range s.launched).filter (fun k => !s.ended k) := by
      simp [isLaunched, running]
    have fewer : ((List.range s.launched).filter (fun k => !(k == i || s.ended k))).length <
        ((List.range s.launched).filter (fun k => !s.ended k)).length := by
      have split : (List.range s.launched).filter (fun k => !(k == i || s.ended k)) =
          ((List.range s.launched).filter (fun k => !s.ended k)).filter (· ≠ i) := by
        rw [List.filter_filter]
        congr 1
        funext k
        by_cases same : k = i <;> simp [same]
      rw [split]
      apply List.length_filter_lt_length_iff_exists.mpr
      exact ⟨i, member, by simp⟩
    simp only [left, Progress.serve]
    omega

/-- There are at most two steps for each process. -/
theorem steps_le {events : List Event} {s : Progress} (run : Run plan.system always events s) :
    events.length ≤ 2 * plan.count := by
  have bound : events.countP (fun _ => true) + plan.left s ≤ plan.left plan.system.start := by
    apply run.countP_le
    rintro s event after offered - served
    cases served
    exact left_serve offered
  rw [List.countP_true] at bound
  have start : plan.left plan.system.start = 2 * plan.count := by
    simp [left, system]
  omega

/-- While the launcher waits, some process can end, unless the foreground process waits for
one that needs more launches. -/
theorem ends_offered (isOpen : plan.Open) {s : Progress} (waiting : plan.Waiting s) :
    ∃ i, plan.offers s (.ends i) := by
  obtain ⟨k, launched, foreground, running⟩ := waiting
  -- the earliest process still running among those the foreground waits for
  have some : ∃ i, ReflTransGen plan.waits k i ∧ s.ended i = false := ⟨k, .refl, running⟩
  classical
  obtain ⟨waits, alive⟩ := Nat.find_spec some
  refine ⟨Nat.find some, ?_, alive, ?_, ?_⟩
  · have le := le_of_waits waits
    omega
  · rw [launched]
    exact isOpen k foreground _ waits
  · intro j waitsFor
    by_contra stillRunning
    exact Nat.find_min some (plan.earlier _ _ waitsFor)
      ⟨waits.tail waitsFor, Bool.eq_false_iff.mpr stillRunning⟩

/-- Where the launcher is not through, something can happen. -/
theorem goes_on (isOpen : plan.Open) {s : Progress} (notThrough : ¬ plan.Through s) :
    ∃ event, plan.offers s event := by
  by_cases waiting : plan.Waiting s
  · obtain ⟨i, offered⟩ := ends_offered isOpen waiting
    exact ⟨.ends i, offered⟩
  · have more : s.launched < plan.count := by
      by_contra all
      exact notThrough ⟨Nat.le_of_not_lt all, waiting⟩
    exact ⟨.launch, more, waiting⟩

/-- A foreground process that waits for one that needs more launches holds the launcher
for ever, and nothing on the way between the two ever ends. -/
theorem held {k i : Nat} (foreground : plan.foreground k = true)
    (waits : ReflTransGen plan.waits k i) (needs : k + 1 < plan.need i) {events : List Event}
    {s : Progress} (run : Run plan.system always events s) : s.launched ≤ k + 1 ∧
      ∀ j, ReflTransGen plan.waits k j → ReflTransGen plan.waits j i → s.ended j = false := by
  refine run.invariant (fun s => s.launched ≤ k + 1 ∧
    ∀ j, ReflTransGen plan.waits k j → ReflTransGen plan.waits j i → s.ended j = false)
    ⟨Nat.zero_le _, fun _ _ _ => rfl⟩ ?_
  rintro s event after ⟨few, running⟩ offered - served
  cases served
  cases event with
  | launch =>
    refine ⟨?_, running⟩
    have short : s.launched ≠ k + 1 :=
      fun same => offered.2 ⟨k, same, foreground, running k .refl waits⟩
    simp only [Progress.serve]
    omega
  | ends j =>
    obtain ⟨-, -, enough, waited⟩ := offered
    refine ⟨few, ?_⟩
    intro other fromK toI
    have apart : other ≠ j := by
      rintro rfl
      rcases toI.cases_head with rfl | ⟨next, step, onward⟩
      · omega
      · have ended := waited next step
        rw [running next (fromK.tail step) onward] at ended
        cases ended
    simp [Progress.serve, apart, running other fromK toI]

/-- The launcher can get through from wherever a run has led if and only if no foreground process
waits for one that needs a launch still to come.

Where this is so something can happen until it is through, and whatever happens makes what is left
less. Otherwise no process between such a foreground process and the one that needs a later launch
can ever end. -/
theorem through_iff : (∀ events s, Run plan.system always events s →
      ∃ more final, Run plan.system always (events ++ more) final ∧ plan.Through final) ↔
    plan.Open := by
  constructor
  · intro getsThrough k foreground i waits
    by_contra short
    have needs : k + 1 < plan.need i := by omega
    obtain ⟨more, final, run, all, notWaiting⟩ := getsThrough [] _ .start
    obtain ⟨few, running⟩ := held foreground waits needs run
    have inRange := plan.inRange k foreground
    exact notWaiting ⟨k, by omega, foreground, running k .refl waits⟩
  · intro isOpen events s run
    refine @Run.reaches _ _ _ plan.system always (fun _ => true) plan.left events s ?_
      plan.Through ?_ run
    · rintro state event after offered - served
      cases served
      exact left_serve offered
    · intro state notThrough
      obtain ⟨event, offered⟩ := goes_on isOpen notThrough
      exact ⟨event, _, offered, trivial, rfl, rfl⟩

end Plan

end NetProg.Launches
