import Mathlib.Data.List.TakeWhile
import NetProg.Library.Outcomes

/-!
# Consuming a stream one symbol at a time

A step takes one symbol and answers: the idle answer asks for more, every other
answer stops. Feeding a list goes through its symbols until an answer stops it,
and the rest of the list is not looked at. Where a stream is cut does not matter:
feeding a first part and, if it did not stop, a second part is feeding both.

States that collect read every symbol of a kind and ask for the next one. What
stops a stream comes at or after the first symbol of another kind.
-/

namespace NetProg.Feeding

open Outcomes

universe u v w
variable {σ : Type u} {α : Type v} {ρ : Type u} {ε : Type w} [DecidableEq ρ]
variable (step : σ → α → Except ε (ρ × σ)) (idle : ρ)

/-- Feed the symbols in order, up to the first answer that is not idle. -/
def feed : σ → List α → Except ε (ρ × σ)
  | state, [] => .ok (idle, state)
  | state, symbol :: rest =>
    match step state symbol with
    | .error e => .error e
    | .ok (answer, next) => if answer = idle then feed next rest else .ok (answer, next)

theorem feed_idle {state next : σ} {symbol : α} {rest : List α}
    (stepped : step state symbol = .ok (idle, next)) :
    feed step idle state (symbol :: rest) = feed step idle next rest := by
  simp [feed, stepped]

theorem feed_stops {state next : σ} {symbol : α} {rest : List α} {answer : ρ}
    (stepped : step state symbol = .ok (answer, next)) (stops : answer ≠ idle) :
    feed step idle state (symbol :: rest) = .ok (answer, next) := by
  simp [feed, stepped, stops]

theorem feed_error {state : σ} {symbol : α} {rest : List α} {e : ε}
    (stepped : step state symbol = .error e) :
    feed step idle state (symbol :: rest) = .error e := by
  simp [feed, stepped]

/-- A second part is fed where the first one asks for more. -/
theorem feed_append_eq (state : σ) (first second : List α) :
    feed step idle state (first ++ second) =
      match feed step idle state first with
      | .error e => .error e
      | .ok (answer, next) =>
        if answer = idle then feed step idle next second else .ok (answer, next) := by
  induction first generalizing state with
  | nil => simp [feed]
  | cons symbol rest ih =>
    rw [List.cons_append]
    cases stepped : step state symbol with
    | error e => rw [feed_error step idle stepped, feed_error step idle stepped]
    | ok result =>
      obtain ⟨answer, middle⟩ := result
      by_cases more : answer = idle
      · subst more
        rw [feed_idle step _ stepped, feed_idle step _ stepped]
        exact ih middle
      · rw [feed_stops step idle stepped more, feed_stops step idle stepped more]
        simp [more]

/-- A first part that asks for more is continued by the second. -/
theorem feed_append {state next : σ} {first : List α}
    (fed : feed step idle state first = .ok (idle, next)) (second : List α) :
    feed step idle state (first ++ second) = feed step idle next second := by
  rw [feed_append_eq, fed]
  exact if_pos rfl

/-- What an answer stops is decided whatever comes after. -/
theorem feed_decided {state next : σ} {first : List α} {answer : ρ}
    (fed : feed step idle state first = .ok (answer, next)) (stops : answer ≠ idle)
    (second : List α) : feed step idle state (first ++ second) = .ok (answer, next) := by
  rw [feed_append_eq, fed]
  exact if_neg stops

/-- And so is a failure. -/
theorem feed_append_error {state : σ} {first : List α} {e : ε}
    (fed : feed step idle state first = .error e) (second : List α) :
    feed step idle state (first ++ second) = .error e := by
  rw [feed_append_eq, fed]

/-- Feed pieces of a stream one after another, up to the first answer that is
not idle. -/
def feedAll : σ → List (List α) → Except ε (ρ × σ)
  | state, [] => .ok (idle, state)
  | state, piece :: pieces =>
    match feed step idle state piece with
    | .error e => .error e
    | .ok (answer, next) => if answer = idle then feedAll next pieces else .ok (answer, next)

/-- Where the stream is cut does not matter. -/
theorem feedAll_eq (state : σ) (pieces : List (List α)) :
    feedAll step idle state pieces = feed step idle state pieces.flatten := by
  induction pieces generalizing state with
  | nil => rfl
  | cons piece pieces ih =>
    rw [feedAll, List.flatten_cons]
    cases fed : feed step idle state piece with
    | error e => exact (feed_append_error step idle fed _).symm
    | ok result =>
      obtain ⟨answer, next⟩ := result
      by_cases more : answer = idle
      · subst more
        rw [feed_append step _ fed]
        simp only [if_true]
        exact ih next
      · rw [feed_decided step idle fed more]
        simp only [more, if_false]

/-- In the states `here read`, indexed by what they have read, a symbol inside is read and the
next one is asked for. The index is what makes a machine that collects characters a family of
states. -/
def Collects (here : List α → σ) (inside : α → Bool) : Prop :=
  ∀ read symbol, inside symbol = true →
    step (here read) symbol = .ok (idle, here (read ++ [symbol]))

/-- Symbols inside are all read. -/
theorem Collects.feed {here : List α → σ} {inside : α → Bool}
    (collects : Collects step idle here inside) (read : List α) {symbols : List α}
    (all : ∀ symbol ∈ symbols, inside symbol = true) (rest : List α) :
    Feeding.feed step idle (here read) (symbols ++ rest) =
      Feeding.feed step idle (here (read ++ symbols)) rest := by
  induction symbols generalizing read with
  | nil => rw [List.nil_append, List.append_nil]
  | cons symbol symbols ih =>
    have first := collects read symbol (all symbol List.mem_cons_self)
    have others := ih (read ++ [symbol])
      (fun later member => all later (List.mem_cons_of_mem _ member))
    rw [List.cons_append, feed_idle step idle first, others, List.append_assoc]
    rfl

/-- An answer other than the idle one comes at or after a first symbol outside. -/
theorem Collects.leaves {here : List α → σ} {inside : α → Bool}
    (collects : Collects step idle here inside) (read : List α) {symbols : List α} {answer : ρ}
    {final : σ} (fed : Feeding.feed step idle (here read) symbols = .ok (answer, final))
    (stops : answer ≠ idle) :
    ∃ inner symbol rest, symbols = inner ++ symbol :: rest ∧
      (∀ each ∈ inner, inside each = true) ∧ inside symbol = false ∧
      Feeding.feed step idle (here (read ++ inner)) (symbol :: rest) = .ok (answer, final) := by
  have all : ∀ each ∈ symbols.takeWhile inside, inside each = true :=
    fun each member => List.mem_takeWhile_imp member
  have parts : symbols.takeWhile inside ++ symbols.dropWhile inside = symbols :=
    List.takeWhile_append_dropWhile
  have collected := collects.feed step idle read all (symbols.dropWhile inside)
  rw [parts, fed] at collected
  cases left : symbols.dropWhile inside with
  | nil =>
    rw [left] at collected
    cases collected
    exact absurd rfl stops
  | cons symbol rest =>
    have outside : inside symbol = false := by
      have head := List.head?_dropWhile_not inside symbols
      rw [left] at head
      simpa using head
    rw [left] at collected parts
    exact ⟨symbols.takeWhile inside, symbol, rest, parts.symm, all, outside, collected.symm⟩

/-- What every step keeps, feeding keeps; what no step fails with, feeding does not fail with.
This is the invariant rule for a machine that is fed. -/
theorem feed_ends (holds : σ → Prop) (bad : ε → Prop)
    (one : ∀ state symbol, holds state → Ends (step state symbol) (fun done => holds done.2) bad)
    {state : σ} (initial : holds state) (symbols : List α) :
    Ends (feed step idle state symbols) (fun done => holds done.2) bad := by
  induction symbols generalizing state with
  | nil => exact initial
  | cons symbol rest ih =>
    have here := one state symbol initial
    cases stepped : step state symbol with
    | error e =>
      rw [stepped] at here
      rw [feed_error step idle stepped]
      exact here
    | ok result =>
      obtain ⟨answer, next⟩ := result
      rw [stepped] at here
      by_cases more : answer = idle
      · subst more
        rw [feed_idle step _ stepped]
        exact ih here
      · rw [feed_stops step idle stepped more]
        exact here

end NetProg.Feeding
