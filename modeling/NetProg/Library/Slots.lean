import Mathlib.Data.List.Basic

/-!
# Tables whose entries are numbered by the lowest free number

A table maps numbers to values; taking a number always gives the lowest one
that is free, and releasing a number makes it free again. The laws say what
each operation does to every number, so nothing about the list behind the
table is needed afterwards.
-/

namespace NetProg.Slots

universe u
variable {α : Type u}

/-- Position `n` holds the value of number `n`; numbers past the end are free. So the lowest free
number is found by looking through the table once. -/
structure Table (α : Type u) where
  cells : List (Option α)
  deriving DecidableEq

namespace Table

/-- No number is taken. -/
def empty : Table α := ⟨[]⟩

/-- The value a number is taken for. -/
def get (table : Table α) (n : Nat) : Option α := (table.cells[n]?).join

/-- The position of the first free cell, or the length of a full list. -/
def firstFree : List (Option α) → Nat
  | [] => 0
  | none :: _ => 0
  | some _ :: rest => firstFree rest + 1

/-- The lowest free number. -/
def lowest (table : Table α) : Nat := firstFree table.cells

/-- Store a cell, growing the list when the number lies past its end. -/
def store : List (Option α) → Nat → Option α → List (Option α)
  | [], 0, cell => [cell]
  | [], n + 1, cell => none :: store [] n cell
  | _ :: rest, 0, cell => cell :: rest
  | first :: rest, n + 1, cell => first :: store rest n cell

/-- Make a number stand for a value, whatever it stood for. -/
def put (table : Table α) (n : Nat) (value : α) : Table α := ⟨store table.cells n (some value)⟩

/-- Make a number free. -/
def release (table : Table α) (n : Nat) : Table α := ⟨store table.cells n none⟩

/-- Take the lowest free number for a value. -/
def take (table : Table α) (value : α) : Nat × Table α :=
  (table.lowest, table.put table.lowest value)

theorem store_get (cells : List (Option α)) (n m : Nat) (cell : Option α) :
    ((store cells n cell)[m]?).join = if m = n then cell else (cells[m]?).join := by
  induction cells, n, cell using store.induct generalizing m with
  | case1 cell => cases m <;> simp [store]
  | case2 n cell ih =>
    cases m with
    | zero => simp [store]
    | succ m => simpa [store] using ih m
  | case3 cell first rest => cases m <;> simp [store]
  | case4 cell first rest n ih =>
    cases m with
    | zero => simp [store]
    | succ m => simpa [store] using ih m

@[simp] theorem get_empty (n : Nat) : (empty : Table α).get n = none := by
  simp [empty, get]

@[simp] theorem get_put (table : Table α) (n m : Nat) (value : α) :
    (table.put n value).get m = if m = n then some value else table.get m :=
  store_get table.cells n m (some value)

@[simp] theorem get_release (table : Table α) (n m : Nat) :
    (table.release n).get m = if m = n then none else table.get m :=
  store_get table.cells n m none

theorem firstFree_free (cells : List (Option α)) : (cells[firstFree cells]?).join = none := by
  induction cells with
  | nil => rfl
  | cons first rest ih =>
    cases first with
    | none => rfl
    | some value => simpa [firstFree] using ih

/-- The lowest free number is free. -/
theorem get_lowest (table : Table α) : table.get table.lowest = none :=
  firstFree_free table.cells

/-- Numbers below a bound that are all taken push the lowest free number up to
the bound. -/
theorem le_lowest (table : Table α) (bound : Nat) (taken : ∀ m < bound, table.get m ≠ none) :
    bound ≤ table.lowest := by
  by_contra short
  exact taken table.lowest (by omega) table.get_lowest

end Table

end NetProg.Slots
