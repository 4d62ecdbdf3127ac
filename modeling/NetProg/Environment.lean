import NetProg.CText
import NetProg.Library.Loops

/-!
# Environment variables and the search path

The process environment as `setenv` and `getenv` see it, and the search path a
shell keeps beside it: setting `PATH` splits the new value at its colons.
-/

namespace NetProg

open Loops

/-- The position of the first occurrence of a delimiter. -/
def findFirst (delimiter : Str) : Str → Option Nat
  | [] => if delimiter = [] then some 0 else none
  | c :: rest =>
    if delimiter.isPrefixOf (c :: rest) then some 0
    else (findFirst delimiter rest).map (· + 1)

/-- `s.find(delimiter, pos)`. -/
def find (s delimiter : Str) (pos : Nat) : Option Nat :=
  (findFirst delimiter (s.drop pos)).map (· + pos)

theorem findFirst_lt (delimiter text : Str) (k : Nat) (nonempty : delimiter ≠ [])
    (found : findFirst delimiter text = some k) : k < text.length := by
  induction text generalizing k with
  | nil => simp [findFirst, nonempty] at found
  | cons c rest ih =>
    by_cases here : delimiter.isPrefixOf (c :: rest) = true
    · have same : 0 = k := by simpa [findFirst, here] using found
      simp [← same]
    · have later : ∃ a, findFirst delimiter rest = some a ∧ a + 1 = k := by
        simpa [findFirst, here] using found
      obtain ⟨a, inRest, rfl⟩ := later
      simpa using ih a inRest

/-- A found position lies inside the searched part. -/
theorem find_bounds (s delimiter : Str) (pos k : Nat) (nonempty : delimiter ≠ [])
    (found : find s delimiter pos = some k) : pos ≤ k ∧ k < s.length := by
  obtain ⟨a, inRest, rfl⟩ := Option.map_eq_some_iff.mp found
  have inside : a < (s.drop pos).length := findFirst_lt delimiter _ a nonempty inRest
  rw [List.length_drop] at inside
  omega

/-- The loop of `Split` over `pos_start` and the pieces found so far. It ends
because each delimiter found lies inside the string and is not empty. -/
def splitLoop (s delimiter : Str) (nonempty : delimiter ≠ []) :
    Loop (Nat × List Str) (List Str) Empty where
  body state :=
    match find s delimiter state.1 with
    | some posEnd =>
      .ok (.again (posEnd + delimiter.length,
        state.2 ++ [(s.drop state.1).take (posEnd - state.1)]))
    | none => .ok (.leave (state.2 ++ [s.drop state.1]))
  measure state := s.length + delimiter.length - state.1
  decreases state next round := by
    split at round
    · rename_i posEnd found
      simp only [Except.ok.injEq, Round.again.injEq] at round
      subst round
      have bounds := find_bounds s delimiter state.1 posEnd nonempty found
      have positive : 0 < delimiter.length := List.length_pos_iff.mpr nonempty
      simp only
      omega
    · cases round

/-- `Shell::Split`. -/
def split (s delimiter : Str) (nonempty : delimiter ≠ []) : List Str :=
  match (splitLoop s delimiter nonempty).run (0, []) with
  | .ok pieces => pieces

/-- The variables of the process and the `path_vector_` of a shell. The two are changed by the
same calls, but only a value for `PATH` is split into components. -/
structure Environment where
  vars : List (Str × Str)
  pathVector : List Str
  deriving DecidableEq

namespace Environment

/-- `setenv` with overwriting; a name that is empty or contains `=` is refused. -/
def setenv (e : Environment) (name value : Str) : Environment :=
  if name = [] ∨ 61 ∈ name then e
  else { e with vars := e.vars.filter (·.1 ≠ name) ++ [(name, value)] }

/-- `getenv`. -/
def getenv (e : Environment) (name : Str) : Option Str :=
  (e.vars.find? (·.1 = name)).map Prod.snd

/-- A variable that was set is found with its value. -/
theorem getenv_setenv_self (e : Environment) {name : Str} (value : Str)
    (named : ¬ (name = [] ∨ 61 ∈ name)) : (e.setenv name value).getenv name = some value := by
  have cleared : (e.vars.filter (·.1 ≠ name)).find? (·.1 = name) = none := by
    simp [List.find?_eq_none]
  rw [getenv, setenv, if_neg named, List.find?_append, cleared]
  simp

/-- Setting a variable leaves the others as they are. -/
theorem getenv_setenv_other (e : Environment) {name other : Str} (value : Str)
    (apart : other ≠ name) : (e.setenv name value).getenv other = e.getenv other := by
  by_cases refused : name = [] ∨ 61 ∈ name
  · rw [setenv, if_pos refused]
  · have kept : (e.vars.filter (·.1 ≠ name)).find? (·.1 = other) =
        e.vars.find? (·.1 = other) := by
      rw [List.find?_filter]
      congr 1
      funext var
      by_cases same : var.1 = other
      · simp [same, apart]
      · simp [same]
    have last : [(name, value)].find? (·.1 = other) = none := by
      simp [Ne.symm apart]
    simp only [getenv, setenv, refused, if_false, List.find?_append, kept, last, Option.or_none]

/-- `clearenv`; the shell's own `path_vector_` is not part of the environment. -/
def clearenv (e : Environment) : Environment := { e with vars := [] }

/-- `Shell::SetEnv`. -/
def setEnv (e : Environment) (var val : Str) : Environment :=
  let updated := e.setenv var val
  if var = str "PATH" then { updated with pathVector := split val (str ":") (by decide) } else updated

/-- The paths `IsExecutable` tries for a program, in order. -/
def candidates (e : Environment) (prog : Str) : List Str :=
  e.pathVector.map (fun path => path ++ str "/" ++ prog)

end Environment

/-- The answers of the operating system during one line, by the number of words
left in `cmds_` when it is asked: whether `open` and `pipe` succeed, and whether
`access` finds a path. -/
structure World where
  opens : Nat → Bool
  pipes : Nat → Bool
  finds : Nat → Str → Bool

/-- Every call succeeds, and every program exists. -/
def World.plain : World := ⟨fun _ => true, fun _ => true, fun _ _ => true⟩

end NetProg
