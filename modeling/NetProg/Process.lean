import NetProg.Library.Slots
import Mathlib.Data.List.Perm.Subperm

/-!
# The descriptors of a process

A process refers to its terminal, sockets, files and pipe ends by numbers, and
`accept`, `open` and `pipe` always hand out the lowest number that is not open.
What a number stands for is an object; the call that made it gives every
socket, file and pipe its own serial number, so two uses of one number can be
told apart. Serial numbers and the log of closed pipe ends are not in the
sources: they only record what the numbers meant when they were used.

An account of a process lists the numbers some record still relies on. Live
entries stand for their object; entries given up for closing stand for it or
are not open any more. Opening something new is possible while nothing is given
up, closing touches only what is given up, and as long as the closes go through
the account none of them hits a number that has been handed out again. An account
says nothing about other numbers; that the process is confined to some entries says that
nothing else is open.
-/

namespace NetProg

open Slots

/-- What an open descriptor refers to. Sockets, files and pipes carry the serial number of the
call that made them, so that a number used again stands for another object. -/
inductive Object where
  | terminal
  | listener
  | socket (serial : Nat)
  | file (serial : Nat)
  | readEnd (serial : Nat)
  | writeEnd (serial : Nat)
  deriving DecidableEq

/-- The object is no younger than the given count of calls. -/
def Object.Before (made : Nat) : Object → Prop
  | .terminal => True
  | .listener => True
  | .socket serial => serial < made
  | .file serial => serial < made
  | .readEnd serial => serial < made
  | .writeEnd serial => serial < made

/-- One `close` of a pipe end: the number, the end the caller took it for, and what it stood for
at that moment. The log of these is what tells whether a close has hit a stranger. -/
structure Close where
  number : Int
  meant : Option Object
  found : Option Object
  deriving DecidableEq

/-- The close hit the end it was meant for, or a number that is not open. -/
def Close.Proper (c : Close) : Prop := c.found = none ∨ c.found = c.meant

instance (c : Close) : Decidable c.Proper := inferInstanceAs (Decidable (_ ∨ _))

/-- Open descriptors, the number of objects made so far, and the closes of pipe ends in the order
they were issued. A new descriptor is the lowest that is free. -/
structure Process where
  fds : Table Object
  made : Nat
  closes : List Close

namespace Process

/-- What a number stands for; negative numbers are never open. -/
def object (p : Process) (n : Int) : Option Object :=
  if 0 ≤ n then p.fds.get n.toNat else none

/-- A process with a terminal on the three standard descriptors. -/
def initial : Process :=
  ⟨((Table.empty.put 0 .terminal).put 1 .terminal).put 2 .terminal, 0, []⟩

/-- `socket` and `listen`: the listening socket. -/
def listen (p : Process) : Int × Process :=
  (p.fds.lowest, { p with fds := p.fds.put p.fds.lowest .listener })

/-- A successful `accept`. -/
def accept (p : Process) : Int × Process :=
  (p.fds.lowest, { p with fds := p.fds.put p.fds.lowest (.socket p.made), made := p.made + 1 })

/-- A successful `open`. -/
def openFile (p : Process) : Int × Process :=
  (p.fds.lowest, { p with fds := p.fds.put p.fds.lowest (.file p.made), made := p.made + 1 })

/-- A successful `pipe`: the number of the read end, `pipe_fd[0]`, that of the
write end, `pipe_fd[1]`, and the process. -/
def pipe (p : Process) : Int × Int × Process :=
  let one := p.fds.put p.fds.lowest (.readEnd p.made)
  let two := one.put one.lowest (.writeEnd p.made)
  (p.fds.lowest, one.lowest, { p with fds := two, made := p.made + 1 })

/-- `close`. -/
def close (p : Process) (n : Int) : Process :=
  if 0 ≤ n then { p with fds := p.fds.release n.toNat } else p

/-- `close` of a number the caller takes for a pipe end. -/
def closeEnd (p : Process) (n : Int) (meant : Option Object) : Process :=
  { p.close n with closes := p.closes ++ [⟨n, meant, p.object n⟩] }

/-- `dup2(old, new)`, which fails when `old` is not open. -/
def dup2 (p : Process) (old new : Int) : Process :=
  match p.object old with
  | none => p
  | some o => if 0 ≤ new then { p with fds := p.fds.put new.toNat o } else p

theorem object_put (table : Table Object) (made : Nat) (closes : List Close) (n m : Int)
    (o : Object) (nonneg : 0 ≤ n) : (Process.mk (table.put n.toNat o) made closes).object m =
      if m = n then some o else (Process.mk table made closes).object m := by
  by_cases positive : 0 ≤ m
  · have same : m.toNat = n.toNat ↔ m = n := by omega
    simp [object, positive, same]
  · have other : m ≠ n := by omega
    simp [object, positive, other]

theorem object_put_nat (table : Table Object) (made : Nat) (closes : List Close) (n : Nat) (m : Int)
    (o : Object) : (Process.mk (table.put n o) made closes).object m =
      if m = n then some o else (Process.mk table made closes).object m := by
  simpa using object_put table made closes (n : Int) m o (Int.natCast_nonneg n)

theorem object_lowest (table : Table Object) (made : Nat) (closes : List Close) :
    (Process.mk table made closes).object table.lowest = none := by
  simp [object, Table.get_lowest]

theorem object_made (p : Process) (made : Nat) (n : Int) :
    (Process.mk p.fds made p.closes).object n = p.object n := rfl

theorem object_close (p : Process) (n m : Int) :
    (p.close n).object m = if m = n then none else p.object m := by
  by_cases positive : 0 ≤ n
  · by_cases alsoPositive : 0 ≤ m
    · have same : m.toNat = n.toNat ↔ m = n := by omega
      simp [close, object, positive, alsoPositive, same]
    · have other : m ≠ n := by omega
      simp [object, alsoPositive, other]
  · by_cases same : m = n
    · subst same
      simp [object, positive]
    · simp [close, positive, same]

theorem object_closeEnd (p : Process) (n m : Int) (meant : Option Object) :
    (p.closeEnd n meant).object m = if m = n then none else p.object m :=
  p.object_close n m

/-- A close opens nothing. -/
theorem absent_closeEnd {p : Process} {m : Int} (absent : p.object m = none) (n : Int)
    (meant : Option Object) : (p.closeEnd n meant).object m = none := by
  rw [object_closeEnd, absent, ite_self]

@[simp] theorem made_close (p : Process) (n : Int) : (p.close n).made = p.made := by
  rw [close]
  split <;> rfl

@[simp] theorem closes_close (p : Process) (n : Int) : (p.close n).closes = p.closes := by
  rw [close]
  split <;> rfl

@[simp] theorem made_closeEnd (p : Process) (n : Int) (meant : Option Object) :
    (p.closeEnd n meant).made = p.made := p.made_close n

@[simp] theorem closes_closeEnd (p : Process) (n : Int) (meant : Option Object) :
    (p.closeEnd n meant).closes = p.closes ++ [⟨n, meant, p.object n⟩] := rfl

@[simp] theorem made_dup2 (p : Process) (old new : Int) : (p.dup2 old new).made = p.made := by
  rw [dup2]
  split
  · rfl
  · split <;> rfl

@[simp] theorem closes_dup2 (p : Process) (old new : Int) :
    (p.dup2 old new).closes = p.closes := by
  rw [dup2]
  split
  · rfl
  · split <;> rfl

/-- `dup2` changes at most its second number, and never makes it not open. -/
theorem object_dup2 (p : Process) (old new m : Int) (other : m ≠ new) :
    (p.dup2 old new).object m = p.object m := by
  rw [dup2]
  split
  · rfl
  · split
    · rename_i nonneg
      rw [object_put _ _ _ _ _ _ nonneg]
      simp [other, object_made]
    · rfl

theorem object_dup2_open (p : Process) (old new : Int) (nonneg : 0 ≤ new)
    (opened : p.object old ≠ none ∨ p.object new ≠ none) :
    (p.dup2 old new).object new ≠ none := by
  rw [dup2]
  split
  · rename_i missing
    rcases opened with opened | opened
    · exact absurd missing opened
    · exact opened
  · simp [object_put, nonneg]

end Process

/-- `open` under the answer of the operating system: the descriptor and the
process. -/
def openAs (opens : Bool) (p : Process) : Int × Process :=
  if opens then p.openFile else (-1, p)

/-- It makes one object at most. -/
@[simp] theorem made_openAs (opens : Bool) (p : Process) :
    p.made ≤ (openAs opens p).2.made := by
  rw [openAs]
  split
  · exact Nat.le_succ _
  · exact Nat.le_refl _

/-- Which numbers are relied on. `live` entries stand for their object, `dying`
entries for it or for nothing; no object is entered twice; all of them lie above
the standard descriptors, which stay open; and if `honest`, every close of a
pipe end so far was a proper one. -/
structure Account (honest : Prop) (p : Process) (live dying : List (Int × Object)) : Prop where
  stands : ∀ e ∈ live, p.object e.1 = some e.2
  loose : ∀ e ∈ dying, p.object e.1 = none ∨ p.object e.1 = some e.2
  apart : ((live ++ dying).map Prod.snd).Nodup
  known : ∀ e ∈ live ++ dying, e.2.Before p.made
  above : ∀ e ∈ live ++ dying, 3 ≤ e.1
  standard : ∀ n : Int, 0 ≤ n → n < 3 → p.object n ≠ none
  proper : honest → ∀ c ∈ p.closes, c.Proper

theorem Object.Before.mono {made later : Nat} {o : Object} (before : o.Before made)
    (le : made ≤ later) : o.Before later := by
  cases o <;> simp only [Object.Before] at before ⊢ <;> omega

namespace Account

variable {honest : Prop} {p : Process} {live dying : List (Int × Object)}

/-- An entry stands for its object or for nothing, whichever list it is in. -/
theorem either (account : Account honest p live dying) (e : Int × Object)
    (member : e ∈ live ++ dying) : p.object e.1 = none ∨ p.object e.1 = some e.2 := by
  rcases List.mem_append.mp member with isLive | isDying
  · exact .inr (account.stands e isLive)
  · exact account.loose e isDying

/-- Entries may be given up and forgotten: a smaller account holds as well, as
long as nothing that was given up becomes live again. -/
theorem weaken (account : Account honest p live dying) (fewer given : List (Int × Object))
    (kept : fewer ⊆ live) (sub : (fewer ++ given).Subperm (live ++ dying)) :
    Account honest p fewer given where
  stands e member := account.stands e (kept member)
  loose e member := account.either e (sub.subset (List.mem_append_right fewer member))
  apart := by
    obtain ⟨chosen, reordered, inside⟩ := sub
    have distinct : (chosen.map Prod.snd).Nodup := account.apart.sublist (inside.map Prod.snd)
    exact (reordered.map Prod.snd).nodup_iff.mp distinct
  known e member := account.known e (sub.subset member)
  above e member := account.above e (sub.subset member)
  standard := account.standard
  proper := account.proper

/-- The order of the live entries does not matter. -/
theorem perm (account : Account honest p live dying) {other : List (Int × Object)}
    (same : other.Perm live) : Account honest p other dying :=
  account.weaken other dying same.subset (same.append_right dying).subperm

/-- Everything given up may be forgotten. -/
theorem forget (account : Account honest p live dying) : Account honest p live [] :=
  account.weaken live [] (List.Subset.refl live)
    (List.Sublist.subperm (by simp))

/-- Two entries with one number, the first of them live, are for one object. -/
theorem same_object (account : Account honest p live dying) {e f : Int × Object}
    (isLive : e ∈ live) (member : f ∈ live ++ dying) (number : e.1 = f.1)
    (opened : p.object f.1 ≠ none) : e.2 = f.2 := by
  have first : p.object e.1 = some e.2 := account.stands e isLive
  rcases account.either f member with closed | second
  · exact absurd closed opened
  · rw [number, second] at first
    exact (Option.some.inj first).symm

/-- Closing a number no live entry has, and logging the close. -/
theorem closeEnd (account : Account honest p live dying) (n : Int) (meant : Option Object)
    (unused : ∀ e ∈ live, e.1 ≠ n) (notStandard : ¬ (0 ≤ n ∧ n < 3))
    (proper : honest → p.object n = none ∨ p.object n = meant) :
    Account honest (p.closeEnd n meant) live dying where
  stands e member := by
    rw [Process.object_closeEnd, if_neg (unused e member)]
    exact account.stands e member
  loose e member := by
    rw [Process.object_closeEnd]
    split
    · exact .inl rfl
    · exact account.loose e member
  apart := account.apart
  known e member := by simpa using account.known e member
  above := account.above
  standard m nonneg below := by
    have other : m ≠ n := by
      rintro rfl
      exact notStandard ⟨nonneg, below⟩
    rw [Process.object_closeEnd, if_neg other]
    exact account.standard m nonneg below
  proper isHonest c member := by
    rw [Process.closes_closeEnd] at member
    rcases List.mem_append.mp member with old | new
    · exact account.proper isHonest c old
    · rw [List.mem_singleton.mp new]
      exact proper isHonest

/-- The number of an entry given up belongs to no live entry and is above the
standard descriptors, or is not open. -/
theorem dying_apart (account : Account honest p live dying) {n : Int} {o : Object}
    (given : (n, o) ∈ dying) : (∀ e ∈ live, e.1 ≠ n) ∧ ¬ (0 ≤ n ∧ n < 3) := by
  have entered : (n, o) ∈ live ++ dying := List.mem_append_right live given
  have high : 3 ≤ n := account.above (n, o) entered
  refine ⟨?_, by omega⟩
  intro e member number
  have opened : p.object n ≠ none := by
    rw [← number, account.stands e member]
    simp
  have same : e.2 = o := account.same_object member entered number opened
  have distinct := account.apart
  rw [List.map_append] at distinct
  exact (List.nodup_append.mp distinct).2.2 e.2 (List.mem_map_of_mem member)
    o (List.mem_map_of_mem given) same

/-- Closing an entry that was given up leaves the rest as it is; meant for its
object, it is proper. -/
theorem closeGiven (account : Account honest p live dying) {n : Int} {o : Object}
    {meant : Option Object} (given : (n, o) ∈ dying) (aimed : honest → meant = some o) :
    Account honest (p.closeEnd n meant) live dying := by
  obtain ⟨unused, high⟩ := account.dying_apart given
  refine account.closeEnd n meant unused high (fun isHonest => ?_)
  rw [aimed isHonest]
  exact account.loose (n, o) given

/-- Closing an entry that was given up, meant for its object. -/
theorem closeDying (account : Account honest p live dying) {n : Int} {o : Object}
    (given : (n, o) ∈ dying) : Account honest (p.closeEnd n (some o)) live dying :=
  account.closeGiven given (fun _ => rfl)

/-- A `close` that is not one of a pipe end, of an entry that was given up. -/
theorem close (account : Account honest p live dying) {n : Int} {o : Object}
    (given : (n, o) ∈ dying) : Account honest (p.close n) live dying where
  stands e member := by
    rw [Process.object_close, if_neg ((account.dying_apart given).1 e member)]
    exact account.stands e member
  loose e member := by
    rw [Process.object_close]
    split
    · exact .inl rfl
    · exact account.loose e member
  apart := account.apart
  known e member := by simpa using account.known e member
  above := account.above
  standard m nonneg below := by
    have other : m ≠ n := by
      rintro rfl
      exact (account.dying_apart given).2 ⟨nonneg, below⟩
    rw [Process.object_close, if_neg other]
    exact account.standard m nonneg below
  proper := by simpa using account.proper

/-- Closing a number that is not open changes nothing. -/
theorem closeAbsent (account : Account honest p live dying) {n : Int} (meant : Option Object)
    (absent : p.object n = none) : Account honest (p.closeEnd n meant) live dying := by
  refine account.closeEnd n meant ?_ ?_ (fun _ => .inl absent)
  · rintro e member rfl
    rw [account.stands e member] at absent
    cases absent
  · rintro ⟨nonneg, below⟩
    exact account.standard n nonneg below absent

/-- Taking the lowest free number for an object nobody has entered, while it belongs to
nothing that is given up. -/
theorem takeBeside (account : Account honest p live dying) (o : Object) (made : Nat)
    (later : p.made ≤ made) (before : o.Before made) (fresh : ∀ e ∈ live ++ dying, e.2 ≠ o)
    (beside : ∀ e ∈ dying, e.1 ≠ p.fds.lowest) :
    Account honest { p with fds := p.fds.put p.fds.lowest o, made := made }
      ((↑p.fds.lowest, o) :: live) dying where
  stands e member := by
    rcases List.mem_cons.mp member with rfl | old
    · simp [Process.object_put_nat]
    · have stands : p.object e.1 = some e.2 := account.stands e old
      have other : e.1 ≠ p.fds.lowest := by
        intro same
        have free := Process.object_lowest p.fds p.made p.closes
        rw [← same] at free
        rw [show p.object e.1 = none from free] at stands
        cases stands
      rw [Process.object_put_nat, if_neg other]
      exact stands
  loose e member := by
    rw [Process.object_put_nat, if_neg (beside e member)]
    exact account.loose e member
  apart := by
    have old := account.apart
    rw [List.cons_append, List.map_cons, List.nodup_cons]
    refine ⟨?_, old⟩
    intro member
    obtain ⟨e, entered, same⟩ := List.mem_map.mp member
    exact fresh e entered same
  known e member := by
    rw [List.cons_append] at member
    rcases List.mem_cons.mp member with rfl | old
    · exact before
    · exact (account.known e old).mono later
  above e member := by
    rw [List.cons_append] at member
    rcases List.mem_cons.mp member with rfl | old
    · have bound : 3 ≤ p.fds.lowest := by
        refine p.fds.le_lowest 3 (fun m below => ?_)
        simpa [Process.object] using account.standard m (Int.natCast_nonneg m) (by omega)
      simpa using Int.ofNat_le.mpr bound
    · exact account.above e old
  standard m nonneg below := by
    rw [Process.object_put_nat]
    split
    · simp
    · exact account.standard m nonneg below
  proper := account.proper

/-- While nothing is given up any number may be taken. -/
theorem take (account : Account honest p live []) (o : Object) (made : Nat)
    (later : p.made ≤ made) (before : o.Before made) (fresh : ∀ e ∈ live, e.2 ≠ o) :
    Account honest { p with fds := p.fds.put p.fds.lowest o, made := made }
      ((↑p.fds.lowest, o) :: live) [] :=
  account.takeBeside o made later before (by simpa using fresh)
    (fun _ impossible => by cases impossible)

/-- An object with the next serial number has not been entered. -/
theorem fresh (account : Account honest p live dying) {o : Object} (after : ¬ o.Before p.made) :
    ∀ e ∈ live ++ dying, e.2 ≠ o := by
  rintro e member rfl
  exact after (account.known e member)

/-- `accept` enters the socket. -/
theorem accept (account : Account honest p live []) :
    Account honest p.accept.2 ((p.accept.1, .socket p.made) :: live) [] :=
  account.take (.socket p.made) (p.made + 1) (Nat.le_succ _) (Nat.lt_succ_self _)
    (fun e member => account.fresh (Nat.lt_irrefl _) e (List.mem_append_left [] member))

/-- `open` enters the file, when the number it gets is not one that is given up. -/
theorem openBeside (account : Account honest p live dying)
    (beside : ∀ e ∈ dying, e.1 ≠ p.fds.lowest) :
    Account honest p.openFile.2 ((p.openFile.1, .file p.made) :: live) dying :=
  account.takeBeside (.file p.made) (p.made + 1) (Nat.le_succ _) (Nat.lt_succ_self _)
    (account.fresh (Nat.lt_irrefl _)) beside

theorem openFile (account : Account honest p live []) :
    Account honest p.openFile.2 ((p.openFile.1, .file p.made) :: live) [] :=
  account.openBeside (fun _ impossible => by cases impossible)

/-- `pipe` enters both ends. -/
theorem pipe (account : Account honest p live []) :
    Account honest p.pipe.2.2
      ((p.pipe.2.1, .writeEnd p.made) :: (p.pipe.1, .readEnd p.made) :: live) [] := by
  have one := account.take (.readEnd p.made) (p.made + 1) (Nat.le_succ _) (Nat.lt_succ_self _)
    (fun e member => account.fresh (Nat.lt_irrefl _) e (List.mem_append_left [] member))
  apply one.take (.writeEnd p.made) (p.made + 1) (Nat.le_refl _) (Nat.lt_succ_self _)
  intro e member
  rcases List.mem_cons.mp member with rfl | old
  · simp
  · exact account.fresh (o := .writeEnd p.made) (Nat.lt_irrefl _) e (List.mem_append_left [] old)

/-- What happens to the standard descriptors alone keeps every entry, as long as
they stay open. -/
theorem standardOnly (account : Account honest p live dying) {q : Process}
    (above : ∀ n : Int, 3 ≤ n → q.object n = p.object n)
    (opened : ∀ n : Int, 0 ≤ n → n < 3 → q.object n ≠ none) (made : q.made = p.made)
    (closes : q.closes = p.closes) : Account honest q live dying where
  stands e member := by
    rw [above e.1 (account.above e (List.mem_append_left dying member))]
    exact account.stands e member
  loose e member := by
    rw [above e.1 (account.above e (List.mem_append_right live member))]
    exact account.loose e member
  apart := account.apart
  known e member := by
    rw [made]
    exact account.known e member
  above := account.above
  standard := opened
  proper := by
    rw [closes]
    exact account.proper

/-- `dup2` onto a standard descriptor keeps every entry. -/
theorem dup2 (account : Account honest p live dying) (old new : Int)
    (nonneg : 0 ≤ new) (below : new < 3) : Account honest (p.dup2 old new) live dying := by
  refine account.standardOnly ?_ ?_ (p.made_dup2 old new) (p.closes_dup2 old new)
  · intro n high
    exact p.object_dup2 old new n (by omega)
  · intro m nonneg' below'
    by_cases same : m = new
    · subst same
      exact p.object_dup2_open old m nonneg (.inr (account.standard m nonneg below))
    · rw [Process.object_dup2 p old new m same]
      exact account.standard m nonneg' below'

/-- Nothing is relied on but the standard descriptors. -/
theorem standardAlone (standard : ∀ n : Int, 0 ≤ n → n < 3 → p.object n ≠ none)
    (proper : honest → ∀ c ∈ p.closes, c.Proper) : Account honest p [] [] where
  stands e member := by cases member
  loose e member := by cases member
  apart := List.nodup_nil
  known e member := by cases member
  above e member := by cases member
  standard := standard
  proper := proper

/-- The account at the start. -/
theorem initial : Account honest Process.initial [] [] := by
  apply standardAlone
  · intro n nonneg below
    have among : n = 0 ∨ n = 1 ∨ n = 2 := by omega
    rcases among with rfl | rfl | rfl <;> decide
  · intro _ c member
    cases member

end Account

/-- Some descriptors are closed, and nothing happens to any other. -/
def Shuts (p q : Process) : Prop := ∀ n, q.object n = none ∨ q.object n = p.object n

namespace Shuts

variable {p q r : Process}

theorem refl (p : Process) : Shuts p p := fun _ => .inr rfl

theorem trans (first : Shuts p q) (second : Shuts q r) : Shuts p r := by
  intro n
  rcases second n with closed | same
  · exact .inl closed
  · rw [same]
    exact first n

theorem closeEnd (p : Process) (n : Int) (meant : Option Object) :
    Shuts p (p.closeEnd n meant) := by
  intro m
  rw [Process.object_closeEnd]
  split
  · exact .inl rfl
  · exact .inr rfl

theorem close (p : Process) (n : Int) : Shuts p (p.close n) := closeEnd p n none

/-- What is closed stays closed. -/
theorem absent (shuts : Shuts p q) {n : Int} (closed : p.object n = none) : q.object n = none := by
  rcases shuts n with gone | same
  · exact gone
  · rw [same, closed]

/-- What is open was open. -/
theorem opened (shuts : Shuts p q) {n : Int} {o : Object} (found : q.object n = some o) :
    p.object n = some o := by
  rcases shuts n with gone | same
  · rw [gone] at found
    cases found
  · rw [← same, found]

end Shuts

/-- Above the standard descriptors nothing is open but the entries, each under its number. With an
account of the entries it says exactly what is open. -/
def Confined (p : Process) (entries : List (Int × Object)) : Prop :=
  ∀ n o, 3 ≤ n → p.object n = some o → (n, o) ∈ entries

namespace Confined

variable {p q : Process} {entries others : List (Int × Object)}

theorem mono (confined : Confined p entries) (sub : entries ⊆ others) : Confined p others :=
  fun n o high found => sub (confined n o high found)

/-- After some closes every entry has to be listed still or be closed. -/
theorem shut (confined : Confined p entries) (shuts : Shuts p q)
    (left : ∀ e ∈ entries, e ∈ others ∨ q.object e.1 = none) : Confined q others := by
  intro n o high found
  rcases left (n, o) (confined n o high (shuts.opened found)) with listed | closed
  · exact listed
  · rw [show q.object n = none from closed] at found
    cases found

/-- What happens to the standard descriptors does not matter. -/
theorem above (confined : Confined p entries)
    (same : ∀ n : Int, 3 ≤ n → q.object n = p.object n) : Confined q entries := by
  intro n o high found
  rw [same n high] at found
  exact confined n o high found

/-- A descriptor that is handed out is entered. -/
theorem put (confined : Confined p entries) (made : Nat) (o : Object) :
    Confined ⟨p.fds.put p.fds.lowest o, made, p.closes⟩ ((p.fds.lowest, o) :: entries) := by
  intro n object high found
  rw [Process.object_put_nat] at found
  split at found
  · rename_i same
    cases found
    rw [same]
    exact List.mem_cons_self
  · exact List.mem_cons_of_mem _ (confined n object high found)

theorem accept (confined : Confined p entries) :
    Confined p.accept.2 ((p.accept.1, .socket p.made) :: entries) := confined.put _ _

theorem openFile (confined : Confined p entries) :
    Confined p.openFile.2 ((p.openFile.1, .file p.made) :: entries) := confined.put _ _

theorem pipe (confined : Confined p entries) : Confined p.pipe.2.2
    ((p.pipe.2.1, .writeEnd p.made) :: (p.pipe.1, .readEnd p.made) :: entries) :=
  (confined.put p.made (.readEnd p.made)).put _ _

theorem dup2 (confined : Confined p entries) (old new : Int) (below : new < 3) :
    Confined (p.dup2 old new) entries :=
  confined.above (fun n high => p.object_dup2 old new n (by omega))

end Confined

/-- A file opened for a redirection is left open. -/
theorem openAs_account {honest : Prop} {p : Process} {files entries : List (Int × Object)}
    (opens : Bool) (account : Account honest p (files ++ entries) []) : ∃ more, files ⊆ more ∧
      Account honest (openAs opens p).2 (more ++ entries) [] ∧
      ((openAs opens p).1 < 0 ∨
        opens = true ∧ ∃ serial, ((openAs opens p).1, .file serial) ∈ more) := by
  cases opens with
  | false => exact ⟨files, List.Subset.refl _, account, .inl (by simp [openAs])⟩
  | true =>
    refine ⟨_ :: files, List.subset_cons_self _ _, account.openFile, .inr ⟨rfl, p.made, ?_⟩⟩
    exact List.mem_cons_self

end NetProg
