import Mathlib.Data.Finset.Card
import Mathlib.Data.Finset.Image
import NetProg.CText
import NetProg.Process

/-!
# What a call of ExecCmd is given

The three shells give `ExecCmd` the same things under different numbers. An issue is
a call without what differs by design: a descriptor is either the default one of its
shell, or it is known by what it stands for. The pipes and files of a sequence of
issues are numbered in the order they were made, by the rank of their serial numbers,
so that two shells issue the same when their numbered issues are equal.
-/

namespace NetProg.Common

/-- Where a descriptor leads: the default of the shell, the result of an `open` that failed, a
number that is not open, or an object. The numbers of the descriptors are gone here, since the
three shells give the same objects different ones. -/
inductive Port where
  | standard
  | failed
  | closed
  | object (o : Object)
  deriving DecidableEq

/-- What a descriptor is, with the default it may be and the object it stands for. -/
def port (default fd : Int) (o : Option Object) : Port :=
  if fd = default then .standard
  else if fd < 0 then .failed
  else
    match o with
    | none => .closed
    | some o => .object o

theorem port_default {default : Int} {o : Option Object} : port default default o = .standard :=
  if_pos rfl

theorem port_negative {default fd : Int} {o : Option Object} (other : fd ≠ default)
    (negative : fd < 0) : port default fd o = .failed :=
  (if_neg other).trans (if_pos negative)

theorem port_closed {default fd : Int} (other : fd ≠ default) (notNegative : ¬ fd < 0) :
    port default fd none = .closed :=
  (if_neg other).trans (if_neg notNegative)

theorem port_object {default fd : Int} {o : Object} (other : fd ≠ default)
    (notNegative : ¬ fd < 0) : port default fd (some o) = .object o :=
  (if_neg other).trans (if_neg notNegative)

/-- A call of `ExecCmd`, as far as it can be compared between the shells: the arguments, where the
three descriptors of the command lead, and what it is told about the line and about pipes. -/
structure Issue where
  arguments : List Str
  lineEnds : Bool
  isUsingPipe : Bool
  input : Port
  output : Port
  error : Port
  deriving DecidableEq

/-- The object with another serial number. -/
def relabel (f : Nat → Nat) : Object → Object
  | .terminal => .terminal
  | .listener => .listener
  | .socket serial => .socket (f serial)
  | .file serial => .file (f serial)
  | .readEnd serial => .readEnd (f serial)
  | .writeEnd serial => .writeEnd (f serial)

/-- The serial number of an object, if it has one. -/
def serial : Object → List Nat
  | .terminal | .listener => []
  | .socket serial | .file serial | .readEnd serial | .writeEnd serial => [serial]

namespace Port

/-- Serial numbers in it are renamed; a standard descriptor and a closed one have none. -/
def relabel (f : Nat → Nat) : Port → Port
  | .standard => .standard
  | .failed => .failed
  | .closed => .closed
  | .object o => .object (Common.relabel f o)

/-- The serial numbers in it: at most one. -/
def serials : Port → List Nat
  | .standard | .failed | .closed => []
  | .object o => serial o

end Port

namespace Issue

/-- Renaming of serial numbers in all three connections; the program and its arguments stay. -/
def relabel (f : Nat → Nat) (issue : Issue) : Issue :=
  { issue with
    input := issue.input.relabel f
    output := issue.output.relabel f
    error := issue.error.relabel f }

/-- The serial numbers in a call, from its input to its error output. -/
def serials (issue : Issue) : List Nat :=
  issue.input.serials ++ issue.output.serials ++ issue.error.serials

end Issue

/-- How many of some serial numbers are smaller. -/
def rank (serials : List Nat) (n : Nat) : Nat := (serials.toFinset.filter (· < n)).card

/-- The issues with their objects numbered in the order they were made. -/
def numbered (issues : List Issue) : List Issue :=
  issues.map (Issue.relabel (rank (issues.flatMap Issue.serials)))

section Relabel

variable {f g : Nat → Nat}

theorem Port.relabel_congr {port : Port} (same : ∀ n ∈ port.serials, f n = g n) :
    port.relabel f = port.relabel g := by
  cases port with
  | object o => cases o <;> simp_all [relabel, Common.relabel, serials, serial]
  | standard | failed | closed => rfl

theorem Port.relabel_relabel (port : Port) : (port.relabel f).relabel g = port.relabel (g ∘ f) := by
  cases port with
  | object o => cases o <;> rfl
  | standard | failed | closed => rfl

theorem Port.serials_relabel (port : Port) : (port.relabel f).serials = port.serials.map f := by
  cases port with
  | object o => cases o <;> rfl
  | standard | failed | closed => rfl

/-- Only the serial numbers that occur matter. -/
theorem Issue.relabel_congr {issue : Issue} (same : ∀ n ∈ issue.serials, f n = g n) :
    issue.relabel f = issue.relabel g := by
  have input : ∀ n ∈ issue.input.serials, f n = g n :=
    fun n member => same n (List.mem_append_left _ (List.mem_append_left _ member))
  have output : ∀ n ∈ issue.output.serials, f n = g n :=
    fun n member => same n (List.mem_append_left _ (List.mem_append_right _ member))
  have error : ∀ n ∈ issue.error.serials, f n = g n :=
    fun n member => same n (List.mem_append_right _ member)
  simp only [relabel, Port.relabel_congr input, Port.relabel_congr output,
    Port.relabel_congr error]

theorem Issue.relabel_relabel (issue : Issue) :
    (issue.relabel f).relabel g = issue.relabel (g ∘ f) := by
  simp only [relabel, Port.relabel_relabel]

theorem Issue.serials_relabel (issue : Issue) :
    (issue.relabel f).serials = issue.serials.map f := by
  simp only [serials, relabel, Port.serials_relabel, List.map_append]

end Relabel

/-- A map that keeps the order of some serial numbers keeps their ranks. -/
theorem rank_map {serials : List Nat} {f : Nat → Nat}
    (ordered : ∀ a ∈ serials, ∀ b ∈ serials, a < b → f a < f b) {n : Nat} (member : n ∈ serials) :
    rank (serials.map f) (f n) = rank serials n := by
  have smaller : ∀ a ∈ serials, (f a < f n ↔ a < n) := by
    intro a isOne
    constructor
    · intro below
      rcases Nat.lt_trichotomy a n with less | same | more
      · exact less
      · rw [same] at below
        omega
      · have above := ordered n member a isOne more
        omega
    · exact ordered a isOne n member
  have injective : Set.InjOn f (serials.toFinset.filter (· < n)) := by
    intro a isOne b isOther same
    have first : a ∈ serials := List.mem_toFinset.mp (Finset.mem_filter.mp isOne).1
    have second : b ∈ serials := List.mem_toFinset.mp (Finset.mem_filter.mp isOther).1
    rcases Nat.lt_trichotomy a b with less | equal | more
    · have apart := ordered a first b second less
      omega
    · exact equal
    · have apart := ordered b second a first more
      omega
  have image : (serials.map f).toFinset.filter (· < f n) =
      (serials.toFinset.filter (· < n)).image f := by
    ext m
    simp only [Finset.mem_filter, List.mem_toFinset, List.mem_map, Finset.mem_image]
    constructor
    · rintro ⟨⟨a, isOne, rfl⟩, below⟩
      exact ⟨a, ⟨isOne, (smaller a isOne).mp below⟩, rfl⟩
    · rintro ⟨a, ⟨isOne, below⟩, rfl⟩
      exact ⟨⟨a, isOne, rfl⟩, (smaller a isOne).mpr below⟩
  rw [rank, image, Finset.card_image_of_injOn injective, rank]

/-- Issues whose serial numbers are replaced in order are numbered the same. -/
theorem numbered_relabel {issues : List Issue} {f : Nat → Nat}
    (ordered : ∀ a ∈ issues.flatMap Issue.serials, ∀ b ∈ issues.flatMap Issue.serials,
      a < b → f a < f b) : numbered (issues.map (Issue.relabel f)) = numbered issues := by
  have serials : (issues.map (Issue.relabel f)).flatMap Issue.serials =
      (issues.flatMap Issue.serials).map f := by
    rw [List.flatMap_map, List.map_flatMap]
    exact List.flatMap_congr (fun issue _ => issue.serials_relabel)
  rw [numbered, serials, numbered, List.map_map]
  refine List.map_congr_left (fun issue member => ?_)
  rw [Function.comp_apply, Issue.relabel_relabel]
  refine Issue.relabel_congr (fun n occurs => ?_)
  exact rank_map ordered (List.mem_flatMap.mpr ⟨issue, member, occurs⟩)

end NetProg.Common
