import NetProg.MultiProc.Fifos
import NetProg.Library.Runs

/-!
# Clean-ups among the other accesses

The processes of the clients, the handlers in them and the children they fork share the
table of the clients, the records of the user pipes and the FIFO files, and nothing locks
them. Here a step is one access that changes something: a slot is marked or given back, one
field of a record is written, a file is made or removed. They come in any order; who makes
them, and what he has looked at before, is left open, so that every interleaving of the
processes is a run, and many more are.

One process is followed more closely: the one whose client has left. After it has given the
slot back it goes through the records to its id, one after the other, looks whether one has
been opened, and if so empties its fields one by one and removes its file. All the while the
other processes go on, and the id may be given to another client. So a client is known by its
id together with its turn, which counts how often the id has been given; and beside each record
stands for which two clients it was last written. The processes know nothing of this.

The result is about the clients that have left and whose clean-up is done: there is nothing of
a pipe from or to them, neither while their ids are free nor when others have them. The
invariant says who answers for a record that is not empty: its source is logged in or is being
cleaned up after, and its target is logged in, or a clean-up after it has yet to come to the
record or is emptying it, and what remains of that is enough.
-/

namespace NetProg.MultiProc

open Runs

/-- The record of a user pipe, and whether its file is there. Both are shared by all processes,
and no lock keeps two of them apart. -/
structure Cell where
  record : Fifo
  file : Bool
  deriving DecidableEq

/-- Nothing of a pipe. -/
def Cell.Nothing (c : Cell) : Prop := c.record = .empty ∧ c.file = false

instance (c : Cell) : Decidable c.Nothing := inferInstanceAs (Decidable (_ ∧ _))

/-- One access that changes a cell: a field of its record is written, `mkfifo`, or `unlink`
of the name in the record. Names are either written as that of the file or emptied. -/
inductive Field where
  | outFd (fd : Int)
  | inFd (fd : Int)
  | isUsed (used : Bool)
  | file (there : Bool)
  | name (there : Bool)
  deriving DecidableEq

namespace Field

/-- The cell after the access. -/
def written (path : Str) (c : Cell) : Field → Cell
  | outFd fd => { c with record := { c.record with outFd := fd } }
  | inFd fd => { c with record := { c.record with inFd := fd } }
  | isUsed used => { c with record := { c.record with isUsed := used } }
  | file true => { c with file := true }
  | file false => { c with file := c.file && c.record.name ≠ path }
  | name true => { c with record := { c.record with name := path } }
  | name false => { c with record := { c.record with name := [] } }

/-- The access empties what it writes. -/
def empties : Field → Bool
  | outFd fd | inFd fd => fd = -1
  | isUsed there | file there | name there => !there

end Field

/-- What the clean-up writes in a record that was opened, in this order. -/
def wipes : List Field :=
  [.outFd (-1), .inFd (-1), .isUsed false, .file false, .name false]

/-- The clean-up after a client: its id and turn, the sources it has not come to yet, and the
source whose record it is emptying, with how many accesses of that it has made. -/
structure Sweep where
  id : Nat
  turn : Nat
  rest : List Nat
  wiping : Option (Nat × Nat)
  deriving DecidableEq

/-- Which ids are marked as taken, the user pipes, and the clean-ups under way by the numbers
of their processes. Only counted, and stored nowhere in the program, are how often each id has
been given, and for which turns of its two ids a pipe has last been written to its cell. -/
structure SharedMemory where
  valid : Nat → Bool
  turn : Nat → Nat
  cells : Nat → Nat → Cell
  turns : Nat → Nat → Nat × Nat
  sweeps : Nat → Option Sweep

/-- One access: a slot is marked, a cell is changed for a pipe between clients of these turns,
the process of a client gives its slot back, or goes on with its clean-up. -/
inductive Access where
  | marks (id : Nat)
  | writes (turns : Nat × Nat) (u v : Nat) (field : Field)
  | leaves (pid id : Nat)
  | continues (pid : Nat)

namespace SharedMemory

/-- Before the first client. -/
def initial : SharedMemory :=
  ⟨fun _ => false, fun _ => 0, fun _ _ => ⟨.empty, false⟩, fun _ _ => (0, 0), fun _ => none⟩

/-- An access to a cell. What is only emptied is still the pipe that it was. -/
def write (s : SharedMemory) (turns : Nat × Nat) (u v : Nat) (field : Field) : SharedMemory :=
  { s with
    cells := fun a b =>
      if a = u ∧ b = v then field.written (fifoPath u v) (s.cells u v) else s.cells a b
    turns := fun a b =>
      if a = u ∧ b = v ∧ field.empties = false then turns else s.turns a b }

/-- A process goes on with its clean-up, or has none any more. -/
def withSweep (s : SharedMemory) (pid : Nat) (sweep : Option Sweep) : SharedMemory :=
  { s with sweeps := Function.update s.sweeps pid sweep }

/-- The next thing a clean-up does: an access of the emptying, or the look at the next record,
which goes on to its emptying when the record was opened. -/
def goesOn (s : SharedMemory) (pid : Nat) (sweep : Sweep) : SharedMemory :=
  match sweep.wiping with
  | some (u, n) =>
    match wipes[n]? with
    | some field => (s.write (s.turns u sweep.id) u sweep.id field).withSweep pid
        (some { sweep with wiping := some (u, n + 1) })
    | none => s.withSweep pid (some { sweep with wiping := none })
  | none =>
    match sweep.rest with
    | [] => s.withSweep pid none
    | u :: rest => s.withSweep pid (some { sweep with
        rest := rest
        wiping := if (s.cells u sweep.id).record.outFd ≠ -1 then some (u, 0) else none })

/-- What an access does. An id that is free when it is marked has a new client. -/
def next (s : SharedMemory) : Access → SharedMemory
  | .marks id =>
    if s.valid id then s
    else { s with
      valid := Function.update s.valid id true
      turn := Function.update s.turn id (s.turn id + 1) }
  | .writes turns u v field => s.write turns u v field
  | .leaves pid id => { s.withSweep pid (some ⟨id, s.turn id, ids, none⟩) with
      valid := Function.update s.valid id false }
  | .continues pid => (s.sweeps pid).elim s (s.goesOn pid)

/-- The ids are those of the slots, and a process leaves once. Every cell can be written at any
time. -/
def Offers (s : SharedMemory) : Access → Prop
  | .marks id => id ∈ ids
  | .writes _ _ _ _ => True
  | .leaves pid id => s.sweeps pid = none ∧ id ∈ ids
  | .continues pid => (s.sweeps pid).isSome = true

/-- The client with this id and turn is logged in. An id is given again and again, so it does not
tell by itself for whom a record was written. -/
def Here (s : SharedMemory) (id turn : Nat) : Prop := s.valid id = true ∧ s.turn id = turn

/-- Some clean-up after the client is under way. -/
def Swept (s : SharedMemory) (id turn : Nat) : Prop :=
  ∃ pid sweep, s.sweeps pid = some sweep ∧ sweep.id = id ∧ sweep.turn = turn

/-- Nothing of a pipe from or to the id is left. -/
def Vacant (s : SharedMemory) (id : Nat) : Prop :=
  ∀ i, (s.cells id i).Nothing ∧ (s.cells i id).Nothing

/-- Nothing is left of the clients that have left and whose clean-ups are done: an id that no
client has, and after which nobody cleans up, is vacant; and what is in a record, or its file, is
of a pipe between two clients each of whom is logged in or is still being cleaned up after, so
that nobody who gets an id finds a pipe of one who had it before. -/
structure Vacated (s : SharedMemory) : Prop where
  vacant : ∀ id, s.valid id = false → (∀ turn, ¬ s.Swept id turn) → s.Vacant id
  owned : ∀ u v, ¬ (s.cells u v).Nothing →
    (s.Here u (s.turns u v).1 ∨ s.Swept u (s.turns u v).1) ∧
    (s.Here v (s.turns u v).2 ∨ s.Swept v (s.turns u v).2)

/-- Where the clean-up looks at a record, there is nothing, or it was opened and its file has its
name: so it is emptied, and the file removed. -/
def Ready (s : SharedMemory) (u v : Nat) : Prop :=
  (s.cells u v).Nothing ∨ (s.cells u v).record.outFd ≠ -1 ∧
    ((s.cells u v).file = true → (s.cells u v).record.name = fifoPath u v)

/-- What keeps the ids vacant. A cell is only written for a pipe between clients who are both
still logged in, and only when it is empty or already that pipe's; or it is emptied, its name
only when the file is gone or the client that the pipe leads to is logged in. A clean-up that
looks at a record finds no pipe to its client, or one that was opened; and when it ends, it
leaves no pipe that its client has sent, unless another clean-up after the same client is still
under way. -/
def Tidy (s : SharedMemory) : Access → Prop
  | .writes turns u v field =>
      s.Here u turns.1 ∧ s.Here v turns.2 ∧ ((s.cells u v).Nothing ∨ s.turns u v = turns) ∨
      field.empties = true ∧
        (field = .name false → s.Here v (s.turns u v).2 ∨ (s.cells u v).file = false)
  | .continues pid => ∀ sweep, s.sweeps pid = some sweep →
      (∀ u n, sweep.wiping = some (u, n) → wipes[n]? = some (.name false) →
        s.Here sweep.id (s.turns u sweep.id).2 ∨ (s.cells u sweep.id).file = false) ∧
      (sweep.wiping = none → ∀ u rest, sweep.rest = u :: rest →
        (s.turns u sweep.id).2 = sweep.turn → s.Ready u sweep.id) ∧
      (sweep.wiping = none → sweep.rest = [] → (s.withSweep pid none).Swept sweep.id sweep.turn ∨
        ∀ v ∈ ids, (s.turns sweep.id v).1 = sweep.turn → (s.cells sweep.id v).Nothing)
  | .marks _ | .leaves _ _ => True

end SharedMemory

/-- All accesses to the shared memory and the files, in any order. Lines, handlers and clean-ups
of all processes are sequences of these, and any of them may come between two others. -/
def sharing : System SharedMemory Access Empty where
  start := .initial
  offers := SharedMemory.Offers
  serve s access := .ok (s.next access)

/-! ## Cells -/

namespace Cell

variable {c : Cell} {path : Str} {field : Field} {n : Nat}

/-- What is left to be written of `wipes` after its first `n` is enough to leave nothing. -/
structure Wiped (c : Cell) (path : Str) (n : Nat) : Prop where
  outFd : 0 < n → c.record.outFd = -1
  inFd : 1 < n → c.record.inFd = -1
  isUsed : 2 < n → c.record.isUsed = false
  file : c.file = true → n ≤ 3 ∧ c.record.name = path
  name : 4 < n → c.record.name = []

theorem Wiped.nothing (wiped : c.Wiped path n) (all : 5 ≤ n) : c.Nothing := by
  obtain ⟨⟨name, isUsed, inFd, outFd⟩, file⟩ := c
  have isOut : outFd = -1 := wiped.outFd (by omega)
  have isIn : inFd = -1 := wiped.inFd (by omega)
  have unused : isUsed = false := wiped.isUsed (by omega)
  have unnamed : name = [] := wiped.name (by omega)
  have gone : file = false := by
    by_contra there
    have early := (wiped.file (by simpa using there)).1
    omega
  subst isOut isIn unused unnamed gone
  exact ⟨rfl, rfl⟩

/-- What is emptied of nothing leaves nothing. -/
theorem Nothing.written (nothing : c.Nothing) (empties : field.empties = true) :
    (field.written path c).Nothing := by
  obtain ⟨record, file⟩ := c
  obtain ⟨rfl, rfl⟩ : record = .empty ∧ file = false := nothing
  cases field with
  | outFd fd | inFd fd =>
    obtain rfl : fd = -1 := by simpa [Field.empties] using empties
    exact ⟨rfl, rfl⟩
  | isUsed there | file there | name there =>
    obtain rfl : there = false := by simpa [Field.empties] using empties
    exact ⟨rfl, rfl⟩

/-- Another process that empties a field does not undo what was wiped. -/
theorem Wiped.other (wiped : c.Wiped path n) (empties : field.empties = true)
    (named : field = .name false → c.file = false) : (field.written path c).Wiped path n := by
  cases field with
  | outFd fd =>
    obtain rfl : fd = -1 := by simpa [Field.empties] using empties
    exact ⟨fun _ => rfl, wiped.inFd, wiped.isUsed, wiped.file, wiped.name⟩
  | inFd fd =>
    obtain rfl : fd = -1 := by simpa [Field.empties] using empties
    exact ⟨wiped.outFd, fun _ => rfl, wiped.isUsed, wiped.file, wiped.name⟩
  | isUsed there =>
    obtain rfl : there = false := by simpa [Field.empties] using empties
    exact ⟨wiped.outFd, wiped.inFd, fun _ => rfl, wiped.file, wiped.name⟩
  | file there =>
    obtain rfl : there = false := by simpa [Field.empties] using empties
    refine ⟨wiped.outFd, wiped.inFd, wiped.isUsed, fun still => ?_, wiped.name⟩
    exact wiped.file (Bool.and_eq_true_iff.mp still).1
  | name there =>
    obtain rfl : there = false := by simpa [Field.empties] using empties
    refine ⟨wiped.outFd, wiped.inFd, wiped.isUsed, fun still => ?_, fun _ => rfl⟩
    have gone := named rfl
    rw [show c.file = true from still] at gone
    cases gone

/-- After the next access of the emptying, by the few accesses that an emptying has. -/
theorem Wiped.step (wiped : (field.written path c).Wiped path n)
    (isNext : wipes[n]? = some field) : (field.written path c).Wiped path (n + 1) := by
  have few : n < 5 := (List.getElem?_eq_some_iff.mp isNext).1
  obtain ⟨outFd, inFd, isUsed, file, -⟩ := wiped
  match n, few with
  | 0, _ =>
    cases isNext
    exact ⟨fun _ => rfl, by omega, by omega, fun there => ⟨by omega, (file there).2⟩, by omega⟩
  | 1, _ =>
    cases isNext
    exact ⟨fun _ => outFd (by omega), fun _ => rfl, by omega,
      fun there => ⟨by omega, (file there).2⟩, by omega⟩
  | 2, _ =>
    cases isNext
    exact ⟨fun _ => outFd (by omega), fun _ => inFd (by omega), fun _ => rfl,
      fun there => ⟨by omega, (file there).2⟩, by omega⟩
  | 3, _ =>
    cases isNext
    refine ⟨fun _ => outFd (by omega), fun _ => inFd (by omega), fun _ => isUsed (by omega),
      fun there => ?_, by omega⟩
    -- `unlink` has left the file only where it has another name
    have other : c.record.name ≠ path := by
      simpa using (Bool.and_eq_true_iff.mp there).2
    exact absurd (file there).2 other
  | 4, _ =>
    cases isNext
    refine ⟨fun _ => outFd (by omega), fun _ => inFd (by omega), fun _ => isUsed (by omega),
      fun there => ?_, fun _ => rfl⟩
    have early := (file there).1
    omega

end Cell

/-! ## Who answers for a record -/

/-- The clean-up has yet to come to the record from this source, or it is emptying it, and what
remains of that is enough. -/
def Sweep.Covers (sweep : Sweep) (s : SharedMemory) (u : Nat) : Prop :=
  u ∈ sweep.rest ∨ ∃ n, sweep.wiping = some (u, n) ∧
    (s.cells u sweep.id).Wiped (fifoPath u sweep.id) n

namespace SharedMemory

/-- Some clean-up after the client that the record leads to covers it. -/
def Covered (s : SharedMemory) (u v : Nat) : Prop :=
  ∃ pid sweep, s.sweeps pid = some sweep ∧ sweep.id = v ∧ sweep.turn = (s.turns u v).2 ∧
    sweep.Covers s u

/-- The ids are those of the slots. A record that is not empty has a source which is logged in
or cleaned up after, and a target which is logged in, or a clean-up after it that covers the
record. -/
structure Kept (s : SharedMemory) : Prop where
  valid : ∀ id, s.valid id = true → id ∈ ids
  sweeps : ∀ pid sweep, s.sweeps pid = some sweep → sweep.id ∈ ids
  sources : ∀ u v, ¬ (s.cells u v).Nothing →
    s.Here u (s.turns u v).1 ∨ s.Swept u (s.turns u v).1
  targets : ∀ u v, ¬ (s.cells u v).Nothing → s.Here v (s.turns u v).2 ∨ s.Covered u v

variable {s : SharedMemory} {pid : Nat} {sweep : Sweep}

theorem Covered.swept {u v : Nat} (covered : s.Covered u v) : s.Swept v (s.turns u v).2 := by
  obtain ⟨pid, sweep, found, isId, isTurn, -⟩ := covered
  exact ⟨pid, sweep, found, isId, isTurn⟩

/-- The record of an id that is neither taken nor cleaned up after has nobody to answer for it. -/
theorem Kept.vacated (kept : s.Kept) : s.Vacated := by
  refine ⟨fun id left notSwept i => ⟨?_, ?_⟩, fun u v there =>
    ⟨kept.sources u v there, (kept.targets u v there).imp_right Covered.swept⟩⟩
  · by_contra there
    rcases kept.sources id i there with ⟨valid, -⟩ | swept
    · rw [left] at valid
      cases valid
    · exact notSwept _ swept
  · by_contra there
    rcases kept.targets i id there with ⟨valid, -⟩ | covered
    · rw [left] at valid
      cases valid
    · exact notSwept _ covered.swept

theorem Kept.ids_of (kept : s.Kept) {u v : Nat} (there : ¬ (s.cells u v).Nothing) :
    u ∈ ids ∧ v ∈ ids := by
  constructor
  · rcases kept.sources u v there with ⟨valid, -⟩ | ⟨pid, sweep, found, rfl, -⟩
    · exact kept.valid u valid
    · exact kept.sweeps pid sweep found
  · rcases kept.targets u v there with ⟨valid, -⟩ | ⟨pid, sweep, found, rfl, -⟩
    · exact kept.valid v valid
    · exact kept.sweeps pid sweep found

theorem cells_write (s : SharedMemory) (turns : Nat × Nat) (u v : Nat) (field : Field)
    (a b : Nat) : (s.write turns u v field).cells a b =
      if a = u ∧ b = v then field.written (fifoPath u v) (s.cells u v) else s.cells a b := rfl

theorem turns_write (s : SharedMemory) (turns : Nat × Nat) (u v : Nat) (field : Field)
    (a b : Nat) : (s.write turns u v field).turns a b =
      if a = u ∧ b = v ∧ field.empties = false then turns else s.turns a b := rfl

theorem sweeps_self (s : SharedMemory) (pid : Nat) (later : Option Sweep) :
    (s.withSweep pid later).sweeps pid = later := Function.update_self ..

theorem sweeps_other (s : SharedMemory) {pid p : Nat} (later : Option Sweep) (other : p ≠ pid) :
    (s.withSweep pid later).sweeps p = s.sweeps p := Function.update_of_ne other ..

/-- What a cell holds after an access is of a pipe between clients who are logged in, or it held
something of the same pipe before. -/
theorem write_cases {turns : Nat × Nat} {u v : Nat} {field : Field}
    (tidy : s.Tidy (.writes turns u v field)) {a b : Nat}
    (there : ¬ ((s.write turns u v field).cells a b).Nothing) :
    s.Here a ((s.write turns u v field).turns a b).1 ∧
        s.Here b ((s.write turns u v field).turns a b).2 ∨
      ¬ (s.cells a b).Nothing ∧ (s.write turns u v field).turns a b = s.turns a b := by
  rw [cells_write] at there
  rw [turns_write]
  by_cases own : a = u ∧ b = v
  · obtain ⟨rfl, rfl⟩ := own
    rw [if_pos ⟨rfl, rfl⟩] at there
    cases empties : field.empties with
    | false =>
      rcases tidy with ⟨source, target, -⟩ | ⟨impossible, -⟩
      · rw [if_pos ⟨rfl, rfl, rfl⟩]
        exact .inl ⟨source, target⟩
      · rw [empties] at impossible
        cases impossible
    | true =>
      rw [if_neg (fun changes => by cases changes.2.2)]
      exact .inr ⟨fun nothing => there (nothing.written empties), rfl⟩
  · rw [if_neg own] at there
    rw [if_neg (fun changes => own ⟨changes.1, changes.2.1⟩)]
    exact .inr ⟨there, rfl⟩

/-- A clean-up covers what it has covered, if nobody else empties the name of a file that is
still there. -/
theorem Covered.write {turns : Nat × Nat} {u v : Nat} {field : Field} {a b : Nat}
    (covered : s.Covered a b) (same : (s.write turns u v field).turns a b = s.turns a b)
    (empties : a = u ∧ b = v → field.empties = true)
    (named : a = u ∧ b = v → field = .name false → (s.cells a b).file = false) :
    (s.write turns u v field).Covered a b := by
  obtain ⟨pid, sweep, found, rfl, isTurn, covers⟩ := covered
  refine ⟨pid, sweep, found, rfl, isTurn.trans (congrArg Prod.snd same.symm), ?_⟩
  rcases covers with later | ⟨n, wiping, wiped⟩
  · exact .inl later
  · refine .inr ⟨n, wiping, ?_⟩
    rw [cells_write]
    split
    · rename_i own
      obtain ⟨rfl, isId⟩ := own
      subst isId
      exact wiped.other (empties ⟨rfl, rfl⟩) (named ⟨rfl, rfl⟩)
    · exact wiped

/-- A cell is written between two clients, or it is emptied. -/
theorem Kept.write (kept : s.Kept) {turns : Nat × Nat} {u v : Nat} {field : Field}
    (tidy : s.Tidy (.writes turns u v field)) : (s.write turns u v field).Kept := by
  refine ⟨kept.valid, kept.sweeps, fun a b there => ?_, fun a b there => ?_⟩
  · rcases write_cases tidy there with ⟨source, -⟩ | ⟨before, same⟩
    · exact .inl source
    · rw [same]
      exact kept.sources a b before
  · rcases write_cases tidy there with ⟨-, target⟩ | ⟨before, same⟩
    · exact .inl target
    by_cases here : s.Here b (s.turns a b).2
    · rw [same]
      exact .inl here
    · have covered := (kept.targets a b before).resolve_left here
      -- whoever writes here has found the client that the pipe leads to, or only empties
      have emptied : a = u ∧ b = v → field.empties = true ∧
          (field = .name false → (s.cells a b).file = false) := by
        rintro ⟨rfl, rfl⟩
        rcases tidy with ⟨-, target, isPipe⟩ | ⟨empties, named⟩
        · rw [← isPipe.resolve_left before] at target
          exact absurd target here
        · exact ⟨empties, fun isName => (named isName).resolve_left here⟩
      exact .inr (covered.write same (fun own => (emptied own).1) (fun own => (emptied own).2))

/-- A clean-up goes on to another place of its own, from which it covers what it has covered, as
far as that is not empty. It ends when its client has left nothing that it has sent. -/
theorem Kept.withSweep (kept : s.Kept) (found : s.sweeps pid = some sweep)
    {later : Option Sweep}
    (same : ∀ next, later = some next → next.id = sweep.id ∧ next.turn = sweep.turn)
    (ends : later = none → (s.withSweep pid none).Swept sweep.id sweep.turn ∨
      ∀ v ∈ ids, (s.turns sweep.id v).1 = sweep.turn → (s.cells sweep.id v).Nothing)
    (covers : ∀ u, sweep.Covers s u → (s.turns u sweep.id).2 = sweep.turn →
      ¬ (s.cells u sweep.id).Nothing → ∃ next, later = some next ∧ next.Covers s u) :
    (s.withSweep pid later).Kept := by
  have others {p : Nat} {x : Sweep} (other : p ≠ pid) (isX : s.sweeps p = some x) :
      (s.withSweep pid later).sweeps p = some x := by
    rw [sweeps_other s later other, isX]
  have here {next : Sweep} (isNext : later = some next) :
      (s.withSweep pid later).sweeps pid = some next := by
    rw [sweeps_self, isNext]
  refine ⟨kept.valid, fun p x isX => ?_, fun u v there => ?_, fun u v there => ?_⟩
  · by_cases own : p = pid
    · subst own
      rw [sweeps_self] at isX
      rw [(same x isX).1]
      exact kept.sweeps p sweep found
    · rw [sweeps_other s later own] at isX
      exact kept.sweeps p x isX
  · rcases kept.sources u v there with here' | ⟨p, x, isX, rfl, isTurn⟩
    · exact .inl here'
    by_cases own : p = pid
    · subst own
      cases found.symm.trans isX
      refine .inr ?_
      cases isLater : later with
      | some next =>
        obtain ⟨sameId, sameTurn⟩ := same next isLater
        exact ⟨p, next, isLater ▸ here isLater, sameId, sameTurn.trans isTurn⟩
      | none =>
        subst isLater
        rcases ends rfl with swept | nothing
        · rw [isTurn] at swept
          exact swept
        · exact absurd (nothing v (kept.ids_of there).2 isTurn.symm) there
    · exact .inr ⟨p, x, others own isX, rfl, isTurn⟩
  · rcases kept.targets u v there with here' | ⟨p, x, isX, rfl, isTurn, covered⟩
    · exact .inl here'
    by_cases own : p = pid
    · subst own
      cases found.symm.trans isX
      obtain ⟨next, isNext, still⟩ := covers u covered isTurn.symm there
      obtain ⟨sameId, sameTurn⟩ := same next isNext
      exact .inr ⟨p, next, here isNext, sameId, sameTurn.trans isTurn, still⟩
    · exact .inr ⟨p, x, others own isX, rfl, isTurn, covered⟩

theorem wipes_empties {n : Nat} {field : Field} (isNext : wipes[n]? = some field) :
    field.empties = true := by
  have all : ∀ field ∈ wipes, field.empties = true := by decide
  exact all field (List.mem_of_getElem? isNext)

/-- A clean-up goes on. At a look it finds a pipe to its client opened, which it covers from the
first access of the emptying on; a pipe to a later holder of the id has him to answer for it.
Each access of the emptying takes `Wiped` one step on. -/
theorem Kept.goesOn (kept : s.Kept) (found : s.sweeps pid = some sweep)
    (tidy : s.Tidy (.continues pid)) : (s.goesOn pid sweep).Kept := by
  obtain ⟨named, looks, ends⟩ := tidy sweep found
  rw [SharedMemory.goesOn]
  cases wiping : sweep.wiping with
  | some place =>
    obtain ⟨u, n⟩ := place
    simp only
    split
    · rename_i field isNext
      have written : (s.write (s.turns u sweep.id) u sweep.id field).Kept :=
        kept.write (.inr ⟨wipes_empties isNext, fun isName => named u n wiping (isName ▸ isNext)⟩)
      have still : (s.write (s.turns u sweep.id) u sweep.id field).sweeps pid = some sweep := found
      refine written.withSweep still (fun next isNext => ?_) (fun none => by cases none) ?_
      · cases isNext
        exact ⟨rfl, rfl⟩
      intro a covers isTurn there
      refine ⟨_, rfl, ?_⟩
      rcases covers with later | ⟨m, isWiping, wiped⟩
      · exact .inl later
      · rw [wiping] at isWiping
        cases isWiping
        refine .inr ⟨n + 1, rfl, ?_⟩
        rw [cells_write, if_pos ⟨rfl, rfl⟩] at wiped ⊢
        exact wiped.step isNext
    · rename_i done
      refine kept.withSweep found (fun next isNext => ?_) (fun none => by cases none) ?_
      · cases isNext
        exact ⟨rfl, rfl⟩
      intro a covers isTurn there
      refine ⟨_, rfl, ?_⟩
      rcases covers with later | ⟨m, isWiping, wiped⟩
      · exact .inl later
      · rw [wiping] at isWiping
        cases isWiping
        have all : 5 ≤ n := List.getElem?_eq_none_iff.mp done
        exact absurd (wiped.nothing all) there
  | none =>
    simp only
    cases remaining : sweep.rest with
    | nil =>
      simp only
      refine kept.withSweep found (fun next isNext => by cases isNext)
        (fun _ => ends wiping remaining) ?_
      rintro a (later | ⟨m, isWiping, -⟩)
      · rw [remaining] at later
        cases later
      · rw [wiping] at isWiping
        cases isWiping
    | cons u rest =>
      simp only
      refine kept.withSweep found (fun next isNext => ?_) (fun none => by cases none) ?_
      · cases isNext
        exact ⟨rfl, rfl⟩
      intro a covers isTurn there
      refine ⟨_, rfl, ?_⟩
      rcases covers with later | ⟨m, isWiping, -⟩
      · rw [remaining] at later
        rcases List.mem_cons.mp later with rfl | later
        · rcases looks wiping a rest remaining isTurn with nothing | ⟨isOpen, isNamed⟩
          · exact absurd nothing there
          · refine .inr ⟨0, if_pos isOpen, ?_⟩
            exact ⟨by omega, by omega, by omega, fun file => ⟨by omega, isNamed file⟩, by omega⟩
        · exact .inl later
      · rw [wiping] at isWiping
        cases isWiping

/-- A client leaves: its slot is given back, and its clean-up has all records before it. -/
theorem Kept.leaves (kept : s.Kept) {id : Nat} (new : s.sweeps pid = none) (isId : id ∈ ids) :
    (s.next (.leaves pid id)).Kept := by
  have own : (s.next (.leaves pid id)).sweeps pid = some ⟨id, s.turn id, ids, none⟩ :=
    s.sweeps_self pid _
  have others {p : Nat} {x : Sweep} (isX : s.sweeps p = some x) :
      (s.next (.leaves pid id)).sweeps p = some x := by
    have other : p ≠ pid := by
      rintro rfl
      rw [new] at isX
      cases isX
    exact (s.sweeps_other _ other).trans isX
  have validOf {a : Nat} (other : a ≠ id) :
      (s.next (.leaves pid id)).valid a = s.valid a := Function.update_of_ne other ..
  refine ⟨fun a valid => ?_, fun p x isX => ?_, fun u v there => ?_, fun u v there => ?_⟩
  · by_cases self : a = id
    · exact self ▸ isId
    · exact kept.valid a (validOf self ▸ valid)
  · by_cases self : p = pid
    · subst self
      rw [own] at isX
      cases isX
      exact isId
    · exact kept.sweeps p x ((s.sweeps_other _ self).symm.trans isX)
  · rcases kept.sources u v there with ⟨valid, isTurn⟩ | ⟨p, x, isX, same⟩
    · by_cases self : u = id
      · subst self
        exact .inr ⟨pid, _, own, rfl, isTurn⟩
      · exact .inl ⟨(validOf self).trans valid, isTurn⟩
    · exact .inr ⟨p, x, others isX, same⟩
  · rcases kept.targets u v there with ⟨valid, isTurn⟩ | ⟨p, x, isX, same, isTurn, covers⟩
    · by_cases self : v = id
      · subst self
        exact .inr ⟨pid, _, own, rfl, isTurn, .inl (kept.ids_of there).1⟩
      · exact .inl ⟨(validOf self).trans valid, isTurn⟩
    · exact .inr ⟨p, x, others isX, same, isTurn, covers⟩

/-- An id is given: who is here stays, and what is left of an earlier client with the id has a
clean-up that answers for it. -/
theorem Kept.marks (kept : s.Kept) {id : Nat} (isId : id ∈ ids) : (s.next (.marks id)).Kept := by
  rw [SharedMemory.next]
  split
  · exact kept
  rename_i free
  have stays {a turn : Nat} (here : s.Here a turn) :
      Function.update s.valid id true a = true ∧
        Function.update s.turn id (s.turn id + 1) a = turn := by
    have other : a ≠ id := by
      rintro rfl
      exact free here.1
    rw [Function.update_of_ne other, Function.update_of_ne other]
    exact here
  refine ⟨fun a valid => ?_, kept.sweeps, fun u v there => ?_, fun u v there => ?_⟩
  · by_cases self : a = id
    · exact self ▸ isId
    · exact kept.valid a ((Function.update_of_ne self ..).symm.trans valid)
  · exact (kept.sources u v there).imp_left stays
  · exact (kept.targets u v there).imp_left stays

/-- Every access that meets the condition keeps who answers for the records. -/
theorem Kept.next (kept : s.Kept) {access : Access} (offered : s.Offers access)
    (tidy : s.Tidy access) : (s.next access).Kept := by
  cases access with
  | marks id => exact kept.marks offered
  | writes turns u v field => exact kept.write tidy
  | leaves pid id => exact kept.leaves offered.1 offered.2
  | continues pid =>
    obtain ⟨sweep, found⟩ := Option.isSome_iff_exists.mp offered
    rw [SharedMemory.next, found]
    exact kept.goesOn found tidy

theorem initial_kept : initial.Kept :=
  ⟨fun id valid => (by cases valid), fun pid sweep found => (by cases found),
    fun u v there => absurd ⟨rfl, rfl⟩ there, fun u v there => absurd ⟨rfl, rfl⟩ there⟩

end SharedMemory

/-- In every run whose accesses meet the condition, whatever their order, there is somebody to
answer for every record that is not empty: each client of the pipe is here, or a clean-up after it
is under way that has yet to do with the record. The induction is over the accesses. -/
theorem sharing_kept {accesses : List Access} {s : SharedMemory}
    (run : Run sharing SharedMemory.Tidy accesses s) : s.Kept := by
  refine run.invariant SharedMemory.Kept SharedMemory.initial_kept ?_
  intro s access after kept offered tidy served
  cases served
  exact kept.next offered tidy

end NetProg.MultiProc
