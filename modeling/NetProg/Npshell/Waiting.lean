import NetProg.Library.Launches
import NetProg.Npshell.Inheritance

/-!
# The waits of a shell come to an end

The shell waits for the last command of a line unless that writes to a numbered pipe. The
command may read a pipe, and then finds the end of its input when all the processes that
hold the write end have ended: the commands that were forked between the making of the
pipe and its own fork, among them some that have nothing to do with the pipe. Each of
these may read a pipe of its own.

All of them were forked before. So where every command can write what it has to say
whether or not somebody reads it, the shell gets through its lines. Where a command needs
the commands of later lines to take what it writes, the shell stays for ever at the first
command it waits for that waits for that one, through whatever pipes were inherited.
-/

namespace NetProg.Npshell

open Launches Runs Relation

/-- What the programs of a session are like: which of them read their input to the end, and how
many commands must have been started for one to be able to write its output. Any such description
is allowed, also of programs that never end their output before others run. -/
structure Programs where
  reads : Nat → Bool
  needs : Nat → Nat

/-- The pass forks a child that `ExecCmd` waits for. -/
def isForeground (head : World × Frame) : Bool :=
  match commandAt head.1 head.2 with
  | none => false
  | some read => (childProcess read).isSome && read.lineEnds && !read.isUsingPipe

/-- The pass forks a child that gets to `execvp`. -/
def isLaunched (head : World × Frame) : Bool :=
  match commandAt head.1 head.2 with
  | none => false
  | some read => (childProcess read).isSome &&
      isExecutable head.1 read.cmds.length read.prog read.shell.environment

/-- A command reads a pipe to the end whose write end another one holds. It does not end before
that one, whether anything is written there or not. -/
def WaitsFor (heads : List (World × Frame)) (programs : Programs) (i k : Nat) : Prop :=
  programs.reads i = true ∧ ∃ reader head child, heads[i]? = some reader ∧
    isLaunched reader = true ∧ heads[k]? = some head ∧ childAt head.1 head.2 = some child ∧
    ∃ due ∈ dueAt reader.1 reader.2, HasOpen child (.writeEnd due.made)

/-- The passes of a session as launches. -/
def launches {heads : List (World × Frame)} (inputs : InputsEnd heads) (programs : Programs) :
    Plan where
  count := heads.length
  waits := WaitsFor heads programs
  need := programs.needs
  foreground k := heads[k]?.any isForeground
  earlier := by
    rintro i k ⟨-, reader, head, child, isReader, -, isHead, forked, due, isDue, holds⟩
    exact ((inputs.holders k i head reader isHead isReader due isDue child forked).mp holds).1
  inRange := by
    intro k foreground
    obtain ⟨head, isHead, -⟩ := (Option.any_eq_true _ _).mp foreground
    exact (List.getElem?_eq_some_iff.mp isHead).1

/-- The shell of a session gets through: wherever the steps of the shell and its children
have led, they can lead on to where all commands have been started and none is waited
for. -/
def GetsThrough (plan : Plan) : Prop :=
  ∀ events s, Run plan.system always events s →
    ∃ more final, Run plan.system always (events ++ more) final ∧ plan.Through final

/-- What holds of the launches of a session for all programs it could run: the shell gets through
if and only if nothing it waits for waits, directly or not, for a command that is still to come.
-/
structure WaitsEnd (heads : List (World × Frame)) : Prop where
  inputs : InputsEnd heads
  /-- The shell gets through exactly if no command that it waits for waits, through others,
  for one that needs later commands to be able to write. -/
  exactly : ∀ programs, GetsThrough (launches inputs programs) ↔
    ∀ k head, heads[k]? = some head → isForeground head = true →
      ∀ i, ReflTransGen (WaitsFor heads programs) k i → programs.needs i ≤ k + 1
  /-- Nothing that a command waits for, through others, comes after it. -/
  backwards : ∀ programs k i, ReflTransGen (WaitsFor heads programs) k i → i ≤ k
  /-- Where what the commands write fits in the pipes, nothing holds up the shell. -/
  fitting : ∀ programs, (∀ i, programs.needs i ≤ i + 1) → GetsThrough (launches inputs programs)
  /-- There is an end to the steps. -/
  bounded : ∀ programs events s, Run (launches inputs programs).system always events s →
    events.length ≤ 2 * heads.length

section Launches

variable {heads : List (World × Frame)}

/-- The shell gets through its waits exactly when no command it waits for waits for one that needs
commands forked later. What a command waits for is read off the ends that the children hold. -/
theorem getsThrough_iff (inputs : InputsEnd heads) (programs : Programs) :
    GetsThrough (launches inputs programs) ↔
    ∀ k head, heads[k]? = some head → isForeground head = true →
      ∀ i, ReflTransGen (WaitsFor heads programs) k i → programs.needs i ≤ k + 1 := by
  have foreground (k : Nat) : (launches inputs programs).foreground k = true ↔
      ∃ head, heads[k]? = some head ∧ isForeground head = true := by
    simp [launches, Option.any_eq_true]
  rw [GetsThrough, Plan.through_iff, Plan.Open]
  constructor
  · intro isOpen k head isHead waited i waits
    exact isOpen k ((foreground k).mpr ⟨head, isHead, waited⟩) i waits
  · intro short k waited i waits
    obtain ⟨head, isHead, isForeground⟩ := (foreground k).mp waited
    exact short k head isHead isForeground i waits

theorem waits_backwards (inputs : InputsEnd heads) (programs : Programs) {k i : Nat}
    (waits : ReflTransGen (WaitsFor heads programs) k i) : i ≤ k :=
  @Plan.le_of_waits (launches inputs programs) k i waits

theorem InputsEnd.waitsEnd (inputs : InputsEnd heads) : WaitsEnd heads where
  inputs := inputs
  exactly := getsThrough_iff inputs
  backwards programs _ _ := waits_backwards inputs programs
  fitting programs fits := by
    rw [getsThrough_iff]
    intro k head _ _ i waits
    have earlier := waits_backwards inputs programs waits
    have enough := fits i
    omega
  bounded _ _ _ run := Plan.steps_le run

end Launches

end NetProg.Npshell
