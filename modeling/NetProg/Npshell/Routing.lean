import NetProg.Npshell.CommandLines

/-!
# Numbered pipes connect the commands they name

Commands are numbered over all lines of a session. A command ended by `|N` or
`!N` targets the command N later; the pipe between them is known by the number
of the target. The shell only has a table of counters, which are matched when a
pipe is created, consumed, erased and decremented around every command. What
holds between these passes is that every counter is the distance to a target,
and that every target still to come has its record.
-/

namespace NetProg.Npshell

open Loops Outcomes NumberedPipes

/-- Command `i` sends its output to command `j`. -/
def Targets (commands : List Command) (i j : Nat) : Prop :=
  ∃ c n, commands[i]? = some c ∧ c.ending.target = some n ∧ j = i + n

/-- Some command before the `i`-th sends its output to command `j`. -/
def TargetedBefore (commands : List Command) (i j : Nat) : Prop :=
  ∃ k < i, Targets commands k j

/-- The call of command `i`, with the pipe that belongs to each target: its output
goes to the pipe of its target, its errors go with it exactly for `!`, and its
input comes from its own pipe if some earlier command targets it. -/
structure Routed (commands : List Command) (pipeOf : Nat → Nat) (i : Nat) (c : Command)
    (call : Call) : Prop where
  arguments : call.arguments = c.prog :: c.args
  output : ∀ n, c.ending.target = some n → call.outObject = some (.writeEnd (pipeOf (i + n)))
  standard : c.ending = .none → call.outFd = 1
  errors : call.errFd = call.outFd ↔ c.ending.isError = true
  standardErrors : c.ending.isError = false → call.errFd = 2
  input : TargetedBefore commands i i → call.inObject = some (.readEnd (pipeOf i))
  terminal : ¬ TargetedBefore commands i i → call.inFd = 0

/-- The calls so far are those of the first commands, in order, each of them routed; different
targets have different pipes. Pipes are serial numbers here, and not descriptors. -/
structure Routes (commands : List Command) (pipeOf : Nat → Nat) (calls : List Call) : Prop where
  routed : ∀ i call, calls[i]? = some call →
    ∃ c, commands[i]? = some c ∧ Routed commands pipeOf i c call
  apart : ∀ j k, TargetedBefore commands calls.length j → TargetedBefore commands calls.length k →
    pipeOf j = pipeOf k → j = k

/-- What the pipe table means when command `now` is next and the targets of the commands before
`upto` are known. A record with count `n` is for the command `n` places further, and there is one
for each of the targets: this is how counting down agrees with places in the list of all commands.
-/
structure Counting (commands : List Command) (now upto : Nat) (pipeOf : Nat → Nat) (s : Shell) :
    Prop where
  account : ∃ files, Account True s.process (files ++ ends s.pipeVector) []
  counts : ∀ record ∈ s.pipeVector, ∃ j, now ≤ j ∧ record.count = (j : Int) - now ∧
    TargetedBefore commands upto j ∧ record.made = pipeOf j
  present : ∀ j, now ≤ j → TargetedBefore commands upto j →
    ∃ record ∈ s.pipeVector, record.count = (j : Int) - now
  made : ∀ j, TargetedBefore commands upto j → pipeOf j < s.process.made
  apart : ∀ j k, TargetedBefore commands upto j → TargetedBefore commands upto k →
    pipeOf j = pipeOf k → j = k
  length : s.calls.length = now
  routed : ∀ i call, s.calls[i]? = some call →
    ∃ c, commands[i]? = some c ∧ Routed commands pipeOf i c call

/-- The descriptors a prepared command has. -/
structure Wired (pipeOf : Nat → Nat) (i : Nat) (c : Command) (s : Shell) (outFd errFd : Int) :
    Prop where
  output : ∀ n, c.ending.target = some n →
    ∃ record ∈ s.pipeVector, record.count = n ∧ record.inFd = outFd ∧ record.made = pipeOf (i + n)
  standard : c.ending = .none → outFd = 1
  errors : errFd = if c.ending.isError then outFd else 2
  apart : outFd ≠ 2

section Targets

variable {commands : List Command} {i j : Nat} {c : Command}

theorem targetedBefore_succ (found : commands[i]? = some c) :
    TargetedBefore commands (i + 1) j ↔
      TargetedBefore commands i j ∨ ∃ n, c.ending.target = some n ∧ j = i + n := by
  constructor
  · rintro ⟨k, below, targets⟩
    rcases Nat.lt_succ_iff_lt_or_eq.mp below with earlier | rfl
    · exact .inl ⟨k, earlier, targets⟩
    · obtain ⟨d, n, isD, number, same⟩ := targets
      rw [found] at isD
      cases isD
      exact .inr ⟨n, number, same⟩
  · rintro (⟨k, below, targets⟩ | ⟨n, number, same⟩)
    · exact ⟨k, by omega, targets⟩
    · exact ⟨i, by omega, c, n, found, number, same⟩

/-- A well-formed number leads at least one command on. -/
theorem target_positive (wellFormed : c.WellFormed) {n : Nat} (number : c.ending.target = some n) :
    1 ≤ n := by
  have good := wellFormed.ending
  cases ending : c.ending with
  | none =>
    rw [ending] at number
    cases number
  | file name =>
    rw [ending] at number
    cases number
  | pipe isError digits =>
    rw [ending] at number good
    cases number
    exact good.2.2

/-- No command targets itself, so the targets a command can be are known before it. -/
theorem targetedBefore_self (found : commands[i]? = some c) (wellFormed : c.WellFormed) :
    TargetedBefore commands (i + 1) i ↔ TargetedBefore commands i i := by
  rw [targetedBefore_succ found]
  constructor
  · rintro (earlier | ⟨n, number, same⟩)
    · exact earlier
    · have positive := target_positive wellFormed number
      omega
  · exact .inl

/-- A routed call stays so when other targets get their pipes. -/
theorem Routed.congr {pipeOf other : Nat → Nat} {call : Call}
    (routed : Routed commands pipeOf i c call) (found : commands[i]? = some c)
    (same : ∀ j, TargetedBefore commands (i + 1) j → other j = pipeOf j) :
    Routed commands other i c call where
  arguments := routed.arguments
  output n number := by
    rw [same (i + n) ((targetedBefore_succ found).mpr (.inr ⟨n, number, rfl⟩))]
    exact routed.output n number
  standard := routed.standard
  errors := routed.errors
  standardErrors := routed.standardErrors
  input targeted := by
    rw [same i ((targetedBefore_succ found).mpr (.inl targeted))]
    exact routed.input targeted
  terminal := routed.terminal

theorem TargetedBefore.mono {k : Nat} (targeted : TargetedBefore commands i j) (le : i ≤ k) :
    TargetedBefore commands k j := by
  obtain ⟨l, below, targets⟩ := targeted
  exact ⟨l, by omega, targets⟩

end Targets

section Prepare

variable {commands : List Command} {i : Nat} {c : Command} {pipeOf : Nat → Nat} {s : Shell}

/-- Only the targets known matter. -/
theorem Counting.congr {now upto later : Nat} (counting : Counting commands now upto pipeOf s)
    (same : ∀ j, TargetedBefore commands later j ↔ TargetedBefore commands upto j) :
    Counting commands now later pipeOf s where
  account := counting.account
  counts record member := by
    obtain ⟨j, ahead, count, targeted, made⟩ := counting.counts record member
    exact ⟨j, ahead, count, (same j).mpr targeted, made⟩
  present j ahead targeted := counting.present j ahead ((same j).mp targeted)
  made j targeted := counting.made j ((same j).mp targeted)
  apart j k first second := counting.apart j k ((same j).mp first) ((same k).mp second)
  length := counting.length
  routed := counting.routed

/-- A command without a target adds none. -/
theorem Counting.noTarget (counting : Counting commands i i pipeOf s)
    (found : commands[i]? = some c) (none : c.ending.target = .none) :
    Counting commands i (i + 1) pipeOf s :=
  counting.congr (fun j => by simp [targetedBefore_succ found, none])

/-- The output redirected to a file, or a failed `open`. -/
theorem Counting.openFile (counting : Counting commands i i pipeOf s) (opens : Bool) :
    Counting commands i i pipeOf (s.withProcess (openAs opens s.process).2) ∧
      (openAs opens s.process).1 ≠ 2 := by
  obtain ⟨files, account⟩ := counting.account
  obtain ⟨more, -, opened, number⟩ := openAs_account opens account
  constructor
  · exact {
      account := ⟨more, opened⟩
      counts := counting.counts
      present := counting.present
      made := fun j targeted => Nat.lt_of_lt_of_le (counting.made j targeted) (made_openAs _ _)
      apart := counting.apart
      length := counting.length
      routed := counting.routed }
  · rcases number with negative | ⟨-, o, member⟩
    · omega
    · have above : 3 ≤ (openAs opens s.process).1 :=
        opened.above _ (List.mem_append_left _ (List.mem_append_left _ member))
      omega

/-- The write end of a record is above the standard descriptors. -/
theorem Counting.inFd_above {now upto : Nat} (counting : Counting commands now upto pipeOf s)
    {record : PipeFd} (member : record ∈ s.pipeVector) : 3 ≤ record.inFd := by
  obtain ⟨files, account⟩ := counting.account
  have entered := mem_ends member (show (record.inFd, .writeEnd record.made) ∈ record.ends from
    List.mem_cons_self)
  exact account.above _ (List.mem_append_left _ (List.mem_append_right _ entered))

/-- Joining the pipe of a target that has one. -/
theorem Counting.join (counting : Counting commands i i pipeOf s) (found : commands[i]? = some c)
    {n : Nat} (number : c.ending.target = some n) {same : PipeFd} (member : same ∈ s.pipeVector)
    (count : same.count = n) :
    Counting commands i (i + 1) pipeOf s ∧ same.made = pipeOf (i + n) := by
  obtain ⟨j, ahead, isCount, targeted, isMade⟩ := counting.counts same member
  have target : j = i + n := by omega
  subst target
  refine ⟨counting.congr (fun k => ?_), isMade⟩
  rw [targetedBefore_succ found]
  constructor
  · rintro (earlier | ⟨m, alsoNumber, rfl⟩)
    · exact earlier
    · rw [number] at alsoNumber
      cases alsoNumber
      exact targeted
  · exact .inl

/-- A new pipe for a target that has none: it is entered with the target's distance for its count,
and becomes the pipe of that target. All targets that are known keep theirs. -/
theorem Counting.create (counting : Counting commands i i pipeOf s) (found : commands[i]? = some c)
    {n : Nat} (number : c.ending.target = some n)
    (fresh : ∀ record ∈ s.pipeVector, record.count ≠ n) :
    Counting commands i (i + 1) (Function.update pipeOf (i + n) s.process.made)
      (s.withPipes (s.pipeVector ++ [⟨s.process.pipe.2.1, s.process.pipe.1, n, s.process.made⟩])
        s.process.pipe.2.2) := by
  have unknown : ¬ TargetedBefore commands i (i + n) := by
    intro targeted
    obtain ⟨record, member, count⟩ := counting.present (i + n) (by omega) targeted
    exact fresh record member (by omega)
  have upto (k : Nat) : TargetedBefore commands (i + 1) k ↔
      TargetedBefore commands i k ∨ k = i + n := by
    simp [targetedBefore_succ found, number]
  have kept {j : Nat} (targeted : TargetedBefore commands i j) :
      Function.update pipeOf (i + n) s.process.made j = pipeOf j := by
    apply Function.update_of_ne
    rintro rfl
    exact unknown targeted
  have new : Function.update pipeOf (i + n) s.process.made (i + n) = s.process.made :=
    Function.update_self _ _ _
  constructor
  · obtain ⟨files, account⟩ := counting.account
    refine ⟨files, account.pipe.perm ?_⟩
    simp only [Shell.withPipes, ends_append, ends_cons, ends_nil, PipeFd.ends, List.append_nil]
    rw [← List.append_assoc]
    exact List.perm_append_comm
  · intro record member
    rcases List.mem_append.mp member with old | isNew
    · obtain ⟨j, ahead, count, targeted, made⟩ := counting.counts record old
      exact ⟨j, ahead, count, (upto j).mpr (.inl targeted), made.trans (kept targeted).symm⟩
    · rw [List.mem_singleton.mp isNew]
      exact ⟨i + n, by omega, by push_cast; omega, (upto _).mpr (.inr rfl), new.symm⟩
  · intro j ahead targeted
    rcases (upto j).mp targeted with earlier | rfl
    · obtain ⟨record, member, count⟩ := counting.present j ahead earlier
      exact ⟨record, List.mem_append_left _ member, count⟩
    · exact ⟨_, List.mem_append_right _ List.mem_cons_self, by push_cast; omega⟩
  · intro j targeted
    rcases (upto j).mp targeted with earlier | rfl
    · rw [kept earlier]
      exact Nat.lt_succ_of_lt (counting.made j earlier)
    · rw [new]
      exact Nat.lt_succ_self _
  · intro j k first second same
    rcases (upto j).mp first with earlier | rfl <;> rcases (upto k).mp second with alsoEarlier | rfl
    · rw [kept earlier, kept alsoEarlier] at same
      exact counting.apart j k earlier alsoEarlier same
    · rw [kept earlier, new] at same
      have below := counting.made j earlier
      omega
    · rw [kept alsoEarlier, new] at same
      have below := counting.made k alsoEarlier
      omega
    · rfl
  · exact counting.length
  · intro k call logged
    obtain ⟨d, isD, routed⟩ := counting.routed k call logged
    have below : k < i := by
      rw [← counting.length]
      exact (List.getElem?_eq_some_iff.mp logged).1
    exact ⟨d, isD, routed.congr isD (fun j targeted => kept (targeted.mono below))⟩

/-- What an ending needs is set up for its target: nothing, a file, or a pipe, which is the one
that an earlier command has made for the same target if there is one. -/
theorem Counting.prepare {world : World} {left : Nat} {after : Shell} {outFd errFd : Int}
    (counting : Counting commands i i pipeOf s) (found : commands[i]? = some c)
    (prepares : prepare world left s c.ending = .ok (after, outFd, errFd)) :
    ∃ other, Counting commands i (i + 1) other after ∧ Wired other i c after outFd errFd := by
  cases ending : c.ending with
  | none =>
    rw [ending] at prepares
    cases prepares
    refine ⟨pipeOf, counting.noTarget found (by rw [ending]; rfl), ?_⟩
    constructor <;> simp [ending, Ending.target, Ending.isError]
  | file name =>
    rw [ending] at prepares
    cases prepares
    obtain ⟨opened, apart⟩ := counting.openFile (world.opens left)
    refine ⟨pipeOf, opened.noTarget found (by rw [ending]; rfl), ?_⟩
    constructor
    · simp [ending, Ending.target]
    · simp [ending]
    · simp [ending, Ending.isError]
    · exact apart
  | pipe isError digits =>
    have number : c.ending.target = some (numberOf digits) := by rw [ending]; rfl
    rw [ending] at prepares
    simp only [Npshell.prepare] at prepares
    split at prepares
    · rename_i created creates
      obtain ⟨writeEnd, extended, opened⟩ := created
      cases prepares
      rcases createPipe_cases creates with
        ⟨same, member, count, rfl, rfl, rfl⟩ | ⟨-, fresh, rfl, rfl, rfl⟩
      · obtain ⟨joined, isMade⟩ := counting.join found number member count
        have above := counting.inFd_above member
        refine ⟨pipeOf, joined, ?_⟩
        constructor
        · intro n isNumber
          rw [number] at isNumber
          cases isNumber
          exact ⟨same, member, count, rfl, isMade⟩
        · simp [ending]
        · simp [ending, Ending.isError]
        · omega
      · have counted := counting.create found number fresh
        have isNew : (⟨s.process.pipe.2.1, s.process.pipe.1, numberOf digits, s.process.made⟩ :
            PipeFd) ∈ s.pipeVector ++
              [⟨s.process.pipe.2.1, s.process.pipe.1, numberOf digits, s.process.made⟩] :=
          List.mem_append_right _ List.mem_cons_self
        have above := counted.inFd_above isNew
        refine ⟨_, counted, ?_⟩
        constructor
        · intro n isNumber
          rw [number] at isNumber
          cases isNumber
          exact ⟨_, isNew, rfl, rfl, by rw [Function.update_self]⟩
        · simp [ending]
        · simp [ending, Ending.isError]
        · simp only at above ⊢
          omega
    · cases prepares

end Prepare

section GetPipe

variable {honest : Prop} {live dying : List (Int × Object)}

/-- Getting the pipe that is due closes write ends that were given up. -/
theorem getPipeFd_account {p : Process} (pipeVector : List PipeFd) (inFd : Int)
    (account : Account honest p live dying)
    (given : ∀ record ∈ pipeVector, record.count = 0 →
      (record.inFd, .writeEnd record.made) ∈ dying) :
    Account honest (getPipeFd pipeVector inFd p).2 live dying := by
  induction pipeVector generalizing p inFd with
  | nil => exact account
  | cons record rest ih =>
    have givenRest : ∀ other ∈ rest, other.count = 0 → (other.inFd, .writeEnd other.made) ∈ dying :=
      fun other member => given other (List.mem_cons_of_mem record member)
    by_cases due : record.count = 0
    · have closed := account.closeDying (given record List.mem_cons_self due)
      simpa [getPipeFd, due] using ih record.outFd closed givenRest
    · simpa [getPipeFd, due] using ih inFd account givenRest

@[simp] theorem getPipeFd_made (pipeVector : List PipeFd) (inFd : Int) (p : Process) :
    (getPipeFd pipeVector inFd p).2.made = p.made := by
  induction pipeVector generalizing p inFd with
  | nil => rfl
  | cons record rest ih =>
    by_cases due : record.count = 0
    · simp [getPipeFd, due, ih]
    · simpa [getPipeFd, due] using ih inFd p

/-- The descriptor is the read end of a record that is due, or what it was when
none is. -/
theorem getPipeFd_fst (pipeVector : List PipeFd) (inFd : Int) (p : Process) :
    ((∀ record ∈ pipeVector, record.count ≠ 0) ∧ (getPipeFd pipeVector inFd p).1 = inFd) ∨
    ∃ record ∈ pipeVector, record.count = 0 ∧ (getPipeFd pipeVector inFd p).1 = record.outFd := by
  induction pipeVector generalizing p inFd with
  | nil => exact .inl ⟨by simp, rfl⟩
  | cons record rest ih =>
    by_cases due : record.count = 0
    · right
      rcases ih record.outFd (p.closeEnd record.inFd (some (.writeEnd record.made))) with
        ⟨-, same⟩ | ⟨other, member, alsoDue, same⟩
      · exact ⟨record, List.mem_cons_self, due, by simpa [getPipeFd, due] using same⟩
      · exact ⟨other, List.mem_cons_of_mem record member, alsoDue,
          by simpa [getPipeFd, due] using same⟩
    · rcases ih inFd p with ⟨none, same⟩ | ⟨other, member, alsoDue, same⟩
      · exact .inl ⟨by simpa [due] using none, by simpa [getPipeFd, due] using same⟩
      · exact .inr ⟨other, List.mem_cons_of_mem record member, alsoDue,
          by simpa [getPipeFd, due] using same⟩

end GetPipe

/-- The write ends and the read ends of a table, apart. -/
def writeEnds (pipeVector : List PipeFd) : List (Int × Object) :=
  pipeVector.map (fun record => (record.inFd, .writeEnd record.made))

/-- The read ends that the table records, each with its number. -/
def readEnds (pipeVector : List PipeFd) : List (Int × Object) :=
  pipeVector.map (fun record => (record.outFd, .readEnd record.made))

theorem ends_perm (pipeVector : List PipeFd) :
    (ends pipeVector).Perm (readEnds pipeVector ++ writeEnds pipeVector) := by
  induction pipeVector with
  | nil => exact List.Perm.refl _
  | cons record rest ih =>
    simp only [ends_cons, PipeFd.ends, readEnds, writeEnds, List.map_cons, List.cons_append,
      List.nil_append]
    refine List.Perm.trans ?_ (List.Perm.cons _ List.perm_middle.symm)
    exact (List.Perm.swap _ _ _).trans ((ih.cons _).cons _)

/-- The built-in branches leave the pipes and the log alone. They fail when an
argument is missing. -/
theorem builtin_ends (s : Shell) {c : Command} (wellFormed : c.WellFormed) :
    Ends (builtin s (c.prog :: c.args))
      (fun ran => ran.process = s.process ∧ ran.pipeVector = s.pipeVector ∧ ran.calls = s.calls)
      (fun failure => failure.1 = .argument ∧ failure.2 = s ∧ c.LacksArguments) := by
  simp only [builtin]
  refine Ends.bind (fun prog => prog = cstr c.prog) rfl ?_
  rintro _ rfl
  split
  · rename_i isPrintenv
    cases args : c.args with
    | nil => exact ⟨rfl, rfl, .inl ⟨isPrintenv, by simp [args]⟩⟩
    | cons var rest =>
      refine Ends.bind (fun _ => True) trivial (fun text _ => ?_)
      rw [ends_pure, Shell.printEnv]
      split <;> exact ⟨rfl, rfl, rfl⟩
  split
  · rename_i isSetenv
    cases args : c.args with
    | nil => exact ⟨rfl, rfl, .inr ⟨isSetenv, by simp [args]⟩⟩
    | cons var rest =>
      cases rest with
      | nil => exact ⟨rfl, rfl, .inr ⟨isSetenv, by simp [args]⟩⟩
      | cons val more => exact ⟨rfl, rfl, rfl⟩
  split
  · rename_i isExit
    exact absurd isExit wellFormed.prog
  · exact ⟨rfl, rfl, rfl⟩

section Execute

variable {commands : List Command} {i : Nat} {c : Command} {pipeOf : Nat → Nat} {s : Shell}
  {outFd errFd : Int}

/-- The records that are due and the others. -/
def duePipes (pipeVector : List PipeFd) : List PipeFd := pipeVector.filter (·.count = 0)

/-- The pipes that are for a later command. -/
def laterPipes (pipeVector : List PipeFd) : List PipeFd := pipeVector.filter (·.count ≠ 0)

/-- The pipe that is due, gotten: its write end is given up, its read end is
still relied on. -/
theorem Counting.attach {upto : Nat} (counting : Counting commands i upto pipeOf s) :
    ∃ files, Account True (getPipeFd s.pipeVector 0 s.process).2
      (readEnds (duePipes s.pipeVector) ++ (ends (laterPipes s.pipeVector) ++ files))
      (writeEnds (duePipes s.pipeVector)) := by
  obtain ⟨files, account⟩ := counting.account
  have split : (ends (laterPipes s.pipeVector) ++ ends (duePipes s.pipeVector)).Perm
      (ends s.pipeVector) := (ends_filter_due s.pipeVector).symm
  have parts : (readEnds (duePipes s.pipeVector) ++ (ends (laterPipes s.pipeVector) ++ files) ++
      writeEnds (duePipes s.pipeVector)).Perm (files ++ ends s.pipeVector) := by
    rw [List.perm_iff_count] at *
    intro e
    have whole := split e
    have apart := List.perm_iff_count.mp (ends_perm (duePipes s.pipeVector)) e
    simp only [List.count_append] at whole apart ⊢
    omega
  refine ⟨files, getPipeFd_account _ _ (account.weaken _ _ ?_ ?_) ?_⟩
  · intro e member
    exact parts.subset (List.mem_append_left _ member)
  · simpa using parts.subperm
  · intro record member isDue
    exact List.mem_map.mpr ⟨record, List.mem_filter.mpr ⟨member, by simpa using isDue⟩, rfl⟩

/-- The call of a command whose descriptors are set up is routed: it reads the pipe that was made
for it, if there is one, and writes to that of its target. -/
theorem Counting.call (counting : Counting commands i (i + 1) pipeOf s)
    (found : commands[i]? = some c) (wellFormed : c.WellFormed)
    (wired : Wired pipeOf i c s outFd errFd) (world : World) {g : Frame} {rest : List Str}
    (ready : g.Ready c rest s outFd errFd) :
    Routed commands pipeOf i c (callOf world g
      (s.withProcess (getPipeFd s.pipeVector 0 s.process).2)
      (getPipeFd s.pipeVector 0 s.process).1) := by
  obtain ⟨files, account⟩ := counting.attach
  constructor
  · exact ready.arguments
  · intro n number
    obtain ⟨record, member, count, isIn, isMade⟩ := wired.output n number
    have notDue : record.count ≠ 0 := by
      have positive := target_positive wellFormed number
      omega
    have isLater : record ∈ laterPipes s.pipeVector :=
      List.mem_filter.mpr ⟨member, by simpa using notDue⟩
    have entered := mem_ends isLater (show (record.inFd, .writeEnd record.made) ∈ record.ends from
      List.mem_cons_self)
    have stands := account.stands _ (List.mem_append_right _ (List.mem_append_left _ entered))
    rw [isIn, isMade] at stands
    simpa [callOf, Shell.withProcess, ready.outFd] using stands
  · intro endless
    simpa [callOf, ready.outFd] using wired.standard endless
  · simp only [callOf, ready.outFd, ready.errFd, wired.errors]
    cases c.ending.isError with
    | true => simp
    | false => simpa using wired.apart.symm
  · intro standard
    simp [callOf, ready.errFd, wired.errors, standard]
  · intro targeted
    obtain ⟨record, member, count⟩ := counting.present i (Nat.le_refl i)
      ((targetedBefore_self found wellFormed).mpr targeted)
    rcases getPipeFd_fst s.pipeVector 0 s.process with ⟨none, -⟩ | ⟨got, isIn, isDue, same⟩
    · exact absurd (by omega) (none record member)
    · obtain ⟨j, -, isCount, -, isMade⟩ := counting.counts got isIn
      have here : j = i := by omega
      subst here
      have entered : (got.outFd, Object.readEnd got.made) ∈ readEnds (duePipes s.pipeVector) :=
        List.mem_map.mpr ⟨got, List.mem_filter.mpr ⟨isIn, by simpa using isDue⟩, rfl⟩
      have stands := account.stands _ (List.mem_append_left _ entered)
      rw [isMade] at stands
      simpa [callOf, Shell.withProcess, same] using stands
  · intro untargeted
    rcases getPipeFd_fst s.pipeVector 0 s.process with ⟨-, same⟩ | ⟨got, isIn, isDue, -⟩
    · simpa [callOf] using same
    · obtain ⟨j, -, isCount, targeted, -⟩ := counting.counts got isIn
      have here : j = i := by omega
      subst here
      exact absurd ((targetedBefore_self found wellFormed).mp targeted) untargeted

/-- After a call the pipe that was due is erased and every counter goes down, so that the counts
are the distances from the next command. -/
theorem Counting.detach (counting : Counting commands i (i + 1) pipeOf s)
    (found : commands[i]? = some c) {call : Call} (routed : Routed commands pipeOf i c call)
    {ran : Shell} (process : ran.process = (getPipeFd s.pipeVector 0 s.process).2)
    (pipeVector : ran.pipeVector = s.pipeVector) (calls : ran.calls = s.calls ++ [call]) :
    Counting commands (i + 1) (i + 1) pipeOf (detach ran) := by
  have kept : (Npshell.detach ran).pipeVector = countdownPipeVector (laterPipes s.pipeVector) := by
    simp only [Npshell.detach, Shell.withPipes, erasePipeVector_fst, pipeVector, laterPipes]
  have made : (Npshell.detach ran).process.made = s.process.made := by
    simp [Npshell.detach, Shell.withPipes, process]
  have logged : (Npshell.detach ran).calls = s.calls ++ [call] := calls
  constructor
  · obtain ⟨files, account⟩ := counting.attach
    refine ⟨files, ?_⟩
    have whole : Account True (getPipeFd s.pipeVector 0 s.process).2
        (files ++ ends (laterPipes s.pipeVector)) (ends (duePipes s.pipeVector)) := by
      refine account.weaken _ _ ?_ (List.Perm.subperm ?_)
      · intro e member
        rcases List.mem_append.mp member with isFile | isEnd
        · exact List.mem_append_right _ (List.mem_append_right _ isFile)
        · exact List.mem_append_right _ (List.mem_append_left _ isEnd)
      · apply List.perm_iff_count.mpr
        intro e
        have apart := List.perm_iff_count.mp (ends_perm (duePipes s.pipeVector)) e
        simp only [List.count_append] at apart ⊢
        omega
    have erased := (erasePipeVector_account whole (fun record member isDue e isEnd =>
      mem_ends (List.mem_filter.mpr ⟨member, by simpa using isDue⟩) isEnd)).forget
    rw [kept, ends_countdown]
    simpa [Npshell.detach, Shell.withPipes, process, pipeVector] using erased
  · intro record member
    rw [kept] at member
    obtain ⟨old, isOld, rfl⟩ := List.mem_map.mp member
    obtain ⟨isIn, notDue⟩ := List.mem_filter.mp isOld
    obtain ⟨j, ahead, count, targeted, isMade⟩ := counting.counts old isIn
    have other : old.count ≠ 0 := by simpa using notDue
    exact ⟨j, by omega, by push_cast; omega, targeted, isMade⟩
  · intro j ahead targeted
    obtain ⟨record, member, count⟩ := counting.present j (by omega) targeted
    have notDue : record.count ≠ 0 := by omega
    refine ⟨{ record with count := record.count - 1 }, ?_, by push_cast; omega⟩
    rw [kept]
    exact List.mem_map.mpr ⟨record, List.mem_filter.mpr ⟨member, by simpa using notDue⟩, rfl⟩
  · rw [made]
    exact counting.made
  · exact counting.apart
  · simp [logged, counting.length]
  · intro k other isOther
    rw [logged, List.getElem?_append, counting.length] at isOther
    split at isOther
    · exact counting.routed k other isOther
    · have here : k = i := by
        have below : k - i < [call].length := (List.getElem?_eq_some_iff.mp isOther).1
        simp only [List.length_singleton] at below
        omega
      subst here
      have same : other = call := by simpa [eq_comm] using isOther
      subst same
      exact ⟨c, found, routed⟩

theorem Counting.routes {now upto : Nat} (counting : Counting commands now upto pipeOf s)
    (le : now ≤ upto) : Routes commands pipeOf s.calls where
  routed := counting.routed
  apart j k first second := by
    rw [counting.length] at first second
    exact counting.apart j k (first.mono le) (second.mono le)

/-- The failure of a built-in command, after its call was logged. -/
def LacksArgument (commands : List Command) (failure : Fault × Shell) : Prop :=
  failure.1 = .argument ∧
    ∃ c, commands[failure.2.calls.length - 1]? = some c ∧ c.LacksArguments

/-- Executing a prepared command. -/
theorem Counting.execute (counting : Counting commands i (i + 1) pipeOf s)
    (found : commands[i]? = some c) (wellFormed : c.WellFormed)
    (wired : Wired pipeOf i c s outFd errFd) {world : World} {g : Frame} {rest : List Str}
    (ready : g.Ready c rest s outFd errFd) :
    Ends (execute world g) (fun done => Counting commands (i + 1) (i + 1) pipeOf done.shell)
      (fun failure => Routes commands pipeOf failure.2.calls ∧ LacksArgument commands failure) := by
  have routed := counting.call found wellFormed wired world ready
  have shell := ready.shell
  subst shell
  generalize isCall : callOf world g (g.shell.withProcess
    (getPipeFd g.shell.pipeVector 0 g.shell.process).2)
    (getPipeFd g.shell.pipeVector 0 g.shell.process).1 = call at routed
  have runs := builtin_ends ((g.shell.withProcess
    (getPipeFd g.shell.pipeVector 0 g.shell.process).2).logged call) wellFormed
  rw [← ready.arguments] at runs
  simp only [Npshell.execute, isCall]
  refine Ends.bind _ (runs.mono (fun _ ran => ran) ?_) ?_
  · rintro ⟨fault, t⟩ ⟨isFault, isShell, lacks⟩
    simp only at isFault isShell
    subst isShell
    have after : Counting commands (i + 1) (i + 1) pipeOf (Npshell.detach
        ((g.shell.withProcess (getPipeFd g.shell.pipeVector 0 g.shell.process).2).logged call)) :=
      counting.detach found routed rfl rfl rfl
    refine ⟨after.routes (Nat.le_refl _), isFault, c, ?_, lacks⟩
    simpa [Shell.logged, Shell.withProcess, counting.length] using found
  · rintro ran ⟨process, pipeVector, calls⟩
    exact counting.detach found routed process pipeVector calls

end Execute

/-- How a line fails: the pipe could not be made, or a built-in command lacks an
argument. The calls so far are routed either way. -/
def FailsRouted (commands : List Command) (world : World) (failure : Fault × Shell) : Prop :=
  (∃ pipeOf, Routes commands pipeOf failure.2.calls) ∧
    (failure.1 = .pipeError ∧ (∃ left, world.pipes left = false) ∨ LacksArgument commands failure)

/-- The table between two lines, when a number of commands has been called. The counts go on over
the end of a line, and so does this. -/
def CountedTo (commands : List Command) (i : Nat) (s : Shell) : Prop :=
  ∃ pipeOf, Counting commands i i pipeOf s

theorem Counting.write {commands : List Command} {i : Nat} {pipeOf : Nat → Nat} {s : Shell}
    (counting : Counting commands i i pipeOf s) (text : Str) :
    Counting commands i i pipeOf (s.write text) where
  account := counting.account
  counts := counting.counts
  present := counting.present
  made := counting.made
  apart := counting.apart
  length := counting.length
  routed := counting.routed

/-- Only a failed `pipe` stops a command before it is called. -/
theorem prepare_fails {world : World} {left : Nat} {s : Shell} {ending : Ending}
    {e : Fault × Shell} (failed : prepare world left s ending = .error e) :
    e = (.pipeError, s) ∧ world.pipes left = false := by
  cases ending with
  | none => cases failed
  | file name => cases failed
  | pipe isError digits =>
    simp only [prepare] at failed
    split at failed
    · cases failed
    · rename_i missing
      cases failed
      exact ⟨rfl, (createPipe_refused missing).1⟩

/-- The commands of one line are called and routed, by the rule that follows a line command by
command. A blank line has no commands, and an empty one does not come to the loop. -/
theorem execLine_routes {all : List Command} {line : Str} {world : World} {cs rest : List Command}
    (parses : Parses line cs) {i : Nat} (position : all.drop i = cs ++ rest) {s : Shell}
    (counted : CountedTo all i s) :
    Ends (execLine s (line, world)) (CountedTo all (i + cs.length)) (FailsRouted all world) := by
  obtain ⟨pipeOf, counting⟩ := counted
  have prompted := counting.write (str "% ")
  by_cases empty : line = []
  · have none : cs = [] := by
      have noWords := parses.words
      rw [empty, show words [] = [] from rfl] at noWords
      cases cs with
      | nil => rfl
      | cons c later => cases noWords
    simp only [execLine, empty, if_true]
    rw [none]
    exact ⟨pipeOf, prompted⟩
  · simp only [execLine, empty, if_false, execCmds, parses.words]
    -- the commands still to come fix the number of the next one
    have ends := commands_end world
      (fun cmds t => ∃ k, k + cmds.length = i + cs.length ∧ all.drop k = cmds ++ rest ∧
        CountedTo all k t) (FailsRouted all world) ?_ ?_ cs parses.wellFormed parses.ended
      (f := Frame.initial (s.write (str "% ")) (cs.flatMap Command.words))
      ⟨rfl, rfl, .inl rfl, rfl⟩ ⟨i, rfl, position, pipeOf, prompted⟩
    · refine ends.mono ?_ (fun _ failed => failed)
      rintro t ⟨k, same, -, counted⟩
      rw [← same]
      exact counted
    · rintro c later t left e ⟨k, -, -, other, counts⟩ failed
      obtain ⟨rfl, cannot⟩ := prepare_fails failed
      exact ⟨⟨other, counts.routes (Nat.le_refl k)⟩, .inl ⟨rfl, left, cannot⟩⟩
    · rintro c later t words after outFd errFd ⟨k, length, here, other, counts⟩ wellFormed
        prepares g ready
      have found : all[k]? = some c := by
        have head := congrArg List.head? here
        simpa [List.head?_drop] using head
      obtain ⟨next, prepared, wired⟩ := counts.prepare found prepares
      refine (prepared.execute found wellFormed wired ready).mono ?_ ?_
      · intro done counted
        refine ⟨k + 1, ?_, ?_, next, counted⟩
        · simp only [List.length_cons] at length
          omega
        · have tail := congrArg List.tail here
          simpa [List.tail_drop] using tail
      · rintro failure ⟨routes, lacks⟩
        exact ⟨⟨next, routes⟩, .inr lacks⟩

/-- The lines of a session, one after the other, up to the one that fails. By induction on the
lines: each begins where the one before has counted to. -/
theorem lines_route {all : List Command} (lines : List (Str × World))
    (commands : List (List Command))
    (parsed : List.Forall₂ (fun line cs => Parses line.1 cs) lines commands) {i : Nat} {s : Shell}
    (position : all.drop i = commands.flatten) (counted : CountedTo all i s) :
    Ends (lines.foldlM execLine s) (CountedTo all (i + commands.flatten.length))
      (fun failure => ∃ line ∈ lines, FailsRouted all line.2 failure) := by
  induction parsed generalizing i s with
  | nil => exact counted
  | @cons line cs lines commands parses _ ih =>
    rw [List.foldlM_cons]
    refine Ends.bind _ ((execLine_routes parses position counted).mono (fun _ held => held) ?_) ?_
    · intro failure failed
      exact ⟨line, List.mem_cons_self, failed⟩
    · intro t countedLine
      have further : all.drop (i + cs.length) = commands.flatten := by
        rw [← List.drop_drop, position, List.flatten_cons, List.drop_left]
      refine (ih further countedLine).mono ?_ ?_
      · intro final countedAll
        rw [List.flatten_cons, List.length_append, ← Nat.add_assoc]
        exact countedAll
      · rintro failure ⟨other, member, failed⟩
        exact ⟨other, List.mem_cons_of_mem line member, failed⟩

theorem CountedTo.initial (commands : List Command) (vars : List (Str × Str)) :
    CountedTo commands 0 ((Shell.initial vars).setEnv (str "PATH") (str "bin:.")) := by
  have none (j : Nat) : ¬ TargetedBefore commands 0 j := by
    rintro ⟨k, below, -⟩
    omega
  refine ⟨id, ⟨[], Account.initial⟩, ?_, ?_, ?_, ?_, rfl, ?_⟩
  · intro record member
    cases member
  · exact fun j _ targeted => absurd targeted (none j)
  · exact fun j targeted => absurd targeted (none j)
  · exact fun j _ targeted => absurd targeted (none j)
  · intro k call isCall
    simp [Shell.setEnv, Shell.initial] at isCall

/-- Every session calls its commands in order, each connected as its pipe operators say, to the
end of the input; or it stops when a pipe cannot be made or a built-in command lacks an argument,
the calls so far being routed.

The routing is stated on the list of all commands, by how many commands later an output is read.
The table counts these down line by line and round by round; that the two say the same is the
invariant. -/
theorem session_routes_commands (vars : List (Str × Str)) (lines : List (Str × World))
    (commands : List (List Command))
    (parsed : List.Forall₂ (fun line cs => Parses line.1 cs) lines commands) :
    Ends (exec vars lines)
      (fun s => s.calls.length = commands.flatten.length ∧
        ∃ pipeOf, Routes commands.flatten pipeOf s.calls)
      (fun failure => ∃ line ∈ lines, FailsRouted commands.flatten line.2 failure) := by
  have ran := lines_route lines commands parsed rfl (CountedTo.initial commands.flatten vars)
  apply Ends.bind _ ran
  rintro s ⟨pipeOf, counting⟩
  refine ⟨?_, pipeOf, counting.routes (Nat.le_refl _)⟩
  simpa [Shell.write] using counting.length

/-- Two lines, whose first two commands share the pipe of the third. -/
def sharedLines : List (Str × World) :=
  [(str "cat a |2", World.plain), (str "ls ! number > b", World.plain)]

/-- The commands of these lines: both write into the pipe that the third one reads. -/
def sharedCommands : List (List Command) :=
  [[⟨str "cat", [str "a"], .pipe false (str "2")⟩],
    [⟨str "ls", [], .pipe true []⟩, ⟨str "number", [], .file (str "b")⟩]]

theorem session_routes_shared_pipe : ∃ s, exec [] sharedLines = .ok s ∧ s.calls.length = 3 ∧
    ∃ pipeOf, Routes sharedCommands.flatten pipeOf s.calls := by
  have parsed : List.Forall₂ (fun line cs => Parses line.1 cs) sharedLines sharedCommands := by
    refine .cons ⟨by decide +kernel, ?_, by decide⟩ (.cons ⟨by decide +kernel, ?_, by decide⟩ .nil)
    · intro c member
      rw [List.mem_singleton.mp member]
      exact ⟨by decide, by unfold PlainWord; decide,
        by unfold Ending.WellFormed; decide +kernel⟩
    · intro c member
      have either : c = ⟨str "ls", [], .pipe true []⟩ ∨ c = ⟨str "number", [], .file (str "b")⟩ := by
        simpa using member
      rcases either with rfl | rfl
      · exact ⟨by decide, by simp, by unfold Ending.WellFormed; decide +kernel⟩
      · exact ⟨by decide, by simp, trivial⟩
  have ends := session_routes_commands [] sharedLines sharedCommands parsed
  have returns : (exec [] sharedLines).toOption.isSome = true := by decide +kernel
  cases ran : exec [] sharedLines with
  | ok s =>
    rw [ran] at ends
    exact ⟨s, rfl, ends⟩
  | error failure =>
    rw [ran] at returns
    cases returns

end NetProg.Npshell
