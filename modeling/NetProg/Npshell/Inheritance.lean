import NetProg.Npshell.Descriptors

/-!
# What the children of a shell inherit

A child has a copy of every descriptor of the shell at the moment it is forked. It makes
three of them its standard descriptors and closes these; the others it keeps, and the
program it executes keeps them as long as it runs. So a command holds the write ends of
all pipes that are in the table while it is forked, whoever they are for.

The pipe that a command reads was closed for writing by the shell before it forked, so
neither the command itself nor a later one holds its write end. The earlier ones all do
that were forked since the pipe was made: the command finds the end of its input when
each of them has ended, not only those that wrote to the pipe.
-/

namespace NetProg.Npshell

open Loops Outcomes NumberedPipes

/-! ## The descriptors of a child -/

/-- The frame with the complete command, where a pass executes one. -/
def commandAt (world : World) (f : Frame) : Option Frame :=
  match f.cmds with
  | [] => none
  | word :: rest =>
    match readWord world f word rest with
    | .ok read => if read.isFinalArgv then some read else none
    | .error _ => none

/-- The child that `ExecCmd` forks for a complete command, behind `ConnectPipeFd`. -/
def childProcess (f : Frame) : Option Process :=
  match f.arguments with
  | [] => none
  | prog :: _ =>
    if IsBuiltin (cstr prog) then none
    else
      let (inFd, p) := getPipeFd f.shell.pipeVector 0 f.shell.process
      some (connectPipeFd inFd f.outFd f.errFd p)

/-- The child that is forked in a pass. -/
def childAt (world : World) (f : Frame) : Option Process :=
  (commandAt world f).bind childProcess

/-- A process has an object open, whatever the number. -/
def HasOpen (p : Process) (o : Object) : Prop := ∃ n, p.object n = some o

/-- The descriptors a complete command can have: the input is the standard one or above
them all; output and errors may be of a file that could not be opened. -/
structure Plain (inFd outFd errFd : Int) : Prop where
  input : inFd = 0 ∨ 3 ≤ inFd
  output : outFd = 1 ∨ 3 ≤ outFd ∨ outFd < 0
  errors : errFd = 2 ∨ errFd = outFd ∧ outFd ≠ 1

section Connect

variable {p : Process} {inFd outFd errFd : Int}

/-- A number becomes a copy of another, if that is open. -/
theorem object_dup2_eq (p : Process) (old new n : Int) (nonneg : 0 ≤ new) :
    (p.dup2 old new).object n = if n = new then (p.object old).or (p.object new)
      else p.object n := by
  by_cases same : n = new
  · rw [if_pos same, same, Process.dup2]
    cases opened : p.object old with
    | none => rfl
    | some o =>
      simp only [if_pos nonneg]
      rw [Process.object_put _ _ _ _ _ _ nonneg, if_pos rfl]
      rfl
  · rw [if_neg same]
    exact p.object_dup2 old new n same

/-- A conditional copy is a copy where the two are the same. -/
theorem object_dup2_unless (p : Process) (old new n : Int) (nonneg : 0 ≤ new) :
    (if old ≠ new then p.dup2 old new else p).object n =
      if n = new then (p.object old).or (p.object new) else p.object n := by
  by_cases same : old = new
  · subst same
    rw [if_neg (by simp)]
    by_cases here : n = old
    · rw [if_pos here, here]
      cases p.object old <;> rfl
    · rw [if_neg here]
  · rw [if_pos same, object_dup2_eq p old new n nonneg]

theorem object_close_unless (p : Process) (fd standard n : Int) :
    (if fd ≠ standard then p.close fd else p).object n =
      if n = fd ∧ fd ≠ standard then none else p.object n := by
  by_cases same : fd = standard
  · simp [same]
  · rw [if_pos same, Process.object_close]
    simp [same]

/-- The standard descriptors of a child, and what it keeps above them. -/
theorem object_connect (plain : Plain inFd outFd errFd) (n : Int) :
    (connectPipeFd inFd outFd errFd p).object n =
      if n = 0 then (p.object inFd).or (p.object 0)
      else if n = 1 then (p.object outFd).or (p.object 1)
      else if n = 2 then (p.object errFd).or (p.object 2)
      else if n = inFd ∨ n = outFd ∨ n = errFd then none
      else p.object n := by
  have input := plain.input
  have output := plain.output
  have errors := plain.errors
  simp only [connectPipeFd, object_close_unless,
    object_dup2_unless _ _ _ _ (by decide : (0 : Int) ≤ 0),
    object_dup2_unless _ _ _ _ (by decide : (0 : Int) ≤ 1),
    object_dup2_unless _ _ _ _ (by decide : (0 : Int) ≤ 2)]
  have outNotIn : outFd ≠ 0 := by omega
  have errNotIn : errFd ≠ 0 := by omega
  have errNotOut : errFd ≠ 1 := by omega
  simp only [outNotIn, errNotIn, errNotOut, if_false, (by decide : (1 : Int) ≠ 0),
    (by decide : (2 : Int) ≠ 0), (by decide : (2 : Int) ≠ 1)]
  -- the standard descriptors are not closed again
  by_cases standard : n = 0 ∨ n = 1 ∨ n = 2
  · rw [if_neg (show ¬ (n = errFd ∧ errFd ≠ 2) by omega),
      if_neg (show ¬ (n = outFd ∧ outFd ≠ 1) by omega),
      if_neg (show ¬ (n = inFd ∧ inFd ≠ 0) by omega)]
    rcases standard with rfl | rfl | rfl <;> simp
  · obtain ⟨notIn, notOut, notErr⟩ : n ≠ 0 ∧ n ≠ 1 ∧ n ≠ 2 := by omega
    simp only [notIn, notOut, notErr, if_false]
    by_cases isErr : n = errFd
    · rw [if_pos (by omega), if_pos (by omega)]
    by_cases isOut : n = outFd
    · rw [if_neg (by omega), if_pos (by omega), if_pos (by omega)]
    by_cases isIn : n = inFd
    · rw [if_neg (by omega), if_neg (by omega), if_pos (by omega), if_pos (by omega)]
    · rw [if_neg (by omega), if_neg (by omega), if_neg (by omega), if_neg (by omega)]

/-- A child holds what the shell holds, unless it stands on the standard descriptors alone: `dup2`
copies a descriptor to a standard number before it is closed. -/
theorem holds_connect (plain : Plain inFd outFd errFd) {o : Object}
    (standard : ∀ n : Int, n < 3 → p.object n ≠ some o) :
    HasOpen (connectPipeFd inFd outFd errFd p) o ↔ HasOpen p o := by
  have either {first second : Option Object} (notSecond : second ≠ some o) :
      first.or second = some o ↔ first = some o := by
    cases first <;> simp [notSecond]
  constructor
  · rintro ⟨n, found⟩
    rw [object_connect plain] at found
    split at found
    · exact ⟨inFd, (either (standard 0 (by decide))).mp found⟩
    split at found
    · exact ⟨outFd, (either (standard 1 (by decide))).mp found⟩
    split at found
    · exact ⟨errFd, (either (standard 2 (by decide))).mp found⟩
    split at found
    · cases found
    · exact ⟨n, found⟩
  · rintro ⟨n, found⟩
    have high : 3 ≤ n := by
      by_contra low
      exact standard n (by omega) found
    by_cases isIn : n = inFd
    · refine ⟨0, ?_⟩
      rw [object_connect plain, if_pos rfl, either (standard 0 (by decide)), ← isIn, found]
    by_cases isOut : n = outFd
    · refine ⟨1, ?_⟩
      rw [object_connect plain, if_neg (by decide), if_pos rfl, either (standard 1 (by decide)),
        ← isOut, found]
    by_cases isErr : n = errFd
    · refine ⟨2, ?_⟩
      rw [object_connect plain, if_neg (by decide), if_neg (by decide), if_pos rfl,
        either (standard 2 (by decide)), ← isErr, found]
    · refine ⟨n, ?_⟩
      rw [object_connect plain, if_neg (by omega), if_neg (by omega), if_neg (by omega),
        if_neg (by simp [isIn, isOut, isErr]), found]

end Connect

/-! ## Commands and their children -/

section Children

variable {first : Process} {world : World} {f read : Frame} {child : Process}

/-- A complete command comes from reading a word. -/
theorem commandAt_reads (found : commandAt world f = some read) :
    afterWord world f = read.shell ∧ ∃ word rest, WordRead world f word rest read := by
  rw [commandAt] at found
  split at found
  · cases found
  · rename_i word rest cmds
    split at found
    · rename_i next isRead
      split at found
      · obtain rfl := Option.some.inj found
        simp only [afterWord, cmds, isRead]
        exact ⟨trivial, word, rest, (readWord_ends world f word rest).returned isRead⟩
      · cases found
    · cases found

theorem dueAt_command (found : commandAt world f = some read) :
    dueAt world f = duePipes read.shell.pipeVector := by
  rw [commandAt] at found
  split at found
  · cases found
  · rename_i word rest cmds
    split at found
    · rename_i next isRead
      split at found
      · rename_i final
        obtain rfl := Option.some.inj found
        simp only [dueAt, cmds, isRead, final, if_true]
      · cases found
    · cases found

/-- Where there is no command nothing is due. -/
theorem command_of_due {due : PipeFd} (isDue : due ∈ dueAt world f) :
    ∃ read, commandAt world f = some read := by
  rw [dueAt] at isDue
  split at isDue
  · cases isDue
  · rename_i word rest cmds
    split at isDue
    · rename_i next isRead
      split at isDue
      · rename_i final
        exact ⟨next, by simp only [commandAt, cmds, isRead, final, if_true]⟩
      · cases isDue
    · cases isDue

/-- The descriptors of a complete command. -/
theorem plain_command (sealed : Sealed first f.shell) (found : commandAt world f = some read) :
    Plain (getPipeFd read.shell.pipeVector 0 read.shell.process).1 read.outFd read.errFd := by
  obtain ⟨behind, word, rest, how⟩ := commandAt_reads found
  have after : Sealed first read.shell := behind ▸ (sealed.behindWord world).1
  have input : (getPipeFd read.shell.pipeVector 0 read.shell.process).1 = 0 ∨
      3 ≤ (getPipeFd read.shell.pipeVector 0 read.shell.process).1 := by
    rcases getPipeFd_fst read.shell.pipeVector 0 read.shell.process with
      ⟨-, same⟩ | ⟨record, member, -, same⟩
    · exact .inl same
    · rw [same]
      have isEnd : (record.outFd, .readEnd record.made) ∈ record.ends := by simp [PipeFd.ends]
      exact .inr (after.kept.stands (mem_ends member isEnd)).2
  cases how with
  | prog | argument => exact ⟨input, .inl rfl, .inl rfl⟩
  | @pipe isError pipeNum created later creates =>
    have high : 3 ≤ created.1 := by
      obtain ⟨outFd, extended, opened⟩ := created
      rcases createPipe_cases creates with ⟨same, member, -, rfl, -, -⟩ | ⟨-, -, rfl, rfl, -⟩
      · have isEnd : (same.inFd, .writeEnd same.made) ∈ same.ends := by simp [PipeFd.ends]
        exact (sealed.kept.stands (mem_ends member isEnd)).2
      · refine (after.kept.stands (e := (f.shell.process.pipe.2.1,
          .writeEnd f.shell.process.made)) ?_).2
        exact mem_ends (List.mem_append_right _ List.mem_cons_self) (by simp [PipeFd.ends])
    refine ⟨input, .inr (.inl high), ?_⟩
    cases isError
    · exact .inl rfl
    · exact .inr ⟨rfl, by simp only [Frame.pipeTo]; omega⟩
  | @redirect isError file left later words =>
    have opened : 3 ≤ (openAs (world.opens left.length) f.shell.process).1 ∨
        (openAs (world.opens left.length) f.shell.process).1 < 0 := by
      cases world.opens left.length
      · exact .inr (show (-1 : Int) < 0 by decide)
      · exact .inl sealed.kept.lowest_above
    refine ⟨input, .inr opened, ?_⟩
    cases isError
    · exact .inl rfl
    · exact .inr ⟨rfl, by simp only [Frame.redirect]; omega⟩

/-- Where a command forks, its child has the descriptors of `ConnectPipeFd`. -/
theorem childAt_connected (forked : childAt world f = some child) :
    ∃ read, commandAt world f = some read ∧
      child = connectPipeFd (getPipeFd read.shell.pipeVector 0 read.shell.process).1 read.outFd
        read.errFd (getPipeFd read.shell.pipeVector 0 read.shell.process).2 := by
  obtain ⟨read, found, forks⟩ := Option.bind_eq_some_iff.mp forked
  refine ⟨read, found, ?_⟩
  rw [childProcess] at forks
  split at forks
  · cases forks
  split at forks
  · cases forks
  · exact (Option.some.inj forks).symm

/-- No pipe end is on the standard descriptors: the shell was not itself started in a pipeline. -/
def Terminal (first : Process) : Prop :=
  ∀ n : Int, n < 3 → ∀ made, first.object n ≠ some (.writeEnd made)

/-- The shell behind the close of the pipes that are due has the write ends of the others. -/
theorem holds_attached (terminal : Terminal first) {s : Shell} (sealed : Sealed first s)
    (made : Nat) : HasOpen (getPipeFd s.pipeVector 0 s.process).2 (.writeEnd made) ↔
      ∃ record ∈ s.pipeVector, record.made = made ∧ record.count ≠ 0 := by
  constructor
  · rintro ⟨n, found⟩
    rw [object_getPipeFd] at found
    split at found
    · cases found
    rename_i notDue
    have high : 3 ≤ n := by
      by_contra low
      exact terminal n (by omega) made (by rw [← sealed.standard n (by omega), found])
    rcases sealed.confined n _ high found with ⟨serial, impossible⟩ | isEnd
    · cases impossible
    obtain ⟨record, member, inRecord⟩ := List.mem_flatMap.mp isEnd
    simp only [PipeFd.ends, List.mem_cons, Prod.mk.injEq, Object.writeEnd.injEq, reduceCtorEq,
      and_false, List.not_mem_nil, or_false] at inRecord
    obtain ⟨rfl, rfl⟩ := inRecord
    refine ⟨record, member, rfl, ?_⟩
    intro due
    exact notDue (List.mem_map_of_mem (List.mem_filter.mpr ⟨member, by simpa using due⟩))
  · rintro ⟨record, member, rfl, notDue⟩
    have isEnd : (record.inFd, .writeEnd record.made) ∈ record.ends := by simp [PipeFd.ends]
    refine ⟨record.inFd, ?_⟩
    rw [object_getPipeFd, if_neg, (sealed.kept.stands (mem_ends member isEnd)).1]
    intro isDue
    obtain ⟨other, inDue, same⟩ := List.mem_map.mp isDue
    obtain ⟨alsoMember, due⟩ := List.mem_filter.mp inDue
    have otherEnd : (record.inFd, .writeEnd other.made) ∈ other.ends := by
      simp [PipeFd.ends, same]
    rw [sealed.kept.same_record member alsoMember isEnd otherEnd] at notDue
    exact notDue (by simpa using due)

/-- So has its child. -/
theorem holds_child (terminal : Terminal first) (sealed : Sealed first f.shell)
    (forked : childAt world f = some child) (made : Nat) : HasOpen child (.writeEnd made) ↔
      ∃ record ∈ (afterWord world f).pipeVector, record.made = made ∧ record.count ≠ 0 := by
  obtain ⟨read, found, rfl⟩ := childAt_connected forked
  have behind := (commandAt_reads found).1
  have after : Sealed first read.shell := behind ▸ (sealed.behindWord world).1
  rw [behind, ← holds_attached terminal after made]
  apply holds_connect (plain_command sealed found)
  intro n low
  rw [object_getPipeFd]
  split
  · exact fun impossible => by cases impossible
  · rw [after.standard n low]
    exact terminal n low made

/-- The write ends that the shell itself has. -/
theorem holds_shell (terminal : Terminal first) {s : Shell} (sealed : Sealed first s) {made : Nat}
    (holds : HasOpen s.process (.writeEnd made)) : ∃ record ∈ s.pipeVector, record.made = made := by
  obtain ⟨n, found⟩ := holds
  have high : 3 ≤ n := by
    by_contra low
    exact terminal n (by omega) made (by rw [← sealed.standard n (by omega), found])
  rcases sealed.confined n _ high found with ⟨serial, impossible⟩ | isEnd
  · cases impossible
  obtain ⟨record, member, inRecord⟩ := List.mem_flatMap.mp isEnd
  simp only [PipeFd.ends, List.mem_cons, Prod.mk.injEq, Object.writeEnd.injEq, reduceCtorEq,
    and_false, List.not_mem_nil, or_false] at inRecord
  exact ⟨record, member, inRecord.2.symm⟩

/-- Records of one pipe are one record. -/
theorem Kept.same_made {s : Shell} (kept : Kept s) {record other : PipeFd}
    (member : record ∈ s.pipeVector) (alsoMember : other ∈ s.pipeVector)
    (same : record.made = other.made) : record = other := by
  obtain ⟨files, account⟩ := kept.account
  exact List.inj_on_of_nodup_map (made_nodup account) member alsoMember same

/-- A record in the table has been made. -/
theorem Kept.made_lt {s : Shell} (kept : Kept s) {record : PipeFd}
    (member : record ∈ s.pipeVector) : record.made < s.process.made := by
  obtain ⟨files, account⟩ := kept.account
  have isEnd : (record.inFd, .writeEnd record.made) ∈ record.ends := by simp [PipeFd.ends]
  exact account.known _ (List.mem_append_left _ (List.mem_append_right _ (mem_ends member isEnd)))

/-- The command that a pipe is due for reads it. -/
theorem child_reads (sealed : Sealed first f.shell) (forked : childAt world f = some child)
    {due : PipeFd} (isDue : due ∈ dueAt world f) : child.object 0 = some (.readEnd due.made) := by
  obtain ⟨read, found, rfl⟩ := childAt_connected forked
  have behind := (commandAt_reads found).1
  have after : Sealed first read.shell := behind ▸ (sealed.behindWord world).1
  rw [dueAt_command found] at isDue
  obtain ⟨member, count⟩ := List.mem_filter.mp isDue
  have zero : due.count = 0 := by simpa using count
  have isRead : (due.outFd, .readEnd due.made) ∈ due.ends := by simp [PipeFd.ends]
  have input : (getPipeFd read.shell.pipeVector 0 read.shell.process).1 = due.outFd := by
    rcases getPipeFd_fst read.shell.pipeVector 0 read.shell.process with
      ⟨none, -⟩ | ⟨record, alsoMember, alsoZero, same⟩
    · exact absurd zero (none due member)
    · rw [same, List.inj_on_of_nodup_map after.kept.counts alsoMember member
        (alsoZero.trans zero.symm)]
  have opened : (getPipeFd read.shell.pipeVector 0 read.shell.process).2.object due.outFd =
      some (.readEnd due.made) := by
    rw [object_getPipeFd, if_neg, (after.kept.stands (mem_ends member isRead)).1]
    intro isWrite
    obtain ⟨other, inDue, same⟩ := List.mem_map.mp isWrite
    have otherMember := (List.mem_filter.mp inDue).1
    have isEnd : (due.outFd, .writeEnd other.made) ∈ other.ends := by simp [PipeFd.ends, same]
    have one := (after.kept.stands (mem_ends member isRead)).1
    have two := (after.kept.stands (mem_ends otherMember isEnd)).1
    simp only [one, Option.some.injEq] at two
    cases two
  rw [object_connect (plain_command sealed found), if_pos rfl, input, opened]
  rfl

end Children

/-! ## The end of the input -/

/-- What the shell and its children have of the pipes that commands read: the command has
the read end as its input; the shell has closed the write end before it forks, and does
not get it back; and of the children those have the write end that were forked before the
command and after the pipe was made. -/
structure InputsEnd (heads : List (World × Frame)) : Prop where
  input : ∀ reader ∈ heads, ∀ due ∈ dueAt reader.1 reader.2, ∀ child,
    childAt reader.1 reader.2 = some child → child.object 0 = some (.readEnd due.made)
  attached : ∀ reader ∈ heads, ∀ read, commandAt reader.1 reader.2 = some read →
    ∀ due ∈ dueAt reader.1 reader.2,
      ¬ HasOpen (getPipeFd read.shell.pipeVector 0 read.shell.process).2 (.writeEnd due.made)
  shell : heads.Pairwise (fun reader later => ∀ due ∈ dueAt reader.1 reader.2,
    ¬ HasOpen later.2.shell.process (.writeEnd due.made))
  holders : ∀ (i j : Nat) (head reader : World × Frame), heads[i]? = some head →
    heads[j]? = some reader →
    ∀ due ∈ dueAt reader.1 reader.2, ∀ child, childAt head.1 head.2 = some child →
      (HasOpen child (.writeEnd due.made) ↔
        i < j ∧ due.made < (afterWord head.1 head.2).process.made)

section InputsEnd

variable {first : Process} {s : Shell}

/-- A pipe that was due is in no later table, nor behind a word read there. -/
theorem Sealed.gone {world : World} {f : Frame} (sealed : Sealed first f.shell) {due : PipeFd}
    (closed : ClosedIn f.shell.process due) :
    ∀ record ∈ (afterWord world f).pipeVector, record.made ≠ due.made := by
  refine (sealed.behindWord world).1.kept.not_closed ?_
  rw [afterWord]
  split
  · exact closed
  · rename_i word rest _
    have reads := sealed.kept.readWord world word rest
    split
    · rename_i read isRead
      rw [ClosedIn, (reads.returned isRead).2]
      exact closed
    · exact closed

/-- From a sealed state, every command of a session reads the pipe that is due, and the write end
of that pipe is with exactly the children forked in between.

A child has it if and only if the shell had it when the child was forked. The shell has it from
when the pipe is made until the record is due, and a child whose input it is has it closed. -/
theorem Sealed.inputsEnd (terminal : Terminal first) (sealed : Sealed first s)
    (lines : List (Str × World)) : InputsEnd (heads lines s) := by
  obtain ⟨each, onward, -⟩ := sealed.lines lines
  have closed := (sealed.kept.lines lines).closed
  have at' {i : Nat} {head : World × Frame} (found : (heads lines s)[i]? = some head) :
      Sealed first head.2.shell := (each head (List.mem_of_getElem? found)).1
  have before {related : World × Frame → World × Frame → Prop}
      (pairs : (heads lines s).Pairwise related) {i j : Nat} {head later : World × Frame}
      (first : (heads lines s)[i]? = some head) (second : (heads lines s)[j]? = some later)
      (less : i < j) : related head later := by
    obtain ⟨inI, rfl⟩ := List.getElem?_eq_some_iff.mp first
    obtain ⟨inJ, rfl⟩ := List.getElem?_eq_some_iff.mp second
    exact List.pairwise_iff_getElem.mp pairs i j inI inJ less
  constructor
  · intro reader member due isDue child forked
    exact child_reads (each reader member).1 forked isDue
  · intro reader member read found due isDue holds
    have behind := (commandAt_reads found).1
    have after : Sealed first read.shell := behind ▸ ((each reader member).1.behindWord reader.1).1
    obtain ⟨record, inTable, same, notDue⟩ := (holds_attached terminal after due.made).mp holds
    rw [dueAt_command found] at isDue
    obtain ⟨alsoInTable, zero⟩ := List.mem_filter.mp isDue
    rw [after.kept.same_made inTable alsoInTable same] at notDue
    exact notDue (by simpa using zero)
  · apply closed.imp_of_mem
    intro reader later _ isLater closed due isDue holds
    have sealed := (each later isLater).1
    obtain ⟨record, inTable, same⟩ := holds_shell terminal sealed holds
    exact sealed.kept.not_closed (closed due isDue) record inTable same
  · intro i j head reader isHead isReader due isDue child forked
    have holds := holds_child terminal (at' isHead) forked due.made
    obtain ⟨command, found⟩ := command_of_due isDue
    have dueInTable : due ∈ (afterWord reader.1 reader.2).pipeVector := by
      rw [dueAt_command found] at isDue
      rw [(commandAt_reads found).1]
      exact (List.mem_filter.mp isDue).1
    rw [holds]
    constructor
    · rintro ⟨record, inTable, same, notDue⟩
      refine ⟨?_, ?_⟩
      · by_contra notBefore
        rcases Nat.lt_or_eq_of_le (Nat.le_of_not_lt notBefore) with later | rfl
        · exact (at' isHead).gone (before closed isReader isHead later due isDue) record inTable same
        · obtain rfl : reader = head := Option.some.inj (isReader.symm.trans isHead)
          have kept := ((at' isHead).behindWord reader.1).1.kept
          rw [kept.same_made inTable dueInTable same] at notDue
          rw [dueAt_command found] at isDue
          exact notDue (by simpa using (List.mem_filter.mp isDue).2)
      · rw [← same]
        exact ((at' isHead).behindWord head.1).1.kept.made_lt inTable
    · rintro ⟨earlier, made⟩
      have carried := (before onward isHead isReader earlier).trans
        ((at' isReader).behindWord reader.1).2
      obtain ⟨old, inTable, same⟩ := carried.records due dueInTable made
      refine ⟨old, inTable, same, ?_⟩
      intro zero
      obtain ⟨read, foundHead, -⟩ := childAt_connected forked
      have alsoDue : old ∈ dueAt head.1 head.2 := by
        rw [dueAt_command foundHead]
        rw [(commandAt_reads foundHead).1] at inTable
        exact List.mem_filter.mpr ⟨inTable, by simpa using zero⟩
      exact (at' isReader).gone (before closed isHead isReader earlier old alsoDue) due dueInTable
        same.symm

end InputsEnd

theorem started_terminal (vars : List (Str × Str)) : Terminal (started vars).process := by
  intro n low made found
  by_cases negative : n < 0
  · rw [object_negative _ negative] at found
    cases found
  · have among : n = 0 ∨ n = 1 ∨ n = 2 := by omega
    rcases among with rfl | rfl | rfl <;> cases found

theorem begunSimple_terminal (vars : List (Str × Str)) :
    Terminal (begunSimple vars).shell.process := by
  intro n low made found
  by_cases negative : n < 0
  · rw [object_negative _ negative] at found
    cases found
  · have among : n = 0 ∨ n = 1 ∨ n = 2 := by omega
    rcases among with rfl | rfl | rfl <;> cases found

/-- In every session of either program, a command reads the pipe that is due for it, and the write
end of that pipe is with exactly the children that were forked before it and after the pipe was
made. So the command comes to the end of its input when these have ended, and no sooner.

A child has what its parent had when it was forked. The invariant says at the head of every round
which children have the write end of each pipe in the table. -/
theorem session_inputs_end (vars : List (Str × Str)) (lines : List (Str × World)) :
    InputsEnd (heads lines (started vars)) ∧ InputsEnd (heads lines (begunSimple vars).shell) :=
  ⟨(started_sealed vars).inputsEnd (started_terminal vars) lines,
    (begunSimple_sealed vars).inputsEnd (begunSimple_terminal vars) lines⟩

end NetProg.Npshell
