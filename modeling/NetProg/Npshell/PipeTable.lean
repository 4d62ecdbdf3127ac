import Mathlib.Data.List.Nodup
import NetProg.Npshell.Routing

/-!
# The pipe table over a session

Whatever the lines of a session are, the table stays in order between the commands. Its
counts are distinct, since an operator joins the record that has its count already; its
ends are open, since a close only ever hits an end of the record that is due. The write
end of that record is closed twice, and in between nothing is opened that could get its
number.
-/

namespace NetProg.Npshell

open Loops Outcomes NumberedPipes

/-- The descriptors of a table. -/
def endNumbers (pipeVector : List PipeFd) : List Int :=
  pipeVector.flatMap (fun record => [record.inFd, record.outFd])

/-- The table in order: no two records with one count, both ends of each record open and
different, and every close so far on the end it was meant for or on nothing. -/
structure TableRight (s : Shell) : Prop where
  counts : (s.pipeVector.map PipeFd.count).Nodup
  opened : ∀ record ∈ s.pipeVector, s.process.object record.inFd = some (.writeEnd record.made) ∧
    s.process.object record.outFd = some (.readEnd record.made)
  apart : (endNumbers s.pipeVector).Nodup
  /-- Every close so far hit the end of the record it was meant for, or nothing. -/
  proper : ∀ c ∈ s.process.closes, c.Proper

/-- The write end of a record has been closed, or was found closed. -/
def ClosedIn (p : Process) (record : PipeFd) : Prop :=
  ∃ c ∈ p.closes, c.meant = some (.writeEnd record.made)

/-- What the session keeps: an account of all numbers that the table relies on, each with the end
that it stands for, and counts that are distinct. That the table is in order is read off this. -/
structure Kept (s : Shell) : Prop where
  account : ∃ files, Account True s.process (files ++ ends s.pipeVector) []
  counts : (s.pipeVector.map PipeFd.count).Nodup
  /-- What a close was meant for has been made. -/
  past : ∀ c ∈ s.process.closes, ∀ o ∈ c.meant, o.Before s.process.made
  /-- No record in the table has had its write end closed. -/
  spared : ∀ record ∈ s.pipeVector, ¬ ClosedIn s.process record

/-- The records that are due when the command runs that a pass completes. -/
def dueAt (world : World) (f : Frame) : List PipeFd :=
  match f.cmds with
  | [] => []
  | word :: rest =>
    match readWord world f word rest with
    | .ok read => if read.isFinalArgv then duePipes read.shell.pipeVector else []
    | .error _ => []

section Entries

variable {honest : Prop} {p : Process} {pipeVector : List PipeFd} {files : List (Int × Object)}

theorem endNumbers_eq (pipeVector : List PipeFd) :
    endNumbers pipeVector = (ends pipeVector).map Prod.fst := by
  induction pipeVector with
  | nil => rfl
  | cons record rest ih =>
    rw [ends_cons, List.map_append, ← ih]
    rfl

/-- Entries that are relied on have different numbers. -/
theorem endNumbers_nodup (account : Account honest p (files ++ ends pipeVector) []) :
    (endNumbers pipeVector).Nodup := by
  have objects : ((ends pipeVector).map Prod.snd).Nodup := by
    have all := account.apart
    rw [List.append_nil, List.map_append] at all
    exact all.of_append_right
  rw [endNumbers_eq]
  apply List.Nodup.map_on _ objects.of_map
  intro e isEnd other isOther same
  have first := account.stands e (List.mem_append_right _ isEnd)
  have second := account.stands other (List.mem_append_right _ isOther)
  rw [same, second] at first
  exact Prod.ext same (Option.some.inj first).symm

/-- Different records are from different calls of `pipe`. -/
theorem made_nodup (account : Account honest p (files ++ ends pipeVector) []) :
    (pipeVector.map PipeFd.made).Nodup := by
  have objects : ((ends pipeVector).map Prod.snd).Nodup := by
    have all := account.apart
    rw [List.append_nil, List.map_append] at all
    exact all.of_append_right
  have parts := ((ends_perm pipeVector).map Prod.snd).nodup_iff.mp objects
  rw [List.map_append] at parts
  have writes := parts.of_append_right
  rw [writeEnds, List.map_map] at writes
  exact List.Nodup.of_map Object.writeEnd (by rwa [List.map_map])

end Entries

section Step

variable {s : Shell}

theorem Kept.tableRight (kept : Kept s) : TableRight s := by
  obtain ⟨files, account⟩ := kept.account
  constructor
  · exact kept.counts
  · intro record member
    have entered : ∀ e ∈ record.ends, s.process.object e.1 = some e.2 :=
      fun e isEnd => account.stands e (List.mem_append_right _ (mem_ends member isEnd))
    constructor
    · exact entered (record.inFd, .writeEnd record.made) (by simp [PipeFd.ends])
    · exact entered (record.outFd, .readEnd record.made) (by simp [PipeFd.ends])
  · exact endNumbers_nodup account
  · exact account.proper trivial

/-- A file opened for a redirection. -/
theorem Kept.opens (kept : Kept s) (opens : Bool) :
    Kept (s.withProcess (openAs opens s.process).2) := by
  obtain ⟨files, account⟩ := kept.account
  obtain ⟨more, -, opened, -⟩ := openAs_account opens account
  have closes : (openAs opens s.process).2.closes = s.process.closes := by
    cases opens <;> rfl
  constructor
  · exact ⟨more, opened⟩
  · exact kept.counts
  · intro c member o isMeant
    rw [Shell.withProcess, closes] at member
    exact (kept.past c member o isMeant).mono (made_openAs _ _)
  · rintro record member ⟨c, isClose, isMeant⟩
    rw [Shell.withProcess, closes] at isClose
    exact kept.spared record member ⟨c, isClose, isMeant⟩

/-- A pipe created or joined. -/
theorem Kept.pipes (kept : Kept s) {canPipe : Bool} {pipeNum : Int}
    {created : Int × List PipeFd × Process}
    (creates : createPipe canPipe s.process s.pipeVector pipeNum = some created) :
    Kept (s.withPipes created.2.1 created.2.2) ∧ created.2.2.closes = s.process.closes := by
  obtain ⟨outFd, extended, after⟩ := created
  rcases createPipe_cases creates with ⟨_, _, _, _, rfl, rfl⟩ | ⟨-, fresh, -, rfl, rfl⟩
  · exact ⟨kept, rfl⟩
  · obtain ⟨files, account⟩ := kept.account
    have paid := createPipe_account (account.perm List.perm_append_comm) creates
    refine ⟨?_, rfl⟩
    constructor
    · exact ⟨files, paid.perm List.perm_append_comm⟩
    · rw [Shell.withPipes, List.map_append]
      apply List.Nodup.append kept.counts (List.nodup_singleton _)
      intro count inTable isNew
      obtain ⟨record, member, rfl⟩ := List.mem_map.mp inTable
      exact fresh record member (List.mem_singleton.mp isNew)
    · intro c member o isMeant
      exact (kept.past c member o isMeant).mono (Nat.le_succ _)
    · intro record member
      rcases List.mem_append.mp member with old | isNew
      · exact kept.spared record old
      · -- no close can have been meant for what is made only now
        rw [List.mem_singleton.mp isNew]
        rintro ⟨c, isClose, isMeant⟩
        exact Nat.lt_irrefl _ (kept.past c isClose (.writeEnd s.process.made) isMeant)

end Step

section Closes

/-- Every close that has been added was meant for an end of one of some records. -/
def Adds (records : List PipeFd) (p q : Process) : Prop :=
  ∃ more, q.closes = p.closes ++ more ∧ ∀ c ∈ more, ∃ record ∈ records,
    c.meant = some (.writeEnd record.made) ∨ c.meant = some (.readEnd record.made)

variable {records : List PipeFd} {p q r : Process}

theorem Adds.refl (records : List PipeFd) (p : Process) : Adds records p p :=
  ⟨[], (List.append_nil _).symm, by simp⟩

theorem Adds.trans (first : Adds records p q) (second : Adds records q r) : Adds records p r := by
  obtain ⟨one, isOne, meantOne⟩ := first
  obtain ⟨two, isTwo, meantTwo⟩ := second
  refine ⟨one ++ two, by rw [isTwo, isOne, List.append_assoc], ?_⟩
  intro c member
  rcases List.mem_append.mp member with early | late
  · exact meantOne c early
  · exact meantTwo c late

theorem Adds.subset (adds : Adds records p q) : p.closes ⊆ q.closes := by
  obtain ⟨more, isMore, -⟩ := adds
  rw [isMore]
  exact List.subset_append_left _ _

/-- A close that was not there before was meant for one of the records. -/
theorem Adds.close (adds : Adds records p q) {c : Close} (member : c ∈ q.closes) :
    c ∈ p.closes ∨ ∃ record ∈ records,
      c.meant = some (.writeEnd record.made) ∨ c.meant = some (.readEnd record.made) := by
  obtain ⟨more, isMore, meant⟩ := adds
  rw [isMore] at member
  exact (List.mem_append.mp member).imp_right (meant c)

/-- Where the ends of the records have been made, closes are still meant for ends that have
been made. -/
theorem Adds.past (adds : Adds records p q) {made : Nat}
    (known : ∀ record ∈ records, record.made < made)
    (past : ∀ c ∈ p.closes, ∀ o ∈ c.meant, o.Before made) :
    ∀ c ∈ q.closes, ∀ o ∈ c.meant, o.Before made := by
  intro c member o isMeant
  rcases adds.close member with old | ⟨record, inRecords, isWrite | isRead⟩
  · exact past c old o isMeant
  · rw [isWrite] at isMeant
    cases isMeant
    exact known record inRecords
  · rw [isRead] at isMeant
    cases isMeant
    exact known record inRecords

/-- A record that is not one of them is spared. -/
theorem Adds.spares (adds : Adds records p q) {record : PipeFd} (spared : ¬ ClosedIn p record)
    (apart : ∀ other ∈ records, record.made ≠ other.made) : ¬ ClosedIn q record := by
  rintro ⟨c, isClose, isMeant⟩
  rcases adds.close isClose with old | ⟨other, inRecords, isWrite | isRead⟩
  · exact spared ⟨c, old, isMeant⟩
  · rw [isMeant] at isWrite
    exact apart other inRecords (Object.writeEnd.inj (Option.some.inj isWrite))
  · rw [isMeant] at isRead
    cases isRead

theorem Adds.closeWrite {record : PipeFd} (member : record ∈ records) (p : Process) (n : Int) :
    Adds records p (p.closeEnd n (some (.writeEnd record.made))) := by
  refine ⟨_, p.closes_closeEnd n _, ?_⟩
  intro c isClose
  rw [List.mem_singleton.mp isClose]
  exact ⟨record, member, Or.inl rfl⟩

theorem Adds.closeRead {record : PipeFd} (member : record ∈ records) (p : Process) (n : Int) :
    Adds records p (p.closeEnd n (some (.readEnd record.made))) := by
  refine ⟨_, p.closes_closeEnd n _, ?_⟩
  intro c isClose
  rw [List.mem_singleton.mp isClose]
  exact ⟨record, member, Or.inr rfl⟩

/-- Getting the pipes that are due closes write ends of theirs. -/
theorem getPipeFd_adds {pipeVector : List PipeFd} (inFd : Int) (p : Process)
    (due : ∀ record ∈ pipeVector, record.count = 0 → record ∈ records) :
    Adds records p (getPipeFd pipeVector inFd p).2 := by
  induction pipeVector generalizing inFd p with
  | nil => exact Adds.refl records p
  | cons record rest ih =>
    have dueRest : ∀ other ∈ rest, other.count = 0 → other ∈ records :=
      fun other member => due other (List.mem_cons_of_mem record member)
    by_cases isDue : record.count = 0
    · rw [getPipeFd, if_pos isDue]
      apply (Adds.closeWrite (due record List.mem_cons_self isDue) p record.inFd).trans
      exact ih _ _ dueRest
    · rw [getPipeFd, if_neg isDue]
      exact ih inFd p dueRest

/-- The write end of each of them. -/
theorem getPipeFd_closed {pipeVector : List PipeFd} (inFd : Int) (p : Process) {record : PipeFd}
    (member : record ∈ pipeVector) (due : record.count = 0) :
    ClosedIn (getPipeFd pipeVector inFd p).2 record := by
  induction pipeVector generalizing inFd p with
  | nil => cases member
  | cons first rest ih =>
    rcases List.mem_cons.mp member with rfl | later
    · rw [getPipeFd, if_pos due]
      have kept := (@getPipeFd_adds rest rest record.outFd
        (p.closeEnd record.inFd (some (.writeEnd record.made))) (fun _ inRest _ => inRest)).subset
      exact ⟨_, kept (List.mem_append_right _ List.mem_cons_self), rfl⟩
    · by_cases isDue : first.count = 0
      · rw [getPipeFd, if_pos isDue]
        exact ih _ _ later
      · rw [getPipeFd, if_neg isDue]
        exact ih inFd p later

/-- Erasing closes both ends of the records that are due. -/
theorem erasePipeVector_adds {pipeVector : List PipeFd} (p : Process)
    (due : ∀ record ∈ pipeVector, record.count = 0 → record ∈ records) :
    Adds records p (erasePipeVector pipeVector p).2 := by
  induction pipeVector generalizing p with
  | nil => exact Adds.refl records p
  | cons record rest ih =>
    have dueRest : ∀ other ∈ rest, other.count = 0 → other ∈ records :=
      fun other member => due other (List.mem_cons_of_mem record member)
    by_cases isDue : record.count = 0
    · have inRecords := due record List.mem_cons_self isDue
      rw [erasePipeVector, if_pos isDue]
      apply (Adds.closeWrite inRecords p record.inFd).trans
      apply (Adds.closeRead inRecords _ record.outFd).trans
      exact ih _ dueRest
    · rw [erasePipeVector, if_neg isDue]
      exact ih p dueRest

end Closes

section Execute

variable {world : World} {f : Frame}

/-- The built-in branches leave the process and the table. -/
theorem builtin_stays (s : Shell) (arguments : List Str) :
    Ends (builtin s arguments)
      (fun ran => ran.process = s.process ∧ ran.pipeVector = s.pipeVector)
      (fun failure => failure.2 = s) := by
  have argument (k : Nat) :
      Ends (arg s arguments k) (fun _ => True) (fun failure => failure.2 = s) := by
    rw [arg]
    split
    · exact trivial
    · rfl
  rw [builtin]
  apply (argument 0).bind
  intro prog _
  split
  · apply (argument 1).bind
    intro var _
    rw [ends_pure, Shell.printEnv]
    split <;> exact ⟨rfl, rfl⟩
  split
  · apply (argument 1).bind
    intro var _
    apply (argument 2).bind
    intro val _
    exact ⟨rfl, rfl⟩
  split
  · rfl
  · exact ⟨rfl, rfl⟩

/-- The pipes that are due may be given up, both their ends. -/
theorem Kept.giveUp {s : Shell} (kept : Kept s) : ∃ files,
    Account True s.process (files ++ ends (laterPipes s.pipeVector))
      (ends (duePipes s.pipeVector)) := by
  obtain ⟨files, account⟩ := kept.account
  have split := (ends_filter_due s.pipeVector).append_left files
  rw [← List.append_assoc] at split
  refine ⟨files, account.weaken _ _ ?_ ?_⟩
  · intro e member
    exact split.symm.subset (List.mem_append_left _ member)
  · rw [List.append_nil]
    exact split.symm.subperm

/-- The records that stay behind when those that are due have been closed: they are still
accounted for, under smaller counts, and every close was of an end of a due record. -/
theorem Kept.detach {s ran : Shell} (kept : Kept s)
    (process : ran.process = (getPipeFd s.pipeVector 0 s.process).2)
    (pipeVector : ran.pipeVector = s.pipeVector) :
    Kept (detach ran) ∧ Adds (duePipes s.pipeVector) s.process (detach ran).process ∧
      ∀ record ∈ duePipes s.pipeVector, ClosedIn (detach ran).process record := by
  have isDue : ∀ record ∈ s.pipeVector, record.count = 0 → record ∈ duePipes s.pipeVector :=
    fun record member due => List.mem_filter.mpr ⟨member, by simpa using due⟩
  have table : (Npshell.detach ran).pipeVector = countdownPipeVector (laterPipes s.pipeVector) := by
    simp only [Npshell.detach, Shell.withPipes, erasePipeVector_fst, pipeVector, laterPipes]
  have closed : (Npshell.detach ran).process =
      (erasePipeVector s.pipeVector (getPipeFd s.pipeVector 0 s.process).2).2 := by
    simp only [Npshell.detach, Shell.withPipes, pipeVector, process]
  have got := getPipeFd_adds 0 s.process isDue
  have erased := erasePipeVector_adds (getPipeFd s.pipeVector 0 s.process).2 isDue
  have adds := got.trans erased
  rw [← closed] at adds
  obtain ⟨files, account⟩ := kept.giveUp
  obtain ⟨before, whole⟩ := kept.account
  refine ⟨?_, adds, ?_⟩
  · constructor
    · have first := Npshell.getPipeFd_account s.pipeVector 0 account
        (fun record member due => mem_ends (isDue record member due) (by simp [PipeFd.ends]))
      have second := erasePipeVector_account first
        (fun record member due e isEnd => mem_ends (isDue record member due) isEnd)
      refine ⟨files, ?_⟩
      rw [table, ends_countdown, closed]
      exact second.forget
    · have left : ((laterPipes s.pipeVector).map PipeFd.count).Nodup :=
        kept.counts.sublist (List.filter_sublist.map _)
      have down : (countdownPipeVector (laterPipes s.pipeVector)).map PipeFd.count =
          ((laterPipes s.pipeVector).map PipeFd.count).map (· - 1) := by
        simp [countdownPipeVector]
      rw [table, down]
      apply left.map
      intro a b same
      simp only at same
      omega
    · have made : (Npshell.detach ran).process.made = s.process.made := by
        rw [closed]
        simp
      rw [made]
      apply adds.past _ kept.past
      intro record inDue
      have isEnd : (record.inFd, Object.writeEnd record.made) ∈ ends s.pipeVector :=
        mem_ends (List.mem_filter.mp inDue).1 (by simp [PipeFd.ends])
      exact whole.known _ (List.mem_append_left _ (List.mem_append_right _ isEnd))
    · intro record member
      rw [table] at member
      obtain ⟨left, isLeft, rfl⟩ := List.mem_map.mp member
      obtain ⟨inTable, notDue⟩ := List.mem_filter.mp isLeft
      -- the closes were meant for records that are due, which this one is not
      apply adds.spares (kept.spared left inTable)
      intro other inDue sameMade
      have same : left = other := List.inj_on_of_nodup_map (made_nodup whole) inTable
        (List.mem_filter.mp inDue).1 sameMade
      rw [same] at notDue
      have isZero : other.count = 0 := by simpa using (List.mem_filter.mp inDue).2
      simp [isZero] at notDue
  · intro record member
    obtain ⟨inTable, due⟩ := List.mem_filter.mp member
    obtain ⟨c, isClose, isMeant⟩ := getPipeFd_closed 0 s.process inTable (by simpa using due)
    refine ⟨c, ?_, isMeant⟩
    rw [closed]
    exact erased.subset isClose

/-- Executing a command. -/
theorem Kept.execute (kept : Kept f.shell) (world : World) :
    Ends (execute world f)
      (fun next => Kept next.shell ∧ f.shell.process.closes ⊆ next.shell.process.closes ∧
        ∀ record ∈ duePipes f.shell.pipeVector, ClosedIn next.shell.process record)
      (fun failure => ∀ c ∈ failure.2.process.closes, c.Proper) := by
  rw [Npshell.execute]
  generalize callOf world f _ _ = call
  apply Ends.bind _ ((builtin_stays _ f.arguments).mono (fun _ stays => stays) ?_)
  · rintro ran ⟨process, pipeVector⟩
    obtain ⟨keeps, adds, closed⟩ := kept.detach process pipeVector
    exact ⟨keeps, adds.subset, closed⟩
  · rintro ⟨fault, t⟩ same
    simp only at same
    subst same
    obtain ⟨files, account⟩ := kept.giveUp
    have got := Npshell.getPipeFd_account f.shell.pipeVector 0 account
      (fun record member due => mem_ends
        (List.mem_filter.mpr ⟨member, by simpa using due⟩) (by simp [PipeFd.ends]))
    exact got.proper trivial

end Execute

section Rounds

variable {world : World} {f : Frame}

/-- Where a round leads the table is in order, and no record that was due in it has been
spared. -/
structure LeadsTo (world : World) (f : Frame) (s : Shell) : Prop where
  kept : Kept s
  grows : f.shell.process.closes ⊆ s.process.closes
  closed : ∀ record ∈ dueAt world f, ClosedIn s.process record

/-- Reading a word opens at most a pipe or a file. -/
theorem Kept.readWord (kept : Kept f.shell) (world : World) (word : Str) (rest : List Str) :
    Ends (readWord world f word rest)
      (fun read => Kept read.shell ∧ read.shell.process.closes = f.shell.process.closes)
      (fun failure => failure.2 = f.shell) := by
  refine (readWord_ends world f word rest).mono ?_ (fun _ failed => failed)
  intro read how
  cases how with
  | prog | argument => exact ⟨kept, rfl⟩
  | pipe later creates => exact kept.pipes creates
  | @redirect isError file left later words =>
    refine ⟨kept.opens (world.opens left.length), ?_⟩
    rw [Frame.redirect, Shell.withProcess]
    cases world.opens left.length <;> rfl

/-- One round keeps the table in order, and closes what was due in it. A word adds at most one
record, and a command takes away the due ones. A round that fails has closed nothing but what it
was to. -/
theorem Kept.round (kept : Kept f.shell) (world : World) :
    Ends ((cmdLoop world).body f)
      (Round.Holds (fun next => LeadsTo world f next.shell) (LeadsTo world f))
      (fun failure => ∀ c ∈ failure.2.process.closes, c.Proper) := by
  cases cmds : f.cmds with
  | nil =>
    have leaves : (cmdLoop world).body f = .ok (.leave f.shell) := by
      simp only [cmdLoop, Npshell.round, cmds]
    rw [leaves]
    exact ⟨kept, List.Subset.refl _, by simp [dueAt, cmds]⟩
  | cons word rest =>
    have body : (cmdLoop world).body f = (do return .again (← pass world f word rest)) := by
      simp only [cmdLoop, Npshell.round, cmds]
    have reads := kept.readWord world word rest
    rw [body, pass]
    cases read : Npshell.readWord world f word rest with
    | error failure =>
      rw [read] at reads
      intro c member
      rw [show failure.2 = f.shell from reads] at member
      exact kept.tableRight.proper c member
    | ok next =>
      rw [read] at reads
      obtain ⟨keeps, closes⟩ := reads
      by_cases complete : next.isFinalArgv = true
      · have due : dueAt world f = duePipes next.shell.pipeVector := by
          simp [dueAt, cmds, read, complete]
        have executes := keeps.execute world
        simp only [bind, Except.bind, complete, if_true]
        cases executed : Npshell.execute world next with
        | error failure =>
          rw [executed] at executes
          exact executes
        | ok done =>
          rw [executed] at executes
          obtain ⟨still, grows, closed⟩ := executes
          constructor
          · exact still
          · rw [← closes]
            exact grows
          · rw [due]
            exact closed
      · simp only [bind, Except.bind, complete, Bool.false_eq_true, if_false, pure, Except.pure]
        constructor
        · exact keeps
        · rw [closes]
          exact List.Subset.refl _
        · simp [dueAt, cmds, read, complete]

theorem Kept.again {next : Frame} (kept : Kept f.shell)
    (again : (cmdLoop world).body f = .ok (.again next)) : LeadsTo world f next.shell := by
  have round := kept.round world
  rw [again] at round
  exact round

/-- At the head of every round the table is in order, and no close has been forgotten. -/
theorem Kept.rounds (kept : Kept f.shell) :
    ∀ g ∈ (cmdLoop world).rounds f, Kept g.shell ∧
      f.shell.process.closes ⊆ g.shell.process.closes := by
  apply (cmdLoop world).rounds_invariant
  · exact ⟨kept, List.Subset.refl _⟩
  · rintro g next - ⟨keeps, grows⟩ again -
    have leads := keeps.again again
    exact ⟨leads.kept, List.Subset.trans grows leads.grows⟩

/-- The whole of the passes, by the invariant rule of loops from the single round. -/
theorem Kept.run (kept : Kept f.shell) (world : World) :
    Ends ((cmdLoop world).run f) (LeadsTo world f)
      (fun failure => ∀ c ∈ failure.2.process.closes, c.Proper) := by
  induction f using (cmdLoop world).induction with
  | step f ih =>
    have round := kept.round world
    cases outcome : (cmdLoop world).body f with
    | error failure =>
      rw [outcome] at round
      rw [(cmdLoop world).run_error outcome]
      exact round
    | ok result =>
      rw [outcome] at round
      cases result with
      | leave s =>
        rw [(cmdLoop world).run_leave outcome]
        exact round
      | again next =>
        rw [(cmdLoop world).run_again outcome]
        apply (ih next outcome round.kept).mono _ (fun _ failed => failed)
        intro s leads
        constructor
        · exact leads.kept
        · exact List.Subset.trans round.grows leads.grows
        · intro record due
          obtain ⟨c, isClose, isMeant⟩ := round.closed record due
          exact ⟨c, leads.grows isClose, isMeant⟩

end Rounds

section Session

/-- The heads of the rounds of a line, with the answers of the system. -/
def lineHeads (line : Str × World) (s : Shell) : List (World × Frame) :=
  if line.1 = [] then []
  else ((cmdLoop line.2).rounds (Frame.initial (s.write (str "% ")) (words line.1))).map
    (Prod.mk line.2)

/-- The heads of all rounds of a session, in order, up to its end or failure. -/
def heads : List (Str × World) → Shell → List (World × Frame)
  | [], _ => []
  | line :: lines, s =>
    lineHeads line s ++
      match execLine s line with
      | .ok t => heads lines t
      | .error _ => []

/-- The table is in order at the head of every round, and at the end; the records that were due in
a round have been closed in every later one. The heads are those of all lines, one after the
other. -/
structure InOrder (s : Shell) (heads : List (World × Frame)) (result : Outcome Shell) : Prop where
  kept : ∀ head ∈ heads, Kept head.2.shell ∧ s.process.closes ⊆ head.2.shell.process.closes
  closed : heads.Pairwise (fun head later =>
    ∀ record ∈ dueAt head.1 head.2, ClosedIn later.2.shell.process record)
  ends : Ends result
    (fun t => Kept t ∧ s.process.closes ⊆ t.process.closes ∧
      ∀ head ∈ heads, ∀ record ∈ dueAt head.1 head.2, ClosedIn t.process record)
    (fun failure => ∀ c ∈ failure.2.process.closes, c.Proper)

theorem Kept.write {s : Shell} (kept : Kept s) (text : Str) : Kept (s.write text) where
  account := kept.account
  counts := kept.counts
  past := kept.past
  spared := kept.spared

/-- A line keeps the table in order, by the rounds of its loop; the prompt before it does nothing
to it. What a round has closed is not in the table of any later one. -/
theorem Kept.line {s : Shell} (kept : Kept s) (line : Str × World) :
    InOrder s (lineHeads line s) (execLine s line) := by
  have prompted : Kept (Frame.initial (s.write (str "% ")) (words line.1)).shell :=
    kept.write (str "% ")
  by_cases empty : line.1 = []
  · rw [lineHeads, if_pos empty, execLine]
    simp only [empty, if_true]
    exact ⟨by simp, List.Pairwise.nil, prompted, List.Subset.refl _, by simp⟩
  · rw [lineHeads, if_neg empty, execLine]
    simp only [empty, if_false]
    have rounds := @Kept.rounds line.2 _ prompted
    constructor
    · intro head member
      obtain ⟨f, isHead, rfl⟩ := List.mem_map.mp member
      exact rounds f isHead
    · rw [List.pairwise_map]
      have related := (cmdLoop line.2).rounds_pairwise
        (fun f g => Kept f.shell → LeadsTo line.2 f g.shell)
        (fun _ _ again kept => kept.again again)
        (fun f g next leads again kept => by
          have far := leads kept
          have near := far.kept.again again
          exact ⟨near.kept, List.Subset.trans far.grows near.grows, fun record due => by
            obtain ⟨c, isClose, isMeant⟩ := far.closed record due
            exact ⟨c, near.grows isClose, isMeant⟩⟩)
        (Frame.initial (s.write (str "% ")) (words line.1))
      apply related.imp_of_mem
      intro f g isHead _ leads
      exact (leads (rounds f isHead).1).closed
    · have closed : ∀ t, (cmdLoop line.2).run (Frame.initial (s.write (str "% ")) (words line.1)) =
          .ok t → ∀ head ∈ ((cmdLoop line.2).rounds (Frame.initial (s.write (str "% "))
            (words line.1))).map (Prod.mk line.2),
          ∀ record ∈ dueAt head.1 head.2, ClosedIn t.process record := by
        intro t ran head member
        obtain ⟨f, isHead, rfl⟩ := List.mem_map.mp member
        have same := (cmdLoop line.2).run_of_mem_rounds isHead
        have leads := ((rounds f isHead).1.run line.2).returned (same.trans ran)
        exact leads.closed
      apply ((prompted.run line.2).and_returned closed).mono _ (fun _ failed => failed)
      rintro t ⟨leads, each⟩
      exact ⟨leads.kept, leads.grows, each⟩

/-- The lines of a session, by induction: what a line closes stays closed in all later lines, as
the serial numbers of new pipes are new. -/
theorem Kept.lines {s : Shell} (kept : Kept s) (lines : List (Str × World)) :
    InOrder s (heads lines s) (lines.foldlM execLine s) := by
  induction lines generalizing s with
  | nil => exact ⟨by simp [heads], List.Pairwise.nil, kept, List.Subset.refl _, by simp [heads]⟩
  | cons line lines ih =>
    have first := kept.line line
    rw [heads, List.foldlM_cons]
    cases ran : execLine s line with
    | error failure =>
      rw [ran] at first
      simp only [List.append_nil]
      exact ⟨first.kept, first.closed, first.ends⟩
    | ok t =>
      rw [ran] at first
      obtain ⟨still, grows, closed⟩ := first.ends
      have later := ih still
      simp only [bind, Except.bind]
      constructor
      · intro head member
        rcases List.mem_append.mp member with early | late
        · exact first.kept head early
        · obtain ⟨keeps, further⟩ := later.kept head late
          exact ⟨keeps, List.Subset.trans grows further⟩
      · rw [List.pairwise_append]
        refine ⟨first.closed, later.closed, ?_⟩
        intro head early other late record due
        obtain ⟨c, isClose, isMeant⟩ := closed head early record due
        exact ⟨c, (later.kept other late).2 isClose, isMeant⟩
      · apply later.ends.mono _ (fun _ failed => failed)
        rintro final ⟨keeps, further, closedLater⟩
        refine ⟨keeps, List.Subset.trans grows further, ?_⟩
        intro head member record due
        rcases List.mem_append.mp member with early | late
        · obtain ⟨c, isClose, isMeant⟩ := closed head early record due
          exact ⟨c, further isClose, isMeant⟩
        · exact closedLater head late record due

/-- The shell before the first line. -/
def started (vars : List (Str × Str)) : Shell :=
  (Shell.initial vars).setEnv (str "PATH") (str "bin:.")

theorem started_kept (vars : List (Str × Str)) : Kept (started vars) where
  account := ⟨[], Account.initial⟩
  counts := List.nodup_nil
  past := by
    intro c member
    cases member
  spared := by
    intro record member
    cases member

/-- A record that has been closed is not in the table. -/
theorem Kept.not_closed {s : Shell} (kept : Kept s) {record : PipeFd}
    (closed : ClosedIn s.process record) : ∀ other ∈ s.pipeVector, other.made ≠ record.made := by
  intro other member same
  apply kept.spared other member
  rw [ClosedIn, same]
  exact closed

/-- In every session, at the head of every round and at its end, the counts of the table are
distinct, the ends it records are open and different, and every close so far has hit the end it
was meant for or nothing; and a record that was due when a command ran is in the table of no later
state.

Records are told apart by when their pipes were made, since numbers of descriptors are used again.
One round keeps the invariant, and the rest is induction along the rounds and the lines. -/
theorem session_keeps_table (vars : List (Str × Str)) (lines : List (Str × World)) :
    (∀ head ∈ heads lines (started vars), TableRight head.2.shell) ∧
      (heads lines (started vars)).Pairwise (fun head later =>
        ∀ due ∈ dueAt head.1 head.2, ∀ record ∈ later.2.shell.pipeVector, record.made ≠ due.made) ∧
      Ends (exec vars lines)
        (fun s => TableRight s ∧ ∀ head ∈ heads lines (started vars),
          ∀ due ∈ dueAt head.1 head.2, ∀ record ∈ s.pipeVector, record.made ≠ due.made)
        (fun failure => ∀ c ∈ failure.2.process.closes, c.Proper) := by
  have inOrder := (started_kept vars).lines lines
  refine ⟨?_, ?_, ?_⟩
  · intro head member
    exact (inOrder.kept head member).1.tableRight
  · apply inOrder.closed.imp_of_mem
    intro head later _ isLater closed due isDue
    exact (inOrder.kept later isLater).1.not_closed (closed due isDue)
  · rw [exec]
    apply inOrder.ends.bind
    rintro s ⟨kept, -, closed⟩
    have written := (kept.write (str "% ")).write (str "\n")
    refine ⟨written.tableRight, ?_⟩
    intro head member due isDue
    exact written.not_closed (closed head member due isDue)

end Session

end NetProg.Npshell
