import NetProg.SingleProc.Entries

/-!
# Closing what a command has read

A command gives up what it has read before it closes anything: the numbered
pipes of its client that are due and the user pipes that are marked in the records
it lists, its own among them. From then on everything that is closed is given up,
and nothing is opened until all of it has been erased from the tables.
-/

namespace NetProg.SingleProc

open Loops Outcomes Runs

/-- If `honest`, every close of a pipe end so far was proper. -/
def Sound (honest : Prop) (p : Process) : Prop := honest → ∀ c ∈ p.closes, c.Proper

/-- The failure happened with every close so far proper. -/
def FailsSound (honest : Prop) (failure : Fault × Server) : Prop :=
  Sound honest failure.2.process

/-- A server in the middle of an execution: what stays is accounted for as live,
and everything marked in the records listed was given up. -/
structure Giving (honest : Prop) (ids : List Int) (live dying : List (Int × Object))
    (s : Server) : Prop where
  agree : Agree s.tables
  account : Account honest s.process live dying
  stays : s.tables.cleared ids = live
  given : ∀ m ∈ s.tables.marks, m.1 ∈ ids → markedEnd m ∈ dying

variable {honest : Prop} {ids : List Int} {live dying : List (Int × Object)}

theorem eraseUsed_fails {s : Server} {id : Int} {failure : Fault × Server}
    (failed : eraseUsed s id = .error failure) : failure.2 = s := by
  rcases bind_eq_error.mp failed with missing | ⟨_, _, returns⟩
  · exact (client_eq_error.mp missing).2.2
  · cases returns

theorem detach_fails {job : Job} {s : Server} {needClose : Bool} {inFd : Int}
    {inPipe : Option Object} {failure : Fault × Server}
    (failed : detach job s needClose inFd inPipe = .error failure) : failure.2 = s := by
  rcases bind_eq_error.mp failed with missing | ⟨_, _, returns⟩
  · exact (client_eq_error.mp missing).2.2
  · cases returns

/-- Erasing the used pipes of one client: it has no marks left. Nobody is given a mark by it, so
that erasing for the clients of a list one after the other leaves none of them a mark. -/
theorem Giving.erase {s : Server} (giving : Giving honest ids live dying s) {id : Int}
    (listed : id ∈ ids) : Ends (eraseUsed s id)
      (fun after => Giving honest ids live dying after ∧
        ∀ m ∈ after.tables.marks, m ∈ s.tables.marks ∧ m.1 ≠ id) (FailsSound honest) := by
  cases erased : eraseUsed s id with
  | error failure =>
    rw [ends_error, FailsSound, eraseUsed_fails erased]
    exact giving.account.proper
  | ok after =>
    obtain ⟨candidate, isCandidate, rfl⟩ := eraseUsed_eq_ok erased
    have found := holders_getElem isCandidate
    have ownId : candidate.id = id := getClientByID_id isCandidate
    have inIds : candidate.holder.id ∈ ids := by
      rw [show candidate.holder.id = id from ownId]
      exact listed
    have kept := registry_userpipeVector s (s.getClientByID id)
      (UserPipes.eraseUserPipeVector candidate.userpipeVector s.process).1
      (UserPipes.eraseUserPipeVector candidate.userpipeVector s.process).2
    have agree := giving.agree.same kept
    rw [tables_userpipeVector] at agree
    rw [ends_ok]
    have fewer : ∀ m ∈ (s.tables.withUserPipes (s.getClientByID id)
        (UserPipes.eraseUserPipeVector candidate.userpipeVector s.process).1
        (UserPipes.eraseUserPipeVector candidate.userpipeVector s.process).2).marks,
        m ∈ s.tables.marks ∧ m.1 ≠ id := by
      intro m marked
      have unused {u : UserPipeFd} (inside : u ∈
          (UserPipes.eraseUserPipeVector candidate.userpipeVector s.process).1)
          (used : u.isUsed = true) : False := by
        rw [UserPipes.eraseUserPipeVector_fst] at inside
        have clear := (List.mem_filter.mp inside).2
        rw [used] at clear
        cases clear
      constructor
      · rcases mem_marks_withUserPipes found _ _ marked with ⟨-, inside, used⟩ | old
        · exact (unused inside used).elim
        · exact old
      · intro same
        obtain ⟨g, holds, sameId, inside, used⟩ := mem_marks.mp marked
        have revised : ({ candidate.holder with userpipeVector :=
            (UserPipes.eraseUserPipeVector candidate.userpipeVector s.process).1 } : Holder) ∈
            (s.tables.withUserPipes (s.getClientByID id)
              (UserPipes.eraseUserPipeVector candidate.userpipeVector s.process).1
              (UserPipes.eraseUserPipeVector candidate.userpipeVector s.process).2).holders :=
          mem_modify_self found
        have equal := List.inj_on_of_nodup_map agree.distinct holds revised
          (sameId.trans (same.trans ownId.symm))
        rw [equal] at inside
        exact unused inside used
    refine ⟨⟨?_, ?_, ?_, ?_⟩, ?_⟩
    · rw [tables_userpipeVector]
      exact agree
    · refine UserPipes.eraseUserPipeVector_account giving.account (fun u inside used => ?_)
      have marked : (candidate.id, u) ∈ s.tables.marks :=
        mem_marks.mpr ⟨candidate.holder, List.mem_of_getElem? found, rfl, inside, used⟩
      exact giving.given _ marked inIds
    · rw [tables_userpipeVector, cleared_withUserPipes found inIds, giving.stays]
      rw [UserPipes.eraseUserPipeVector_fst, List.filter_filter]
      simp [ClientInfo.holder]
    · rw [tables_userpipeVector]
      exact fun m marked inIds => giving.given m (fewer m marked).1 inIds
    · rw [tables_userpipeVector]
      exact fewer

/-- Erasing the used pipes of several clients. -/
theorem Giving.eraseAll {s : Server} (giving : Giving honest ids live dying s) {list : List Int}
    (listed : list ⊆ ids) : Ends (list.foldlM eraseUsed s)
      (fun after => Giving honest ids live dying after ∧
        ∀ m ∈ after.tables.marks, m ∈ s.tables.marks ∧ m.1 ∉ list) (FailsSound honest) := by
  induction list generalizing s with
  | nil => exact ⟨giving, fun m marked => ⟨marked, by simp⟩⟩
  | cons id rest ih =>
    rw [List.foldlM_cons]
    refine Ends.bind _ (giving.erase (listed List.mem_cons_self)) (fun one done => ?_)
    refine (ih done.1 (fun other member => listed (List.mem_cons_of_mem id member))).mono
      (fun after kept => ⟨kept.1, fun m marked => ?_⟩) (fun _ bad => bad)
    obtain ⟨old, notRest⟩ := kept.2 m marked
    obtain ⟨older, notId⟩ := done.2 m old
    exact ⟨older, by simp [notId, notRest]⟩

/-- Where the descriptor closed at the end of an execution comes from: a pipe that
this command has marked, a file that could not be opened, or, if nothing is claimed about the
closes, something that is not in the tables any more. -/
inductive Source (honest : Prop) (f : Frame) (files : List (Int × Object)) : Prop
  | marked {m : Int × UserPipeFd} (member : m ∈ f.server.tables.marks)
      (listed : m.1 ∈ f.needEraseCliIds)
      (number : f.inFd = m.2.outFd) (aimed : f.inPipe = some (.readEnd m.2.made))
  | absent (negative : f.inFd < 0)
  | other {o : Object} (claimless : ¬ honest) (member : (f.inFd, o) ∈ files)

/-- What a line keeps between its rounds. `files` are numbers nothing in the tables relies on:
files opened for a redirection, which stay open. All other numbers have one entry that relies on
them, and a pipe that the command has taken is still there for it. -/
structure Owns (honest : Prop) (iter : Nat) (f : Frame) : Prop where
  agree : Agree f.server.tables
  present : ∃ c, f.server.clientTable[iter]? = some c
  account : ∃ files, Account honest f.server.process (files ++ f.server.tables.entries) [] ∧
    (f.needCloseUserpipe = true → Source honest f files)
  taking : f.needCloseUserpipe = true → f.isInUserpipe = true ∧ f.needEraseCliIds ≠ []

/-- Attaching the due pipe, if there is one: the descriptor to close afterwards
was given up. -/
theorem attach_account {f : Frame} {cli : ClientInfo} {p after : Process} {needClosePipe : Bool}
    {inFd : Int} {inPipe : Option Object} (account : Account honest p live dying)
    (due : ∀ record ∈ cli.pipeVector, record.count = 0 → ∀ e ∈ record.ends, e ∈ dying)
    (source : f.needCloseUserpipe = true →
      f.inFd < 0 ∨ ∃ o, (f.inFd, o) ∈ dying ∧ (honest → f.inPipe = some o))
    (attached : attach f cli p = (needClosePipe, inFd, inPipe, after)) :
    Account honest after live dying ∧ ((needClosePipe || f.needCloseUserpipe) = true →
      inFd < 0 ∨ ∃ o, (inFd, o) ∈ dying ∧ (honest → inPipe = some o)) := by
  rw [attach] at attached
  split at attached
  · rename_i record closed got
    simp only [Prod.mk.injEq] at attached
    obtain ⟨rfl, rfl, rfl, rfl⟩ := attached
    obtain ⟨⟨member, isDue⟩, closedAccount⟩ := NumberedPipes.getPipeFd_account account due got
    refine ⟨closedAccount, fun _ => .inr ⟨.readEnd record.made, ?_, fun _ => rfl⟩⟩
    exact due record member isDue _ (by simp [PipeFd.ends])
  · simp only [Prod.mk.injEq] at attached
    obtain ⟨rfl, rfl, rfl, rfl⟩ := attached
    exact ⟨account, fun close => source (by simpa using close)⟩

/-- Erasing the due pipes and closing `in_fd`: all of it was given up. -/
theorem detach_giving {job : Job} {s : Server} {cli : ClientInfo} {needClose : Bool} {inFd : Int}
    {inPipe : Option Object} (agree : Agree s.tables)
    (found : s.clientTable[job.cli]? = some cli) (account : Account honest s.process live dying)
    (stays : (s.tables.withPipes job.cli (cli.pipeVector.filter (·.count ≠ 0))
      s.process).cleared ids = live)
    (due : ∀ record ∈ cli.pipeVector, record.count = 0 → ∀ e ∈ record.ends, e ∈ dying)
    (given : ∀ m ∈ s.tables.marks, m.1 ∈ ids → markedEnd m ∈ dying)
    (source : needClose = true →
      inFd < 0 ∨ ∃ o, (inFd, o) ∈ dying ∧ (honest → inPipe = some o)) :
    Ends (detach job s needClose inFd inPipe)
      (fun after => Giving honest ids live dying after ∧ after.tables.marks = s.tables.marks)
      (FailsSound honest) := by
  cases detached : detach job s needClose inFd inPipe with
  | error failure =>
    rw [ends_error, FailsSound, detach_fails detached]
    exact account.proper
  | ok after =>
    obtain ⟨found', isCli, rfl⟩ := detach_eq_ok detached
    rw [found] at isCli
    cases isCli
    have erased := NumberedPipes.erasePipeVector_account account due
    have closed : Account honest (if needClose = true then
        (NumberedPipes.erasePipeVector cli.pipeVector s.process).2.closeEnd inFd inPipe
        else (NumberedPipes.erasePipeVector cli.pipeVector s.process).2) live dying := by
      split
      · rename_i close
        rcases source close with negative | ⟨o, member, aimed⟩
        · exact erased.closeAbsent inPipe (if_neg (by omega))
        · exact erased.closeGiven member aimed
      · exact erased
    have same := registry_pipeVector s job.cli (NumberedPipes.countdownPipeVector
      (NumberedPipes.erasePipeVector cli.pipeVector s.process).1)
      (if needClose = true then
        (NumberedPipes.erasePipeVector cli.pipeVector s.process).2.closeEnd inFd inPipe
      else (NumberedPipes.erasePipeVector cli.pipeVector s.process).2)
    refine ⟨⟨agree.same same, closed, ?_, ?_⟩, ?_⟩
    · rw [tables_pipeVector, ← stays]
      apply cleared_withPipes
      rw [NumberedPipes.ends_countdown, NumberedPipes.erasePipeVector_fst]
    · rw [tables_pipeVector, marks_withPipes]
      exact given
    · rw [tables_pipeVector, marks_withPipes]

/-- What is left after an execution for the client behind an iterator: nothing is given up
or to be closed, what the command has marked is erased, and everything else that was
relied on before stays. -/
structure Done (honest : Prop) (iter : Nat) (f next : Frame) : Prop where
  agree : Agree next.server.tables
  account : Account honest next.server.process next.server.tables.entries []
  erased : ∀ m ∈ next.server.tables.marks,
    m ∈ f.server.tables.marks ∧ m.1 ∉ f.needEraseCliIds
  stays : ∀ h ∈ f.server.tables.holders[iter]?, next.server.tables.entries =
    (f.server.tables.withPipes iter (h.pipeVector.filter (·.count ≠ 0))
      f.server.process).cleared (f.needEraseCliIds ++ [h.id])
  open_ : next.needCloseUserpipe = false
  empty : next.needEraseCliIds = []

/-- At the start of an execution what the command has read can be given up. -/
theorem Owns.giveUp {iter : Nat} {f : Frame} {s : Server} {cli : ClientInfo}
    (owns : Owns honest iter f) (told : s.tables = f.server.tables)
    (found : s.clientTable[iter]? = some cli) (listed : f.needEraseCliIds ⊆ ids) : ∃ dying,
    Account honest s.process
      ((s.tables.withPipes iter (cli.pipeVector.filter (·.count ≠ 0)) s.process).cleared ids)
      dying ∧
    (∀ record ∈ cli.pipeVector, record.count = 0 → ∀ e ∈ record.ends, e ∈ dying) ∧
    (∀ m ∈ s.tables.marks, m.1 ∈ ids → markedEnd m ∈ dying) ∧
    (f.needCloseUserpipe = true →
      f.inFd < 0 ∨ ∃ o, (f.inFd, o) ∈ dying ∧ (honest → f.inPipe = some o)) := by
  obtain ⟨files, account, source⟩ := owns.account
  have whole : Account honest s.tables.process (files ++ s.tables.entries) [] := by
    rw [told]
    exact account
  have marked : ∀ m ∈ s.tables.marks, m.1 ∈ ids → markedEnd m ∈
      files ++ (NumberedPipes.ends (cli.pipeVector.filter (·.count = 0)) ++
        (s.tables.marks.filter (·.1 ∈ ids)).map markedEnd) := by
    intro m member inIds
    refine List.mem_append_right _ (List.mem_append_right _ (List.mem_map_of_mem ?_))
    exact List.mem_filter.mpr ⟨member, by simpa using inIds⟩
  refine ⟨_, Account.give ids (holders_getElem found) whole, ?_, marked, ?_⟩
  · intro record member zero e isEnd
    have kept : record ∈ cli.pipeVector.filter (·.count = 0) :=
      List.mem_filter.mpr ⟨member, by simpa using zero⟩
    have entered := NumberedPipes.mem_ends kept isEnd
    exact List.mem_append_right _ (List.mem_append_left _ entered)
  · intro close
    cases source close with
    | @marked m member inErase number aimed =>
      rw [← told] at member
      refine .inr ⟨.readEnd m.2.made, ?_, fun _ => aimed⟩
      rw [number]
      exact marked m member (listed inErase)
    | absent negative => exact .inl negative
    | @other o claimless member =>
      exact .inr ⟨o, List.mem_append_left _ member, fun isHonest => (claimless isHonest).elim⟩

/-- An execution closes and erases what was given up, and nothing else. What is to be closed is
given up before the command runs, and the account stays whole through the run, the detaching and
the erasing. -/
theorem Owns.execute_done {job : Job} {f : Frame} (owns : Owns honest job.cli f) :
    Ends (execute job f) (fun step => ∃ next, step = .again next ∧ Done honest job.cli f next)
      (FailsSound honest) := by
  obtain ⟨files, whole, -⟩ := owns.account
  have sound {s : Server} (same : s.tables = f.server.tables) : Sound honest s.process := by
    rw [show s.process = f.server.process from congrArg Tables.process same]
    exact whole.proper
  refine Ends.bind (fun s => s.tables = f.server.tables)
    ((announce_keeps job f).mono (fun _ kept => kept) (fun _ kept => sound kept)) ?_
  intro announced told
  refine Ends.bind_eq (fun failure missing => ?_) (fun cli isCli => ?_)
  · rw [FailsSound, (client_eq_error.mp missing).2.2]
    exact sound told
  have found := client_eq_ok.mp isCli
  obtain ⟨dying, account, due, marked, closable⟩ := owns.giveUp told found
    (List.subset_append_left f.needEraseCliIds [cli.id])
  generalize attaches : attach f cli announced.process = attached
  obtain ⟨needClosePipe, inFd, inPipe, p⟩ := attached
  obtain ⟨attachedAccount, closing⟩ := attach_account account due closable attaches
  -- the built-in command sees the tables with the write end of the due pipe closed
  have withP : ((announced.withProcess p).logged
      (callOf job f (announced.withProcess p) cli inFd)).tables =
      { announced.tables with process := p } := rfl
  refine Ends.bind (fun ran => ran.1.tables = { announced.tables with process := p })
    ((builtin_keeps _ _ _ _).mono (fun _ kept => kept.trans withP) (fun failure kept => ?_)) ?_
  · rw [FailsSound, show failure.2.process = p from congrArg Tables.process (kept.trans withP)]
    exact attachedAccount.proper
  rintro ⟨ran, status⟩ kept
  have ranProcess : ran.process = p := congrArg Tables.process kept
  have ranHolders : ran.tables.holders = announced.tables.holders := by rw [kept]
  have ranMarks : ran.tables.marks = announced.tables.marks := by
    simp only [Tables.marks, ranHolders]
  have ranFound := holders_getElem found
  rw [← ranHolders] at ranFound
  obtain ⟨ranCli, isRanCli, sameHolder⟩ := holder_found ranFound
  have samePipes : ranCli.pipeVector = cli.pipeVector := congrArg Holder.pipeVector sameHolder
  have agree : Agree ran.tables := by
    rw [kept]
    exact (owns.agree.same (.of_eq told)).same (.process _ p)
  have ranAccount : Account honest ran.process ((announced.tables.withPipes job.cli
      (cli.pipeVector.filter (·.count ≠ 0)) announced.process).cleared
      (f.needEraseCliIds ++ [cli.id])) dying := by
    rw [ranProcess]
    exact attachedAccount
  have ranStays : (ran.tables.withPipes job.cli (ranCli.pipeVector.filter (·.count ≠ 0))
      ran.process).cleared (f.needEraseCliIds ++ [cli.id]) = (announced.tables.withPipes job.cli
      (cli.pipeVector.filter (·.count ≠ 0)) announced.process).cleared
      (f.needEraseCliIds ++ [cli.id]) := by
    rw [samePipes, kept]
    rfl
  refine Ends.bind _ (detach_giving agree isRanCli ranAccount ranStays (by rwa [samePipes])
    (by rwa [ranMarks]) closing) (fun detached giving => ?_)
  refine Ends.bind _ (giving.1.eraseAll (List.Subset.refl _)) (fun erased all => ?_)
  have whole : erased.tables.cleared (f.needEraseCliIds ++ [cli.id]) = erased.tables.entries :=
    cleared_of_unmarked (fun m member => (all.2 m member).2)
  refine ⟨_, rfl, ⟨all.1.agree, ?_, fun m member => ?_, fun h isHere => ?_, rfl, rfl⟩⟩
  · rw [← whole, all.1.stays]
    exact all.1.account.forget
  · obtain ⟨old, gone⟩ := all.2 m member
    rw [giving.2, ranMarks] at old
    rw [← told]
    exact ⟨old, fun listed => gone (List.mem_append_left _ listed)⟩
  · rw [← told, holders_getElem found] at isHere
    cases isHere
    rw [← whole, all.1.stays, told, show announced.process = f.server.process from
      congrArg Tables.process told]
    rfl

end NetProg.SingleProc
