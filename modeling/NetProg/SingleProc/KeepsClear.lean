import NetProg.SingleProc.Executions

/-!
# Keeping clear of closed numbers

Taking a user pipe closes its write end and only marks the record; the record is
erased when the command is executed. If the line ends in between, with a
user-pipe error, the record stays with the number of its write end free. What the
records rely on is kept as long as no pipe is taken again whose number has been
handed out meanwhile. The words that leave a marked record behind are named here as
well: a line that keeps clear of them leaves nothing marked.
-/

namespace NetProg.SingleProc

open Loops Outcomes Runs

variable {honest : Prop}

/-- `>t` is a user-pipe error: nobody has the id, or a pipe to it exists. -/
def userOutFails (s : Server) (iter : Nat) (targetId : Int) : Bool :=
  match s.idAt (targetId - 1) with
  | .error _ => false
  | .ok mark => mark = 0 ||
    (s.clientTable[iter]?).any (fun cli => cli.userpipeVector.any (·.targetId = targetId))

/-- `<s` is a user-pipe error: nobody has the id, or there is no pipe from it; or
it takes a pipe again that this command has taken, and the number of its write
end has been handed out meanwhile. -/
def userInFails (s : Server) (iter : Nat) (sourceId : Int) : Bool :=
  match s.idAt (sourceId - 1) with
  | .error _ => false
  | .ok mark => mark = 0 ||
    match s.clientTable[s.getClientByID sourceId]?, s.clientTable[iter]? with
    | some sourceCli, some cli =>
      match UserPipes.markUserPipe sourceCli.id cli.id sourceCli.userpipeVector with
      | none => true
      | some (record, _) => record.isUsed && (s.process.object record.inFd).isSome
    | _, _ => false

/-- Whether taking a pipe that is there spoils anything depends on its mark and
on the number of its write end. -/
theorem userInFails_taken {s : Server} {iter : Nat} {sourceId mark : Int}
    {sourceCli cli : ClientInfo} {taken : UserPipeFd × List UserPipeFd}
    (looked : s.idAt (sourceId - 1) = .ok mark) (marked : mark ≠ 0)
    (isSource : s.clientTable[s.getClientByID sourceId]? = some sourceCli)
    (isCli : s.clientTable[iter]? = some cli)
    (takes : UserPipes.markUserPipe sourceCli.id cli.id sourceCli.userpipeVector = some taken) :
    userInFails s iter sourceId =
      (taken.1.isUsed && (s.process.object taken.1.inFd).isSome) := by
  simp [userInFails, looked, marked, isSource, isCli, takes]

/-- `<s` takes a pipe again that is marked, and the number of its write end has been
handed out meanwhile. -/
def retakes (s : Server) (iter : Nat) (sourceId : Int) : Bool :=
  match s.idAt (sourceId - 1) with
  | .error _ => false
  | .ok mark => mark ≠ 0 &&
    match s.clientTable[s.getClientByID sourceId]?, s.clientTable[iter]? with
    | some sourceCli, some cli =>
      match UserPipes.markUserPipe sourceCli.id cli.id sourceCli.userpipeVector with
      | none => false
      | some (record, _) => record.isUsed && (s.process.object record.inFd).isSome
    | _, _ => false

/-- Whether a `<s` takes a pipe again is decided by the mark of the record it finds, and by
whether the number of its write end is open. -/
theorem retakes_taken {s : Server} {iter : Nat} {sourceId mark : Int} {sourceCli cli : ClientInfo}
    {taken : UserPipeFd × List UserPipeFd}
    (looked : s.idAt (sourceId - 1) = .ok mark) (marked : mark ≠ 0)
    (isSource : s.clientTable[s.getClientByID sourceId]? = some sourceCli)
    (isCli : s.clientTable[iter]? = some cli)
    (takes : UserPipes.markUserPipe sourceCli.id cli.id sourceCli.userpipeVector = some taken) :
    retakes s iter sourceId = (taken.1.isUsed && (s.process.object taken.1.inFd).isSome) := by
  simp [retakes, looked, marked, isSource, isCli, takes]

/-- Where a pipe is taken again there is one that is marked, and the word spoils it. -/
theorem retakes_spoils {s : Server} {iter : Nat} {sourceId : Int}
    (again : retakes s iter sourceId = true) : s.tables.marks ≠ [] ∧
      userInFails s iter sourceId = true := by
  rw [retakes] at again
  split at again
  · cases again
  rename_i mark looked
  obtain ⟨marked, again⟩ := Bool.and_eq_true_iff.mp again
  have marked : mark ≠ 0 := by simpa using marked
  split at again
  · rename_i sourceCli cli isSource isCli
    split at again
    · cases again
    · rename_i record vector takes
      have inside : record ∈ sourceCli.userpipeVector := by
        obtain ⟨before, after, whole, -⟩ := UserPipes.markUserPipe_split takes
        rw [whole]
        exact List.mem_append_right _ List.mem_cons_self
      refine ⟨List.ne_nil_of_mem (a := (sourceCli.id, record)) (mem_marks.mpr
        ⟨sourceCli.holder, List.mem_of_getElem? (holders_getElem isSource), rfl, inside,
          (Bool.and_eq_true_iff.mp again).1⟩), ?_⟩
      rw [userInFails_taken looked marked isSource isCli takes]
      exact again
  · cases again

/-- The word takes no pipe again whose number has been handed out. -/
def Spares (job : Job) (f : Frame) (word : Str) : Prop :=
  kind word = .userIn → ∀ sourceId ∈ UserPipes.userNum word,
    retakes f.server job.cli sourceId = false

instance (job : Job) (f : Frame) (word : Str) : Decidable (Spares job f word) := by
  rw [Spares]
  infer_instance

/-- The words after a taken user pipe that leave a closed number behind: a
user-pipe error, and, with regard to `close(in_fd)` alone, a `<` redirection
that opens its file. -/
def spoils (strict : Bool) (job : Job) (f : Frame) (word : Str) (rest : List Str) : Bool :=
  match kind word with
  | .redirectIn => strict && job.world.opens (rest.length - 1)
  | .userOut => (UserPipes.userNum word).any (userOutFails f.server job.cli)
  | .userIn => (UserPipes.userNum word).any (userInFails f.server job.cli)
  | _ => false

/-- The next word of a command that has taken a user pipe spoils nothing. It would by ending the
line in a user-pipe error, since the pipe stays marked then, or by taking a closed number that is
open again; the strict kind excludes a file for the input, too. -/
def KeepsClear (strict : Bool) (job : Job) (f : Frame) : Prop :=
  f.needEraseCliIds ≠ [] → f.isFinalArgv = false → f.isFirstArgv = false →
    ∀ word ∈ f.cmds.head?, spoils strict job f word f.cmds.tail = false

instance (strict : Bool) (job : Job) (f : Frame) : Decidable (KeepsClear strict job f) := by
  rw [KeepsClear]
  infer_instance

/-- Setting the descriptors back does not touch a taken pipe. -/
theorem Owns.initFd {iter : Nat} {f : Frame} (owns : Owns honest iter f) (sockfd : Int) :
    Owns honest iter (f.initFd sockfd) := by
  rw [Frame.initFd]
  split
  · rename_i free
    have notTaking : f.isInUserpipe = false := by
      simp only [Bool.and_eq_true, Bool.not_eq_true'] at free
      exact free.2
    have notClosing : f.needCloseUserpipe = false := by
      by_contra closing
      have taking := owns.taking (by simpa using closing)
      rw [notTaking] at taking
      cases taking.1
    obtain ⟨files, account, -⟩ := owns.account
    exact ⟨owns.agree, owns.present, ⟨files, account, fun close => by simp [notClosing] at close⟩,
      owns.taking⟩
  · exact owns

/-- A source stays one as long as the marked pipes and the files do. -/
theorem Source.stays {f next : Frame} {files more : List (Int × Object)}
    (source : Source honest f files)
    (marks : ∀ m ∈ f.server.tables.marks, m ∈ next.server.tables.marks)
    (erase : next.needEraseCliIds = f.needEraseCliIds)
    (inFd : next.inFd = f.inFd) (inPipe : next.inPipe = f.inPipe) (sub : files ⊆ more) :
    Source honest next more := by
  cases source with
  | marked member listed number aimed =>
    exact .marked (marks _ member) (erase ▸ listed) (inFd.trans number) (inPipe.trans aimed)
  | absent negative => exact .absent (inFd ▸ negative)
  | other claimless member => exact .other claimless (inFd ▸ sub member)

/-- After a word there is a command to execute or another word. -/
theorem Reads.ready {job : Job} {f next : Frame} {word : Str} {rest : List Str}
    (reads : Reads job f word rest (.again next)) : next.isFinalArgv = true ∨ next.cmds ≠ [] := by
  have either (left : List Str) (final : Bool) : (final || left.isEmpty) = true ∨ left ≠ [] := by
    cases left <;> simp
  cases reads with
  | prog first => exact either (f.readProg word rest).cmds false
  | argument => exact either rest false
  | pipe => exact .inl rfl
  | redirectOut | redirectIn | userOut | userIn => exact either _ f.isFinalArgv

/-- A numbered pipe created or joined. -/
theorem createPipe_entries {t : Tables} {i : Nat} {h : Holder} {files : List (Int × Object)}
    {canPipe : Bool} {pipeNum : Int} {created : Int × List PipeFd × Process}
    (found : t.holders[i]? = some h)
    (account : Account honest t.process (files ++ t.entries) [])
    (creates : NumberedPipes.createPipe canPipe t.process h.pipeVector pipeNum = some created) :
    Account honest created.2.2 (files ++ (t.withPipes i created.2.1 created.2.2).entries) [] := by
  obtain ⟨rest, whole, changed⟩ := entries_withPipes found
  have before : Account honest t.process (NumberedPipes.ends h.pipeVector ++ (rest ++ files)) [] := by
    apply account.perm
    rw [← List.append_assoc]
    exact ((whole.symm.append_right files)).trans List.perm_append_comm
  apply (NumberedPipes.createPipe_account before creates).perm
  rw [← List.append_assoc]
  exact (((changed _ _).append_left files)).trans List.perm_append_comm

/-- A user pipe created. -/
theorem createUserPipe_entries {t : Tables} {i : Nat} {h : Holder} {files : List (Int × Object)}
    (targetId : Int) (found : t.holders[i]? = some h)
    (account : Account honest t.process (files ++ t.entries) []) :
    Account honest (UserPipes.createUserPipe t.process h.userpipeVector h.id targetId).2.2
      (files ++ (t.withUserPipes i
        (UserPipes.createUserPipe t.process h.userpipeVector h.id targetId).2.1
        (UserPipes.createUserPipe t.process h.userpipeVector h.id targetId).2.2).entries) [] := by
  rw [UserPipes.createUserPipe_eq]
  obtain ⟨rest, whole, changed⟩ := entries_withUserPipes found
  have after := changed (h.userpipeVector ++
    [⟨t.process.pipe.2.1, t.process.pipe.1, h.id, targetId, false, t.process.made⟩])
    t.process.pipe.2.2
  apply account.pipe.perm
  apply List.perm_iff_count.mpr
  intro e
  have first := List.perm_iff_count.mp whole e
  have second := List.perm_iff_count.mp after e
  simp only [UserPipes.ends_append, UserPipes.ends_cons, UserPipes.ends_nil, UserPipeFd.ends,
    List.append_nil, List.count_append, Bool.false_eq_true, if_false, List.count_cons,
    List.count_nil] at first second ⊢
  omega

/-- A user pipe taken for the first time: its write end is given up and closed. Where it is taken
again the number of its write end is in use for nothing, and the closing does nothing to what is
listed. -/
theorem receive_entries {t : Tables} {i : Nat} {h : Holder} {files : List (Int × Object)}
    {sourceId cliId : Int} {taken : UserPipeFd × List UserPipeFd}
    (found : t.holders[i]? = some h)
    (takes : UserPipes.markUserPipe sourceId cliId h.userpipeVector = some taken)
    (again : taken.1.isUsed = true → t.process.object taken.1.inFd = none)
    (account : Account honest t.process (files ++ t.entries) []) :
    Account honest (t.process.closeEnd taken.1.inFd (some (.writeEnd taken.1.made)))
      (files ++ (t.withUserPipes i taken.2
        (t.process.closeEnd taken.1.inFd (some (.writeEnd taken.1.made)))).entries) [] := by
  obtain ⟨before, after, vector, result, -⟩ := UserPipes.markUserPipe_split takes
  obtain ⟨rest, whole, changed⟩ := entries_withUserPipes found
  have marked := changed taken.2 (t.process.closeEnd taken.1.inFd (some (.writeEnd taken.1.made)))
  rw [vector] at whole
  rw [result] at marked
  by_cases used : taken.1.isUsed = true
  · have same : (files ++ (t.withUserPipes i (before ++ { taken.1 with isUsed := true } :: after)
        (t.process.closeEnd taken.1.inFd (some (.writeEnd taken.1.made)))).entries).Perm
        (files ++ t.entries) := by
      apply List.perm_iff_count.mpr
      intro e
      have first := List.perm_iff_count.mp whole e
      have second := List.perm_iff_count.mp marked e
      simp only [UserPipes.ends_append, UserPipes.ends_cons, UserPipeFd.ends, used, if_true,
        List.count_append] at first second ⊢
      omega
    rw [result]
    exact (account.closeAbsent _ (again used)).perm same
  · have same : (files ++ t.entries).Perm (files ++ (t.withUserPipes i
        (before ++ { taken.1 with isUsed := true } :: after)
        (t.process.closeEnd taken.1.inFd (some (.writeEnd taken.1.made)))).entries ++
        [(taken.1.inFd, Object.writeEnd taken.1.made)]) := by
      apply List.perm_iff_count.mpr
      intro e
      have first := List.perm_iff_count.mp whole e
      have second := List.perm_iff_count.mp marked e
      simp only [UserPipes.ends_append, UserPipes.ends_cons, UserPipeFd.ends, used, if_true,
        Bool.false_eq_true, if_false, List.count_append, List.count_cons, List.count_nil]
        at first second ⊢
      omega
    rw [result]
    have given := account.weaken _ _
      (fun e member => same.symm.subset (List.mem_append_left _ member))
      (by simpa using same.symm.subperm)
    exact (given.closeDying List.mem_cons_self).forget

/-- With a word that takes no number that has been handed out, the tables and the files
opened so far go on to form an account; a descriptor the word opens for the input of the
command is one of the files. -/
theorem Reads.files {job : Job} {f next : Frame} {word : Str} {rest : List Str}
    (reads : Reads job f word rest (.again next))
    (spares : f.isFirstArgv = false → Spares job f word) {files : List (Int × Object)}
    (account : Account honest f.server.process (files ++ f.server.tables.entries) []) :
    ∃ more, files ⊆ more ∧
      Account honest next.server.process (more ++ next.server.tables.entries) [] ∧
      (f.isFirstArgv = false → kind word = .redirectIn → next.inFd < 0 ∨
        job.world.opens (rest.length - 1) = true ∧ ∃ serial, (next.inFd, .file serial) ∈ more) := by
  have other (differs : kind word ≠ .redirectIn) {goal : Prop} (same : kind word = .redirectIn) :
      goal := absurd same differs
  cases reads with
  | prog first =>
    refine ⟨files, List.Subset.refl _, account, fun later => ?_⟩
    rw [first] at later
    cases later
  | argument later same =>
    exact ⟨files, List.Subset.refl _, account, fun _ => other (by simp [same])⟩
  | @pipe isError pipeNum cli created later same number isCli creates =>
    refine ⟨files, List.Subset.refl _, ?_, fun _ => other (by cases isError <;> simp [same])⟩
    rw [pipeTo_tables]
    exact createPipe_entries (holders_getElem isCli) account creates
  | @redirectOut file left later same follows =>
    obtain ⟨more, sub, opened, -⟩ := openAs_account (job.world.opens left.length) account
    exact ⟨more, sub, opened, fun _ => other (by simp [same])⟩
  | @redirectIn file left later same follows =>
    obtain ⟨more, sub, opened, number⟩ := openAs_account (job.world.opens left.length) account
    refine ⟨more, sub, opened, fun _ _ => number.imp_right (fun ⟨opens, serial, member⟩ => ?_)⟩
    rw [follows, List.length_cons, Nat.add_sub_cancel]
    exact ⟨opens, serial, member⟩
  | @userOut targetId mark cli later same number looked marked isCli fresh =>
    refine ⟨files, List.Subset.refl _, ?_, fun _ => other (by simp [same])⟩
    rw [sendTo_tables]
    exact createUserPipe_entries targetId (holders_getElem isCli) account
  | @userIn sourceId mark sourceCli cli taken later same number looked marked isSource isCli
      takes =>
    have again : taken.1.isUsed = true → f.server.process.object taken.1.inFd = none := by
      intro used
      have spared := spares later same sourceId number
      rw [retakes_taken looked marked isSource isCli takes, used, Bool.true_and] at spared
      simpa using spared
    refine ⟨files, List.Subset.refl _, ?_, fun _ => other (by simp [same])⟩
    rw [receiveFrom_tables]
    exact receive_entries (holders_getElem isSource) takes again account

/-- What a word does to `in_fd`: nothing, or it opens a file for it, or it takes a pipe
to the client for it. -/
inductive Input (job : Job) (f next : Frame) (word : Str) : Prop
  | kept (number : next.inFd = f.inFd) (aimed : next.inPipe = f.inPipe)
      (marks : next.server.tables.marks = f.server.tables.marks)
      (erase : next.needEraseCliIds = f.needEraseCliIds)
      (close : next.needCloseUserpipe = f.needCloseUserpipe)
      (taking : f.isInUserpipe = true → next.isInUserpipe = true)
  | file (later : f.isFirstArgv = false) (same : kind word = .redirectIn)
      (erase : next.needEraseCliIds = f.needEraseCliIds)
      (close : next.needCloseUserpipe = f.needCloseUserpipe)
      (taking : f.isInUserpipe = true → next.isInUserpipe = true)
  | taken {m : Int × UserPipeFd} {cli : ClientInfo} (member : m ∈ next.server.tables.marks)
      (listed : m.1 ∈ next.needEraseCliIds) (number : next.inFd = m.2.outFd)
      (aimed : next.inPipe = some (.readEnd m.2.made))
      (isCli : f.server.clientTable[job.cli]? = some cli) (isTarget : m.2.targetId = cli.id)
      (taking : next.isInUserpipe = true)

theorem Reads.input {job : Job} {f next : Frame} {word : Str} {rest : List Str}
    (reads : Reads job f word rest (.again next)) : Input job f next word := by
  cases reads with
  | prog | argument | redirectOut => exact .kept rfl rfl rfl rfl rfl id
  | @pipe isError pipeNum cli created later same number isCli creates =>
    refine .kept rfl rfl ?_ rfl rfl id
    rw [pipeTo_tables, marks_withPipes]
  | redirectIn later same => exact .file later same rfl rfl id
  | @userOut targetId mark cli later same number looked marked isCli fresh =>
    refine .kept rfl rfl ?_ rfl rfl (fun _ => rfl)
    rw [sendTo_tables]
    apply marks_withUserPipes (holders_getElem isCli) _
    simp [UserPipes.createUserPipe_eq, ClientInfo.holder]
  | @userIn sourceId mark sourceCli cli taken later same number looked marked isSource isCli
      takes =>
    have found := holders_getElem isSource
    obtain ⟨before, after, vector, result, -, isTarget, -⟩ := UserPipes.markUserPipe_split takes
    refine @Input.taken job f _ word (sourceCli.id, { taken.1 with isUsed := true }) cli ?_
      (List.mem_append_right _ List.mem_cons_self) rfl rfl isCli isTarget rfl
    rw [receiveFrom_tables]
    refine mem_marks.mpr ⟨_, mem_modify_self found, rfl, ?_, rfl⟩
    rw [result]
    exact List.mem_append_right _ List.mem_cons_self

/-- With a word that takes no number that has been handed out, what a line keeps is
kept; for the closes to be proper it opens no file over a taken pipe either. -/
theorem Reads.owns {job : Job} {f next : Frame} {word : Str} {rest : List Str}
    (reads : Reads job f word rest (.again next)) (owns : Owns honest job.cli f)
    (quiet : honest → f.needEraseCliIds ≠ [] → f.isFirstArgv = false → kind word = .redirectIn →
      job.world.opens (rest.length - 1) = false)
    (spares : f.isFirstArgv = false → Spares job f word) : Owns honest job.cli next := by
  obtain ⟨files, before, source⟩ := owns.account
  obtain ⟨more, sub, account, opened⟩ := reads.files spares before
  refine ⟨owns.agree.same reads.registry, reads.registry.present owns.present,
    ⟨more, account, fun closing => ?_⟩, fun closing => ?_⟩
  · cases reads.input with
    | kept number aimed marks erase close =>
      refine (source (close ▸ closing)).stays (fun m member => ?_) erase number aimed sub
      rw [marks]
      exact member
    | file later same erase close =>
      rcases opened later same with negative | ⟨opens, serial, member⟩
      · exact .absent negative
      · refine .other (fun isHonest => ?_) member
        rw [quiet isHonest (owns.taking (close ▸ closing)).2 later same] at opens
        cases opens
    | taken member listed number aimed => exact .marked member listed number aimed
  · cases reads.input with
    | kept _ _ _ erase close taking | file _ _ erase close taking =>
      rw [erase]
      exact ⟨taking (owns.taking (close ▸ closing)).1, (owns.taking (close ▸ closing)).2⟩
    | taken _ listed _ _ _ _ taking => exact ⟨taking, List.ne_nil_of_mem listed⟩

/-- A user-pipe error leaves the tables. -/
theorem Reads.leave_tables {job : Job} {f : Frame} {word : Str} {rest : List Str}
    {server : Server} {status : Int} (reads : Reads job f word rest (.leave (server, status))) :
    server.tables = f.server.tables := by
  cases reads with
  | missing | exists_ | absent => rfl

/-- Between lines: the ids agree, and the entries of the tables form an account, each standing for
its own object under a number that no other entry has. -/
structure Relied (honest : Prop) (t : Tables) : Prop where
  agree : Agree t
  account : Account honest t.process t.entries []

/-- What the records rely on, without the files that were opened. -/
theorem Owns.relied {iter : Nat} {f : Frame} (owns : Owns honest iter f) :
    Relied honest f.server.tables := by
  obtain ⟨files, account, -⟩ := owns.account
  exact ⟨owns.agree, account.weaken _ _ (List.subset_append_right _ _)
    (by simpa using (List.sublist_append_right files _).subperm)⟩

/-- A round that takes no number that has been handed out keeps what a line keeps. By cases on how
a word is read and on what an execution does; the account says for each number who relies on it.
-/
theorem Owns.round {job : Job} {f : Frame} (owns : Owns honest job.cli f)
    (quiet : honest → f.needEraseCliIds ≠ [] → f.isFinalArgv = false → f.isFirstArgv = false →
      ∀ word ∈ f.cmds.head?, kind word = .redirectIn →
        job.world.opens (f.cmds.tail.length - 1) = false)
    (spares : f.isFinalArgv = false → f.isFirstArgv = false →
      ∀ word ∈ f.cmds.head?, Spares job f word) : Ends (round job f)
      (Round.Holds (Owns honest job.cli) (fun result => Relied honest result.1.tables))
      (FailsSound honest) := by
  obtain ⟨files, account, -⟩ := owns.account
  rw [SingleProc.round]
  split
  · have kept := owns.execute_done.and_returned (fun step ran => execute_executes ran)
    apply kept.mono
    · rintro step ⟨⟨next, rfl, done⟩, ⟨_, same, executes⟩⟩
      cases same
      exact ⟨done.agree, executes.registry.present owns.present,
        ⟨[], done.account, fun closing => by simp [done.open_] at closing⟩,
        fun closing => by simp [done.open_] at closing⟩
    · exact fun _ bad => bad
  · rename_i notFinal
    split
    · exact owns.relied
    · rename_i word rest words
      have reading : f.isFinalArgv = false := by simpa using notFinal
      have started := owns.initFd job.sockfd
      cases read : readWord job f word rest with
      | error failure =>
        rw [ends_error, FailsSound, (readWord_fails read).1]
        exact account.proper
      | ok step =>
        have reads := readWord_reads read
        cases step with
        | again next =>
          refine reads.owns started ?_ ?_
          · rw [initFd_needEraseCliIds, initFd_isFirstArgv]
            intro isHonest taken later same
            have kept := quiet isHonest taken reading later word (by simp [words]) same
            rwa [words] at kept
          · rw [initFd_isFirstArgv]
            intro later
            have kept := spares reading later word (by simp [words])
            rwa [Spares, ← initFd_server f job.sockfd] at kept
        | leave result =>
          obtain ⟨server, status⟩ := result
          rw [ends_ok, Round.holds_leave, reads.leave_tables]
          exact started.relied

/-! ## Lines that leave nothing marked -/

/-- What a line has marked it has listed, and a command is still to be executed. -/
structure Tidy (f : Frame) : Prop where
  marked : ∀ m ∈ f.server.tables.marks, m.1 ∈ f.needEraseCliIds
  ready : f.needEraseCliIds ≠ [] → f.isFinalArgv = true ∨ f.cmds ≠ []

/-- A word is listed with the pipe it takes. -/
theorem Reads.tidy {job : Job} {f next : Frame} {word : Str} {rest : List Str}
    (reads : Reads job f word rest (.again next)) (tidy : Tidy f) : Tidy next := by
  refine ⟨?_, fun _ => reads.ready⟩
  cases reads with
  | prog | argument | redirectOut | redirectIn => exact tidy.marked
  | @pipe isError pipeNum cli created later same number isCli creates =>
    rw [pipeTo_tables, marks_withPipes]
    exact tidy.marked
  | @userOut targetId mark cli later same number looked marked isCli fresh =>
    rw [sendTo_tables, marks_withUserPipes (holders_getElem isCli) _
      (by simp [UserPipes.createUserPipe_eq, ClientInfo.holder])]
    exact tidy.marked
  | @userIn sourceId mark sourceCli cli taken later same number looked marked isSource isCli
      takes =>
    intro m member
    rw [receiveFrom_tables] at member
    rcases mem_marks_withUserPipes (holders_getElem isSource) _ _ member with ⟨sameId, -⟩ | old
    · rw [sameId]
      exact List.mem_append_right _ List.mem_cons_self
    · exact List.mem_append_left _ (tidy.marked m old)

theorem Tidy.initFd {f : Frame} (tidy : Tidy f) (sockfd : Int) : Tidy (f.initFd sockfd) := by
  rw [Frame.initFd]
  split
  · exact ⟨tidy.marked, tidy.ready⟩
  · exact tidy

/-- An execution erases what the line has marked. -/
theorem Done.tidy {iter : Nat} {f next : Frame} (done : Done honest iter f next) (tidy : Tidy f) :
    Tidy next where
  marked m member := absurd (tidy.marked m (done.erased m member).1) (done.erased m member).2
  ready taken := absurd done.empty taken

/-- A user-pipe error in a line that keeps clear comes before anything is taken. -/
theorem Reads.untaken {strict : Bool} {job : Job} {f : Frame} {word : Str} {rest : List Str}
    {server : Server} {status : Int} (reads : Reads job f word rest (.leave (server, status)))
    (clear : f.needEraseCliIds ≠ [] → f.isFirstArgv = false →
      spoils strict job f word rest = false) : f.needEraseCliIds = [] := by
  have free (later : f.isFirstArgv = false) (spoiled : spoils strict job f word rest = true) :
      f.needEraseCliIds = [] := by
    by_contra taken
    have kept := clear taken later
    rw [spoiled] at kept
    cases kept
  cases reads with
  | @missing id later same number looked =>
    refine free later ?_
    rcases same with same | same
    · simp [spoils, same, number, userOutFails, looked]
    · simp [spoils, same, number, userInFails, looked]
  | @exists_ targetId mark cli text later same number looked marked isCli present =>
    refine free later ?_
    obtain ⟨u, inside, isTarget⟩ := present
    have some_ : cli.userpipeVector.any (·.targetId = targetId) = true :=
      List.any_eq_true.mpr ⟨u, inside, by simpa using isTarget⟩
    simp only [spoils, same, number, Option.any_some, userOutFails, looked, isCli, some_,
      Bool.or_true]
  | @absent sourceId mark sourceCli cli text later same number looked marked isSource isCli none =>
    refine free later ?_
    simp [spoils, same, number, userInFails, looked, isSource, isCli, none]

/-- A line that keeps clear takes no number that has been handed out. -/
theorem KeepsClear.spares {strict : Bool} {job : Job} {f : Frame} (clear : KeepsClear strict job f)
    (tidy : Tidy f) (reading : f.isFinalArgv = false) (later : f.isFirstArgv = false) :
    ∀ word ∈ f.cmds.head?, Spares job f word := by
  intro word first same sourceId number
  by_contra again
  obtain ⟨some_, fails⟩ := retakes_spoils (by simpa using again)
  obtain ⟨m, member⟩ := List.exists_mem_of_ne_nil _ some_
  have kept := clear (List.ne_nil_of_mem (tidy.marked m member)) reading later word first
  have number : UserPipes.userNum word = some sourceId := number
  simp [spoils, same, number, fails] at kept

/-- A line that keeps clear opens no file over a taken pipe. -/
theorem KeepsClear.quiet {job : Job} {f : Frame} (clear : KeepsClear true job f)
    (taken : f.needEraseCliIds ≠ []) (reading : f.isFinalArgv = false)
    (later : f.isFirstArgv = false) : ∀ word ∈ f.cmds.head?, kind word = .redirectIn →
      job.world.opens (f.cmds.tail.length - 1) = false := by
  intro word first same
  have kept := clear taken reading later word first
  simpa [spoils, same] using kept

/-- Between lines: the ids agree, the entries of the tables form an account, and nothing is
marked. A marked pipe has a closed write end, whose number may be somebody else's by now. -/
structure Settled (honest : Prop) (t : Tables) : Prop where
  agree : Agree t
  account : Account honest t.process t.entries []
  unmarked : t.marks = []

/-- Where nothing is listed nothing is marked. -/
theorem Tidy.unmarked {f : Frame} (tidy : Tidy f) (untaken : f.needEraseCliIds = []) :
    f.server.tables.marks = [] := by
  apply List.eq_nil_iff_forall_not_mem.mpr
  intro m member
  have listed := tidy.marked m member
  rw [untaken] at listed
  cases listed

/-- A line that ends with its words has executed what it has read. -/
theorem Tidy.untaken {f : Frame} (tidy : Tidy f) (final : f.isFinalArgv = false)
    (empty : f.cmds = []) : f.needEraseCliIds = [] := by
  by_contra taken
  rcases tidy.ready taken with isFinal | more
  · rw [final] at isFinal
    cases isFinal
  · exact more empty

/-- So has one that keeps clear and ends with a user-pipe error. -/
theorem KeepsClear.untaken {strict : Bool} {job : Job} {f : Frame} {word : Str} {rest : List Str}
    {server : Server} {status : Int} (clear : KeepsClear strict job f)
    (reading : f.isFinalArgv = false) (words : f.cmds = word :: rest)
    (read : readWord job f word rest = .ok (.leave (server, status))) :
    f.needEraseCliIds = [] := by
  have reads := readWord_reads read
  have next (taken : (f.initFd job.sockfd).needEraseCliIds ≠ [])
      (later : (f.initFd job.sockfd).isFirstArgv = false) :
      spoils strict job (f.initFd job.sockfd) word rest = false := by
    rw [initFd_needEraseCliIds] at taken
    rw [initFd_isFirstArgv] at later
    have kept := clear taken reading later word (by simp [words])
    rw [words] at kept
    simpa [spoils, userOutFails, userInFails, initFd_server] using kept
  have untaken := reads.untaken next
  rwa [initFd_needEraseCliIds] at untaken

/-- A round that keeps clear leaves nothing marked that is not listed, and ends the
line with nothing marked. -/
theorem Owns.round_tidy {strict : Bool} {job : Job} {f : Frame} (owns : Owns honest job.cli f)
    (tidy : Tidy f) (clear : KeepsClear strict job f) {step : Step}
    (ran : SingleProc.round job f = .ok step) :
    step.Holds Tidy (fun result => result.1.tables.marks = []) := by
  rw [SingleProc.round] at ran
  split at ran
  · obtain ⟨next, rfl, done⟩ := owns.execute_done.returned ran
    exact done.tidy tidy
  · rename_i notFinal
    have reading : f.isFinalArgv = false := by simpa using notFinal
    split at ran
    · rename_i words
      cases ran
      exact tidy.unmarked (tidy.untaken reading words)
    · rename_i word rest words
      have reads := readWord_reads ran
      cases step with
      | again next => exact reads.tidy (tidy.initFd job.sockfd)
      | leave result =>
        obtain ⟨server, status⟩ := result
        rw [Round.holds_leave, reads.leave_tables, initFd_server]
        exact tidy.unmarked (clear.untaken reading words ran)

/-- A round that keeps clear keeps what a line keeps, and leaves the line settled. The two facts
that it puts together are about the numbers and about the marks. -/
theorem Owns.round_settled {strict : Bool} {job : Job} {f : Frame}
    (owns : Owns (strict = true) job.cli f) (tidy : Tidy f) (clear : KeepsClear strict job f) :
    Ends (SingleProc.round job f)
      (Round.Holds (fun next => Owns (strict = true) job.cli next ∧ Tidy next)
        (fun result => Settled (strict = true) result.1.tables)) (FailsSound (strict = true)) := by
  have kept := owns.round (fun isStrict taken reading later => by
    subst isStrict
    exact clear.quiet taken reading later) (clear.spares tidy)
  apply (kept.and_returned (fun _ ran => owns.round_tidy tidy clear ran)).mono
  · rintro (next | ⟨server, status⟩) ⟨held, tidied⟩
    · exact ⟨held, tidied⟩
    · exact ⟨held.agree, held.account, tidied⟩
  · exact fun _ bad => bad

end NetProg.SingleProc
