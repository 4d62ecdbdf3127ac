import NetProg.SingleProc.Ownership

/-!
# Every descriptor is accounted for

Between lines nothing should be open but the standard descriptors, the sockets and
the pipes that some record still has. An execution closes what the command has read,
the numbered pipes that are due and the user pipes it has marked, and a departure
closes the pipes to the client that leaves. Nothing closes a file that a redirection
has opened, unless its number is what `close(in_fd)` hits after a user pipe was taken;
nothing closes the pipes a departing client has left unread, the connection of a client
that finds no free id, or what a line that ended in a user-pipe error has taken.
-/

namespace NetProg.SingleProc

open Loops Outcomes Runs

section Closing

variable {ids : List Int} {s after : Server}

/-- Erasing the used pipes of several clients only closes. -/
theorem eraseUsed_shuts (erased : ids.foldlM eraseUsed s = .ok after) :
    Shuts s.process after.process :=
  eraseUsed_induction (fun t => Shuts s.process t.process) (.refl _)
    (fun t candidate _ shuts _ =>
      shuts.trans (UserPipes.shuts_eraseUserPipeVector candidate.userpipeVector t.process)) erased

/-- The pipes marked in the records of other clients stay. -/
theorem mem_marks_other {t : Tables} {i : Nat} {h : Holder} {m : Int × UserPipeFd}
    {userpipeVector : List UserPipeFd} {p : Process} (found : t.holders[i]? = some h)
    (marked : m ∈ t.marks) (other : m.1 ≠ h.id) :
    m ∈ (t.withUserPipes i userpipeVector p).marks := by
  obtain ⟨g, holds, sameId, inside, used⟩ := mem_marks.mp marked
  obtain ⟨before, after, whole, changed⟩ := modify_split found
  refine mem_marks.mpr ⟨g, ?_, sameId, inside, used⟩
  rw [whole] at holds
  simp only [Tables.withUserPipes, changed]
  rcases List.mem_append.mp holds with early | late
  · exact List.mem_append_left _ early
  · rcases List.mem_cons.mp late with rfl | later
    · exact absurd sameId.symm other
    · exact List.mem_append_right _ (List.mem_cons_of_mem _ later)

/-- The read ends of what is marked in the records listed are closed. -/
theorem eraseUsed_closes (agree : Agree s.tables) (erased : ids.foldlM eraseUsed s = .ok after)
    {m : Int × UserPipeFd} (marked : m ∈ s.tables.marks) (listed : m.1 ∈ ids) :
    after.process.object m.2.outFd = none := by
  induction ids generalizing s with
  | nil => cases listed
  | cons id rest ih =>
    rw [List.foldlM_cons] at erased
    obtain ⟨one, first, others⟩ := bind_eq_ok.mp erased
    obtain ⟨candidate, isCandidate, rfl⟩ := eraseUsed_eq_ok first
    have found := holders_getElem isCandidate
    have ownId : candidate.holder.id = id := getClientByID_id isCandidate
    by_cases here : m.1 = id
    · obtain ⟨g, holds, sameId, inside, used⟩ := mem_marks.mp marked
      have same : g = candidate.holder := List.inj_on_of_nodup_map agree.distinct holds
        (List.mem_of_getElem? found) (sameId.trans (here.trans ownId.symm))
      subst same
      exact (eraseUsed_shuts others).absent
        (UserPipes.eraseUserPipeVector_closes s.process inside used)
    · refine ih (agree.same (registry_userpipeVector _ _ _ _)) others ?_ ?_
      · rw [tables_userpipeVector]
        exact mem_marks_other found marked (by rwa [ownId])
      · exact (List.mem_cons.mp listed).resolve_left here

end Closing

/-- What an execution closes, for the client behind its iterator. -/
structure Closes (job : Job) (f next : Frame) (h : Holder) : Prop where
  shuts : Shuts f.server.process next.server.process
  due : ∀ r ∈ h.pipeVector, r.count = 0 → ∀ e ∈ r.ends, next.server.process.object e.1 = none
  marked : ∀ m ∈ f.server.tables.marks, m.1 ∈ f.needEraseCliIds ++ [h.id] →
    next.server.process.object m.2.outFd = none
  input : f.needCloseUserpipe = true → (∀ r ∈ h.pipeVector, r.count ≠ 0) →
    next.server.process.object f.inFd = none

/-- What an execution closes: the ends of the pipes that are due, the used user pipes of its
client and of the clients it has taken from, and the input that was a user pipe. The steps of
`executeCommand` are followed one after the other, since each of them closes a part. -/
theorem Executes.closes {job : Job} {f next : Frame} {h : Holder} (executes : Executes job f next)
    (agree : Agree f.server.tables) (found : f.server.tables.holders[job.cli]? = some h) :
    Closes job f next h := by
  obtain ⟨announced, cli, needClosePipe, inFd, inPipe, p, ran, status, detached, erased, announces,
    isCli, attaches, built, detaches, erases, rfl⟩ := executes.steps
  have told : announced.tables = f.server.tables := (announce_keeps job f).returned announces
  have process : announced.process = f.server.process := congrArg Tables.process told
  have isHolder : cli.holder = h := by
    have there := holders_getElem (client_eq_ok.mp isCli)
    rw [told, found] at there
    exact (Option.some.inj there).symm
  have kept : ran.tables = { announced.tables with process := p } :=
    (builtin_keeps _ _ _ _).returned built
  have ranProcess : ran.process = p := congrArg Tables.process kept
  obtain ⟨ranCli, isRanCli, rfl⟩ := detach_eq_ok detaches
  have ranHolder : ranCli.holder = h := by
    have there := holders_getElem isRanCli
    rw [kept] at there
    rw [← told] at found
    exact Option.some.inj (there.symm.trans found)
  have samePipes : ranCli.pipeVector = h.pipeVector := congrArg Holder.pipeVector ranHolder
  have last := eraseUsed_shuts erases
  simp only [Server.withProcess] at last
  -- the process after attaching, after erasing the due pipes and after the last close
  have first : Shuts f.server.process ran.process := by
    rw [ranProcess, ← process]
    rcases attach_cases attaches with ⟨-, -, rfl⟩ | ⟨r, -, -, -, rfl⟩
    · exact .refl _
    · exact .closeEnd _ _ _
  have second := NumberedPipes.shuts_erasePipeVector ranCli.pipeVector ran.process
  have third : Shuts (NumberedPipes.erasePipeVector ranCli.pipeVector ran.process).2
      (if (needClosePipe || f.needCloseUserpipe) = true then
        (NumberedPipes.erasePipeVector ranCli.pipeVector ran.process).2.closeEnd inFd inPipe
      else (NumberedPipes.erasePipeVector ranCli.pipeVector ran.process).2) := by
    split
    · exact .closeEnd _ _ _
    · exact .refl _
  refine ⟨first.trans (second.trans (third.trans last)), ?_, ?_, ?_⟩
  · intro r member due e isEnd
    refine last.absent (third.absent ?_)
    rw [← samePipes] at member
    exact NumberedPipes.erasePipeVector_closes ran.process member due isEnd
  · intro m marked listed
    refine eraseUsed_closes ?_ erases ?_ ?_
    · refine Agree.same ?_ (registry_pipeVector _ _ _ _)
      rw [kept, told]
      exact agree.same (.process _ p)
    · rw [tables_pipeVector, marks_withPipes, kept, told]
      exact marked
    · rwa [show cli.id = h.id from congrArg Holder.id isHolder]
  · intro taken none
    refine last.absent ?_
    rcases attach_cases attaches with ⟨-, rfl, -⟩ | ⟨r, member, due, -, -⟩
    · rw [if_pos (by simp [taken]), Process.object_closeEnd, if_pos rfl]
    · rw [show cli.pipeVector = h.pipeVector from congrArg Holder.pipeVector isHolder] at member
      exact absurd due (none r member)

/-- The file that `close(in_fd)` will close at the end of the command, if there is one. -/
def Frame.opened (f : Frame) : List (Int × Object) :=
  if f.needCloseUserpipe then
    match f.server.process.object f.inFd with
    | some (.file serial) => [(f.inFd, .file serial)]
    | _ => []
  else []

/-- Nothing is open between two rounds but what the tables list and that file. The file is one
that was opened over a pipe that the command has taken, and whose number will be closed in its
place. -/
def Frame.Tight (f : Frame) : Prop :=
  Confined f.server.process (f.opened ++ f.server.tables.entries)

/-- A word loses a file: it opens one that nothing closes, or puts something else into
`in_fd` while that is the number of one. -/
def misplaces (job : Job) (f : Frame) (word : Str) (rest : List Str) : Bool :=
  match kind word with
  | .redirectOut => job.world.opens (rest.length - 1)
  | .redirectIn => f.opened ≠ [] || (!f.needCloseUserpipe && job.world.opens (rest.length - 1))
  | .userIn => f.opened ≠ []
  | _ => false

/-- A round loses a file, by the word it reads or by the numbered pipe it attaches. -/
def loses (job : Job) (f : Frame) : Bool :=
  if f.isFinalArgv then
    f.opened ≠ [] && (f.server.clientTable[job.cli]?).any (·.pipeVector.any (·.count = 0))
  else
    match f.cmds with
    | [] => false
    | word :: rest => !f.isFirstArgv && misplaces job f word rest

/-- Setting the descriptors back keeps a file that will be closed. -/
theorem Owns.opened_initFd {honest : Prop} {iter : Nat} {f : Frame} (owns : Owns honest iter f)
    (sockfd : Int) : (f.initFd sockfd).opened = f.opened := by
  rw [Frame.initFd]
  split
  · rename_i free
    have closed : f.needCloseUserpipe = false := by
      by_contra closing
      have taking := (owns.taking (by simpa using closing)).1
      simp [taking] at free
    simp [Frame.opened, closed]
  · rfl

/-- After an execution no file is waiting to be closed. -/
theorem Done.opened {honest : Prop} {iter : Nat} {f next : Frame} (done : Done honest iter f next) :
    next.opened = [] := by
  simp [Frame.opened, done.open_]

/-- An execution that loses no file leaves nothing open that is not listed. -/
theorem Executes.tight {honest : Prop} {job : Job} {f next : Frame} (executes : Executes job f next)
    (owns : Owns honest job.cli f) (done : Done honest job.cli f next) (tight : f.Tight)
    (final : f.isFinalArgv = true) (keeps : loses job f = false) : next.Tight := by
  obtain ⟨cli, isCli⟩ := owns.present
  have found := holders_getElem isCli
  have closes := executes.closes owns.agree found
  rw [Frame.Tight, done.opened, List.nil_append, done.stays cli.holder found]
  refine tight.shut closes.shuts (fun e member => ?_)
  rcases List.mem_append.mp member with file | entry
  · refine .inr ?_
    have taken : f.needCloseUserpipe = true := by
      by_contra open_
      simp [Frame.opened, open_] at file
    have same : e.1 = f.inFd := by
      rw [Frame.opened, if_pos taken] at file
      split at file
      · rw [List.mem_singleton.mp file]
      · cases file
    have some_ : f.opened ≠ [] := List.ne_nil_of_mem file
    have none : ∀ r ∈ cli.holder.pipeVector, r.count ≠ 0 := by
      intro r inside due
      have lost : loses job f = true := by
        have isDue : cli.pipeVector.any (·.count = 0) = true :=
          List.any_eq_true.mpr ⟨r, inside, by simpa using due⟩
        simp [loses, final, some_, isCli, isDue]
      rw [lost] at keeps
      cases keeps
    rw [same]
    exact closes.input taken none
  · rcases List.mem_append.mp ((entries_given _ found).subset entry) with stays | given
    · exact .inl stays
    · refine .inr ?_
      rcases List.mem_append.mp given with due | marked
      · obtain ⟨r, inside, isEnd⟩ := List.mem_flatMap.mp due
        obtain ⟨member, isDue⟩ := List.mem_filter.mp inside
        exact closes.due r member (by simpa using isDue) e isEnd
      · obtain ⟨m, inside, rfl⟩ := List.mem_map.mp marked
        obtain ⟨member, listed⟩ := List.mem_filter.mp inside
        exact closes.marked m member (by simpa using listed)

/-- The entries after a change of one record. -/
theorem entries_shifted {t : Tables} {i : Nat} {h : Holder} (found : t.holders[i]? = some h)
    (shift : Holder → Holder) (p : Process) {e : Int × Object} (member : e ∈ t.entries)
    (kept : e ∈ h.entries → e ∈ (shift h).entries) :
    e ∈ ({ t with process := p, holders := t.holders.modify i shift } : Tables).entries := by
  obtain ⟨rest, whole, changed⟩ := entries_around found
  refine (changed shift p).symm.subset ?_
  rcases List.mem_append.mp (whole.subset member) with own | other
  · exact List.mem_append_left _ (kept own)
  · exact List.mem_append_right _ other

/-- Where nothing is put into `in_fd` and nothing that is open is touched, a file that will
be closed is the same one. -/
theorem opened_stays {f next : Frame} (close : next.needCloseUserpipe = f.needCloseUserpipe)
    (number : next.inFd = f.inFd) (grows : ∀ n o, f.server.process.object n = some o →
      next.server.process.object n = some o) : f.opened ⊆ next.opened := by
  intro e member
  rw [Frame.opened] at member ⊢
  rw [close]
  split at member
  · rename_i taken
    rw [if_pos taken, number]
    split at member
    · rename_i serial isFile
      rw [grows _ _ isFile]
      exact member
    · cases member
  · cases member

/-- A pipe that is created leaves what is open as it is. -/
theorem object_pipe {p : Process} {n : Int} {o : Object} (found : p.object n = some o) :
    p.pipe.2.2.object n = some o := by
  have put {q : Process} (made : Nat) (closes : List Close) (new : Object)
      (held : q.object n = some o) :
      (⟨q.fds.put q.fds.lowest new, made, closes⟩ : Process).object n = some o := by
    rw [Process.object_put_nat, if_neg]
    · exact held
    · intro same
      rw [same, show q.object q.fds.lowest = none from Process.object_lowest _ q.made q.closes]
        at held
      cases held
  exact put (q := ⟨p.fds.put p.fds.lowest (.readEnd p.made), p.made, p.closes⟩) _ _ _
    (put _ _ _ found)

/-- What is opened has to be listed, and what was listed and not closed still is. -/
theorem Frame.Tight.extend (f : Frame) {next : Frame} (new : List (Int × Object))
    (confined : Confined next.server.process (new ++ (f.opened ++ f.server.tables.entries)))
    (opened : f.opened ⊆ next.opened) (added : ∀ e ∈ new, e ∈ next.server.tables.entries)
    (listed : ∀ e ∈ f.server.tables.entries, e ∈ next.server.tables.entries) : next.Tight := by
  refine confined.mono (fun e member => ?_)
  rcases List.mem_append.mp member with isNew | old
  · exact List.mem_append_right _ (added e isNew)
  · rcases List.mem_append.mp old with file | entry
    · exact List.mem_append_left _ (opened file)
    · exact List.mem_append_right _ (listed e entry)

section Words

variable {f : Frame} {rest : List Str}

/-- A pipe operator: the pipe is one of the table, or it is listed there now. -/
theorem pipeTo_tight (tight : f.Tight) {iter : Nat} {isError : Bool} {pipeNum : Int}
    {cli : ClientInfo} {can : Bool} {created : Int × List PipeFd × Process}
    (isCli : f.server.clientTable[iter]? = some cli)
    (creates : NumberedPipes.createPipe can f.server.process cli.pipeVector pipeNum =
      some created) : (f.pipeTo iter isError created rest).Tight := by
  have found := holders_getElem isCli
  have process : (f.pipeTo iter isError created rest).server.process = created.2.2 := rfl
  rcases NumberedPipes.createPipe_cases creates with ⟨_, _, _, _, extended, after⟩ |
    ⟨_, _, _, extended, after⟩
  · refine Frame.Tight.extend f [] ?_ ?_ (by simp) ?_
    · rw [process, after]
      exact tight
    · exact opened_stays rfl rfl (fun n o held => by rwa [process, after])
    · rw [pipeTo_tables, extended]
      exact fun e member => entries_shifted found _ _ member id
  · refine Frame.Tight.extend f [(f.server.process.pipe.2.1, .writeEnd f.server.process.made),
      (f.server.process.pipe.1, .readEnd f.server.process.made)] ?_ ?_ ?_ ?_
    · rw [process, after]
      exact tight.pipe
    · exact opened_stays rfl rfl (fun n o held => by
        rw [process, after]
        exact object_pipe held)
    · rw [pipeTo_tables, extended]
      intro e isNew
      obtain ⟨rest, -, changed⟩ := entries_withPipes found
      refine (changed _ _).symm.subset (List.mem_append_left _ ?_)
      rw [NumberedPipes.ends_append]
      refine List.mem_append_right _ ?_
      simpa [PipeFd.ends] using isNew
    · rw [pipeTo_tables, extended]
      refine fun e member => entries_shifted found _ _ member (fun own => ?_)
      simp only [Holder.entries, NumberedPipes.ends_append, List.mem_cons, List.mem_append]
        at own ⊢
      tauto

/-- An output redirection that opens nothing. -/
theorem redirectOut_tight (tight : f.Tight) :
    (f.redirectOut (openAs false f.server.process) rest).Tight := tight

/-- An input redirection: the file will be closed, or none is opened. -/
theorem redirectIn_tight (tight : f.Tight) (empty : f.opened = []) {opens : Bool}
    (closes : opens = true → f.needCloseUserpipe = true) :
    (f.redirectIn (openAs opens f.server.process) rest).Tight := by
  have confined : Confined f.server.process f.server.tables.entries := by
    rw [Frame.Tight, empty] at tight
    exact tight
  cases opens with
  | false => exact confined.mono (List.subset_append_right _ _)
  | true =>
    have held : f.server.process.openFile.2.object f.server.process.openFile.1 =
        some (.file f.server.process.made) := by
      rw [Process.openFile, Process.object_put_nat, if_pos rfl]
    refine confined.openFile.mono (fun e member => ?_)
    rcases List.mem_cons.mp member with rfl | old
    · refine List.mem_append_left _ ?_
      simp [Frame.opened, Frame.redirectIn, Frame.endLine, Server.withProcess, openAs, closes,
        held]
    · exact List.mem_append_right _ old

/-- A user pipe is created: it is listed. -/
theorem sendTo_tight (tight : f.Tight) {iter : Nat} {targetId : Int} {cli : ClientInfo}
    (isCli : f.server.clientTable[iter]? = some cli) :
    (f.sendTo iter targetId (UserPipes.createUserPipe f.server.process cli.userpipeVector cli.id
      targetId) rest).Tight := by
  have found := holders_getElem isCli
  refine Frame.Tight.extend f [(f.server.process.pipe.2.1, .writeEnd f.server.process.made),
    (f.server.process.pipe.1, .readEnd f.server.process.made)] tight.pipe ?_ ?_ ?_
  · exact opened_stays rfl rfl (fun n o held => object_pipe held)
  · rw [sendTo_tables, UserPipes.createUserPipe_eq]
    intro e isNew
    obtain ⟨rest, -, changed⟩ := entries_withUserPipes found
    refine (changed _ _).symm.subset (List.mem_append_left _ ?_)
    rw [UserPipes.ends_append]
    refine List.mem_append_right _ ?_
    simpa [UserPipeFd.ends] using isNew
  · rw [sendTo_tables, UserPipes.createUserPipe_eq]
    refine fun e member => entries_shifted found _ _ member (fun own => ?_)
    simp only [Holder.entries, UserPipes.ends_append, List.mem_cons, List.mem_append] at own ⊢
    tauto

/-- A user pipe is taken: its write end is closed, and its record lists the read end. -/
theorem receiveFrom_tight (tight : f.Tight) (empty : f.opened = []) {iter : Nat} {id : Int}
    {sourceCli : ClientInfo} {taken : UserPipeFd × List UserPipeFd}
    (isSource : f.server.clientTable[iter]? = some sourceCli)
    (takes : UserPipes.markUserPipe sourceCli.id id sourceCli.userpipeVector = some taken) :
    (f.receiveFrom iter sourceCli.id taken rest).Tight := by
  have found := holders_getElem isSource
  have confined : Confined f.server.process f.server.tables.entries := by
    rw [Frame.Tight, empty] at tight
    exact tight
  obtain ⟨before, after, vector, result, -⟩ := UserPipes.markUserPipe_split takes
  have vector : sourceCli.holder.userpipeVector = before ++ taken.1 :: after := vector
  refine confined.shut (Shuts.closeEnd _ taken.1.inFd (some (.writeEnd taken.1.made)))
    (fun e member => ?_)
  by_cases isWrite : e.1 = taken.1.inFd
  · exact .inr ((Process.object_closeEnd _ _ _ _).trans (if_pos isWrite))
  · refine .inl (List.mem_append_right _ ?_)
    rw [receiveFrom_tables]
    refine entries_shifted found _ _ member (fun own => ?_)
    have still : e ∈ taken.1.ends → e ∈ ({ taken.1 with isUsed := true } : UserPipeFd).ends := by
      intro isEnd
      rw [UserPipeFd.ends] at isEnd ⊢
      split at isEnd
      · exact isEnd
      · rcases List.mem_cons.mp isEnd with rfl | last
        · exact absurd rfl isWrite
        · exact last
    rw [result]
    simp only [Holder.entries, vector, UserPipes.ends_append, UserPipes.ends_cons,
      List.mem_cons, List.mem_append] at own ⊢
    tauto

end Words

/-- A word that loses no file leaves nothing open that is not listed. -/
theorem Reads.tight {job : Job} {f next : Frame} {word : Str} {rest : List Str}
    (reads : Reads job f word rest (.again next)) (tight : f.Tight)
    (keeps : f.isFirstArgv = false → misplaces job f word rest = false) : next.Tight := by
  cases reads with
  | prog | argument => exact tight
  | pipe later same number isCli creates => exact pipeTo_tight tight isCli creates
  | @redirectOut file left later same follows =>
    have shut : job.world.opens left.length = false := by
      simpa [misplaces, same, follows] using keeps later
    rw [shut]
    exact redirectOut_tight tight
  | @redirectIn file left later same follows =>
    have kept : f.opened = [] ∧ (f.needCloseUserpipe = false →
        job.world.opens left.length = false) := by
      simpa [misplaces, same, follows] using keeps later
    refine redirectIn_tight tight kept.1 (fun opens => ?_)
    by_contra open_
    rw [kept.2 (by simpa using open_)] at opens
    cases opens
  | userOut later same number looked marked isCli fresh => exact sendTo_tight tight isCli
  | userIn later same number looked marked isSource isCli takes =>
    have empty : f.opened = [] := by simpa [misplaces, same] using keeps later
    exact receiveFrom_tight tight empty isSource takes

/-- The conditions on a round: it keeps clear of user-pipe errors over a taken pipe, and
loses no file. -/
def Thrifty (job : Job) (f : Frame) : Prop := KeepsClear false job f ∧ loses job f = false

instance (job : Job) (f : Frame) : Decidable (Thrifty job f) := inferInstanceAs (Decidable (_ ∧ _))

/-- A line that ends is not about to close anything. -/
theorem Owns.closed {honest : Prop} {iter : Nat} {f : Frame} (owns : Owns honest iter f)
    (untaken : f.needEraseCliIds = []) : f.opened = [] := by
  have open_ : f.needCloseUserpipe = false := by
    by_contra closing
    exact (owns.taking (by simpa using closing)).2 untaken
  simp [Frame.opened, open_]

/-- A round under these conditions leaves nothing open that is not listed: what a word opens it
enters into a table, and what an execution takes out of one it closes. -/
theorem Owns.round_tight {honest : Prop} {job : Job} {f : Frame} (owns : Owns honest job.cli f)
    (tidy : Tidy f) (tight : f.Tight) (thrifty : Thrifty job f) {step : Step}
    (ran : SingleProc.round job f = .ok step) :
    step.Holds Frame.Tight (fun result => Confined result.1.process result.1.tables.entries) := by
  have listed (untaken : f.needEraseCliIds = []) :
      Confined f.server.process f.server.tables.entries := by
    rw [Frame.Tight, owns.closed untaken] at tight
    exact tight
  rw [SingleProc.round] at ran
  split at ran
  · rename_i final
    obtain ⟨next, same, done⟩ := owns.execute_done.returned ran
    obtain ⟨_, alsoSame, executes⟩ := execute_executes ran
    subst same
    cases alsoSame
    exact executes.tight owns done tight final thrifty.2
  · rename_i notFinal
    have reading : f.isFinalArgv = false := by simpa using notFinal
    split at ran
    · rename_i words
      cases ran
      exact listed (tidy.untaken reading words)
    · rename_i word rest words
      have reads := readWord_reads ran
      cases step with
      | again next =>
        have opened := owns.opened_initFd job.sockfd
        have start : (f.initFd job.sockfd).Tight := by
          rw [Frame.Tight, opened, initFd_server]
          exact tight
        refine reads.tight start (fun later => ?_)
        rw [initFd_isFirstArgv] at later
        have kept := thrifty.2
        simp only [loses, reading, words, later, Bool.false_eq_true, if_false, Bool.not_false,
          Bool.true_and] at kept
        have close : (f.initFd job.sockfd).needCloseUserpipe = f.needCloseUserpipe := by
          rw [Frame.initFd]
          split <;> rfl
        simpa only [misplaces, opened, close] using kept
      | leave result =>
        obtain ⟨server, status⟩ := result
        have tables : server.tables = f.server.tables :=
          reads.leave_tables.trans (congrArg Server.tables (initFd_server f job.sockfd))
        have process : server.process = f.server.process := congrArg Tables.process tables
        rw [Round.holds_leave]
        simp only [process, tables]
        exact listed (thrifty.1.untaken reading words ran)

/-- A thrifty line leaves nothing open that is not listed, and the tables settled. By the rule for
a line, with the two invariants of a frame together. -/
theorem clientExec_confined {world : World} {s : Server} {iter : Nat} {cliMsg : Str}
    (settled : Settled (false = true) s.tables) (confined : Confined s.process s.tables.entries)
    (thrifty : ∀ v ∈ visited world s iter cliMsg, Thrifty v.1 v.2) :
    Ends (clientExec world s iter cliMsg) (fun result => Settled (false = true) result.1.tables ∧
      Confined result.1.process result.1.tables.entries) (fun _ => True) := by
  refine clientExec_ends
    (fun job f => (Owns (false = true) job.cli f ∧ Tidy f) ∧ f.Tight) Thrifty
    (fun s => Settled (false = true) s.tables ∧ Confined s.process s.tables.entries)
    (fun _ => True) (fun _ => trivial) ?_ ?_ (fun _ _ _ kept => kept) thrifty
  · intro cli found
    have begun := settled.relied.begun cli
    have unmarked : (beginLine s cli).tables.marks = [] := settled.unmarked
    have start : Confined (beginLine s cli).process (beginLine s cli).tables.entries :=
      (confined.dup2 cli.fd 1 (by decide)).dup2 cli.fd 2 (by decide)
    refine ⟨⟨⟨begun.agree, begun.account, unmarked⟩, start⟩,
      ⟨begun.owns found cli.fd _, fun m member => ?_, fun taken => ?_⟩, start⟩
    · simp only [Frame.initial, unmarked] at member
      cases member
    · simp [Frame.initial] at taken
  · rintro job f - ⟨⟨owns, tidy⟩, tight⟩ clear
    have kept := owns.round_settled tidy clear.1
    refine ((kept.and_returned (fun _ ran => owns.round_tight tidy tight clear ran)).mono ?_
      (fun _ _ => trivial))
    rintro (next | result) both
    · exact both
    · exact both

/-- `EraseClientVector` only closes. -/
theorem shuts_eraseClientVector (id : Int) (clients : List ClientInfo) (p : Process) :
    Shuts p (eraseClientVector id clients p).2 := by
  induction clients generalizing p with
  | nil => exact .refl p
  | cons c rest ih =>
    rw [eraseClientVector]
    exact (UserPipes.shuts_eraseTarget id c.userpipeVector p).trans (ih _)

/-- It closes every pipe to the client. -/
theorem eraseClientVector_closes {id : Int} {clients : List ClientInfo} (p : Process)
    {c : ClientInfo} (member : c ∈ clients) {u : UserPipeFd} (inside : u ∈ c.userpipeVector)
    (isTarget : u.targetId = id) {e : Int × Object} (isEnd : e ∈ u.ends) :
    (eraseClientVector id clients p).2.object e.1 = none := by
  induction clients generalizing p with
  | nil => cases member
  | cons first rest ih =>
    rw [eraseClientVector]
    rcases List.mem_cons.mp member with rfl | later
    · exact (shuts_eraseClientVector id rest _).absent
        (UserPipes.eraseTarget_closes p inside isTarget isEnd)
    · exact ih _ later

/-- A client that has no pipes but to itself. -/
def Drained (cli : ClientInfo) : Prop :=
  cli.pipeVector = [] ∧ ∀ u ∈ cli.userpipeVector, u.targetId = cli.id

instance (cli : ClientInfo) : Decidable (Drained cli) := inferInstanceAs (Decidable (_ ∧ _))

/-- When such a client departs, everything that is not listed any more is closed. -/
theorem confined_depart {s : Server} {cli : ClientInfo} {iter : Nat} {fd : Int}
    (confined : Confined s.process s.tables.entries) (agree : Agree s.tables)
    (found : s.clientTable[iter]? = some cli) (isFd : cli.fd = fd) (drained : Drained cli) :
    Confined ((eraseClientVector cli.id s.clientTable s.process).2.close fd)
      (s.tables.depart cli.id fd
        ((eraseClientVector cli.id s.clientTable s.process).2.close fd)).entries := by
  have last := Shuts.close (eraseClientVector cli.id s.clientTable s.process).2 fd
  refine confined.shut ((shuts_eraseClientVector cli.id s.clientTable s.process).trans last)
    (fun e member => ?_)
  rw [depart_entries]
  rcases List.mem_cons.mp member with isListener | isEntry
  · exact .inl (isListener ▸ List.mem_cons_self)
  obtain ⟨h, holds, own⟩ := List.mem_flatMap.mp isEntry
  obtain ⟨c, inTable, rfl⟩ := List.mem_map.mp holds
  rcases List.mem_append.mp ((entries_stays_goes cli.id c.holder).subset own) with stays | goes
  · exact .inl (List.mem_cons_of_mem _ (List.mem_flatMap.mpr ⟨c.holder, holds, stays⟩))
  refine .inr ?_
  have toLeaver {u : UserPipeFd} (inside : u ∈ c.userpipeVector) (isTarget : u.targetId = cli.id)
      (isEnd : e ∈ u.ends) : ((eraseClientVector cli.id s.clientTable s.process).2.close
        fd).object e.1 = none :=
    last.absent (eraseClientVector_closes s.process inTable inside isTarget isEnd)
  rw [Holder.goes] at goes
  split at goes
  · rename_i leaving
    have same : c.holder = cli.holder := List.inj_on_of_nodup_map agree.distinct holds
      (List.mem_of_getElem? (holders_getElem found)) leaving
    have noPipes : c.holder.pipeVector = [] := by rw [same]; exact drained.1
    rw [Holder.entries, noPipes, NumberedPipes.ends_nil, List.nil_append] at goes
    rcases List.mem_cons.mp goes with rfl | isUser
    · rw [show c.holder.fd = fd from (congrArg Holder.fd same).trans isFd,
        Process.object_close, if_pos rfl]
    · obtain ⟨u, inside, isEnd⟩ := List.mem_flatMap.mp isUser
      refine toLeaver inside (drained.2 u ?_) isEnd
      rwa [show c.holder.userpipeVector = cli.userpipeVector from
        congrArg Holder.userpipeVector same] at inside
  · obtain ⟨u, inside, isEnd⟩ := List.mem_flatMap.mp goes
    obtain ⟨member, isTarget⟩ := List.mem_filter.mp inside
    exact toLeaver member (by simpa using isTarget) isEnd

/-- An event that leaves nothing open: a connection finds a free id, a line is thrifty,
and a client that leaves has no pipes but to itself. -/
def Releases (s : Server) : Event → Prop
  | .accept _ _ => getAvaliableID s.idTable ≠ none
  | .line fd chunk world =>
    (∀ v ∈ visited world s (s.getClientByFd fd) (cliMsg chunk), Thrifty v.1 v.2) ∧
      ∀ left ∈ leaver world s fd chunk, Drained left.2
  | .closed fd => ∀ cli ∈ s.clientTable[s.getClientByFd fd]?, Drained cli

instance decidableReleases (s : Server) : (event : Event) → Decidable (Releases s event)
  | .accept _ _ => inferInstanceAs (Decidable (_ ≠ _))
  | .line _ _ _ => inferInstanceAs (Decidable ((∀ v ∈ _, _) ∧ ∀ left ∈ _, _))
  | .closed _ => inferInstanceAs (Decidable (∀ cli ∈ _, _))

/-- A thrifty line is careful. -/
theorem Releases.careful {s : Server} {event : Event} (releases : Releases s event) :
    Careful false s event := by
  cases event with
  | accept | closed => exact trivial
  | line fd chunk world => exact fun v member => (releases.1 v member).1

/-- What the restored standard descriptors are does not matter. -/
theorem confined_restore {p : Process} {entries : List (Int × Object)}
    (confined : Confined p entries) :
    Confined (restore p) entries := by
  refine confined.above (fun n high => ?_)
  rw [restore, Process.object_dup2 _ _ _ _ (by omega), Process.object_dup2 _ _ _ _ (by omega),
    Process.object_close, Process.object_close, if_neg (by omega), if_neg (by omega)]

/-- A client that enters has its socket listed. -/
theorem confined_enter {t : Tables} (confined : Confined t.process t.entries) (id : Int) :
    Confined (t.enter t.process.accept.1 id).process (t.enter t.process.accept.1 id).entries := by
  refine confined.accept.mono (fun e member => ?_)
  have whole : (t.enter t.process.accept.1 id).entries =
      t.entries ++ [(t.process.accept.1, .socket t.process.made)] := by
    simp [Tables.enter, Tables.entries, Holder.entries]
  rw [whole]
  rcases List.mem_cons.mp member with rfl | old
  · exact List.mem_append_right _ List.mem_cons_self
  · exact List.mem_append_left _ old

/-- Such an event leaves nothing open that is not listed. A connection enters its socket, a line
is thrifty, and a client that leaves takes with it nothing but what is closed there. -/
theorem serve_confined {s after : Server} {event : Event}
    (settled : Settled (false = true) s.tables) (confined : Confined s.process s.tables.entries)
    (byExit : ByExit s event) (releases : Releases s event) (served : serve s event = .ok after) :
    Confined after.process after.tables.entries := by
  have moves := serve_moves settled.agree byExit.closesOwnId served
  show Confined after.tables.process after.tables.entries
  cases event with
  | accept userIp port =>
    obtain ⟨_, same, ⟨-, -, full⟩ | ⟨id, -, -, entered, -⟩⟩ := acceptClient_enters s userIp port
    · exact absurd full releases
    · cases same.symm.trans served
      rw [entered]
      exact confined_enter confined id
  | line fd chunk world =>
    generalize tables : after.tables = u at moves
    cases moves with
    | stays execed => exact ((clientExec_confined settled confined releases.1).returned execed).2
    | @exits _ _ _ ended cli execed found isFd =>
      obtain ⟨kept, still⟩ := (clientExec_confined settled confined releases.1).returned execed
      have leaves : leaver world s fd chunk = some (ended, cli) := by
        simp [leaver, execed, found]
      exact confined_restore (confined_depart still kept.agree found isFd (releases.2 _ leaves))
  | closed fd => exact byExit.elim

/-- The runs that leave nothing open. -/
def KeepsAccount (s : Server) (event : Event) : Prop := ByExit s event ∧ Releases s event

instance (s : Server) (event : Event) : Decidable (KeepsAccount s event) :=
  inferInstanceAs (Decidable (_ ∧ _))

/-- In every such run the tables are settled, and nothing else is open. The two are kept together,
since what a departure closes is known only where the tables are settled. -/
theorem run_confined {events : List Event} {s : Server} (run : Run system KeepsAccount events s) :
    Settled (false = true) s.tables ∧ Confined s.process s.tables.entries := by
  refine run.invariant
    (fun s => Settled (false = true) s.tables ∧ Confined s.process s.tables.entries) ?_ ?_
  · have start : Confined Process.initial [] := by
      intro n o high found
      rw [Process.initial, Process.object_put_nat, if_neg (by omega), Process.object_put_nat,
        if_neg (by omega), Process.object_put_nat, if_neg (by omega)] at found
      simp [Process.object] at found
    exact ⟨Settled.initial, start.put 0 .listener⟩
  · rintro state event after ⟨settled, confined⟩ _ ⟨byExit, releases⟩ served
    exact ⟨settled.moves releases.careful (serve_moves settled.agree byExit.closesOwnId served),
      serve_confined settled confined byExit releases served⟩

/-- A number that the tables list: the listening socket, and for a client its socket, both
ends of its numbered pipes and both ends of its user pipes that are not used. -/
def Recorded (s : Server) (n : Int) : Prop :=
  n = s.msock ∨ ∃ c ∈ s.clientTable, n = c.fd ∨
    (∃ r ∈ c.pipeVector, n = r.inFd ∨ n = r.outFd) ∨
    ∃ u ∈ c.userpipeVector, u.isUsed = false ∧ (n = u.inFd ∨ n = u.outFd)

/-- The open descriptors are the standard ones and those the tables list. -/
def Accounted (s : Server) : Prop :=
  ∀ n : Int, s.process.object n ≠ none ↔ (0 ≤ n ∧ n < 3) ∨ Recorded s n

/-- Where nothing is marked, what is listed are the numbers of the entries. -/
theorem recorded_iff {s : Server} (unmarked : s.tables.marks = []) {n : Int} :
    Recorded s n ↔ ∃ o, (n, o) ∈ s.tables.entries := by
  have ofClient {c : ClientInfo} (inTable : c ∈ s.clientTable) {e : Int × Object}
      (own : e ∈ c.holder.entries) : e ∈ s.tables.entries :=
    List.mem_cons_of_mem _ (List.mem_flatMap.mpr ⟨c.holder, List.mem_map_of_mem inTable, own⟩)
  constructor
  · rintro (rfl | ⟨c, inTable, rfl | ⟨r, inside, number⟩ | ⟨u, inside, unused, number⟩⟩)
    · exact ⟨.listener, List.mem_cons_self⟩
    · exact ⟨.socket c.made, ofClient inTable List.mem_cons_self⟩
    · have ends {e : Int × Object} (isEnd : e ∈ r.ends) : e ∈ s.tables.entries :=
        ofClient inTable (List.mem_cons_of_mem _ (List.mem_append_left _
          (NumberedPipes.mem_ends inside isEnd)))
      rcases number with rfl | rfl
      · exact ⟨.writeEnd r.made, ends (by simp [PipeFd.ends])⟩
      · exact ⟨.readEnd r.made, ends (by simp [PipeFd.ends])⟩
    · have ends {e : Int × Object} (isEnd : e ∈ u.ends) : e ∈ s.tables.entries :=
        ofClient inTable (List.mem_cons_of_mem _ (List.mem_append_right _
          (UserPipes.mem_ends inside isEnd)))
      rcases number with rfl | rfl
      · exact ⟨.writeEnd u.made, ends (by simp [UserPipeFd.ends, unused])⟩
      · exact ⟨.readEnd u.made, ends (by simp [UserPipeFd.ends, unused])⟩
  · rintro ⟨o, member⟩
    rcases List.mem_cons.mp member with isListener | isEntry
    · exact .inl (congrArg Prod.fst isListener)
    obtain ⟨h, holds, own⟩ := List.mem_flatMap.mp isEntry
    obtain ⟨c, inTable, rfl⟩ := List.mem_map.mp holds
    refine .inr ⟨c, inTable, ?_⟩
    rcases List.mem_cons.mp own with isSocket | isPipe
    · exact .inl (congrArg Prod.fst isSocket)
    rcases List.mem_append.mp isPipe with numbered | user
    · obtain ⟨r, inside, isEnd⟩ := List.mem_flatMap.mp numbered
      refine .inr (.inl ⟨r, inside, ?_⟩)
      simpa [PipeFd.ends, or_and_right] using (List.mem_map_of_mem (f := Prod.fst) isEnd)
    · obtain ⟨u, inside, isEnd⟩ := List.mem_flatMap.mp user
      have unused : u.isUsed = false := by
        by_contra used
        have marked : (c.id, u) ∈ s.tables.marks :=
          mem_marks.mpr ⟨c.holder, holds, rfl, inside, by simpa using used⟩
        rw [unmarked] at marked
        cases marked
      refine .inr (.inr ⟨u, inside, unused, ?_⟩)
      simpa [UserPipeFd.ends, unused] using (List.mem_map_of_mem (f := Prod.fst) isEnd)

/-- In every run of logins, lines and departures by `exit` in which every event releases what it
has opened, the open descriptors are exactly the standard ones and those the tables list, and each
of the latter is open for the client that has it.

That what is listed is open is kept by every event whose lines are careful. That what is open is
listed needs the whole condition: the files of redirections are never closed, nor is the socket of
a connection that is turned away, or a pipe of a client that leaves. -/
theorem descriptors_accounted {events : List Event} {s : Server}
    (run : Run system KeepsAccount events s) :
    Accounted s ∧ ∀ n o, 3 ≤ n → s.process.object n = some o → (n, o) ∈ s.tables.entries := by
  obtain ⟨settled, confined⟩ := run_confined run
  refine ⟨fun n => ?_, confined⟩
  rw [recorded_iff settled.unmarked]
  constructor
  · intro opened
    obtain ⟨o, found⟩ := Option.ne_none_iff_exists'.mp opened
    by_cases high : 3 ≤ n
    · exact .inr ⟨o, confined n o high found⟩
    · refine .inl ⟨?_, by omega⟩
      by_contra negative
      rw [Process.object, if_neg negative] at found
      cases found
  · rintro (⟨nonneg, below⟩ | ⟨o, entry⟩)
    · exact settled.account.standard n nonneg below
    · rw [show s.process.object n = some o from settled.account.stands (n, o) entry]
      simp

/-- A user pipe through a numbered one, read under a redirection, a numbered pipe that is
left for the next line, and a departure. -/
def thriftyLines : List Event :=
  [.accept (str "127.0.0.1") 4001, .accept (str "127.0.0.1") 4002,
    .line 4 (str "ls | cat >2\n") World.plain,
    .line 5 (str "cat <1 < notes | number\n") World.plain,
    .line 5 (str "ls |1\n") World.plain,
    .line 4 (str "exit\n") World.plain]

/-- The second client is left with its socket and its numbered pipe. -/
theorem descriptors_accounted_in_thrifty_lines : ∃ s, Run system KeepsAccount thriftyLines s ∧
    (∃ c ∈ s.clientTable, c.pipeVector ≠ []) ∧ Accounted s := by
  have plays : ((play system KeepsAccount system.start thriftyLines).map
      (fun s => s.clientTable.any (fun c => c.pipeVector ≠ []))) = some true := by decide +kernel
  obtain ⟨s, played, holds⟩ := Option.map_eq_some_iff.mp plays
  have run := Run.played thriftyLines s played
  obtain ⟨c, inTable, some_⟩ := List.any_eq_true.mp holds
  exact ⟨s, run, ⟨c, inTable, of_decide_eq_true some_⟩, (descriptors_accounted run).1⟩

/-- A client writes to a file and leaves. -/
def writtenFile : List Event :=
  [.accept (str "127.0.0.1") 4001, .line 4 (str "ls > notes\n") World.plain,
    .line 4 (str "exit\n") World.plain]

/-- The file is still open when nobody is logged in. -/
theorem written_file_stays_open : ∃ s, Run system ByExit writtenFile s ∧
    s.clientTable = [] ∧ ¬ Accounted s := by
  have plays : ((play system ByExit system.start writtenFile).map (fun s =>
      decide (s.process.object 5 ≠ none ∧ s.msock = 3 ∧ s.clientTable = []))) = some true := by
    decide +kernel
  obtain ⟨s, played, state⟩ := Option.map_eq_some_iff.mp plays
  obtain ⟨opened, msock, nobody⟩ := of_decide_eq_true state
  refine ⟨s, Run.played writtenFile s played, nobody, fun accounted => ?_⟩
  rcases (accounted 5).mp opened with ⟨-, below⟩ | isListener | ⟨c, inTable, -⟩
  · omega
  · omega
  · rw [nobody] at inTable
    cases inTable

end NetProg.SingleProc
