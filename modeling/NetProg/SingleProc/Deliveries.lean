import Mathlib.Data.List.Pairwise
import NetProg.SingleProc.Holdings
import NetProg.SingleProc.Ledger

/-!
# Delivering every user pipe once

At the head of a round `in_fd` is the socket of the client, a file that this command
has opened, a user pipe that it has taken and marked, or nothing; and the numbers
stand for what they are meant for, as long as no number is closed that has been
handed out. So a call reads a numbered pipe of its client or a pipe that was waiting
for it, and the execution erases the record.
-/

namespace NetProg.SingleProc

open Loops Outcomes Runs

variable {honest : Prop}

/-- In a list of lists without repetitions, an element is in one of them. -/
theorem eq_of_mem_flatMap {α β : Type} {l : List α} {f : α → List β}
    (distinct : (l.flatMap f).Nodup)
    {a b : α} {x : β} (first : a ∈ l) (second : b ∈ l) (inFirst : x ∈ f a) (inSecond : x ∈ f b) :
    a = b := by
  by_contra different
  have apart := (List.nodup_flatMap.mp distinct).2
  have symmetric : Std.Symm (Function.onFun List.Disjoint f) := 
    ⟨fun _ _ disjoint _ inFirst inSecond => disjoint inSecond inFirst⟩
  exact apart.forall first second different inFirst inSecond

/-- The serial number of a user pipe says which record it is, and whose. -/
theorem Account.sole {t : Tables} (account : Account honest t.process t.entries [])
    {h g : Holder} {u v : UserPipeFd} (first : h ∈ t.holders) (second : g ∈ t.holders)
    (inFirst : u ∈ h.userpipeVector) (inSecond : v ∈ g.userpipeVector) (same : u.made = v.made) :
    h = g ∧ u = v := by
  have isEnd (w : UserPipeFd) : Object.readEnd w.made ∈ w.ends.map Prod.snd := by
    rw [UserPipeFd.ends]
    split <;> simp
  have inEntries {a : Holder} {w : UserPipeFd} (inside : w ∈ a.userpipeVector) :
      Object.readEnd w.made ∈ a.entries.map Prod.snd := by
    obtain ⟨e, member, isObject⟩ := List.mem_map.mp (isEnd w)
    rw [← isObject]
    exact List.mem_map_of_mem
      (List.mem_cons_of_mem _ (List.mem_append_right _ (UserPipes.mem_ends inside member)))
  have distinct : (t.holders.flatMap (fun a => a.entries.map Prod.snd)).Nodup := by
    have whole := account.apart
    rw [List.append_nil, Tables.entries, List.map_cons, List.map_flatMap] at whole
    exact (List.nodup_cons.mp whole).2
  have holder : h = g :=
    eq_of_mem_flatMap distinct first second (inEntries inFirst) (same ▸ inEntries inSecond)
  subst holder
  have own : (h.userpipeVector.flatMap (fun w => w.ends.map Prod.snd)).Nodup := by
    have all := (List.nodup_flatMap.mp distinct).1 h first
    rw [Holder.entries, List.map_cons, List.map_append] at all
    have users := (List.nodup_append.mp (List.nodup_cons.mp all).2).2.1
    rwa [UserPipes.ends, List.map_flatMap] at users
  exact ⟨rfl, eq_of_mem_flatMap own inFirst inSecond (isEnd u) (same ▸ isEnd v)⟩

/-- Where `in_fd` comes from. -/
inductive Fed (job : Job) (f : Frame) (files : List (Int × Object)) : Prop
  | socket (number : f.inFd = job.sockfd)
  | file {serial : Nat} (member : (f.inFd, .file serial) ∈ files)
  | taken {m : Int × UserPipeFd} (member : m ∈ f.server.tables.marks)
      (listed : m.1 ∈ f.needEraseCliIds) (number : f.inFd = m.2.outFd)
      (isTarget : ∀ h ∈ f.server.tables.holders[job.cli]?, m.2.targetId = h.id)
  | absent (negative : f.inFd < 0)

/-- What a line keeps of its `in_fd`: the socket is that of its client, and a descriptor that was
set in this command is one of the above. So a call reads no pipe but one that its words have
named. -/
structure Feeds (job : Job) (f : Frame) : Prop where
  own : ∀ h ∈ f.server.tables.holders[job.cli]?, h.fd = job.sockfd
  account : ∃ files, Account False f.server.process (files ++ f.server.tables.entries) [] ∧
    (f.isFinalArgv = true ∨ f.isInRedirect = true ∨ f.isInUserpipe = true → Fed job f files)

/-- Setting the descriptors back leaves a descriptor that is one of the above. -/
theorem Feeds.initFd {job : Job} {f : Frame} (feeds : Feeds job f) : ∃ files,
    Account False (f.initFd job.sockfd).server.process
      (files ++ (f.initFd job.sockfd).server.tables.entries) [] ∧
    Fed job (f.initFd job.sockfd) files := by
  obtain ⟨files, account, fed⟩ := feeds.account
  refine ⟨files, by rwa [initFd_server], ?_⟩
  rw [Frame.initFd]
  split
  · exact .socket rfl
  · rename_i set
    refine fed (.inr ?_)
    simpa [Classical.or_iff_not_imp_left] using set

/-- A word leaves a descriptor that is one of the above. -/
theorem Reads.feeds {job : Job} {f next : Frame} {word : Str} {rest : List Str}
    (reads : Reads job f word rest (.again next))
    (spares : f.isFirstArgv = false → Spares job f word)
    (own : ∀ h ∈ f.server.tables.holders[job.cli]?, h.fd = job.sockfd)
    (held : ∃ files, Account False f.server.process (files ++ f.server.tables.entries) [] ∧
      Fed job f files) : Feeds job next := by
  obtain ⟨files, before, fed⟩ := held
  obtain ⟨more, sub, account, opened⟩ := reads.files spares before
  have registry := reads.registry
  refine ⟨fun h found => ?_, more, account, fun _ => ?_⟩
  · obtain ⟨g, was, sameFd, -⟩ := registry.record found
    rw [← sameFd]
    exact own g was
  · cases reads.input with
    | kept number _ marks erase =>
      cases fed with
      | socket isSocket => exact .socket (number.trans isSocket)
      | file member => exact .file (number ▸ sub member)
      | taken member listed isEnd isTarget =>
        refine .taken (marks ▸ member) (erase ▸ listed) (number.trans isEnd) (fun h found => ?_)
        obtain ⟨g, was, -, sameId⟩ := registry.record found
        rw [← sameId]
        exact isTarget g was
      | absent negative => exact .absent (number ▸ negative)
    | file later same =>
      rcases opened later same with negative | ⟨-, serial, member⟩
      · exact .absent negative
      · exact .file member
    | taken member listed number _ isCli isTarget =>
      refine .taken member listed number (fun h found => ?_)
      obtain ⟨g, was, -, sameId⟩ := registry.record found
      rw [holders_getElem isCli] at was
      rw [isTarget, ← sameId, ← Option.some.inj was]
      rfl

/-- What a call is given to read: the end of a numbered pipe of its client, or of a user pipe for
its client that the command has taken. A socket and a file are no ends of pipes, so that one of
the two is left. -/
theorem Fed.reads {job : Job} {f : Frame} {files : List (Int × Object)} {cli : ClientInfo}
    {p : Process} {needClosePipe : Bool} {inFd : Int} {inPipe : Option Object} {k : Nat}
    (fed : Fed job f files)
    (account : Account False f.server.process (files ++ f.server.tables.entries) [])
    (found : f.server.tables.holders[job.cli]? = some cli.holder) (own : cli.fd = job.sockfd)
    (attached : attach f cli f.server.process = (needClosePipe, inFd, inPipe, p))
    (reads : p.object inFd = some (.readEnd k)) :
    (∃ r ∈ cli.pipeVector, r.made = k) ∨
      ∃ m ∈ f.server.tables.marks, m.1 ∈ f.needEraseCliIds ∧ m.2.made = k ∧
        m.2.targetId = cli.id := by
  have stands {h : Holder} {e : Int × Object} (holds : h ∈ f.server.tables.holders)
      (isEntry : e ∈ h.entries) : f.server.process.object e.1 = some e.2 :=
    account.stands e (List.mem_append_right _
      (List.mem_cons_of_mem _ (List.mem_flatMap.mpr ⟨h, holds, isEntry⟩)))
  have member : cli.holder ∈ f.server.tables.holders := List.mem_of_getElem? found
  rcases attach_cases attached with ⟨-, rfl, rfl⟩ | ⟨r, inside, -, rfl, rfl⟩
  · cases fed with
    | socket number =>
      have socket := stands member (e := (cli.fd, .socket cli.made)) List.mem_cons_self
      rw [own, ← number, reads] at socket
      cases socket
    | file inFiles =>
      have file := account.stands _ (List.mem_append_left _ inFiles)
      rw [reads] at file
      cases file
    | @taken m marked listed number isTarget =>
      obtain ⟨g, holds, sameId, inside, used⟩ := mem_marks.mp marked
      have isEnd : (m.2.outFd, Object.readEnd m.2.made) ∈ g.entries :=
        List.mem_cons_of_mem _ (List.mem_append_right _
          (UserPipes.mem_ends inside (by simp [UserPipeFd.ends, used])))
      have taken := stands holds isEnd
      rw [← number, reads] at taken
      cases taken
      exact .inr ⟨m, marked, listed, rfl, isTarget _ found⟩
    | absent negative =>
      rw [Process.object, if_neg (by omega)] at reads
      cases reads
  · have isEnd : (r.outFd, Object.readEnd r.made) ∈ cli.holder.entries :=
      List.mem_cons_of_mem _ (List.mem_append_left _
        (NumberedPipes.mem_ends inside (by simp [PipeFd.ends])))
    rw [Process.object_closeEnd] at reads
    split at reads
    · cases reads
    · rw [stands member isEnd] at reads
      cases reads
      exact .inl ⟨r, inside, rfl⟩

/-- The call of an execution, if it comes to that: for whom, who is logged in, and what
it is given to read. -/
theorem Feeds.calls {job : Job} {f : Frame} (feeds : Feeds job f) (final : f.isFinalArgv = true) :
    SingleProc.calls job f = [] ∨
    ∃ h call, f.server.tables.holders[job.cli]? = some h ∧
      SingleProc.calls job f =
        [.called call h.made (f.server.tables.holders.map Holder.made)] ∧
      ∀ k, call.inObject = some (.readEnd k) → (∃ r ∈ h.pipeVector, r.made = k) ∨
        ∃ m ∈ f.server.tables.marks, m.1 ∈ f.needEraseCliIds ∧ m.2.made = k ∧
          m.2.targetId = h.id := by
  obtain ⟨files, account, fed⟩ := feeds.account
  cases announces : announce job f with
  | error failure => exact .inl (by simp [SingleProc.calls, announces])
  | ok announced =>
    have told : announced.tables = f.server.tables := (announce_keeps job f).returned announces
    have process : announced.process = f.server.process := congrArg Tables.process told
    cases isCli : announced.clientTable[job.cli]? with
    | none => exact .inl (by simp [SingleProc.calls, announces, isCli])
    | some cli =>
      have found : f.server.tables.holders[job.cli]? = some cli.holder :=
        told ▸ holders_getElem isCli
      have serials : announced.clientTable.map ClientInfo.made =
          f.server.tables.holders.map Holder.made := by
        rw [← told]
        simp [Server.tables, ClientInfo.holder, Function.comp_def]
      generalize attached : attach f cli announced.process = result
      obtain ⟨needClosePipe, inFd, inPipe, p⟩ := result
      refine .inr ⟨cli.holder, callOf job f (announced.withProcess p) cli inFd, found, ?_, ?_⟩
      · simp [SingleProc.calls, announces, isCli, attached, serials, ClientInfo.holder]
      · rw [process] at attached
        exact fun k reads =>
          (fed (.inl final)).reads account found (feeds.own _ found) attached reads

/-- Such a call fits. -/
theorem Ledger.fits {log : List Fact} {t : Tables} {files : List (Int × Object)} {i : Nat}
    {h : Holder} {ids : List Int} {call : Call} (ledger : Ledger log t) (agree : Agree t)
    (account : Account honest t.process (files ++ t.entries) []) (found : t.holders[i]? = some h)
    (reads : ∀ k, call.inObject = some (.readEnd k) → (∃ r ∈ h.pipeVector, r.made = k) ∨
      ∃ m ∈ t.marks, m.1 ∈ ids ∧ m.2.made = k ∧ m.2.targetId = h.id) :
    Fits log t call h.made (t.holders.map Holder.made) where
  reads k isEnd := by
    have member : h ∈ t.holders := List.mem_of_getElem? found
    rcases reads k isEnd with ⟨r, inside, rfl⟩ | ⟨m, marked, -, rfl, isTarget⟩
    · have inEntries : (r.outFd, Object.readEnd r.made) ∈ h.entries :=
        List.mem_cons_of_mem _ (List.mem_append_left _
          (NumberedPipes.mem_ends inside (by simp [PipeFd.ends])))
      have before : (Object.readEnd r.made).Before t.process.made :=
        account.known (r.outFd, .readEnd r.made) (List.mem_append_left _ (List.mem_append_right _
          (List.mem_cons_of_mem _ (List.mem_flatMap.mpr ⟨h, member, inEntries⟩))))
      exact ⟨before, fun s d fact => absurd fact (ledger.numbered h member r inside s d)⟩
    · obtain ⟨g, holds, -, inside, -⟩ := mem_marks.mp marked
      obtain ⟨aim, there, isAim, fact⟩ := ledger.entered g holds m.2 inside
      refine ⟨ledger.known _ _ _ fact, fun s d other => ?_⟩
      obtain ⟨rfl, rfl⟩ := ledger.single _ _ _ _ _ fact other
      have same : aim = h :=
        List.inj_on_of_nodup_map agree.distinct there member (isAim.trans isTarget)
      rw [same]
      exact ⟨rfl, List.mem_map_of_mem holds, ledger.waiting g holds m.2 inside⟩

/-- After the execution no record has what the call has read. -/
theorem Ledger.gone {log : List Fact} {t u : Tables} {h : Holder} {ids : List Int} {call : Call}
    (ledger : Ledger log t) (account : Account honest t.process t.entries [])
    (member : h ∈ t.holders) (remains : Remains t u)
    (erased : ∀ m ∈ u.marks, m ∈ t.marks ∧ m.1 ∉ ids)
    (reads : ∀ k, call.inObject = some (.readEnd k) → (∃ r ∈ h.pipeVector, r.made = k) ∨
      ∃ m ∈ t.marks, m.1 ∈ ids ∧ m.2.made = k ∧ m.2.targetId = h.id) (k : Nat)
    (isEnd : call.inObject = some (.readEnd k)) :
    ∀ g ∈ u.holders, ∀ v ∈ g.userpipeVector, v.made ≠ k := by
  intro g holds v inside made
  obtain ⟨f, was, sameId, -, users, -⟩ := remains.record g holds
  obtain ⟨w, before, sameMade, -, stillUsed⟩ := users v inside
  rcases reads k isEnd with ⟨r, numbered, isMade⟩ | ⟨m, marked, listed, isMade, -⟩
  · obtain ⟨aim, -, -, fact⟩ := ledger.entered f was w before
    rw [sameMade, made, ← isMade] at fact
    exact ledger.numbered h member r numbered _ _ fact
  · obtain ⟨e, inTable, isId, inVector, used⟩ := mem_marks.mp marked
    obtain ⟨rfl, rfl⟩ := Account.sole account inTable was inVector before
      (isMade.trans (made.symm.trans sameMade.symm))
    have again : (g.id, v) ∈ u.marks := mem_marks.mpr ⟨g, holds, rfl, inside, stillUsed used⟩
    exact (erased _ again).2 (by rwa [← sameId, isId])

/-- A pipe operator leaves the pipes, and one that it adds is new. -/
theorem pipeTo_remains {f : Frame} {iter : Nat} {isError : Bool} {pipeNum : Int}
    {cli : ClientInfo} {can : Bool} {created : Int × List PipeFd × Process} {rest : List Str}
    (isCli : f.server.clientTable[iter]? = some cli)
    (creates : NumberedPipes.createPipe can f.server.process cli.pipeVector pipeNum =
      some created) : Remains f.server.tables (f.pipeTo iter isError created rest).server.tables := by
  rw [pipeTo_tables]
  rcases NumberedPipes.createPipe_cases creates with ⟨_, _, _, _, extended, after⟩ |
    ⟨_, _, _, extended, after⟩
  · refine .pipes (holders_getElem isCli) (Nat.le_of_eq (by rw [after]; rfl)) (fun r inside => ?_)
    rw [extended] at inside
    exact .inl ⟨r, inside, rfl⟩
  · refine .pipes (holders_getElem isCli) (by rw [after]; exact Nat.le_succ _)
      (fun r inside => ?_)
    rw [extended] at inside
    rcases List.mem_append.mp inside with old | new
    · exact .inl ⟨r, old, rfl⟩
    · rw [List.mem_singleton.mp new]
      exact .inr (Nat.le_refl _)

/-- A user pipe that is taken stays in its record, marked. -/
theorem receiveFrom_remains {f : Frame} {iter : Nat} {id : Int} {sourceCli : ClientInfo}
    {taken : UserPipeFd × List UserPipeFd} {rest : List Str}
    (isSource : f.server.clientTable[iter]? = some sourceCli)
    (takes : UserPipes.markUserPipe sourceCli.id id sourceCli.userpipeVector = some taken) :
    Remains f.server.tables (f.receiveFrom iter sourceCli.id taken rest).server.tables := by
  obtain ⟨before, after, vector, result, -⟩ := UserPipes.markUserPipe_split takes
  rw [receiveFrom_tables]
  refine .userPipes (holders_getElem isSource) (Nat.le_of_eq (Process.made_closeEnd _ _ _).symm)
    (fun v inside => ?_)
  rw [show sourceCli.holder.userpipeVector = before ++ taken.1 :: after from vector]
  rw [result] at inside
  rcases List.mem_append.mp inside with early | late
  · exact ⟨v, List.mem_append_left _ early, rfl, rfl, fun used => used⟩
  · rcases List.mem_cons.mp late with rfl | later
    · exact ⟨taken.1, List.mem_append_right _ List.mem_cons_self, rfl, rfl, fun _ => rfl⟩
    · exact ⟨v, List.mem_append_right _ (List.mem_cons_of_mem _ later), rfl, rfl,
        fun used => used⟩

/-- A word creates no user pipe and leaves the pipes, or it creates one. -/
theorem Reads.creates {job : Job} {f next : Frame} {word : Str} {rest : List Str}
    (read : readWord job f word rest = .ok (.again next)) (agree : Agree f.server.tables) :
    (SingleProc.creates job f word rest = [] ∧ Remains f.server.tables next.server.tables) ∨
    ∃ h g new p, f.server.tables.holders[job.cli]? = some h ∧ g ∈ f.server.tables.holders ∧
      g.id = new.targetId ∧ new.made = f.server.process.made ∧
      p.made = f.server.process.made + 1 ∧
      SingleProc.creates job f word rest = [.made f.server.process.made h.made g.made] ∧
      next.server.tables =
        f.server.tables.withUserPipes job.cli (h.userpipeVector ++ [new]) p := by
  have reads := readWord_reads read
  have sameServer := initFd_server f job.sockfd
  have sameFirst := initFd_isFirstArgv f job.sockfd
  generalize f.initFd job.sockfd = g at reads sameServer sameFirst
  rw [← sameServer] at agree ⊢
  have none (differs : kind word ≠ .userOut) : SingleProc.creates job f word rest = [] := by
    simp [SingleProc.creates, differs]
  cases reads with
  | prog first =>
    refine .inl ⟨?_, .refl _⟩
    simp [SingleProc.creates, ← sameFirst, first]
  | argument later same => exact .inl ⟨none (by simp [same]), .refl _⟩
  | @pipe isError pipeNum cli created later same number isCli creates =>
    exact .inl ⟨none (by cases isError <;> simp [same]), pipeTo_remains isCli creates⟩
  | redirectOut later same =>
    exact .inl ⟨none (by simp [same]), .process _ (made_openAs _ _)⟩
  | redirectIn later same =>
    exact .inl ⟨none (by simp [same]), .process _ (made_openAs _ _)⟩
  | @userOut targetId mark cli later same number looked marked isCli fresh =>
    obtain ⟨target, isTarget⟩ := getClientByID_found (agree.marked looked marked)
    refine .inr ⟨cli.holder, target.holder, ⟨g.server.process.pipe.2.1, g.server.process.pipe.1,
      cli.id, targetId, false, g.server.process.made⟩, g.server.process.pipe.2.2,
      holders_getElem isCli, List.mem_of_getElem? (holders_getElem isTarget),
      getClientByID_id isTarget, rfl, rfl, ?_, ?_⟩
    · simp [SingleProc.creates, ← sameFirst, ← sameServer, later, same, number, read, isCli,
        isTarget, ClientInfo.holder]
    · rw [sendTo_tables, UserPipes.createUserPipe_eq]
      rfl
  | userIn later same number looked marked isSource isCli takes =>
    exact .inl ⟨none (by simp [same]), receiveFrom_remains isSource takes⟩

/-- What a line keeps between its rounds: what it owns, the ids in its user pipes, its `in_fd`,
and the ledger of the pipes that were made and read so far. -/
structure Traced (log : List Fact) (job : Job) (f : Frame) : Prop where
  owns : Owns False job.cli f
  named : Named f.server.tables.holders
  feeds : Feeds job f
  ledger : Ledger log f.server.tables

namespace Traced

variable {log : List Fact} {job : Job} {f next : Frame}

/-- Whatever a round comes to, what it adds is delivered well. -/
theorem delivered (traced : Traced log job f) (failure : Fault × Server)
    (failed : round job f = .error failure) : Delivered (log ++ facts job f) := by
  rw [facts]
  split
  · rename_i final
    obtain ⟨files, account, -⟩ := traced.feeds.account
    rcases traced.feeds.calls final with none | ⟨h, call, found, isCall, reads⟩
    · rw [none, List.append_nil]
      exact traced.ledger.delivered
    · rw [isCall]
      exact traced.ledger.delivers (traced.ledger.fits traced.owns.agree account found reads)
  · rename_i notFinal
    rw [SingleProc.round, if_neg notFinal] at failed
    split
    · rw [List.append_nil]
      exact traced.ledger.delivered
    · rename_i word rest words
      rw [words] at failed
      have none : SingleProc.creates job f word rest = [] := by
        have unread : readWord job f word rest = .error failure := failed
        simp [SingleProc.creates, unread]
      rw [none, List.append_nil]
      exact traced.ledger.delivered

/-- An execution keeps the ledger with its call. -/
theorem execute (traced : Traced log job f) (final : f.isFinalArgv = true)
    (executes : Executes job f next) (done : Done False job.cli f next) :
    Ledger (log ++ facts job f) next.server.tables := by
  have remains := executes.remains
  have named := executes.named traced.named
  obtain ⟨files, account, -⟩ := traced.feeds.account
  rw [facts, if_pos final]
  rcases traced.feeds.calls final with none | ⟨h, call, found, isCall, reads⟩
  · rw [none, List.append_nil]
    exact traced.ledger.remains traced.owns.agree named remains
  · rw [isCall]
    exact traced.ledger.called traced.owns.agree named remains
      (traced.ledger.fits traced.owns.agree account found reads)
      (traced.ledger.gone traced.owns.relied.account (List.mem_of_getElem? found) remains
        done.erased reads)

/-- A word keeps the ledger with the pipe it creates. -/
theorem read {word : Str} {rest : List Str} (traced : Traced log job f)
    (read : readWord job f word rest = .ok (.again next))
    (named : Named next.server.tables.holders) :
    Ledger (log ++ SingleProc.creates job f word rest) next.server.tables := by
  rcases Reads.creates read traced.owns.agree with
    ⟨none, remains⟩ | ⟨h, g, new, p, found, holds, isTarget, number, made, creates, tables⟩
  · rw [none, List.append_nil]
    exact traced.ledger.remains traced.owns.agree named remains
  · rw [creates, tables]
    refine traced.ledger.creates found holds isTarget number made (fun a member r inside => ?_)
    have inEntries : (r.outFd, Object.readEnd r.made) ∈ a.entries :=
      List.mem_cons_of_mem _ (List.mem_append_left _
        (NumberedPipes.mem_ends inside (by simp [PipeFd.ends])))
    exact traced.owns.relied.account.known (r.outFd, .readEnd r.made)
      (List.mem_append_left _
        (List.mem_cons_of_mem _ (List.mem_flatMap.mpr ⟨a, member, inEntries⟩)))

/-- A round that takes no number that has been handed out keeps all this, with the facts that it
adds. A `>t` adds a pipe that was made, and an execution the call that reads one; also where the
round fails, what was added is delivered. -/
theorem round (traced : Traced log job f) (spares : SparesNext job f) :
    Ends (SingleProc.round job f) (Round.Holds (Traced (log ++ facts job f) job)
      (fun result => Relied False result.1.tables ∧ Named result.1.tables.holders ∧
        Ledger (log ++ facts job f) result.1.tables))
      (fun _ => Delivered (log ++ facts job f)) := by
  have kept := traced.owns.round (fun impossible => impossible.elim) spares
  cases outcome : SingleProc.round job f with
  | error failure => exact traced.delivered failure outcome
  | ok step =>
    rw [outcome] at kept
    have named := round_named traced.owns.agree traced.named outcome
    have registry := round_registry outcome
    rw [SingleProc.round] at outcome
    split at outcome
    · rename_i final
      obtain ⟨next, same, done⟩ := traced.owns.execute_done.returned outcome
      obtain ⟨_, alsoSame, executes⟩ := execute_executes outcome
      subst same
      cases alsoSame
      refine ⟨kept, named, ⟨fun h found => ?_, [], done.account, ?_⟩,
        traced.execute final executes done⟩
      · obtain ⟨g, was, sameFd, -⟩ := registry.record found
        rw [← sameFd]
        exact traced.feeds.own g was
      · obtain ⟨_, _, _, _, _, _, _, _, _, _, -, -, -, -, -, -, rfl⟩ := executes.steps
        simp
    · rename_i notFinal
      have added (word : Str) (rest : List Str) (words : f.cmds = word :: rest) :
          facts job f = SingleProc.creates job f word rest := by
        rw [facts, if_neg notFinal, words]
      split at outcome
      · rename_i words
        cases outcome
        have none : facts job f = [] := by rw [facts, if_neg notFinal, words]
        rw [none, List.append_nil]
        exact ⟨traced.owns.relied, traced.named, traced.ledger⟩
      · rename_i word rest words
        rw [added word rest words]
        have reads := readWord_reads outcome
        cases step with
        | again next =>
          refine ⟨kept, named, ?_, traced.read outcome named⟩
          refine reads.feeds ?_ ?_ traced.feeds.initFd
          · rw [initFd_isFirstArgv]
            intro later
            have spared := spares (by simpa using notFinal) later word (by simp [words])
            rwa [Spares, ← initFd_server f job.sockfd] at spared
          · rw [initFd_server]
            exact traced.feeds.own
        | leave result =>
          obtain ⟨server, status⟩ := result
          have none : SingleProc.creates job f word rest = [] := by
            simp [SingleProc.creates, outcome]
          have tables : server.tables = f.server.tables :=
            reads.leave_tables.trans (congrArg Server.tables (initFd_server f job.sockfd))
          rw [none, List.append_nil]
          refine ⟨kept, named, ?_⟩
          rw [tables]
          exact traced.ledger

end Traced

/-- A line that takes no number that has been handed out keeps the ledger, by the rule for a line
whose invariant speaks of what its rounds have added. -/
theorem Ledger.clientExec {log : List Fact} {world : World} {s : Server} {iter : Nat} {cliMsg : Str}
    (ledger : Ledger log s.tables) (relied : Relied False s.tables) (named : Named s.tables.holders)
    (spares : ∀ v ∈ visited world s iter cliMsg, SparesNext v.1 v.2) :
    Ends (clientExec world s iter cliMsg)
      (fun result => Relied False result.1.tables ∧ Named result.1.tables.holders ∧
        Ledger (log ++ (visited world s iter cliMsg).flatMap (fun v => facts v.1 v.2))
          result.1.tables)
      (fun _ => Delivered
        (log ++ (visited world s iter cliMsg).flatMap (fun v => facts v.1 v.2))) := by
  refine clientExec_traces facts Traced SparesNext
    (fun log s => Relied False s.tables ∧ Named s.tables.holders ∧ Ledger log s.tables) Delivered
    ?_ log ledger.delivered ?_ ?_ ?_ spares
  · intro job f notFinal empty
    simp [facts, notFinal, empty]
  · intro cli found
    have begun := relied.begun cli
    have same : (beginLine s cli).process.made = s.process.made :=
      (Process.made_dup2 _ _ _).trans (Process.made_dup2 _ _ _)
    have kept : Ledger log (beginLine s cli).tables :=
      ledger.remains relied.agree named (.process _ (Nat.le_of_eq same.symm))
    refine ⟨⟨begun, named, kept⟩, begun.owns found cli.fd _, named, ⟨fun h isHere => ?_, [],
      begun.account, fun set => by simp [Frame.initial] at set⟩, kept⟩
    have isCli : s.tables.holders[iter]? = some h := isHere
    rw [holders_getElem found] at isCli
    cases isCli
    rfl
  · exact fun log job f _ traced clear => traced.round clear
  · exact fun log ended fd text kept => kept

/-- The runs whose events hit no number that has been handed out. -/
def SparesNumbers (s : Server) (event : Event) : Prop := ByExit s event ∧ Sparing s event

instance (s : Server) (event : Event) : Decidable (SparesNumbers s event) :=
  inferInstanceAs (Decidable (_ ∧ _))

/-- Nothing is made while the pipes of a client that leaves are closed and its wait is over. -/
theorem made_eraseClientVector (id : Int) (clients : List ClientInfo) (p : Process) :
    (eraseClientVector id clients p).2.made = p.made := by
  induction clients generalizing p with
  | nil => rfl
  | cons c rest ih =>
    rw [eraseClientVector]
    exact (ih _).trans (UserPipes.made_eraseTarget id c.userpipeVector p)

theorem made_restore (p : Process) : (restore p).made = p.made := by
  simp [restore]

/-- Such an event keeps the ledger. -/
theorem Ledger.moves {log : List Fact} {s : Server} {event : Event} {u : Tables}
    (ledger : Ledger log s.tables) (relied : Relied False s.tables) (named : Named s.tables.holders)
    (spares : SparesNumbers s event) (moves : Moves s event u) :
    Ledger (log ++ factsOf s event) u := by
  have after := named.moves relied.agree moves
  cases moves with
  | refused =>
    rw [factsOf, List.append_nil]
    exact ledger.remains relied.agree after (.process _ (Nat.le_succ _))
  | enters =>
    rw [factsOf, List.append_nil]
    exact ledger.enter _ _
  | stays execed => exact ((ledger.clientExec relied named spares.2.1).returned execed).2.2
  | exits execed found isFd =>
    obtain ⟨kept, -, ended⟩ := (ledger.clientExec relied named spares.2.1).returned execed
    refine ended.remains kept.agree after (.depart _ _ _ (Nat.le_of_eq ?_))
    rw [made_restore, Process.made_close, made_eraseClientVector]
    rfl
  | closes => exact spares.1.elim

/-- Nobody has logged in and nothing has happened. -/
theorem Ledger.initial : Ledger [] Server.initial.tables where
  delivered := by constructor <;> simp
  single := by simp
  known := by simp
  unheard _ _ := rfl
  entered := by simp [Server.tables, Server.initial]
  waiting := by simp
  numbered := by simp

/-- In every run of such events the ledger agrees with the tables. What is gathered from the
events is the log, and a departure removes records and adds nothing to it. -/
theorem run_ledger {events : List Event} {s : Server} (run : Run system SparesNumbers events s) :
    Relied False s.tables ∧ Named s.tables.holders ∧
      Ledger (gather system factsOf system.start events) s.tables := by
  refine run.logged factsOf
    (fun log s => Relied False s.tables ∧ Named s.tables.holders ∧ Ledger log s.tables)
    ⟨Settled.initial.relied, ?_, Ledger.initial⟩ ?_
  · constructor <;> simp [system, Server.tables, Server.initial]
  · rintro log state event after ⟨relied, named, ledger⟩ _ spares served
    have moves := serve_moves relied.agree spares.1.closesOwnId served
    exact ⟨relied.moves spares.2 moves, named.moves relied.agree moves,
      ledger.moves relied named spares moves⟩

/-- In every run of logins, lines and departures by `exit` in which no number is closed that has
been handed out, every user pipe is read by at most one call, made for the client it was created
for while the creating client is logged in; an event that fails does not change that.

The log of a run tells which pipes were made, by whom and for whom, and which calls read them,
clients and pipes by serial numbers. What the tables still list was made and is not read yet: this
ledger is kept by every round of every line. -/
theorem user_pipes_delivered_once {events : List Event} {s : Server}
    (run : Run system SparesNumbers events s) :
    Delivered (gather system factsOf system.start events) ∧
    ∀ event, offers s event → SparesNumbers s event →
      Delivered (gather system factsOf system.start (events ++ [event])) := by
  obtain ⟨relied, named, ledger⟩ := run_ledger run
  refine ⟨ledger.delivered, fun event _ spares => ?_⟩
  have added : gather system factsOf s [event] = factsOf s event := by
    rw [gather]
    cases system.serve s event <;> simp [gather]
  rw [run.gather_append, added]
  cases event with
  | accept => simpa [factsOf] using ledger.delivered
  | closed => exact spares.1.elim
  | line fd chunk world =>
    have ended := ledger.clientExec relied named spares.2.1
    cases ran : clientExec world s (s.getClientByFd fd) (cliMsg chunk) with
    | error failure => exact ended.raised ran
    | ok result => exact (ended.returned ran).2.2.delivered

/-- Two pipes are created and read in the exchange. -/
theorem user_pipes_delivered_once_in_exchange : ∃ s, Run system SparesNumbers exchange s ∧
    (∃ k, ∃ fact ∈ gather system factsOf system.start exchange, fact.reads k = true) ∧
    Delivered (gather system factsOf system.start exchange) := by
  have plays : ((play system SparesNumbers system.start exchange).map (fun _ =>
      (gather system factsOf system.start exchange).any (·.reads 2))) = some true := by
    decide +kernel
  obtain ⟨s, played, isRead⟩ := Option.map_eq_some_iff.mp plays
  have run := Run.played exchange s played
  exact ⟨s, run, ⟨2, List.any_eq_true.mp isRead⟩, (user_pipes_delivered_once run).1⟩

/-- The second client takes a pipe in a line that ends in a user-pipe error; the third
one's pipe gets the number of the closed write end for its read end, and loses it when
the second client takes its pipe again. The next pipe gets it, from the first client to
the third, and the second client reads by the number the record still has. -/
def crossed : List Event :=
  [.accept (str "127.0.0.1") 4001, .accept (str "127.0.0.1") 4002, .accept (str "127.0.0.1") 4003,
    .line 4 (str "ls >2\n") World.plain,
    .line 5 (str "cat <1 >9\n") World.plain,
    .line 6 (str "ls >2\n") World.plain,
    .line 5 (str "cat <1\n") World.plain,
    .accept (str "127.0.0.1") 4004,
    .line 4 (str "ls >3\n") World.plain,
    .line 5 (str "cat <3\n") World.plain]

/-- `ExecCmd` is called with the read end of this pipe for another client. -/
def Fact.strays (serial target : Nat) : Fact → Bool
  | .made _ _ _ => false
  | .called call client _ => call.inObject = some (.readEnd serial) && client ≠ target

/-- A pipe for the third client is read for the second. -/
theorem crossed_pipe_reaches_another : ∃ s, Run system ByExit crossed s ∧
    ¬ Delivered (gather system factsOf system.start crossed) := by
  have plays : ((play system ByExit system.start crossed).map (fun _ =>
      decide (Fact.made 6 0 2 ∈ gather system factsOf system.start crossed) &&
        (gather system factsOf system.start crossed).any (·.strays 6 2))) = some true := by
    decide +kernel
  obtain ⟨s, played, both⟩ := Option.map_eq_some_iff.mp plays
  refine ⟨s, Run.played crossed s played, fun delivered => ?_⟩
  obtain ⟨isMade, strays⟩ := Bool.and_eq_true_iff.mp both
  obtain ⟨fact, member, astray⟩ := List.any_eq_true.mp strays
  cases fact with
  | made => cases astray
  | called call client present =>
    obtain ⟨reads, other⟩ := Bool.and_eq_true_iff.mp astray
    have aimed := delivered.aimed 6 0 2 call client present (of_decide_eq_true isMade) member
      (of_decide_eq_true reads)
    exact of_decide_eq_true other aimed.1

end NetProg.SingleProc
