import NetProg.SingleProc.Ownership
import NetProg.SingleProc.UserPipeIds

/-!
# What user pipes are delivered to

`CreateUserPipe` makes a pipe for the client that has the target's id at that
moment, and `ExecCmd` reads whatever its `in_fd` stands for. Both are recorded
here with the serial numbers of the clients, since ids are handed out again.

A pipe that has been created and not been read lies in exactly one record, and a
command that reads it erases the record before anything else happens. What can
go wrong is the number in the record: a line that ends in a user-pipe error leaves
the pipe marked and the number of its write end free, and if that number has been
handed out when it is closed again, some other record holds the number of a pipe
that is not its own.
-/

namespace NetProg.SingleProc

open Loops Outcomes Runs

/-- What concerns user pipes: one is created from a client for a client, or `ExecCmd` is called
for a client while others are logged in. Pipes and clients are serial numbers here. -/
inductive Fact where
  | made (serial source target : Nat)
  | called (call : Call) (client : Nat) (present : List Nat)
  deriving DecidableEq

/-- `ExecCmd` is called with the read end of this pipe as its `in_fd`. -/
def Fact.reads (serial : Nat) : Fact → Bool
  | .made _ _ _ => false
  | .called call _ _ => call.inObject = some (.readEnd serial)

/-- The call of an execution, if it comes to that. -/
def calls (job : Job) (f : Frame) : List Fact :=
  match announce job f with
  | .error _ => []
  | .ok announced =>
    match announced.clientTable[job.cli]? with
    | none => []
    | some cli =>
      let (_, inFd, _, p) := attach f cli announced.process
      [.called (callOf job f (announced.withProcess p) cli inFd) cli.made
        (announced.clientTable.map ClientInfo.made)]

/-- The pipe that a word creates, if it does. -/
def creates (job : Job) (f : Frame) (word : Str) (rest : List Str) : List Fact :=
  match f.isFirstArgv, kind word, UserPipes.userNum word, readWord job f word rest with
  | false, .userOut, some targetId, .ok (.again _) =>
    match f.server.clientTable[job.cli]?,
      f.server.clientTable[f.server.getClientByID targetId]? with
    | some cli, some target => [.made f.server.process.made cli.made target.made]
    | _, _ => []
  | _, _, _, _ => []

/-- What a round of the command loop adds. -/
def facts (job : Job) (f : Frame) : List Fact :=
  if f.isFinalArgv then calls job f
  else
    match f.cmds with
    | [] => []
    | word :: rest => creates job f word rest

/-- What an event adds, in the order it happens. -/
def factsOf (s : Server) : Event → List Fact
  | .line fd chunk world =>
    (visited world s (s.getClientByFd fd) (cliMsg chunk)).flatMap (fun v => facts v.1 v.2)
  | .accept _ _ => []
  | .closed _ => []

/-- Every pipe that is created is read by at most one call, and a call that reads it is one for
the client it was created for, with the creating client logged in. It is a property of the log
alone. -/
structure Delivered (log : List Fact) : Prop where
  once : ∀ k s d, .made k s d ∈ log → log.countP (·.reads k) ≤ 1
  aimed : ∀ k s d call client present, .made k s d ∈ log →
    .called call client present ∈ log → call.inObject = some (.readEnd k) →
      client = d ∧ s ∈ present

/-- Clients and pipes that are left of the tables: marked pipes stay marked, and numbered pipes
may be new. Most of what happens can only take something away from a ledger, and this says how. -/
structure Remains (t u : Tables) : Prop where
  made : t.process.made ≤ u.process.made
  record : ∀ g ∈ u.holders, ∃ h ∈ t.holders, h.id = g.id ∧ h.made = g.made ∧
    (∀ v ∈ g.userpipeVector, ∃ w ∈ h.userpipeVector,
      w.made = v.made ∧ w.targetId = v.targetId ∧ (w.isUsed = true → v.isUsed = true)) ∧
    ∀ r ∈ g.pipeVector, (∃ q ∈ h.pipeVector, q.made = r.made) ∨ t.process.made ≤ r.made

namespace Remains

theorem process (t : Tables) {p : Process} (made : t.process.made ≤ p.made) :
    Remains t { t with process := p } where
  made := made
  record g member := ⟨g, member, rfl, rfl, fun v inside => ⟨v, inside, rfl, rfl, fun used => used⟩,
    fun r inside => .inl ⟨r, inside, rfl⟩⟩

theorem refl (t : Tables) : Remains t t := process t (Nat.le_refl _)

theorem trans {t u v : Tables} (first : Remains t u) (second : Remains u v) : Remains t v where
  made := Nat.le_trans first.made second.made
  record g member := by
    obtain ⟨f, inMiddle, sameId, sameMade, users, pipes⟩ := second.record g member
    obtain ⟨h, inFirst, alsoId, alsoMade, earlierUsers, earlierPipes⟩ := first.record f inMiddle
    refine ⟨h, inFirst, alsoId.trans sameId, alsoMade.trans sameMade, ?_, ?_⟩
    · intro x inside
      obtain ⟨y, before, made, target, used⟩ := users x inside
      obtain ⟨z, earlier, alsoMade, alsoTarget, alsoUsed⟩ := earlierUsers y before
      exact ⟨z, earlier, alsoMade.trans made, alsoTarget.trans target,
        fun was => used (alsoUsed was)⟩
    · intro r inside
      rcases pipes r inside with ⟨q, before, made⟩ | fresh
      · rcases earlierPipes q before with ⟨o, earlier, alsoMade⟩ | fresh
        · exact .inl ⟨o, earlier, alsoMade.trans made⟩
        · exact .inr (made ▸ fresh)
      · exact .inr (Nat.le_trans first.made fresh)

/-- Other numbered pipes behind an iterator. -/
theorem pipes {t : Tables} {i : Nat} {h : Holder} (found : t.holders[i]? = some h)
    {pipeVector : List PipeFd} {p : Process} (made : t.process.made ≤ p.made)
    (known : ∀ r ∈ pipeVector, (∃ q ∈ h.pipeVector, q.made = r.made) ∨ t.process.made ≤ r.made) :
    Remains t (t.withPipes i pipeVector p) where
  made := made
  record g member := by
    rcases mem_modify found member with rfl | old
    · exact ⟨h, List.mem_of_getElem? found, rfl, rfl,
        fun v inside => ⟨v, inside, rfl, rfl, fun used => used⟩, known⟩
    · exact (refl t).record g old

/-- Other user pipes behind an iterator. -/
theorem userPipes {t : Tables} {i : Nat} {h : Holder} (found : t.holders[i]? = some h)
    {userpipeVector : List UserPipeFd} {p : Process} (made : t.process.made ≤ p.made)
    (known : ∀ v ∈ userpipeVector, ∃ w ∈ h.userpipeVector,
      w.made = v.made ∧ w.targetId = v.targetId ∧ (w.isUsed = true → v.isUsed = true)) :
    Remains t (t.withUserPipes i userpipeVector p) where
  made := made
  record g member := by
    rcases mem_modify found member with rfl | old
    · exact ⟨h, List.mem_of_getElem? found, rfl, rfl, known, fun r inside => .inl ⟨r, inside, rfl⟩⟩
    · exact (refl t).record g old

/-- A departure leaves some of the clients and some of their user pipes. -/
theorem depart (t : Tables) (id fd : Int) {p : Process} (made : t.process.made ≤ p.made) :
    Remains t (t.depart id fd p) where
  made := made
  record g member := by
    obtain ⟨h, kept, rfl⟩ := List.mem_map.mp member
    refine ⟨h, List.mem_of_mem_filter kept, rfl, rfl, fun v inside => ?_,
      fun r inside => .inl ⟨r, inside, rfl⟩⟩
    exact ⟨v, List.mem_of_mem_filter inside, rfl, rfl, fun used => used⟩

end Remains

/-- Erasing the used pipes of several clients leaves some of the pipes. -/
theorem eraseUsed_remains {ids : List Int} {s after : Server}
    (erased : ids.foldlM eraseUsed s = .ok after) : Remains s.tables after.tables := by
  refine eraseUsed_induction (fun u => Remains s.tables u.tables) (.refl _) ?_ erased
  intro u candidate iter remains found
  refine remains.trans ?_
  rw [tables_userpipeVector]
  refine .userPipes (holders_getElem found) (Nat.le_of_eq ?_) (fun v inside => ?_)
  · exact (UserPipes.made_eraseUserPipeVector candidate.userpipeVector u.process).symm
  · rw [UserPipes.eraseUserPipeVector_fst] at inside
    exact ⟨v, List.mem_of_mem_filter inside, rfl, rfl, fun used => used⟩

/-- So does an execution. -/
theorem Executes.remains {job : Job} {f next : Frame} (executes : Executes job f next) :
    Remains f.server.tables next.server.tables := by
  obtain ⟨announced, cli, needClosePipe, inFd, inPipe, p, ran, status, detached, erased, announces,
    -, attaches, built, detaches, erases, rfl⟩ := executes.steps
  have told : announced.tables = f.server.tables := (announce_keeps job f).returned announces
  have kept : ran.tables = _ := (builtin_keeps _ _ _ _).returned built
  have made : f.server.tables.process.made ≤ p.made := by
    rw [← told]
    rcases attach_cases attaches with ⟨-, -, rfl⟩ | ⟨r, -, -, -, rfl⟩ <;> simp [Server.tables]
  obtain ⟨found, isCli, rfl⟩ := detach_eq_ok detaches
  refine Remains.trans ?_ (eraseUsed_remains erases)
  have first : Remains f.server.tables ran.tables := by
    rw [kept, tables_logged, tables_withProcess, told]
    exact .process _ made
  refine first.trans ?_
  rw [tables_pipeVector]
  refine .pipes (holders_getElem isCli) ?_ (fun r inside => .inl ?_)
  · split <;> simp [Server.tables]
  · rw [NumberedPipes.erasePipeVector_fst] at inside
    obtain ⟨q, kept, rfl⟩ := List.mem_map.mp inside
    exact ⟨q, List.mem_of_mem_filter kept, rfl⟩

section Log

variable {log : List Fact} {k s d : Nat}

/-- A call creates no pipe. -/
theorem made_of_called {call : Call} {client : Nat} {present : List Nat}
    (fact : .made k s d ∈ log ++ [.called call client present]) : .made k s d ∈ log := by
  rcases List.mem_append.mp fact with old | new
  · exact old
  · cases List.mem_singleton.mp new

/-- One more pipe that is created. -/
theorem made_of_made {serial source target : Nat}
    (fact : .made k s d ∈ log ++ [.made serial source target]) :
    .made k s d ∈ log ∨ k = serial ∧ s = source ∧ d = target := by
  rcases List.mem_append.mp fact with old | new
  · exact .inl old
  · cases List.mem_singleton.mp new
    exact .inr ⟨rfl, rfl, rfl⟩

/-- Creating a pipe is not reading one. -/
theorem called_of_made {serial source target : Nat} {call : Call} {client : Nat}
    {present : List Nat}
    (fact : .called call client present ∈ log ++ [.made serial source target]) :
    .called call client present ∈ log := by
  rcases List.mem_append.mp fact with old | new
  · exact old
  · cases List.mem_singleton.mp new

theorem countP_made (serial source target : Nat) :
    (log ++ [Fact.made serial source target]).countP (·.reads k) = log.countP (·.reads k) := by
  rw [List.countP_append, List.countP_singleton]
  rfl

end Log

/-- With one more user pipe in a record, every client is who it was. -/
theorem same_clients {t : Tables} {i : Nat} {h a : Holder} {userpipeVector : List UserPipeFd}
    {p : Process} (found : t.holders[i]? = some h) (old : a ∈ t.holders) :
    ∃ b ∈ (t.withUserPipes i userpipeVector p).holders, b.id = a.id ∧ b.made = a.made := by
  obtain ⟨before, after, whole, changed⟩ := modify_split found
  simp only [Tables.withUserPipes, changed]
  rw [whole] at old
  rcases List.mem_append.mp old with early | late
  · exact ⟨a, List.mem_append_left _ early, rfl, rfl⟩
  · rcases List.mem_cons.mp late with rfl | later
    · exact ⟨_, List.mem_append_right _ List.mem_cons_self, rfl, rfl⟩
    · exact ⟨a, List.mem_append_right _ (List.mem_cons_of_mem _ later), rfl, rfl⟩

/-- What the tables and the past have to do with each other: every user pipe in a record
is one that was created, between these clients, and has not been read; a numbered pipe
is none of them; and only pipes that exist have been read. -/
structure Ledger (log : List Fact) (t : Tables) : Prop where
  delivered : Delivered log
  single : ∀ k s d s' d', .made k s d ∈ log → .made k s' d' ∈ log → s = s' ∧ d = d'
  known : ∀ k s d, .made k s d ∈ log → k < t.process.made
  unheard : ∀ k, t.process.made ≤ k → log.countP (·.reads k) = 0
  entered : ∀ h ∈ t.holders, ∀ u ∈ h.userpipeVector,
    ∃ g ∈ t.holders, g.id = u.targetId ∧ .made u.made h.made g.made ∈ log
  waiting : ∀ h ∈ t.holders, ∀ u ∈ h.userpipeVector, log.countP (·.reads u.made) = 0
  numbered : ∀ h ∈ t.holders, ∀ r ∈ h.pipeVector, ∀ s d, .made r.made s d ∉ log

namespace Ledger

variable {log : List Fact} {t u : Tables}

/-- Where nothing is added and something goes, the ledger stays. -/
theorem remains (ledger : Ledger log t) (agree : Agree t) (named : Named u.holders)
    (remains : Remains t u) : Ledger log u where
  delivered := ledger.delivered
  single := ledger.single
  known k s d fact := Nat.lt_of_lt_of_le (ledger.known k s d fact) remains.made
  unheard k late := ledger.unheard k (Nat.le_trans remains.made late)
  entered g member v inside := by
    obtain ⟨h, old, -, sameMade, users, -⟩ := remains.record g member
    obtain ⟨w, before, made, target, -⟩ := users v inside
    obtain ⟨aim, holds, isTarget, fact⟩ := ledger.entered h old w before
    obtain ⟨other, there, isOther⟩ := List.mem_map.mp (named.target g member v inside)
    obtain ⟨was, held, sameId, alsoMade, -⟩ := remains.record other there
    have same : was = aim := List.inj_on_of_nodup_map agree.distinct held holds
      (sameId.trans (isOther.trans (target.symm.trans isTarget.symm)))
    refine ⟨other, there, isOther, ?_⟩
    rwa [← made, ← sameMade, ← alsoMade, same]
  waiting g member v inside := by
    obtain ⟨h, old, -, -, users, -⟩ := remains.record g member
    obtain ⟨w, before, made, -⟩ := users v inside
    rw [← made]
    exact ledger.waiting h old w before
  numbered g member r inside s d fact := by
    obtain ⟨h, old, -, -, -, pipes⟩ := remains.record g member
    rcases pipes r inside with ⟨q, before, made⟩ | fresh
    · rw [← made] at fact
      exact ledger.numbered h old q before s d fact
    · have late := ledger.known r.made s d fact
      omega

/-- A client that enters has no pipes. -/
theorem enter (ledger : Ledger log t) (fd id : Int) : Ledger log (t.enter fd id) where
  delivered := ledger.delivered
  single := ledger.single
  known k s d fact := Nat.lt_succ_of_lt (ledger.known k s d fact)
  unheard k late := ledger.unheard k (Nat.le_of_succ_le late)
  entered g member v inside := by
    rcases List.mem_append.mp member with old | new
    · obtain ⟨aim, holds, isTarget, fact⟩ := ledger.entered g old v inside
      exact ⟨aim, List.mem_append_left _ holds, isTarget, fact⟩
    · rw [List.mem_singleton.mp new] at inside
      cases inside
  waiting g member v inside := by
    rcases List.mem_append.mp member with old | new
    · exact ledger.waiting g old v inside
    · rw [List.mem_singleton.mp new] at inside
      cases inside
  numbered g member r inside := by
    rcases List.mem_append.mp member with old | new
    · exact ledger.numbered g old r inside
    · rw [List.mem_singleton.mp new] at inside
      cases inside

/-- A call reads nothing, a numbered pipe, or a user pipe for its client that waits. -/
structure Fits (log : List Fact) (t : Tables) (call : Call) (client : Nat)
    (present : List Nat) : Prop where
  reads : ∀ k, call.inObject = some (.readEnd k) → k < t.process.made ∧
    ∀ s d, .made k s d ∈ log → client = d ∧ s ∈ present ∧ log.countP (·.reads k) = 0

/-- A call that fits delivers well. -/
theorem delivers (ledger : Ledger log t) {call : Call} {client : Nat} {present : List Nat}
    (fits : Fits log t call client present) :
    Delivered (log ++ [.called call client present]) := by
  constructor
  · intro k s d fact
    rw [List.countP_append, List.countP_singleton]
    split
    · rename_i reads
      have found := (fits.reads k (by simpa [Fact.reads] using reads)).2 s d (made_of_called fact)
      omega
    · exact ledger.delivered.once k s d (made_of_called fact)
  · intro k s d other whose whom fact called reads
    rcases List.mem_append.mp called with old | new
    · exact ledger.delivered.aimed k s d other whose whom (made_of_called fact) old reads
    · cases List.mem_singleton.mp new
      have found := (fits.reads k reads).2 s d (made_of_called fact)
      exact ⟨found.1, found.2.1⟩

/-- A call that fits and leaves no record of what it has read. -/
theorem called (ledger : Ledger log t) (agree : Agree t) (named : Named u.holders)
    (left : Remains t u) {call : Call} {client : Nat} {present : List Nat}
    (fits : Fits log t call client present)
    (gone : ∀ k, call.inObject = some (.readEnd k) →
      ∀ g ∈ u.holders, ∀ v ∈ g.userpipeVector, v.made ≠ k) :
    Ledger (log ++ [.called call client present]) u := by
  have rest := ledger.remains agree named left
  refine ⟨ledger.delivers fits, ?_, ?_, ?_, ?_, ?_, ?_⟩
  · exact fun k s d s' d' first second =>
      ledger.single k s d s' d' (made_of_called first) (made_of_called second)
  · exact fun k s d fact => rest.known k s d (made_of_called fact)
  · intro k late
    rw [List.countP_append, rest.unheard k late, List.countP_singleton, if_neg]
    intro reads
    have early := (fits.reads k (by simpa [Fact.reads] using reads)).1
    have more := left.made
    omega
  · intro g member v inside
    obtain ⟨aim, holds, isTarget, fact⟩ := rest.entered g member v inside
    exact ⟨aim, holds, isTarget, List.mem_append_left _ fact⟩
  · intro g member v inside
    rw [List.countP_append, rest.waiting g member v inside, List.countP_singleton, if_neg]
    intro reads
    exact gone v.made (by simpa [Fact.reads] using reads) g member v inside rfl
  · exact fun g member r inside s d fact =>
      rest.numbered g member r inside s d (made_of_called fact)

/-- A pipe is created that no call has read. -/
theorem delivered_made (delivered : Delivered log) {k s d : Nat}
    (unread : log.countP (·.reads k) = 0) : Delivered (log ++ [.made k s d]) := by
  refine ⟨?_, ?_⟩
  · intro m source target fact
    rw [countP_made]
    rcases made_of_made fact with old | ⟨rfl, -, -⟩
    · exact delivered.once m source target old
    · omega
  · intro m source target call client present fact called reads
    have before := called_of_made called
    rcases made_of_made fact with old | ⟨rfl, -, -⟩
    · exact delivered.aimed m source target call client present old before reads
    · have none := List.countP_eq_zero.mp unread _ before
      simp [Fact.reads, reads] at none

/-- A pipe is created from the client behind an iterator. Its number is the next one, so that
nothing in the log speaks of it yet and it is apart from every pipe in the tables. -/
theorem creates (ledger : Ledger log t) {i : Nat} {h g : Holder} {new : UserPipeFd} {p : Process}
    (found : t.holders[i]? = some h) (holds : g ∈ t.holders) (isTarget : g.id = new.targetId)
    (number : new.made = t.process.made) (made : p.made = t.process.made + 1)
    (numbers : ∀ h ∈ t.holders, ∀ r ∈ h.pipeVector, r.made < t.process.made) :
    Ledger (log ++ [.made t.process.made h.made g.made])
      (t.withUserPipes i (h.userpipeVector ++ [new]) p) := by
  have fresh {k s d : Nat} (fact : .made k s d ∈ log) : k ≠ t.process.made :=
    Nat.ne_of_lt (ledger.known k s d fact)
  have member : h ∈ t.holders := List.mem_of_getElem? found
  have pipes {a : Holder} (inNew : a ∈ (t.withUserPipes i (h.userpipeVector ++ [new]) p).holders) :
      ∃ b ∈ t.holders, b.made = a.made ∧ b.pipeVector = a.pipeVector ∧
        ∀ v ∈ a.userpipeVector, v ∈ b.userpipeVector ∨ b = h ∧ v = new := by
    rcases mem_modify found inNew with rfl | old
    · refine ⟨h, member, rfl, rfl, fun v inside => ?_⟩
      rcases List.mem_append.mp inside with before | isNew
      · exact .inl before
      · exact .inr ⟨rfl, List.mem_singleton.mp isNew⟩
    · exact ⟨a, old, rfl, rfl, fun v inside => .inl inside⟩
  have empty := ledger.unheard t.process.made (Nat.le_refl _)
  refine ⟨delivered_made ledger.delivered empty, ?_, ?_, ?_, ?_, ?_, ?_⟩
  · intro k s d s' d' first second
    rcases made_of_made first with old | ⟨rfl, rfl, rfl⟩
    · rcases made_of_made second with alsoOld | ⟨rfl, -, -⟩
      · exact ledger.single k s d s' d' old alsoOld
      · exact absurd rfl (fresh old)
    · rcases made_of_made second with alsoOld | ⟨-, rfl, rfl⟩
      · exact absurd rfl (fresh alsoOld)
      · exact ⟨rfl, rfl⟩
  · intro k s d fact
    show k < p.made
    rcases made_of_made fact with old | ⟨rfl, -, -⟩
    · have early := ledger.known k s d old
      omega
    · omega
  · intro k late
    rw [countP_made]
    have later : p.made ≤ k := late
    exact ledger.unheard k (by omega)
  · intro a inNew v inside
    obtain ⟨b, old, sameMade, -, users⟩ := pipes inNew
    rcases users v inside with before | ⟨rfl, rfl⟩
    · obtain ⟨aim, there, isAim, fact⟩ := ledger.entered b old v before
      obtain ⟨other, present, sameId, alsoMade⟩ := same_clients found there
      refine ⟨other, present, sameId.trans isAim, List.mem_append_left _ ?_⟩
      rwa [← sameMade, alsoMade]
    · obtain ⟨other, present, sameId, alsoMade⟩ := same_clients found holds
      refine ⟨other, present, sameId.trans isTarget, List.mem_append_right _ ?_⟩
      rw [number, ← sameMade, alsoMade]
      exact List.mem_cons_self
  · intro a inNew v inside
    obtain ⟨b, old, -, -, users⟩ := pipes inNew
    rw [countP_made]
    rcases users v inside with before | ⟨rfl, rfl⟩
    · exact ledger.waiting b old v before
    · rw [number]
      exact empty
  · intro a inNew r inside s d fact
    obtain ⟨b, old, -, same, -⟩ := pipes inNew
    rw [← same] at inside
    rcases made_of_made fact with before | ⟨made, -, -⟩
    · exact ledger.numbered b old r inside s d before
    · have early := numbers b old r inside
      omega

end Ledger

end NetProg.SingleProc
