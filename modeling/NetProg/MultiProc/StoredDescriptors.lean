import NetProg.MultiProc.Interrupts
import NetProg.MultiProc.Links

/-!
# The descriptors a handler has stored

`GetPipeFd` closes the write end of the pipe a command reads, and `ErasePipeVector`
closes it again; `ErasePipeVector` closes the read end, and so does the `close(in_fd)`
after it. Between the two closes of a number it may be handed out again. It is, where
the handler of `SIGUSR2` opens a FIFO at that time and the number is the lowest one
that is free.

In every run in which the handler never gets a number the command will still close,
the descriptors it has stored stay open: each stands for the file it was opened for,
and no `close` so far has hit a file.
-/

namespace NetProg.MultiProc

open Loops Outcomes Runs

/-- What belongs to the process of one client: its descriptors, its pipe vector, and the
descriptors its handler stored, by their sources. -/
structure Own where
  process : Process
  pipeVector : List PipeFd
  outFd : Nat → Int
  reading : Option Nat

/-- The part of a server that belongs to the process of a client. -/
def Server.own (curId : Nat) (g : Server) : Own where
  process := (g.shells curId).process
  pipeVector := (g.shells curId).pipeVector
  outFd s := (g.fifo s curId).outFd
  reading := g.reading curId

/-- The numbers of the records that are due. -/
def dueNumbers (pipeVector : List PipeFd) : List Int :=
  (NumberedPipes.ends (pipeVector.filter (·.count = 0))).map Prod.fst

/-- The descriptor `close(in_fd)` is about. -/
def Frame.inNumber (f : Frame) : List Int := if f.needClosePipe then [f.inFd] else []

namespace Moment

/-- The numbers the command will still close. -/
def closing (m : Moment) : List Int :=
  match m.point with
  | .runs => dueNumbers m.shell.pipeVector ++ m.frame.inNumber
  | .erases i => dueNumbers (m.shell.pipeVector.drop i) ++ m.frame.inNumber
  | .closesOut i record =>
    record.outFd :: dueNumbers (m.shell.pipeVector.drop (i + 1)) ++ m.frame.inNumber
  | .closes => m.frame.inNumber
  | .idle | .reads | .attaches | .forgets | .finished => []

/-- The records that stay in the vector. -/
def staying (m : Moment) : List PipeFd :=
  match m.point with
  | .runs => m.shell.pipeVector.filter (·.count ≠ 0)
  | .erases i => m.shell.pipeVector.take i ++ (m.shell.pipeVector.drop i).filter (·.count ≠ 0)
  | .closesOut i _ =>
    m.shell.pipeVector.take i ++ (m.shell.pipeVector.drop (i + 1)).filter (·.count ≠ 0)
  | .idle | .reads | .attaches | .closes | .forgets | .finished => m.shell.pipeVector

/-- The handler opens a FIFO only while the number it will get is none the command will
still close. -/
def Apart (m : Moment) : Happening → Prop
  | .opens _ => (m.shell.process.fds.lowest : Int) ∉ m.closing
  | _ => True

instance decidableApart (m : Moment) : (happening : Happening) → Decidable (m.Apart happening)
  | .line _ | .tick | .others _ => isTrue trivial
  | .opens _ => inferInstanceAs (Decidable (_ ∉ _))

end Moment

/-- The stored descriptors stand for files, the ends of the table for its pipes, and what will
still be closed is given up; no `close` so far has hit a file. What is given up may be any number,
as long as it is none of a file. -/
structure Own.Stores (own : Own) (table : List PipeFd) (closing : List Int) : Prop where
  accounted : ∃ stored dying,
    Account False own.process (NumberedPipes.ends table ++ stored) dying ∧
    (∀ s, own.outFd s ≠ -1 → ∃ serial, (own.outFd s, .file serial) ∈ stored) ∧
    (∀ e ∈ dying, e.1 ∈ closing ∧ ∀ serial, e.2 ≠ .file serial) ∧
    ∀ n ∈ closing, ∃ o, (n, o) ∈ dying
  clean : ∀ c ∈ own.process.closes, ∀ serial, c.found ≠ some (.file serial)

section Stores

variable {own : Own} {table : List PipeFd} {closing : List Int}

/-- A stored descriptor is open, for the file of its FIFO. -/
theorem Own.Stores.stands (stores : own.Stores table closing) {s : Nat} (stored : own.outFd s ≠ -1) :
    ∃ serial, own.process.object (own.outFd s) = some (.file serial) := by
  obtain ⟨files, dying, account, stand, -, -⟩ := stores.accounted
  obtain ⟨serial, member⟩ := stand s stored
  exact ⟨serial, account.stands _ (List.mem_append_right _ member)⟩

/-- Fewer numbers are to be closed. -/
theorem Own.Stores.shrink (stores : own.Stores table closing) {fewer : List Int}
    (subset : fewer ⊆ closing) : own.Stores table fewer := by
  obtain ⟨stored, dying, account, stand, given, taken⟩ := stores.accounted
  refine ⟨⟨stored, dying.filter (fun e => e.1 ∈ fewer), ?_, stand, ?_, ?_⟩, stores.clean⟩
  · refine account.weaken _ _ (List.Subset.refl _) ?_
    exact (List.Sublist.append_left (List.filter_sublist) _).subperm
  · intro e member
    obtain ⟨inside, inFewer⟩ := List.mem_filter.mp member
    exact ⟨by simpa using inFewer, (given e inside).2⟩
  · intro n member
    obtain ⟨o, inside⟩ := taken n (subset member)
    exact ⟨o, List.mem_filter.mpr ⟨inside, by simpa using member⟩⟩

/-- Records that are due are given up. -/
theorem Own.Stores.give (stores : own.Stores table []) :
    own.Stores (table.filter (·.count ≠ 0)) (dueNumbers table) := by
  obtain ⟨stored, dying, account, stand, -, -⟩ := stores.accounted
  refine ⟨⟨stored, NumberedPipes.ends (table.filter (·.count = 0)), ?_, stand, ?_, ?_⟩, stores.clean⟩
  · have apart := NumberedPipes.ends_filter_due table
    refine account.weaken _ _ ?_ ?_
    · intro e member
      rcases List.mem_append.mp member with live | file
      · exact List.mem_append_left _ (apart.symm.subset (List.mem_append_left _ live))
      · exact List.mem_append_right _ file
    · have same : ((NumberedPipes.ends (table.filter (·.count ≠ 0)) ++ stored) ++
          NumberedPipes.ends (table.filter (·.count = 0))).Perm
          (NumberedPipes.ends table ++ stored) := by
        refine List.Perm.trans ?_ (apart.symm.append_right stored)
        simp only [List.append_assoc]
        exact List.Perm.append_left _ List.perm_append_comm
      exact same.subperm.trans (List.sublist_append_left _ _).subperm
  · intro e member
    refine ⟨List.mem_map_of_mem member, ?_⟩
    obtain ⟨record, -, isEnd⟩ := List.mem_flatMap.mp member
    simp only [PipeFd.ends, List.mem_cons, List.not_mem_nil, or_false] at isEnd
    rcases isEnd with rfl | rfl <;> simp
  · intro n member
    obtain ⟨e, inside, rfl⟩ := List.mem_map.mp member
    exact ⟨e.2, inside⟩

/-- A number that is to be closed is closed: it stands for a pipe end or for nothing. -/
theorem Own.Stores.close (stores : own.Stores table closing) {n : Int} (member : n ∈ closing)
    (meant : Option Object) :
    ({ own with process := own.process.closeEnd n meant } : Own).Stores table closing := by
  obtain ⟨stored, dying, account, stand, given, taken⟩ := stores.accounted
  obtain ⟨o, inside⟩ := taken n member
  refine ⟨⟨stored, dying, account.closeGiven inside (fun impossible => absurd impossible id), stand,
    given, taken⟩, ?_⟩
  intro c logged serial hit
  rcases List.mem_append.mp (show c ∈ own.process.closes ++ _ from logged) with old | new
  · exact stores.clean c old serial hit
  · rw [List.mem_singleton.mp new] at hit
    rcases account.loose _ inside with absent | stands
    · rw [show own.process.object n = none from absent] at hit
      cases hit
    · rw [show own.process.object n = some o from stands] at hit
      exact (given _ inside).2 serial (Option.some.inj hit)

/-- A file is opened at a number that is not to be closed, and its descriptor is stored. -/
theorem Own.Stores.opens (stores : own.Stores table closing) (source : Nat)
    (beside : (own.process.fds.lowest : Int) ∉ closing) :
    ({ own with
        process := own.process.openFile.2
        outFd := fun s => if s = source then own.process.openFile.1 else own.outFd s } :
      Own).Stores table closing := by
  obtain ⟨stored, dying, account, stand, given, taken⟩ := stores.accounted
  have apart : ∀ e ∈ dying, e.1 ≠ own.process.fds.lowest := by
    intro e member same
    exact beside (same ▸ (given e member).1)
  refine ⟨⟨(own.process.openFile.1, .file own.process.made) :: stored, dying, ?_, ?_, given, taken⟩,
    stores.clean⟩
  · exact (account.openBeside apart).perm List.perm_middle
  · intro s isStored
    by_cases same : s = source
    · refine ⟨own.process.made, ?_⟩
      simp [same]
    · simp only [same, if_false] at isStored ⊢
      obtain ⟨serial, member⟩ := stand s isStored
      exact ⟨serial, List.mem_cons_of_mem _ member⟩

/-- A file is opened while nothing is to be closed. -/
theorem Own.Stores.file (stores : own.Stores table []) (opens : Bool) :
    ({ own with process := (openAs opens own.process).2 } : Own).Stores table [] := by
  cases opens with
  | false => exact stores
  | true =>
    obtain ⟨stored, dying, account, stand, given, taken⟩ := stores.accounted
    have none : dying = [] := List.eq_nil_iff_forall_not_mem.mpr (fun e member => by
      cases (given e member).1)
    subst none
    refine ⟨⟨(own.process.openFile.1, .file own.process.made) :: stored, [], ?_, ?_, given, taken⟩,
      stores.clean⟩
    · exact account.openFile.perm List.perm_middle
    · intro s isStored
      obtain ⟨serial, member⟩ := stand s isStored
      exact ⟨serial, List.mem_cons_of_mem _ member⟩

/-- A pipe is created or joined while nothing is to be closed. -/
theorem Own.Stores.pipe (stores : own.Stores table []) {canPipe : Bool} {pipeNum outFd : Int}
    {extended : List PipeFd} {after : Process}
    (created : NumberedPipes.createPipe canPipe own.process table pipeNum =
      some (outFd, extended, after)) :
    ({ own with process := after, pipeVector := extended } : Own).Stores extended [] := by
  obtain ⟨stored, dying, account, stand, given, taken⟩ := stores.accounted
  have none : dying = [] := List.eq_nil_iff_forall_not_mem.mpr (fun e member => by
    cases (given e member).1)
  subst none
  refine ⟨⟨stored, [], NumberedPipes.createPipe_account account created, stand, given, taken⟩, ?_⟩
  have closes : after.closes = own.process.closes := by
    rcases NumberedPipes.createPipe_cases created with
        ⟨_, _, _, _, _, rfl⟩ | ⟨_, _, _, _, rfl⟩ <;> rfl
  intro c member
  rw [show ({ own with process := after, pipeVector := extended } : Own).process.closes =
    own.process.closes from closes] at member
  exact stores.clean c member

/-- Records are emptied; their descriptors stay open. -/
theorem Own.Stores.clear (stores : own.Stores table closing) {later : Own}
    (process : later.process = own.process)
    (cleared : ∀ s, later.outFd s = own.outFd s ∨ later.outFd s = -1) :
    later.Stores table closing := by
  obtain ⟨stored, dying, account, stand, given, taken⟩ := stores.accounted
  refine ⟨⟨stored, dying, process ▸ account, ?_, given, taken⟩, ?_⟩
  · intro s isStored
    rcases cleared s with same | emptied
    · rw [same] at isStored ⊢
      exact stand s isStored
    · exact absurd emptied isStored
  · rw [process]
    exact stores.clean

/-- The vector changes, not the ends in it. -/
theorem Own.Stores.sameEnds (stores : own.Stores table closing) {other : List PipeFd}
    (same : NumberedPipes.ends other = NumberedPipes.ends table) : own.Stores other closing := by
  obtain ⟨stored, dying, account, rest⟩ := stores.accounted
  refine ⟨⟨stored, dying, ?_, rest⟩, stores.clean⟩
  rw [same]
  exact account

/-- Nothing is to be closed, and the table is the vector. -/
def Own.Plain (own : Own) : Prop := own.Stores own.pipeVector []

theorem Own.Plain.clear (plain : own.Plain) {later : Own} (process : later.process = own.process)
    (pipeVector : later.pipeVector = own.pipeVector)
    (cleared : ∀ s, later.outFd s = own.outFd s ∨ later.outFd s = -1) : later.Plain := by
  rw [Own.Plain, pipeVector]
  exact Own.Stores.clear plain process cleared

end Stores

/-! ## What the parts of a round do to the process -/

section Parts

variable {curId : Nat} {g : Server}

/-- A change of the own shell. -/
theorem own_onShell (g : Server) (curId : Nat) (change : Shell → Shell) :
    (g.onShell curId change).own curId = { g.own curId with
      process := (change (g.shells curId)).process
      pipeVector := (change (g.shells curId)).pipeVector } := by
  simp [Server.own, Server.onShell]

theorem own_onShell_other (g : Server) {curId id : Nat} (other : id ≠ curId)
    (change : Shell → Shell) : (g.onShell id change).own curId = g.own curId := by
  simp [Server.own, Server.onShell, other.symm]

/-- Environments, logs, messages and names are not the process. -/
theorem own_unseen (curId : Nat) : Unseen (Server.own curId) where
  logs g id change logs := by
    by_cases same : id = curId
    · subst same
      rw [own_onShell, logs.process, logs.pipeVector]
      rfl
    · exact own_onShell_other g same change
  told _ _ := rfl
  named _ _ _ := rfl

/-- The receiver's side of an open FIFO, in the own process and in another one. -/
theorem own_opensToRead (g : Server) (source curId : Nat) :
    (g.opensToRead source curId).own curId = { g.own curId with
      process := (g.own curId).process.openFile.2
      outFd := fun s => if s = source then (g.own curId).process.openFile.1
        else (g.own curId).outFd s } := by
  have outFd : (fun s => ((g.opensToRead source curId).fifo s curId).outFd) =
      fun s => if s = source then (g.shells curId).process.openFile.1
        else (g.fifo s curId).outFd := by
    funext s
    by_cases same : s = source <;> simp [Server.opensToRead, Server.onFifo, Server.onShell, same]
  rw [Server.own, outFd]
  simp [Server.own, Server.opensToRead, Server.onFifo, Server.onShell, Shell.withProcess]

theorem own_opensToRead_other (g : Server) (source : Nat) {curId targetId : Nat}
    (other : targetId ≠ curId) : (g.opensToRead source targetId).own curId = g.own curId := by
  simp [Server.own, Server.opensToRead, Server.onFifo, Server.onShell, other.symm]

/-- A change of a record that is not about its descriptor. -/
theorem own_onFifo (g : Server) (sourceId targetId curId : Nat) {change : Fifo → Fifo}
    (keeps : ∀ record, (change record).outFd = record.outFd) :
    (g.onFifo sourceId targetId change).own curId = g.own curId := by
  have outFd : (fun s => ((g.onFifo sourceId targetId change).fifo s curId).outFd) =
      fun s => (g.fifo s curId).outFd := by
    funext s
    simp only [Server.onFifo]
    split
    · rename_i same
      rw [keeps, same.1, same.2]
    · rfl
  rw [Server.own, outFd]
  rfl

theorem own_opensToWrite (g : Server) (writer : Writer) (curId : Nat) :
    (g.opensToWrite writer).own curId = g.own curId := by
  have entered : (g.onFifo writer.sourceId writer.targetId
      ({ · with inFd := writer.inFd })).own curId = g.own curId :=
    own_onFifo g _ _ curId (by intro _; rfl)
  exact entered

/-- The handler of another process. -/
theorem own_openFifos_other {targetId : Nat} (other : targetId ≠ curId) (sources : List Nat) :
    (g.openFifos targetId sources).own curId = g.own curId := by
  have waits (h : Server) (source : Option Nat) :
      (h.withReading targetId source).own curId = h.own curId := by
    simp [Server.own, Server.withReading, other.symm]
  induction sources generalizing g with
  | nil => exact waits g none
  | cons s sources ih =>
    rw [Server.openFifos]
    split
    · split
      · rw [ih, own_opensToRead_other _ s other, own_opensToWrite]
      · exact waits g (some s)
    · exact ih

theorem own_handle_other {targetId : Nat} (other : targetId ≠ curId) (sources : List Nat) :
    (g.handle targetId sources).own curId = g.own curId := by
  rw [Server.handle]
  split
  · rw [own_openFifos_other other]
    exact own_openFifos_other other sources
  · exact own_openFifos_other other sources

/-- A handler that runs while nothing is to be closed. -/
theorem openFifos_plain (plain : (g.own curId).Plain) (targetId : Nat) (sources : List Nat) :
    ((g.openFifos targetId sources).own curId).Plain := by
  have waits (h : Server) (source : Option Nat) (plain : (h.own curId).Plain) :
      ((h.withReading targetId source).own curId).Plain :=
    plain.clear rfl rfl (fun _ => Or.inl rfl)
  induction sources generalizing g with
  | nil => exact waits g none plain
  | cons s sources ih =>
    rw [Server.openFifos]
    split
    · split
      · rename_i writer _
        refine ih ?_
        have wrote : ((g.opensToWrite writer).own curId).Plain := by
          rw [own_opensToWrite]
          exact plain
        by_cases same : targetId = curId
        · subst same
          rw [own_opensToRead]
          exact Own.Stores.opens wrote s (by simp)
        · rw [own_opensToRead_other _ s same]
          exact wrote
      · exact waits g (some s) plain
    · exact ih plain

theorem handle_plain (plain : (g.own curId).Plain) (targetId : Nat) (sources : List Nat) :
    ((g.handle targetId sources).own curId).Plain := by
  have opened := openFifos_plain plain targetId sources
  rw [Server.handle]
  split
  · have quiet : (((g.openFifos targetId sources).withSignal targetId false).own curId).Plain :=
      opened
    exact openFifos_plain quiet targetId ids
  · exact opened

/-- A pipe is made while nothing is to be closed. -/
theorem createUserPipe_plain (plain : (g.own curId).Plain) {targetId : Nat} {created : Server}
    (creates : g.createUserPipe curId targetId = .ok created) :
    created.reading curId = none ∧ (created.own curId).Plain := by
  rw [Server.createUserPipe] at creates
  split at creates
  · cases creates
  simp only at creates
  split at creates
  · cases creates
  rename_i waits
  cases creates
  refine ⟨by simpa using waits, ?_⟩
  have made : (((g.withFile curId targetId true).onFifo curId targetId
      ({ · with name := fifoPath curId targetId })).own curId).Plain := by
    rw [own_onFifo _ _ _ _ (by intro _; rfl)]
    exact plain
  rw [Server.signalUser]
  split
  · exact made
  split
  · exact made
  · exact handle_plain made targetId ids

/-- The child of a command opens its FIFO: the own handler is not waiting for it. -/
theorem own_setUserPipeOut (writer : Writer) (waits : g.reading curId = none) :
    (g.setUserPipeOut writer).2.own curId = g.own curId := by
  rw [Server.setUserPipeOut]
  split
  · have failed : (g.onFifo writer.sourceId writer.targetId ({ · with inFd := -1 })).own curId =
        g.own curId := own_onFifo g _ _ curId (by intro _; rfl)
    exact failed
  split
  · rename_i reads
    have other : writer.targetId ≠ curId := by
      rintro same
      rw [same, waits] at reads
      cases reads
    rw [own_handle_other other, own_opensToRead_other _ _ other, own_opensToWrite]
  split
  · exact own_opensToWrite g writer curId
  · rfl

theorem own_fork {targetId : Int} {waits : Bool} {forked : Server}
    (notWaiting : g.reading curId = none)
    (forks : fork g curId targetId waits = .ok forked) : forked.own curId = g.own curId := by
  rw [fork] at forks
  split at forks
  · simp only at forks
    split at forks
    · have kept := own_setUserPipeOut
        ⟨curId, targetId.toNat, (g.shells curId).process.openFile.1⟩ notWaiting
      split at forks
      · rename_i opened opens
        cases forks
        rw [opens] at kept
        exact kept
      · cases forks
    · cases forks
      rfl
  · cases forks
    rfl

/-- A call leaves the process. -/
theorem own_execCmd {job : Job} {f : Frame} {result : Server × Int}
    (notWaiting : f.server.reading job.curId = none) (ran : execCmd job f = .ok result) :
    result.1.own job.curId = f.server.own job.curId := by
  have logged : (f.server.onShell job.curId (·.logged (callOf job f))).own job.curId =
      f.server.own job.curId :=
    (own_unseen job.curId).logs _ _ ⟨fun _ => rfl, fun _ => rfl, fun _ => rfl⟩
  rw [execCmd] at ran
  split at ran
  · split at ran
    · exact (((own_unseen job.curId).builtin _ _ _).returned ran).trans logged
    · obtain ⟨forked, forks, same⟩ := bind_eq_ok.mp ran
      cases same
      exact (own_fork (g := f.server.onShell job.curId (·.logged (callOf job f))) notWaiting
        forks).trans logged
  · cases ran

/-- A record is emptied and its file removed. -/
theorem erased_plain (plain : (g.own curId).Plain) (source : Nat) :
    (((g.unlink source curId).onFifo source curId (fun _ => .empty)).own curId).Plain := by
  have kept : (g.unlink source curId).own curId = g.own curId := by
    rw [Server.unlink]
    split <;> rfl
  rw [← kept] at plain
  refine plain.clear rfl rfl (fun s => ?_)
  simp only [Server.own, Server.onFifo]
  split
  · exact Or.inr rfl
  · exact Or.inl rfl

/-- What `exit` clears. -/
theorem logout_plain (waits : g.reading curId = none) (plain : (g.own curId).Plain)
    {left : Server} (leaves : g.logout curId = .ok left) :
    left.reading curId = none ∧ (left.own curId).Plain := by
  obtain ⟨told, tells, same⟩ := bind_eq_ok.mp leaves
  cases same
  have cleared (sources : List Nat) {h : Server} (waits : h.reading curId = none)
      (plain : (h.own curId).Plain) :
      (sources.foldl (Server.clearFifo curId) h).reading curId = none ∧
        ((sources.foldl (Server.clearFifo curId) h).own curId).Plain := by
    induction sources generalizing h with
    | nil => exact ⟨waits, plain⟩
    | cons s sources ih =>
      rw [List.foldl_cons, Server.clearFifo]
      split
      · refine ih ?_ (erased_plain plain s)
        rw [Server.unlink]
        split <;> exact waits
      · exact ih waits plain
  have kept : told.own curId = g.own curId :=
    ((own_unseen curId).broadcast g curId .logout).returned tells
  have quiet : (told.invalidate curId).reading curId = none :=
    (congrArg Own.reading kept).trans waits
  have invalid : ((told.invalidate curId).own curId).Plain := by
    rw [← kept] at plain
    exact plain
  rw [own_onShell]
  exact cleared ids quiet invalid

/-- The pipe that was received is removed. -/
theorem eraseUserPipe_plain (plain : (g.own curId).Plain) (source : Nat) :
    ((g.eraseUserPipe source curId).own curId).Plain := by
  rw [Server.eraseUserPipe]
  split
  · exact erased_plain plain source
  · exact plain

end Parts

/-! ## The moments of a run -/

/-- What every step keeps: the process has its own in order, with the numbers that its line will
still close from here. -/
structure Moment.Keeps (m : Moment) (curId : Nat) : Prop where
  client : m.job.curId = curId
  waits : m.frame.server.reading m.job.curId = none
  stores : (m.frame.server.own m.job.curId).Stores m.staying m.closing
  between : ∀ i record, m.point = .closesOut i record → m.shell.pipeVector[i]? = some record

section Keeping

variable {m next : Moment} {curId : Nat}

/-- Where nothing is to be closed and the vector is the table. -/
theorem Moment.Keeps.of_plain {job : Job} {f : Frame} {point : Point}
    (at_ : point = .idle ∨ point = .reads ∨ point = .attaches ∨ point = .forgets ∨ point = .finished)
    (client : job.curId = curId) (waits : f.server.reading job.curId = none)
    (plain : (f.server.own job.curId).Plain) : Moment.Keeps ⟨job, point, f⟩ curId := by
  rcases at_ with rfl | rfl | rfl | rfl | rfl <;>
    exact ⟨client, waits, plain, fun _ _ impossible => by cases impossible⟩

/-- Reading a word. -/
theorem reads_plain {job : Job} {f : Frame} {word : Str} {rest : List Str} {step : Pass}
    (reads : Reads job f word rest step) (waits : f.server.reading job.curId = none)
    (plain : (f.server.own job.curId).Plain) :
    step.Holds
      (fun next => next.server.reading job.curId = none ∧ (next.server.own job.curId).Plain)
      (fun result => result.1.reading job.curId = none ∧ (result.1.own job.curId).Plain) := by
  cases reads with
  | prog | argument => exact ⟨waits, plain⟩
  | pipe later same number creates =>
    refine ⟨waits, ?_⟩
    have piped := Own.Stores.pipe plain creates
    simp only [Frame.pipeTo, own_onShell]
    exact piped
  | redirectOut later same follows =>
    refine ⟨waits, ?_⟩
    simp only [Frame.redirectOut, Frame.endLine, own_onShell]
    exact Own.Stores.file plain _
  | redirectIn later same follows =>
    refine ⟨waits, ?_⟩
    simp only [Frame.redirectIn, Frame.endLine, own_onShell]
    exact Own.Stores.file plain _
  | userOut later same number isTarget free creates => exact createUserPipe_plain plain creates
  | userIn later same number isSource there =>
    refine ⟨waits, ?_⟩
    simp only [Frame.receiveFrom, Frame.endLine, Server.getUserPipeFd]
    rw [own_onFifo _ _ _ _ (by intro _; rfl)]
    exact plain
  | refused later same =>
    refine ⟨waits, ?_⟩
    rw [(own_unseen job.curId).write]
    exact plain

/-- The end of a line. -/
theorem leaves_keeps {result : Server × Int} (client : m.job.curId = curId)
    (waits : result.1.reading m.job.curId = none) (plain : (result.1.own m.job.curId).Plain)
    (leaves : m.leaves result = .ok next) : next.Keeps curId := by
  rw [Moment.leaves] at leaves
  split at leaves
  · obtain ⟨left, ends, same⟩ := bind_eq_ok.mp leaves
    cases same
    obtain ⟨quiet, cleared⟩ := logout_plain waits plain ends
    exact .of_plain (.inr (.inr (.inr (.inr rfl)))) client quiet cleared
  · cases leaves
    exact .of_plain (.inl rfl) client waits plain

/-- The step at the head of a round. -/
theorem advances_keeps (client : m.job.curId = curId)
    (waits : m.frame.server.reading m.job.curId = none)
    (plain : (m.frame.server.own m.job.curId).Plain) (advances : m.advances = .ok next) :
    next.Keeps curId := by
  rw [Moment.advances] at advances
  split at advances
  · obtain ⟨received, receives, advances⟩ := bind_eq_ok.mp advances
    obtain ⟨sent, sends, same⟩ := bind_eq_ok.mp advances
    cases same
    have unseen := own_unseen m.job.curId
    obtain ⟨g, rfl, noRecv, recv⟩ := announceRecv_eq_ok receives
    obtain ⟨h, rfl, noSend, send⟩ := announceSend_eq_ok sends
    have first : g.own m.job.curId = m.frame.server.own m.job.curId := by
      by_cases none : m.frame.recvStrId = -1
      · rw [noRecv none]
      · exact (unseen.broadcast _ _ _).returned (recv none)
    have second : h.own m.job.curId = g.own m.job.curId := by
      by_cases none : m.frame.sendStrId = -1
      · rw [noSend none]
      · exact (unseen.broadcast _ _ _).returned (send none)
    have kept := second.trans first
    refine .of_plain (.inr (.inr (.inl rfl))) client ?_ ?_
    · exact (congrArg Own.reading kept).trans waits
    · rw [← kept] at plain
      exact plain
  · split at advances
    · exact leaves_keeps client waits plain advances
    · obtain ⟨step, read, advances⟩ := bind_eq_ok.mp advances
      have reads := readWord_reads read
      have kept := reads_plain reads (by simpa using waits) (by simpa using plain)
      cases step with
      | again after =>
        cases advances
        exact .of_plain (.inr (.inl rfl)) client kept.1 kept.2
      | leave result => exact leaves_keeps client kept.1 kept.2 advances

/-- `GetPipeFd`. -/
theorem attach_keeps {job : Job} {f : Frame} (client : job.curId = curId)
    (waits : f.server.reading job.curId = none) (plain : (f.server.own job.curId).Plain) :
    Moment.Keeps ⟨job, .runs, attach job f⟩ curId := by
  have given := Own.Stores.give plain
  rw [attach]
  split
  · rename_i record closed got
    rw [NumberedPipes.getPipeFd] at got
    split at got
    · rename_i first found
      simp only [Option.some.injEq, Prod.mk.injEq] at got
      obtain ⟨rfl, rfl⟩ := got
      have isZero := List.find?_some found
      have due : first ∈ (f.shell job.curId).pipeVector.filter (·.count = 0) :=
        List.mem_filter.mpr ⟨List.mem_of_find?_eq_some found, isZero⟩
      have inDue : first.inFd ∈ dueNumbers (f.shell job.curId).pipeVector :=
        List.mem_map.mpr ⟨(first.inFd, .writeEnd first.made),
          List.mem_flatMap.mpr ⟨first, due, by simp [PipeFd.ends]⟩, rfl⟩
      have outDue : first.outFd ∈ dueNumbers (f.shell job.curId).pipeVector :=
        List.mem_map.mpr ⟨(first.outFd, .readEnd first.made),
          List.mem_flatMap.mpr ⟨first, due, by simp [PipeFd.ends]⟩, rfl⟩
      have closed := given.close inDue (some (.writeEnd first.made))
      refine ⟨client, waits, ?_, fun _ _ impossible => by cases impossible⟩
      simp only [Moment.staying, Moment.closing, Moment.shell, own_onShell]
      rw [shells_onShell]
      refine closed.shrink (fun n member => ?_)
      rcases List.mem_append.mp member with isDue | isIn
      · exact isDue
      · rw [List.mem_singleton.mp isIn]
        exact outDue
    · cases got
  · refine ⟨client, waits, ?_, fun _ _ impossible => by cases impossible⟩
    refine given.shrink (fun n member => ?_)
    rcases List.mem_append.mp member with isDue | impossible
    · exact isDue
    · cases impossible

/-- The call of a command. -/
theorem runs_keeps {job : Job} {f called : Frame} (keeps : Moment.Keeps ⟨job, .runs, f⟩ curId)
    (calls : call job f = .ok called) : Moment.Keeps ⟨job, .erases 0, called⟩ curId := by
  obtain ⟨g, status, ran, rfl⟩ := call_eq_ok calls
  have kept := own_execCmd keeps.waits ran
  refine ⟨keeps.client, (congrArg Own.reading kept).trans keeps.waits, ?_,
    fun _ _ impossible => by cases impossible⟩
  have vector : (g.shells job.curId).pipeVector = (f.server.shells job.curId).pipeVector :=
    congrArg Own.pipeVector kept
  have stores := keeps.stores
  rw [← kept] at stores
  simp only [Moment.staying, Moment.closing, Moment.shell, List.take_zero, List.drop_zero,
    List.nil_append, vector]
  exact stores

/-- A step of `ErasePipeVector` at a position: the record there is kept and counts down, or it is
due and its ends will be closed, which stand for its pipe or were given up. -/
theorem erases_keeps {job : Job} {f : Frame} {i : Nat}
    (keeps : Moment.Keeps ⟨job, .erases i, f⟩ curId) :
    (Moment.erases ⟨job, .erases i, f⟩ i).Keeps curId := by
  have stores := keeps.stores
  simp only [Moment.staying, Moment.closing, Moment.shell] at stores
  rw [Moment.erases, Moment.shell]
  split
  · rename_i ended
    have long := List.getElem?_eq_none_iff.mp ended
    rw [List.take_of_length_le long, List.drop_eq_nil_of_le long] at stores
    refine ⟨keeps.client, keeps.waits, ?_, fun _ _ impossible => by cases impossible⟩
    simp only [Moment.goes, Moment.onShell, Frame.withServer, Moment.staying, Moment.closing,
      Moment.shell, own_onShell, shells_onShell]
    refine Own.Stores.sameEnds ?_ (NumberedPipes.ends_countdown _)
    have kept : (f.server.own job.curId).Stores (f.server.shells job.curId).pipeVector
        f.inNumber := by simpa [dueNumbers] using stores
    exact kept.clear rfl (fun _ => Or.inl rfl)
  · rename_i record here
    obtain ⟨inside, isRecord⟩ := List.getElem?_eq_some_iff.mp here
    have left := List.drop_eq_getElem_cons inside
    rw [isRecord] at left
    rw [left] at stores
    split
    · rename_i due
      refine ⟨keeps.client, keeps.waits, ?_, ?_⟩
      · simp only [Moment.goes, Moment.onShell, Frame.withServer, Moment.staying, Moment.closing,
          Moment.shell, own_onShell, shells_onShell]
        rw [List.filter_cons_of_neg (by simpa using due)] at stores
        have isDue : dueNumbers (record :: (f.server.shells job.curId).pipeVector.drop (i + 1)) =
            record.inFd :: record.outFd ::
              dueNumbers ((f.server.shells job.curId).pipeVector.drop (i + 1)) := by
          simp [dueNumbers, due, PipeFd.ends]
        rw [isDue] at stores
        have closed := stores.close (n := record.inFd) (by simp) (some (.writeEnd record.made))
        refine (closed.shrink ?_).clear rfl (fun _ => Or.inl rfl)
        exact fun n member => List.mem_cons_of_mem _ member
      · intro j other same
        cases same
        simp only [Moment.goes, Moment.onShell, Frame.withServer, Moment.shell, shells_onShell]
        exact here
    · rename_i notDue
      refine ⟨keeps.client, keeps.waits, ?_, fun _ _ impossible => by cases impossible⟩
      simp only [Moment.goes, Moment.staying, Moment.closing, Moment.shell]
      rw [List.filter_cons_of_pos (by simpa using notDue)] at stores
      have isNot : dueNumbers (record :: (f.server.shells job.curId).pipeVector.drop (i + 1)) =
          dueNumbers ((f.server.shells job.curId).pipeVector.drop (i + 1)) := by
        simp [dueNumbers, notDue]
      rw [isNot] at stores
      rw [List.take_add_one, here, List.append_assoc]
      exact stores

theorem take_eraseIdx_self {α : Type} (xs : List α) (i : Nat) :
    (xs.eraseIdx i).take i = xs.take i ∧ (xs.eraseIdx i).drop i = xs.drop (i + 1) := by
  induction xs generalizing i with
  | nil => simp
  | cons x xs ih =>
    cases i with
    | zero => simp
    | succ i => simpa using ih i

/-- The other `close` of a record. -/
theorem closesOut_keeps {job : Job} {f : Frame} {i : Nat} {record : PipeFd}
    (keeps : Moment.Keeps ⟨job, .closesOut i record, f⟩ curId) :
    (Moment.closesOut ⟨job, .closesOut i record, f⟩ i record).Keeps curId := by
  have stores := keeps.stores
  simp only [Moment.staying, Moment.closing, Moment.shell] at stores
  refine ⟨keeps.client, keeps.waits, ?_, fun _ _ impossible => by cases impossible⟩
  simp only [Moment.closesOut, Moment.goes, Moment.onShell, Frame.withServer, Moment.staying,
    Moment.closing, Moment.shell, own_onShell, shells_onShell, Shell.withPipes, take_eraseIdx_self]
  have closed := stores.close List.mem_cons_self (some (.readEnd record.made))
  refine (closed.shrink ?_).clear rfl (fun _ => Or.inl rfl)
  exact fun n member => List.mem_cons_of_mem _ member

/-- `close(in_fd)`. -/
theorem closes_keeps {job : Job} {f : Frame} (keeps : Moment.Keeps ⟨job, .closes, f⟩ curId) :
    Moment.Keeps ⟨job, .forgets, closeIn job f⟩ curId := by
  have stores : (f.server.own job.curId).Stores (f.server.own job.curId).pipeVector f.inNumber :=
    keeps.stores
  rw [closeIn]
  split
  · rename_i needs
    have closed := stores.close (n := f.inFd) (by simp [Frame.inNumber, needs]) f.inPipe
    refine .of_plain (.inr (.inr (.inr (.inl rfl)))) keeps.client keeps.waits ?_
    simp only [Frame.withServer, own_onShell]
    exact (closed.shrink (List.nil_subset _)).clear rfl (fun _ => Or.inl rfl)
  · exact .of_plain (.inr (.inr (.inr (.inl rfl)))) keeps.client keeps.waits
      (stores.shrink (List.nil_subset _))

/-- What is forgotten after a command. -/
theorem forgets_keeps {job : Job} {f : Frame} (keeps : Moment.Keeps ⟨job, .forgets, f⟩ curId) :
    Moment.Keeps ⟨job, .reads, forget job f⟩ curId := by
  have plain : (f.server.own job.curId).Plain := keeps.stores
  have erased := eraseUserPipe_plain plain f.sourceId.toNat
  have quiet : (f.server.eraseUserPipe f.sourceId.toNat job.curId).reading job.curId = none := by
    rw [Server.eraseUserPipe, Server.unlink]
    split
    · split <;> exact keeps.waits
    · exact keeps.waits
  rw [forget]
  split <;> split
  · exact .of_plain (.inr (.inl rfl)) keeps.client quiet erased
  · exact .of_plain (.inr (.inl rfl)) keeps.client keeps.waits plain
  · exact .of_plain (.inr (.inl rfl)) keeps.client quiet erased
  · exact .of_plain (.inr (.inl rfl)) keeps.client keeps.waits plain

/-- Every step of the process. -/
theorem Moment.Keeps.tick (keeps : m.Keeps curId) (ticks : m.tick = .ok next) :
    next.Keeps curId := by
  obtain ⟨job, point, f⟩ := m
  cases point with
  | idle | finished =>
    cases ticks
    exact keeps
  | reads => exact advances_keeps keeps.client keeps.waits keeps.stores ticks
  | attaches =>
    cases ticks
    exact attach_keeps keeps.client keeps.waits keeps.stores
  | runs =>
    obtain ⟨called, calls, same⟩ := bind_eq_ok.mp ticks
    cases same
    exact runs_keeps keeps calls
  | erases i =>
    cases ticks
    exact erases_keeps keeps
  | closesOut i record =>
    cases ticks
    exact closesOut_keeps keeps
  | closes =>
    cases ticks
    exact closes_keeps keeps
  | forgets =>
    cases ticks
    exact forgets_keeps keeps

/-- The other processes leave what is the client's own. -/
theorem own_besides (g others : Server) (curId : Nat) :
    (g.besides others curId).own curId = g.own curId := by
  simp [Server.own, Server.besides]

/-- What happens to the server while the table, the point and the closes stay. -/
theorem Moment.Keeps.withServer {job : Job} {point : Point} {f : Frame} {g : Server}
    (keeps : Moment.Keeps ⟨job, point, f⟩ curId)
    (waits : g.reading job.curId = none)
    (vector : (g.shells job.curId).pipeVector = (f.server.shells job.curId).pipeVector)
    (stores : ∀ table closing, (f.server.own job.curId).Stores table closing →
      (∀ n ∈ closing, n ∈ (Moment.mk job point f).closing) → (g.own job.curId).Stores table closing) :
    Moment.Keeps ⟨job, point, f.withServer g⟩ curId := by
  have same : (Moment.mk job point (f.withServer g)).shell.pipeVector =
      (Moment.mk job point f).shell.pipeVector := vector
  have staying : (Moment.mk job point (f.withServer g)).staying =
      (Moment.mk job point f).staying := by
    simp only [Moment.staying, same]
  have closing : (Moment.mk job point (f.withServer g)).closing =
      (Moment.mk job point f).closing := by
    simp only [Moment.closing, same, show (f.withServer g).inNumber = f.inNumber from rfl]
  refine ⟨keeps.client, waits, ?_, fun i record between => ?_⟩
  · rw [staying, closing]
    exact stores _ _ keeps.stores (fun _ member => member)
  · rw [same]
    exact keeps.between i record between

/-- Everything that can happen keeps it: the steps of the line by where it is in them, the handler
because its new number is none that will be closed, and others because they have nothing of it. -/
theorem Moment.Keeps.serve {happening : Happening} (keeps : m.Keeps curId)
    (offered : m.offers happening) (apart : m.Apart happening)
    (served : m.serve happening = .ok next) : next.Keeps curId := by
  obtain ⟨job, point, f⟩ := m
  cases happening with
  | line other =>
    cases served
    obtain ⟨idle, same, -⟩ := offered
    have idle : point = .idle := idle
    have same : other.curId = job.curId := same
    subst idle
    refine .of_plain (.inr (.inl rfl)) (same.trans keeps.client) ?_ ?_
    · rw [same]
      exact keeps.waits
    · rw [same]
      exact keeps.stores
  | tick => exact keeps.tick served
  | others g =>
    cases served
    have kept := own_besides f.server g job.curId
    refine keeps.withServer ?_ (congrArg Own.pipeVector kept) (fun _ _ stores _ => ?_)
    · exact (congrArg Own.reading kept).trans keeps.waits
    · rw [kept]
      exact stores
  | opens source =>
    cases served
    have opened := own_opensToRead f.server source job.curId
    refine keeps.withServer ?_ (congrArg Own.pipeVector opened) (fun _ _ stores inside => ?_)
    · exact (congrArg Own.reading opened).trans keeps.waits
    · rw [opened]
      exact stores.opens source (fun member => apart (inside _ member))

end Keeping

/-- The process of a client just accepted. -/
theorem clientProcess_account : Account False clientProcess [] [] := by
  refine .standardAlone (fun n nonneg below => ?_) False.elim
  have among : n = 0 ∨ n = 1 ∨ n = 2 := by omega
  rcases among with rfl | rfl | rfl <;> decide

theorem start_keeps (curId : Nat) : (interrupted curId).start.Keeps curId := by
  refine .of_plain (.inl rfl) rfl rfl ⟨⟨[], [], clientProcess_account, ?_, ?_, ?_⟩, ?_⟩
  · exact fun s isStored => absurd rfl isStored
  · exact fun e impossible => by cases impossible
  · exact fun n impossible => by cases impossible
  · exact fun c impossible => by cases impossible

/-- In every run in which the handler never gets a number the command will still close, every
descriptor it has stored is open for the file of its FIFO, and no `close` so far has hit a file.

The handler runs between two steps of the command loop and opens its FIFO there, with the lowest
number that is free; the ends which the loop has closed by number, and will close again, are among
those. The invariant follows the loop step by step and says which numbers are still to be closed.
-/
theorem stored_descriptors_stay_open (curId : Nat) {happenings : List Happening} {m : Moment}
    (run : Run (interrupted curId) Moment.Apart happenings m) :
    (∀ s, (m.frame.server.fifo s curId).outFd ≠ -1 → ∃ serial,
      (m.frame.server.shells curId).process.object (m.frame.server.fifo s curId).outFd =
        some (.file serial)) ∧
      ∀ c ∈ (m.frame.server.shells curId).process.closes, ∀ serial,
        c.found ≠ some (.file serial) := by
  have keeps : m.Keeps curId := run.invariant (fun m => m.Keeps curId) (start_keeps curId)
    (fun _ _ _ keeps offered apart served => keeps.serve offered apart served)
  have stores := keeps.stores
  rw [keeps.client] at stores
  exact ⟨fun s stored => stores.stands stored, stores.clean⟩

/-- Another client has made a pipe to the second one. -/
def sentToSecond : Server :=
  (Server.initial.withFile 1 2 true).onFifo 1 2 ({ · with name := fifoPath 1 2 })

/-- A line with the steps it takes. -/
def typing (line : Str) (steps : Nat) : List Happening :=
  .line ⟨2, line, .plain, fun _ _ => false⟩ :: List.replicate steps .tick

/-- The handler comes before the pipe of the command is looked for. -/
def early : List Happening :=
  typing (str "ls |1") 10 ++ typing (str "cat") 2 ++ [.others sentToSecond, .opens 1] ++
    List.replicate 8 .tick

/-- The descriptor is above those of the pipe, and outlives the command. -/
theorem stored_descriptors_stay_open_early : ∃ m, Run (interrupted 2) Moment.Apart early m ∧
    (m.frame.server.fifo 1 2).outFd = 5 ∧ m.point = .idle ∧
    ∃ serial, (m.frame.server.shells 2).process.object 5 = some (.file serial) := by
  have plays : ((play (interrupted 2) Moment.Apart (interrupted 2).start early).map
      (fun m => decide ((m.frame.server.fifo 1 2).outFd = 5 ∧ m.point = .idle))) =
      some true := by decide +kernel
  obtain ⟨m, played, result⟩ := Option.map_eq_some_iff.mp plays
  obtain ⟨stored, ended⟩ := of_decide_eq_true result
  have run := Run.played early m played
  obtain ⟨stands, -⟩ := stored_descriptors_stay_open 2 run
  have stands := stands 1 (by rw [stored]; decide)
  rw [stored] at stands
  exact ⟨m, run, stored, ended, stands⟩

/-- The handler comes while the process waits for the command that reads the pipe. -/
def whileWaiting : List Happening :=
  typing (str "ls |1") 10 ++ typing (str "cat") 3 ++ [.others sentToSecond, .opens 1, .tick, .tick]

/-- It gets the number of the write end, which is closed for the second time. -/
theorem stored_descriptor_is_closed : ∃ m, Run (interrupted 2) always whileWaiting m ∧
    (m.frame.server.fifo 1 2).outFd = 4 ∧ (m.frame.server.shells 2).process.object 4 = none ∧
    ∃ c ∈ (m.frame.server.shells 2).process.closes, c.found = some (.file 2) := by
  have plays : ((play (interrupted 2) always (interrupted 2).start whileWaiting).map
      (fun m => decide ((m.frame.server.fifo 1 2).outFd = 4 ∧
        (m.frame.server.shells 2).process.object 4 = none ∧
        ∃ c ∈ (m.frame.server.shells 2).process.closes, c.found = some (.file 2)))) =
      some true := by decide +kernel
  obtain ⟨m, played, result⟩ := Option.map_eq_some_iff.mp plays
  exact ⟨m, Run.played whileWaiting m played, of_decide_eq_true result⟩

end NetProg.MultiProc
