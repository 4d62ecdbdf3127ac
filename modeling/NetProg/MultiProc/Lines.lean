import NetProg.MultiProc.FifoRuns

/-!
# What every line keeps

A line changes what user pipes rest on in a few places only: where it makes a user
pipe, where it takes one and where it removes one, where it forks, and where a child
comes to its `open`. What these keep is kept by the whole line, whether it returns or
fails.
-/

namespace NetProg.MultiProc

open Loops Outcomes

/-- A property of the server that the changes of a line keep. There is one field for each kind of
change, so that such a property is shown without the loop. -/
structure Carries (job : Job) (holds : Server → Prop) : Prop where
  unseen : ∀ {g h : Server}, h.links = g.links → holds g → holds h
  waits : ∀ (g : Server) reading signalled forked writing, holds g → holds { g with
    reading := reading
    signalled := signalled
    forked := forked
    writing := writing }
  makes : ∀ (g : Server) (targetId : Int), (getClientByID g.table targetId).isSome = true →
    holds g → holds ((g.withFile job.curId targetId.toNat true).onFifo job.curId targetId.toNat
      ({ · with name := fifoPath job.curId targetId.toNat }))
  reads : ∀ (g : Server) (sourceId targetId : Nat), g.files sourceId targetId = true → holds g →
    holds (g.opensToRead sourceId targetId)
  writes : ∀ (g : Server) (writer : Writer), g.files writer.sourceId writer.targetId = true →
    holds g → holds (g.opensToWrite writer)
  misses : ∀ (g : Server) (sourceId targetId : Nat), g.files sourceId targetId = false →
    holds g → holds (g.onFifo sourceId targetId ({ · with inFd := -1 }))
  takes : ∀ (g : Server) (sourceId : Nat), (g.fifo sourceId job.curId).outFd ≠ -1 → holds g →
    holds (g.getUserPipeFd sourceId job.curId).2
  erases : ∀ (g : Server) (sourceId : Nat), holds g → holds (g.eraseUserPipe sourceId job.curId)

/-- The server after a round. -/
def passServer : Pass → Server
  | .again next => next.server
  | .leave (server, _) => server

theorem links_withProcess (g : Server) (id : Nat) (p : Process) :
    (g.onShell id (·.withProcess p)).links = g.links := links_onShell g id (fun _ => rfl)

theorem links_withPipes (g : Server) (id : Nat) (pipeVector : List PipeFd) (p : Process) :
    (g.onShell id (·.withPipes pipeVector p)).links = g.links := links_onShell g id (fun _ => rfl)

section Carried

variable {job : Job} {holds : Server → Prop}

/-- The handler of a signal. -/
theorem Carries.openFifos (carries : Carries job holds) (targetId : Nat) (sources : List Nat)
    {g : Server} (held : holds g) : holds (g.openFifos targetId sources) := by
  induction sources generalizing g with
  | nil => exact carries.waits g _ _ _ _ held
  | cons s sources ih =>
    rw [Server.openFifos]
    split
    · rename_i there
      split
      · rename_i writer found
        have own := List.find?_some found
        simp only [decide_eq_true_eq] at own
        have file : g.files writer.sourceId writer.targetId = true := by
          rw [own.1, own.2]
          exact there.2.2
        exact ih (carries.reads _ s targetId there.2.2 (carries.writes g writer file held))
      · exact carries.waits g _ _ _ _ held
    · exact ih held

theorem Carries.handle (carries : Carries job holds) (targetId : Nat) (sources : List Nat)
    {g : Server} (held : holds g) : holds (g.handle targetId sources) := by
  have opened := carries.openFifos targetId sources held
  rw [Server.handle]
  split
  · exact carries.openFifos targetId ids (carries.waits _ _ _ _ _ opened)
  · exact opened

/-- The making of a user pipe. -/
theorem Carries.createUserPipe (carries : Carries job holds) {g : Server} (targetId : Int)
    (there : (getClientByID g.table targetId).isSome = true) (held : holds g) :
    Ends (g.createUserPipe job.curId targetId.toNat) holds (fun failure => holds failure.2) := by
  have made := carries.makes g targetId there held
  have signalled : holds (((g.withFile job.curId targetId.toNat true).onFifo job.curId
      targetId.toNat ({ · with name := fifoPath job.curId targetId.toNat })).signalUser
        targetId.toNat) := by
    rw [Server.signalUser]
    split
    · exact made
    split
    · exact carries.waits _ _ _ _ _ made
    · exact carries.handle _ _ made
  rw [Server.createUserPipe]
  split
  · exact held
  · simp only
    split
    · exact signalled
    · exact signalled

theorem Carries.setUserPipeOut (carries : Carries job holds) {g : Server} (writer : Writer)
    (held : holds g) : holds (g.setUserPipeOut writer).2 := by
  rw [Server.setUserPipeOut]
  split
  · rename_i missing
    exact carries.misses g _ _ missing held
  rename_i there
  have file : g.files writer.sourceId writer.targetId = true := by simpa using there
  have written := carries.writes g writer file held
  split
  · exact carries.handle _ _ (carries.reads _ _ _ file written)
  split
  · exact written
  · exact carries.waits g _ _ _ _ held

/-- Children that come to their `open`. -/
theorem Carries.resume (carries : Carries job holds) {g : Server} (now : Writer → Bool)
    (held : holds g) : holds (g.resume now) := by
  have comes (writers : List Writer) {h : Server} (held : holds h) :
      holds (writers.foldl (fun h writer => (h.setUserPipeOut writer).2) h) := by
    induction writers generalizing h with
    | nil => exact held
    | cons writer writers ih => exact ih (carries.setUserPipeOut writer held)
  exact comes _ (carries.waits g _ _ _ _ held)

/-- A fork. -/
theorem Carries.fork (carries : Carries job holds) {g : Server} (curId : Nat) (targetId : Int)
    (waits : Bool) (held : holds g) :
    Ends (fork g curId targetId waits) holds (fun failure => holds failure.2) := by
  rw [MultiProc.fork]
  split
  · simp only
    split
    · have opened := carries.setUserPipeOut
        ⟨curId, targetId.toNat, (g.shells curId).process.openFile.1⟩ held
      split
      · rename_i outcome
        rw [outcome] at opened
        exact opened
      · rename_i outcome
        rw [outcome] at opened
        exact opened
    · exact carries.waits g _ _ _ _ held
  · exact held

/-- A call of `ExecCmd`. -/
theorem Carries.execCmd (carries : Carries job holds) {f : Frame} (held : holds f.server) :
    Ends (execCmd job f) (fun result => holds result.1) (fun failure => holds failure.2) := by
  have called : holds (f.server.onShell job.curId (·.logged (callOf job f))) :=
    carries.unseen (links_onShell f.server job.curId (fun _ => rfl)) held
  rw [MultiProc.execCmd]
  split
  · split
    · exact (builtin_links _ job.curId _).mono (fun _ links => carries.unseen links called)
        (fun _ harmless => carries.unseen harmless.1 called)
    · exact Ends.bind holds (carries.fork _ _ _ called) (fun _ kept => kept)
  · exact called

/-- An announcement. -/
theorem Carries.broadcast (carries : Carries job holds) {g : Server} (curId : Nat)
    (announcement : Announcement) (held : holds g) :
    Ends (g.broadcast curId announcement) holds (fun failure => holds failure.2) :=
  (links_unseen.broadcast g curId announcement).mono (fun _ kept => carries.unseen kept held)
    (fun _ kept => carries.unseen kept.1 held)

theorem Carries.announceRecv (carries : Carries job holds) {f : Frame} (held : holds f.server) :
    Ends (announceRecv job f) (fun next => holds next.server) (fun failure => holds failure.2) := by
  rw [MultiProc.announceRecv]
  split
  · exact Ends.bind holds (carries.broadcast job.curId _ held) (fun _ kept => kept)
  · exact held

theorem Carries.announceSend (carries : Carries job holds) {f : Frame} (held : holds f.server) :
    Ends (announceSend job f) (fun next => holds next.server) (fun failure => holds failure.2) := by
  rw [MultiProc.announceSend]
  split
  · exact Ends.bind holds (carries.broadcast job.curId _ held) (fun _ kept => kept)
  · exact held

/-- The end of an execution. -/
theorem Carries.forget (carries : Carries job holds) {f : Frame} (held : holds f.server) :
    holds (forget job (closeIn job (erase job f))).server := by
  have erased : holds (erase job f).server :=
    carries.unseen (links_onShell f.server job.curId (fun _ => rfl)) held
  have closed : holds (closeIn job (erase job f)).server := by
    rw [closeIn]
    split
    · exact carries.unseen (links_onShell _ job.curId (fun _ => rfl)) erased
    · exact erased
  rw [MultiProc.forget]
  split <;> split
  · exact carries.erases _ _ closed
  · exact closed
  · exact carries.erases _ _ closed
  · exact closed

/-- An execution. -/
theorem Carries.execute (carries : Carries job holds) {f : Frame} (held : holds f.server) :
    Ends (execute job f) (fun step => holds (passServer step)) (fun failure => holds failure.2) := by
  rw [MultiProc.execute]
  refine Ends.bind (fun received => holds received.server) (carries.announceRecv held)
    (fun received told => ?_)
  refine Ends.bind (fun sent => holds sent.server) (carries.announceSend told) (fun sent told => ?_)
  have attached : holds (attach job sent).server := carries.unseen (attach_links job sent) told
  refine Ends.bind (fun called => holds called.server) ?_ (fun called kept => carries.forget kept)
  rw [call]
  exact Ends.bind (fun result => holds result.1) (carries.execCmd attached)
    (fun result (kept : holds result.1) => kept)

/-- A word that is read. -/
theorem Reads.carried (carries : Carries job holds) {f : Frame} {word : Str} {rest : List Str}
    {step : Pass} (reads : Reads job f word rest step) (held : holds f.server) :
    holds (passServer step) := by
  cases reads with
  | prog first => exact held
  | argument later same => exact held
  | @pipe _ _ created later same number creates =>
    exact carries.unseen (links_withPipes f.server job.curId created.2.1 created.2.2) held
  | redirectOut later same follows =>
    exact carries.unseen (links_withProcess f.server job.curId _) held
  | redirectIn later same follows =>
    exact carries.unseen (links_withProcess f.server job.curId _) held
  | userOut later same number isTarget free creates =>
    exact (carries.createUserPipe _ (by rw [isTarget]; rfl) held).returned creates
  | userIn later same number isSource there => exact carries.takes f.server _ there held
  | refused later same => exact carries.unseen (links_write f.server job.curId _) held

/-- A pipe operator that fails has changed nothing. -/
theorem readPipe_failed {f : Frame} {isError : Bool} {word : Str} {rest : List Str}
    {failure : Fault × Server} (failed : readPipe job f isError word rest = .error failure) :
    failure.2 = f.server := by
  rw [readPipe] at failed
  split at failed
  · cases failed
    rfl
  · split at failed
    · cases failed
      rfl
    · cases failed

/-- Reading a word fails in making a user pipe, or before it has changed anything. So a failed
line is one after some of the changes that a line is made of. -/
theorem Carries.readWord_failed (carries : Carries job holds) {f : Frame} {word : Str}
    {rest : List Str} {failure : Fault × Server}
    (failed : readWord job f word rest = .error failure) (held : holds f.server) :
    holds failure.2 := by
  rw [← initFd_server f] at held
  unfold readWord at failed
  simp only at failed
  split at failed
  · cases failed
  split at failed
  · exact readPipe_failed failed ▸ held
  · exact readPipe_failed failed ▸ held
  · unfold readRedirectOut at failed
    split at failed
    · cases failed
      exact held
    · cases failed
  · unfold readRedirectIn at failed
    split at failed
    · cases failed
      exact held
    · cases failed
  · rw [readUserOut] at failed
    split at failed
    · cases failed
      exact held
    split at failed
    · cases failed
    split at failed
    · cases failed
    rename_i targetId _ _ _ isTarget _
    have created := carries.createUserPipe targetId (by rw [isTarget]; rfl) held
    cases creates : f.initFd.server.createUserPipe job.curId targetId.toNat with
    | ok made =>
      rw [creates] at failed
      cases failed
    | error refused =>
      rw [creates] at failed
      cases failed
      exact created.raised creates
  · rw [readUserIn] at failed
    split at failed
    · cases failed
      exact held
    split at failed
    · cases failed
    split at failed
    · cases failed
    · cases failed
  · cases failed

/-- A round of the command loop, which is made up of such changes, whether it goes on, ends the
line or fails. -/
theorem Carries.round (carries : Carries job holds) {f : Frame} (held : holds f.server) :
    Ends (round job f) (fun step => holds (passServer step)) (fun failure => holds failure.2) := by
  have resumed := carries.resume (job.comes f.cmds.length) held
  rw [MultiProc.round, advance]
  split
  · exact carries.execute resumed
  split
  · exact resumed
  · rename_i word rest words
    cases read : readWord job (f.withServer (f.server.resume (job.comes f.cmds.length))) word
        rest with
    | error failure => exact carries.readWord_failed read resumed
    | ok step => exact (readWord_reads read).carried carries (by rwa [initFd_server])

/-- The commands of a line. -/
theorem Carries.execCmds (carries : Carries job holds) {g : Server} (cmds : List Str)
    (held : holds g) : Ends (execCmds job g cmds) (fun result => holds result.1)
      (fun failure => holds failure.2) := by
  refine (cmdLoop job).run_ends (fun f => holds f.server) (fun _ => True) _ _
    (fun f kept _ => ?_) (Frame.initial g cmds) held (fun _ _ => trivial)
  refine (carries.round kept).mono (fun step after => ?_) (fun _ after => after)
  cases step with
  | again next => exact after
  | leave result => exact after

end Carried

end NetProg.MultiProc
