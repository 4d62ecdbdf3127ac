import NetProg.MultiProc.ExecCmds

/-!
# What one round of the command loop can do

Reading a word has eight outcomes, each one constructor of `Reads` with the guards
the source checks on the way. An execution goes through its parts and leaves the
queue as it is. Since every word read leaves fewer words, the loop ends.
-/

namespace NetProg.MultiProc

open Loops Outcomes
open SingleProc (kind)

section InitFd

variable (f : Frame)

@[simp] theorem initFd_server : f.initFd.server = f.server := by
  rw [Frame.initFd]
  split <;> rfl

@[simp] theorem initFd_isFirstArgv : f.initFd.isFirstArgv = f.isFirstArgv := by
  rw [Frame.initFd]
  split <;> rfl

@[simp] theorem initFd_sourceId : f.initFd.sourceId = f.sourceId := by
  rw [Frame.initFd]
  split <;> rfl

@[simp] theorem initFd_targetId : f.initFd.targetId = f.targetId := by
  rw [Frame.initFd]
  split <;> rfl

@[simp] theorem initFd_recvStrId : f.initFd.recvStrId = f.recvStrId := by
  rw [Frame.initFd]
  split <;> rfl

@[simp] theorem initFd_sendStrId : f.initFd.sendStrId = f.sendStrId := by
  rw [Frame.initFd]
  split <;> rfl

end InitFd

/-- The outcomes of reading a word, the descriptors having been set back if nothing in this
command has set them. Every invariant of a line is shown by cases on this and on `Executes`. -/
inductive Reads (job : Job) (f : Frame) (word : Str) (rest : List Str) : Pass → Prop
  | prog (first : f.isFirstArgv = true) : Reads job f word rest (.again (f.readProg word rest))
  | argument (later : f.isFirstArgv = false) (same : kind word = .argument) :
      Reads job f word rest (.again (f.readArgument word rest))
  | pipe {isError : Bool} {pipeNum : Int} {created : Int × List PipeFd × Process}
      (later : f.isFirstArgv = false)
      (same : kind word = if isError then .errorPipe else .pipe)
      (number : NumberedPipes.pipeNum word = some pipeNum)
      (creates : NumberedPipes.createPipe (job.world.pipes rest.length)
        (f.shell job.curId).process (f.shell job.curId).pipeVector pipeNum = some created) :
      Reads job f word rest (.again (f.pipeTo job.curId isError created rest))
  | redirectOut {file : Str} {left : List Str} (later : f.isFirstArgv = false)
      (same : kind word = .redirectOut) (follows : rest = file :: left) :
      Reads job f word rest (.again (f.redirectOut job.curId
        (openAs (job.world.opens left.length) (f.shell job.curId).process) left))
  | redirectIn {file : Str} {left : List Str} (later : f.isFirstArgv = false)
      (same : kind word = .redirectIn) (follows : rest = file :: left) :
      Reads job f word rest (.again (f.redirectIn job.curId
        (openAs (job.world.opens left.length) (f.shell job.curId).process) left))
  | userOut {targetId : Int} {target : ClientInfo} {created : Server}
      (later : f.isFirstArgv = false) (same : kind word = .userOut)
      (number : SingleProc.UserPipes.userNum word = some targetId)
      (isTarget : getClientByID f.server.table targetId = some target)
      (free : (f.server.fifo job.curId targetId.toNat).inFd = -1)
      (creates : f.server.createUserPipe job.curId targetId.toNat = .ok created) :
      Reads job f word rest (.again (f.sendTo targetId created rest))
  | userIn {sourceId : Int} {source : ClientInfo} (later : f.isFirstArgv = false)
      (same : kind word = .userIn)
      (number : SingleProc.UserPipes.userNum word = some sourceId)
      (isSource : getClientByID f.server.table sourceId = some source)
      (there : (f.server.fifo sourceId.toNat job.curId).outFd ≠ -1) :
      Reads job f word rest (.again (f.receiveFrom sourceId
        (f.server.getUserPipeFd sourceId.toNat job.curId) rest))
  | refused {text : Str} (later : f.isFirstArgv = false)
      (same : kind word = .userOut ∨ kind word = .userIn) :
      Reads job f word rest (.leave (f.server.write job.curId text, 0))

/-- A pipe operator of either kind is read as the reference has it. -/
theorem readPipe_reads {job : Job} {f : Frame} {isError : Bool} {word : Str} {rest : List Str}
    {step : Pass} (later : f.isFirstArgv = false)
    (same : kind word = if isError then .errorPipe else .pipe)
    (read : readPipe job f isError word rest = .ok step) : Reads job f word rest step := by
  rw [readPipe] at read
  split at read
  · cases read
  · rename_i pipeNum number
    split at read
    · cases read
    · rename_i created creates
      cases read
      exact .pipe later same number creates

theorem readUserOut_reads {job : Job} {f : Frame} {word : Str} {rest : List Str} {step : Pass}
    (later : f.isFirstArgv = false) (same : kind word = .userOut)
    (read : readUserOut job f word rest = .ok step) : Reads job f word rest step := by
  rw [readUserOut] at read
  split at read
  · cases read
  · rename_i targetId number
    split at read
    · cases read
      exact .refused later (.inl same)
    · rename_i target isTarget
      split at read
      · cases read
        exact .refused later (.inl same)
      · rename_i free
        obtain ⟨created, creates, read⟩ := bind_eq_ok.mp read
        cases read
        exact .userOut later same number isTarget (by simpa using free) creates

theorem readUserIn_reads {job : Job} {f : Frame} {word : Str} {rest : List Str} {step : Pass}
    (later : f.isFirstArgv = false) (same : kind word = .userIn)
    (read : readUserIn job f word rest = .ok step) : Reads job f word rest step := by
  rw [readUserIn] at read
  split at read
  · cases read
  · rename_i sourceId number
    split at read
    · cases read
      exact .refused later (.inr same)
    · rename_i source isSource
      split at read
      · cases read
        exact .refused later (.inr same)
      · rename_i there
        cases read
        exact .userIn later same number isSource there

/-- Reading a word does one of the listed things. -/
theorem readWord_reads {job : Job} {frame : Frame} {word : Str} {rest : List Str} {step : Pass}
    (read : readWord job frame word rest = .ok step) : Reads job frame.initFd word rest step := by
  unfold readWord at read
  simp only at read
  split at read
  · rename_i first
    cases read
    exact .prog first
  · rename_i notFirst
    have later : frame.initFd.isFirstArgv = false := by simpa using notFirst
    split at read
    · rename_i same
      exact readPipe_reads later (by simpa using same) read
    · rename_i same
      exact readPipe_reads later (by simpa using same) read
    · rename_i same
      unfold readRedirectOut at read
      split at read
      · cases read
      · cases read
        exact .redirectOut later same rfl
    · rename_i same
      unfold readRedirectIn at read
      split at read
      · cases read
      · cases read
        exact .redirectIn later same rfl
    · rename_i same
      exact readUserOut_reads later same read
    · rename_i same
      exact readUserIn_reads later same read
    · rename_i same
      cases read
      exact .argument later same

/-- Words left and commands waiting to be executed. -/
def Frame.pending (f : Frame) : Nat := 2 * f.cmds.length + if f.isFinalArgv then 1 else 0

/-- Every word read leaves fewer words. -/
theorem Reads.shortens {job : Job} {f next : Frame} {word : Str} {rest : List Str}
    (reads : Reads job f word rest (.again next)) : next.cmds.length ≤ rest.length := by
  cases reads with
  | prog first =>
    simp only [Frame.readProg]
    split <;> simp
  | redirectOut later same follows => simp [Frame.redirectOut, Frame.endLine, follows]
  | redirectIn later same follows => simp [Frame.redirectIn, Frame.endLine, follows]
  | argument | pipe | userOut | userIn => exact Nat.le_refl _

/-- The parts an execution goes through, each from the frame before it: it announces what the
command receives and what it sends, attaches the pipe that is due and calls. -/
structure Executes (job : Job) (f received sent called : Frame) : Prop where
  receives : announceRecv job f = .ok received
  sends : announceSend job received = .ok sent
  calls : call job (attach job sent) = .ok called

/-- An execution always goes round again, through its parts. -/
theorem execute_executes {job : Job} {f : Frame} {step : Pass} (ran : execute job f = .ok step) :
    ∃ received sent called, Executes job f received sent called ∧
      step = .again (forget job (closeIn job (erase job called))) := by
  rw [execute] at ran
  obtain ⟨received, receives, ran⟩ := bind_eq_ok.mp ran
  obtain ⟨sent, sends, ran⟩ := bind_eq_ok.mp ran
  obtain ⟨called, calls, ran⟩ := bind_eq_ok.mp ran
  cases ran
  exact ⟨received, sent, called, ⟨receives, sends, calls⟩, rfl⟩

section Parts

variable {job : Job} {f next : Frame}

theorem announceRecv_eq_ok (told : announceRecv job f = .ok next) :
    ∃ g, next = { f with server := g, recvStrId := -1 } ∧ (f.recvStrId = -1 → g = f.server) ∧
      (f.recvStrId ≠ -1 → f.server.broadcast job.curId
        (.recv (SingleProc.lineInput job.line) f.sourceId.toNat) = .ok g) := by
  rw [announceRecv] at told
  split at told
  · rename_i received
    obtain ⟨g, tells, same⟩ := bind_eq_ok.mp told
    cases same
    exact ⟨g, rfl, fun nothing => absurd nothing received, fun _ => tells⟩
  · rename_i nothing
    have nothing : f.recvStrId = -1 := by simpa using nothing
    cases told
    exact ⟨f.server, by rw [← nothing], fun _ => rfl, fun received => absurd nothing received⟩

theorem announceSend_eq_ok (told : announceSend job f = .ok next) :
    ∃ g, next = { f with server := g, sendStrId := -1 } ∧ (f.sendStrId = -1 → g = f.server) ∧
      (f.sendStrId ≠ -1 → f.server.broadcast job.curId
        (.send (SingleProc.lineInput job.line) f.targetId.toNat) = .ok g) := by
  rw [announceSend] at told
  split at told
  · rename_i sent
    obtain ⟨g, tells, same⟩ := bind_eq_ok.mp told
    cases same
    exact ⟨g, rfl, fun nothing => absurd nothing sent, fun _ => tells⟩
  · rename_i nothing
    have nothing : f.sendStrId = -1 := by simpa using nothing
    cases told
    exact ⟨f.server, by rw [← nothing], fun _ => rfl, fun sent => absurd nothing sent⟩

theorem call_eq_ok (called : call job f = .ok next) : ∃ g status,
    execCmd job f = .ok (g, status) ∧ next = { f with
      server := g
      status := status
      isFinalArgv := false
      isInRedirect := false
      isInUserpipe := false } := by
  obtain ⟨⟨g, status⟩, ran, same⟩ := bind_eq_ok.mp called
  cases same
  exact ⟨g, status, ran, rfl⟩

@[simp] theorem attach_cmds : (attach job f).cmds = f.cmds := by
  rw [attach]
  split <;> rfl

@[simp] theorem erase_cmds : (erase job f).cmds = f.cmds := rfl

@[simp] theorem closeIn_cmds : (closeIn job f).cmds = f.cmds := by
  rw [closeIn]
  split <;> rfl

@[simp] theorem forget_cmds : (forget job f).cmds = f.cmds := by
  rw [forget]
  split <;> split <;> rfl

@[simp] theorem erase_isFinalArgv : (erase job f).isFinalArgv = f.isFinalArgv := rfl

@[simp] theorem closeIn_isFinalArgv : (closeIn job f).isFinalArgv = f.isFinalArgv := by
  rw [closeIn]
  split <;> rfl

@[simp] theorem forget_isFinalArgv : (forget job f).isFinalArgv = f.isFinalArgv := by
  rw [forget]
  split <;> split <;> rfl

end Parts

/-- An execution leaves the words, and no command that is complete. -/
theorem execute_leaves {job : Job} {f next : Frame} (ran : execute job f = .ok (.again next)) :
    next.cmds = f.cmds ∧ next.isFinalArgv = false := by
  obtain ⟨received, sent, called, executes, same⟩ := execute_executes ran
  cases same
  obtain ⟨g, rfl, -⟩ := announceRecv_eq_ok executes.receives
  obtain ⟨h, rfl, -⟩ := announceSend_eq_ok executes.sends
  obtain ⟨k, status, -, rfl⟩ := call_eq_ok executes.calls
  simp

/-- Every further round leaves fewer words, or as many and no complete command. -/
theorem round_decreases (job : Job) (f next : Frame) (again : round job f = .ok (.again next)) :
    next.pending < f.pending := by
  rw [round, advance] at again
  split at again
  · rename_i final
    obtain ⟨same, done⟩ := execute_leaves again
    have isFinal : f.isFinalArgv = true := final
    have cmds : next.cmds = f.cmds := same
    simp [Frame.pending, isFinal, cmds, done]
  · split at again
    · cases again
    · rename_i word rest words
      have fewer : next.cmds.length ≤ rest.length := (readWord_reads again).shortens
      have left : f.cmds.length = rest.length + 1 := by
        rw [show f.cmds = word :: rest from words, List.length_cons]
      unfold Frame.pending
      split <;> omega

/-- `ExecCmds` as a loop over its rounds. -/
def cmdLoop (job : Job) : Loop Frame (Server × Int) (Fault × Server) where
  body := round job
  measure := Frame.pending
  decreases := round_decreases job

/-- The frames at the head of the rounds of a line. -/
def frames (job : Job) (g : Server) (cmds : List Str) : List Frame :=
  (cmdLoop job).rounds (Frame.initial g cmds)

/-- `ExecCmds`. -/
def execCmds (job : Job) (g : Server) (cmds : List Str) : Outcome (Server × Int) :=
  (cmdLoop job).run (Frame.initial g cmds)

end NetProg.MultiProc
