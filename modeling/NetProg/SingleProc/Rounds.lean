import NetProg.SingleProc.ExecCmds

/-!
# What one round of the command loop can do

Reading a word has eleven outcomes and each of them is one constructor of
`Reads`, with the guards the source checks on the way. `Executes` lists the
intermediate servers of an execution. Invariants are proved by cases on these,
not by unfolding the loop; the loop itself is put together here as well, since
every word read leaves fewer words.
-/

namespace NetProg.SingleProc

open Loops Outcomes

theorem client_eq_ok {s : Server} {iter : Nat} {c : ClientInfo} :
    s.client iter = .ok c ↔ s.clientTable[iter]? = some c := by
  rw [Server.client]
  cases found : s.clientTable[iter]? <;> simp

theorem client_eq_error {s t : Server} {iter : Nat} {fault : Fault} :
    s.client iter = .error (fault, t) ↔
      s.clientTable[iter]? = none ∧ fault = .endIterator ∧ t = s := by
  rw [Server.client]
  cases found : s.clientTable[iter]? <;> simp [eq_comm]

/-- An index of the id table that can be read. -/
theorem idAt_eq_ok {s : Server} {index mark : Int} :
    s.idAt index = .ok mark ↔ 0 ≤ index ∧ s.idTable[index.toNat]? = some mark := by
  rw [Server.idAt]
  by_cases nonneg : 0 ≤ index
  · cases found : s.idTable[index.toNat]? <;> simp [nonneg]
  · simp [nonneg]

theorem idAt_eq_error {s t : Server} {index : Int} {fault : Fault} :
    s.idAt index = .error (fault, t) ↔
      (0 ≤ index → s.idTable[index.toNat]? = none) ∧ fault = .idTable ∧ t = s := by
  rw [Server.idAt]
  by_cases nonneg : 0 ≤ index
  · cases found : s.idTable[index.toNat]? <;> simp [nonneg, eq_comm]
  · simp [nonneg, eq_comm]

section InitFd

variable (f : Frame) (sockfd : Int)

theorem initFd_server : (f.initFd sockfd).server = f.server := by
  rw [Frame.initFd]
  split <;> rfl

theorem initFd_isFirstArgv : (f.initFd sockfd).isFirstArgv = f.isFirstArgv := by
  rw [Frame.initFd]
  split <;> rfl

theorem initFd_needEraseCliIds : (f.initFd sockfd).needEraseCliIds = f.needEraseCliIds := by
  rw [Frame.initFd]
  split <;> rfl

end InitFd

/-- The outcomes of reading a word, the descriptors having been set back if nothing in this
command has set them. Every invariant of the rounds is shown by cases on this and on `Executes`.
-/
inductive Reads (job : Job) (f : Frame) (word : Str) (rest : List Str) : Step → Prop
  | prog (first : f.isFirstArgv = true) : Reads job f word rest (.again (f.readProg word rest))
  | argument (later : f.isFirstArgv = false) (same : kind word = .argument) :
      Reads job f word rest (.again (f.readArgument word rest))
  | pipe {isError : Bool} {pipeNum : Int} {cli : ClientInfo}
      {created : Int × List PipeFd × Process} (later : f.isFirstArgv = false)
      (same : kind word = if isError then .errorPipe else .pipe)
      (number : NumberedPipes.pipeNum word = some pipeNum)
      (isCli : f.server.clientTable[job.cli]? = some cli)
      (creates : NumberedPipes.createPipe (job.world.pipes rest.length) f.server.process
        cli.pipeVector pipeNum = some created) :
      Reads job f word rest (.again (f.pipeTo job.cli isError created rest))
  | redirectOut {file : Str} {left : List Str} (later : f.isFirstArgv = false)
      (same : kind word = .redirectOut) (follows : rest = file :: left) :
      Reads job f word rest
        (.again (f.redirectOut (openAs (job.world.opens left.length) f.server.process) left))
  | redirectIn {file : Str} {left : List Str} (later : f.isFirstArgv = false)
      (same : kind word = .redirectIn) (follows : rest = file :: left) :
      Reads job f word rest
        (.again (f.redirectIn (openAs (job.world.opens left.length) f.server.process) left))
  | userOut {targetId mark : Int} {cli : ClientInfo} (later : f.isFirstArgv = false)
      (same : kind word = .userOut) (number : UserPipes.userNum word = some targetId)
      (looked : f.server.idAt (targetId - 1) = .ok mark) (marked : mark ≠ 0)
      (isCli : f.server.clientTable[job.cli]? = some cli)
      (fresh : ∀ u ∈ cli.userpipeVector, u.targetId ≠ targetId)
      (can : job.world.pipes rest.length = true) :
      Reads job f word rest (.again (f.sendTo job.cli targetId
        (UserPipes.createUserPipe f.server.process cli.userpipeVector cli.id targetId) rest))
  | userIn {sourceId mark : Int} {sourceCli cli : ClientInfo}
      {taken : UserPipeFd × List UserPipeFd} (later : f.isFirstArgv = false)
      (same : kind word = .userIn) (number : UserPipes.userNum word = some sourceId)
      (looked : f.server.idAt (sourceId - 1) = .ok mark) (marked : mark ≠ 0)
      (isSource : f.server.clientTable[f.server.getClientByID sourceId]? = some sourceCli)
      (isCli : f.server.clientTable[job.cli]? = some cli)
      (takes : UserPipes.markUserPipe sourceCli.id cli.id sourceCli.userpipeVector = some taken) :
      Reads job f word rest
        (.again (f.receiveFrom (f.server.getClientByID sourceId) sourceCli.id taken rest))
  | missing {id : Int} (later : f.isFirstArgv = false)
      (same : kind word = .userOut ∨ kind word = .userIn)
      (number : UserPipes.userNum word = some id) (looked : f.server.idAt (id - 1) = .ok 0) :
      Reads job f word rest (.leave (f.server.write job.sockfd (missingUser id), 0))
  | exists_ {targetId mark : Int} {cli : ClientInfo} {text : Str} (later : f.isFirstArgv = false)
      (same : kind word = .userOut) (number : UserPipes.userNum word = some targetId)
      (looked : f.server.idAt (targetId - 1) = .ok mark) (marked : mark ≠ 0)
      (isCli : f.server.clientTable[job.cli]? = some cli)
      (present : ∃ u ∈ cli.userpipeVector, u.targetId = targetId) :
      Reads job f word rest (.leave (f.server.write job.sockfd text, 0))
  | absent {sourceId mark : Int} {sourceCli cli : ClientInfo} {text : Str}
      (later : f.isFirstArgv = false)
      (same : kind word = .userIn) (number : UserPipes.userNum word = some sourceId)
      (looked : f.server.idAt (sourceId - 1) = .ok mark) (marked : mark ≠ 0)
      (isSource : f.server.clientTable[f.server.getClientByID sourceId]? = some sourceCli)
      (isCli : f.server.clientTable[job.cli]? = some cli)
      (none : UserPipes.markUserPipe sourceCli.id cli.id sourceCli.userpipeVector = none) :
      Reads job f word rest (.leave (f.server.write job.sockfd text, 0))

/-- A pipe operator of either kind is read as the words say. -/
theorem readPipe_reads {job : Job} {f : Frame} {isError : Bool} {word : Str} {rest : List Str}
    {step : Step} (later : f.isFirstArgv = false)
    (same : kind word = if isError then .errorPipe else .pipe)
    (read : readPipe job f isError word rest = .ok step) : Reads job f word rest step := by
  rw [readPipe] at read
  split at read
  · cases read
  · rename_i pipeNum number
    obtain ⟨cli, isCli, read⟩ := bind_eq_ok.mp read
    split at read
    · cases read
    · rename_i created creates
      cases read
      exact .pipe later same number (client_eq_ok.mp isCli) creates

theorem readUserOut_reads {job : Job} {f : Frame} {word : Str} {rest : List Str} {step : Step}
    (later : f.isFirstArgv = false) (same : kind word = .userOut)
    (read : readUserOut job f word rest = .ok step) : Reads job f word rest step := by
  rw [readUserOut] at read
  split at read
  · cases read
  · rename_i targetId number
    obtain ⟨mark, looked, read⟩ := bind_eq_ok.mp read
    split at read
    · rename_i cleared
      subst cleared
      cases read
      exact .missing later (.inl same) number looked
    · rename_i marked
      obtain ⟨cli, isCli, read⟩ := bind_eq_ok.mp read
      split at read
      · rename_i present
        cases read
        exact .exists_ later same number looked marked (client_eq_ok.mp isCli)
          (by simpa using present)
      · rename_i fresh
        split at read
        · rename_i can
          cases read
          exact .userOut later same number looked marked (client_eq_ok.mp isCli)
            (by simpa using fresh) can
        · cases read

theorem readUserIn_reads {job : Job} {f : Frame} {word : Str} {rest : List Str} {step : Step}
    (later : f.isFirstArgv = false) (same : kind word = .userIn)
    (read : readUserIn job f word rest = .ok step) : Reads job f word rest step := by
  rw [readUserIn] at read
  split at read
  · cases read
  · rename_i sourceId number
    obtain ⟨mark, looked, read⟩ := bind_eq_ok.mp read
    split at read
    · rename_i cleared
      subst cleared
      cases read
      exact .missing later (.inr same) number looked
    · rename_i marked
      obtain ⟨sourceCli, isSource, read⟩ := bind_eq_ok.mp read
      obtain ⟨cli, isCli, read⟩ := bind_eq_ok.mp read
      split at read
      · rename_i none
        cases read
        exact .absent later same number looked marked (client_eq_ok.mp isSource)
          (client_eq_ok.mp isCli) none
      · rename_i taken takes
        cases read
        exact .userIn later same number looked marked (client_eq_ok.mp isSource)
          (client_eq_ok.mp isCli) takes

/-- Reading a word does one of the listed things. -/
theorem readWord_reads {job : Job} {frame : Frame} {word : Str} {rest : List Str} {step : Step}
    (read : readWord job frame word rest = .ok step) :
    Reads job (frame.initFd job.sockfd) word rest step := by
  unfold readWord at read
  simp only at read
  split at read
  · rename_i first
    cases read
    exact .prog first
  · rename_i notFirst
    have later : (frame.initFd job.sockfd).isFirstArgv = false := by simpa using notFirst
    split at read
    · rename_i same
      exact readPipe_reads later (by simpa using same) read
    · rename_i same
      exact readPipe_reads later (by simpa using same) read
    · rename_i same
      unfold readRedirectOut at read
      split at read
      · cases read
      · cases read
        exact .redirectOut later same rfl
    · rename_i same
      unfold readRedirectIn at read
      split at read
      · cases read
      · cases read
        exact .redirectIn later same rfl
    · rename_i same
      exact readUserOut_reads later same read
    · rename_i same
      exact readUserIn_reads later same read
    · rename_i same
      cases read
      exact .argument later same

/-- The ways reading a word fails. -/
inductive Fails (job : Job) (f : Frame) (word : Str) (rest : List Str) : Fault → Prop
  | pipeChar (later : f.isFirstArgv = false)
      (same : kind word = .pipe ∨ kind word = .errorPipe)
      (long : NumberedPipes.pipeNum word = none) : Fails job f word rest .pipeChar
  | pipeError {pipeNum : Int} {cli : ClientInfo} (later : f.isFirstArgv = false)
      (same : kind word = .pipe ∨ kind word = .errorPipe)
      (number : NumberedPipes.pipeNum word = some pipeNum)
      (isCli : f.server.clientTable[job.cli]? = some cli)
      (refused : NumberedPipes.createPipe (job.world.pipes rest.length) f.server.process
        cli.pipeVector pipeNum = none) : Fails job f word rest .pipeError
  | userPipeError {targetId mark : Int} {cli : ClientInfo} (later : f.isFirstArgv = false)
      (same : kind word = .userOut) (number : UserPipes.userNum word = some targetId)
      (looked : f.server.idAt (targetId - 1) = .ok mark) (marked : mark ≠ 0)
      (isCli : f.server.clientTable[job.cli]? = some cli)
      (fresh : ∀ u ∈ cli.userpipeVector, u.targetId ≠ targetId)
      (refused : job.world.pipes rest.length = false) : Fails job f word rest .pipeError
  | emptyQueue (later : f.isFirstArgv = false)
      (same : kind word = .redirectOut ∨ kind word = .redirectIn) (last : rest = []) :
      Fails job f word rest .emptyQueue
  | userChar (later : f.isFirstArgv = false) (same : kind word = .userOut ∨ kind word = .userIn)
      (long : UserPipes.userNum word = none) : Fails job f word rest .userChar
  | idTable {id : Int} (later : f.isFirstArgv = false)
      (same : kind word = .userOut ∨ kind word = .userIn)
      (number : UserPipes.userNum word = some id)
      (outside : 0 ≤ id - 1 → f.server.idTable[(id - 1).toNat]? = none) :
      Fails job f word rest .idTable
  | noClient (missing : f.server.clientTable[job.cli]? = none) : Fails job f word rest .endIterator
  | noSource {id mark : Int} (looked : f.server.idAt (id - 1) = .ok mark) (marked : mark ≠ 0)
      (missing : f.server.clientTable[f.server.getClientByID id]? = none) :
      Fails job f word rest .endIterator

/-- A pipe operator fails only for a reason, and with the server as it was. -/
theorem readPipe_fails {job : Job} {f : Frame} {isError : Bool} {word : Str} {rest : List Str}
    {fault : Fault} {s : Server} (later : f.isFirstArgv = false)
    (same : kind word = .pipe ∨ kind word = .errorPipe)
    (failed : readPipe job f isError word rest = .error (fault, s)) :
    s = f.server ∧ Fails job f word rest fault := by
  rw [readPipe] at failed
  split at failed
  · rename_i long
    cases failed
    exact ⟨rfl, .pipeChar later same long⟩
  · rename_i pipeNum number
    rcases bind_eq_error.mp failed with missing | ⟨cli, isCli, failed⟩
    · obtain ⟨none, rfl, rfl⟩ := client_eq_error.mp missing
      exact ⟨rfl, .noClient none⟩
    · split at failed
      · rename_i refused
        cases failed
        exact ⟨rfl, .pipeError later same number (client_eq_ok.mp isCli) refused⟩
      · cases failed

/-- A `>t` fails only for a reason, and with the server as it was. -/
theorem readUserOut_fails {job : Job} {f : Frame} {word : Str} {rest : List Str} {fault : Fault}
    {s : Server} (later : f.isFirstArgv = false) (same : kind word = .userOut)
    (failed : readUserOut job f word rest = .error (fault, s)) :
    s = f.server ∧ Fails job f word rest fault := by
  rw [readUserOut] at failed
  split at failed
  · rename_i long
    cases failed
    exact ⟨rfl, .userChar later (.inl same) long⟩
  · rename_i targetId number
    rcases bind_eq_error.mp failed with outside | ⟨mark, looked, failed⟩
    · obtain ⟨none, rfl, rfl⟩ := idAt_eq_error.mp outside
      exact ⟨rfl, .idTable later (.inl same) number none⟩
    split at failed
    · cases failed
    rename_i marked
    rcases bind_eq_error.mp failed with missing | ⟨cli, isCli, failed⟩
    · obtain ⟨none, rfl, rfl⟩ := client_eq_error.mp missing
      exact ⟨rfl, .noClient none⟩
    split at failed
    · cases failed
    rename_i fresh
    split at failed
    · cases failed
    · rename_i refused
      cases failed
      exact ⟨rfl, .userPipeError later same number looked marked (client_eq_ok.mp isCli)
        (by simpa using fresh) (by simpa using refused)⟩

/-- A `<s` fails only for a reason, and with the server as it was. -/
theorem readUserIn_fails {job : Job} {f : Frame} {word : Str} {rest : List Str} {fault : Fault}
    {s : Server} (later : f.isFirstArgv = false) (same : kind word = .userIn)
    (failed : readUserIn job f word rest = .error (fault, s)) :
    s = f.server ∧ Fails job f word rest fault := by
  rw [readUserIn] at failed
  split at failed
  · rename_i long
    cases failed
    exact ⟨rfl, .userChar later (.inr same) long⟩
  · rename_i sourceId number
    rcases bind_eq_error.mp failed with outside | ⟨mark, looked, failed⟩
    · obtain ⟨none, rfl, rfl⟩ := idAt_eq_error.mp outside
      exact ⟨rfl, .idTable later (.inr same) number none⟩
    split at failed
    · cases failed
    rename_i marked
    rcases bind_eq_error.mp failed with missing | ⟨sourceCli, -, failed⟩
    · obtain ⟨none, rfl, rfl⟩ := client_eq_error.mp missing
      exact ⟨rfl, .noSource looked marked none⟩
    rcases bind_eq_error.mp failed with missing | ⟨cli, -, failed⟩
    · obtain ⟨none, rfl, rfl⟩ := client_eq_error.mp missing
      exact ⟨rfl, .noClient none⟩
    split at failed <;> cases failed

/-- Reading a word fails in one of the listed ways, with the server it started from. -/
theorem readWord_fails {job : Job} {frame : Frame} {word : Str} {rest : List Str} {fault : Fault}
    {s : Server} (failed : readWord job frame word rest = .error (fault, s)) :
    s = frame.server ∧ Fails job (frame.initFd job.sockfd) word rest fault := by
  rw [← initFd_server frame job.sockfd]
  unfold readWord at failed
  simp only at failed
  split at failed
  · cases failed
  · rename_i notFirst
    have later : (frame.initFd job.sockfd).isFirstArgv = false := by simpa using notFirst
    split at failed
    · rename_i same
      exact readPipe_fails later (.inl same) failed
    · rename_i same
      exact readPipe_fails later (.inr same) failed
    · rename_i same
      unfold readRedirectOut at failed
      split at failed
      · cases failed
        exact ⟨rfl, .emptyQueue later (.inl same) rfl⟩
      · cases failed
    · rename_i same
      unfold readRedirectIn at failed
      split at failed
      · cases failed
        exact ⟨rfl, .emptyQueue later (.inr same) rfl⟩
      · cases failed
    · rename_i same
      exact readUserOut_fails later same failed
    · rename_i same
      exact readUserIn_fails later same failed
    · cases failed

/-- Words left and commands waiting to be executed. -/
def Frame.pending (f : Frame) : Nat := 2 * f.cmds.length + if f.isFinalArgv then 1 else 0

/-- Every word read leaves fewer words. -/
theorem Reads.shortens {job : Job} {f next : Frame} {word : Str} {rest : List Str}
    (reads : Reads job f word rest (.again next)) : next.cmds.length ≤ rest.length := by
  cases reads with
  | prog first =>
    simp only [Frame.readProg]
    split <;> simp
  | redirectOut later same follows => simp [Frame.redirectOut, Frame.endLine, follows]
  | redirectIn later same follows => simp [Frame.redirectIn, Frame.endLine, follows]
  | argument | pipe | userOut | userIn => exact Nat.le_refl _

/-- Attaching leaves `in_fd`, if no numbered pipe of the client is due, or takes the read
end of one. -/
theorem attach_cases {f : Frame} {cli : ClientInfo} {p after : Process} {needClosePipe : Bool}
    {inFd : Int} {inPipe : Option Object}
    (attached : attach f cli p = (needClosePipe, inFd, inPipe, after)) :
    ((∀ r ∈ cli.pipeVector, r.count ≠ 0) ∧ inFd = f.inFd ∧ after = p) ∨
      ∃ r ∈ cli.pipeVector, r.count = 0 ∧ inFd = r.outFd ∧
        after = p.closeEnd r.inFd (some (.writeEnd r.made)) := by
  rw [attach] at attached
  split at attached
  · rename_i record closed got
    rw [NumberedPipes.getPipeFd] at got
    split at got
    · rename_i first found
      cases got
      cases attached
      exact .inr ⟨record, List.mem_of_find?_eq_some found, by simpa using List.find?_some found,
        rfl, rfl⟩
    · cases got
  · rename_i none
    cases attached
    rw [NumberedPipes.getPipeFd] at none
    split at none
    · cases none
    · rename_i missing
      exact .inl ⟨by simpa using missing, rfl, rfl⟩

/-- The servers an execution goes through, and the frame it ends in. Each of the servers is
related to the one before by one thing that the execution does. -/
structure Executes (job : Job) (f : Frame) (next : Frame) : Prop where
  steps : ∃ announced cli needClosePipe inFd inPipe p ran status detached erased,
    announce job f = .ok announced ∧ announced.client job.cli = .ok cli ∧
    attach f cli announced.process = (needClosePipe, inFd, inPipe, p) ∧
    builtin ((announced.withProcess p).logged (callOf job f (announced.withProcess p) cli inFd))
      job.cli cli f.arguments = .ok (ran, status) ∧
    detach job ran (needClosePipe || f.needCloseUserpipe) inFd inPipe = .ok detached ∧
    (f.needEraseCliIds ++ [cli.id]).foldlM eraseUsed detached = .ok erased ∧
    next = { f with
      server := erased
      status := status
      inFd := inFd
      inPipe := inPipe
      isFinalArgv := false
      isInRedirect := false
      isInUserpipe := false
      needCloseUserpipe := false
      needEraseCliIds := []
      recvStrId := -1
      sendStrId := -1 }

/-- An execution always goes round again, through the servers listed. -/
theorem execute_executes {job : Job} {f : Frame} {step : Step} (ran : execute job f = .ok step) :
    ∃ next, step = .again next ∧ Executes job f next := by
  rw [execute] at ran
  obtain ⟨announced, announces, ran⟩ := bind_eq_ok.mp ran
  obtain ⟨cli, isCli, ran⟩ := bind_eq_ok.mp ran
  simp only at ran
  obtain ⟨⟨after, status⟩, built, ran⟩ := bind_eq_ok.mp ran
  obtain ⟨detached, detaches, ran⟩ := bind_eq_ok.mp ran
  obtain ⟨erased, erases, ran⟩ := bind_eq_ok.mp ran
  cases ran
  exact ⟨_, rfl, ⟨announced, cli, _, _, _, _, after, status, detached, erased, announces, isCli,
    rfl, built, detaches, erases, rfl⟩⟩

/-- Every further round leaves fewer words, or as many and no complete command. -/
theorem round_decreases (job : Job) (f next : Frame) (again : round job f = .ok (.again next)) :
    next.pending < f.pending := by
  rw [round] at again
  split at again
  · rename_i final
    obtain ⟨_, same, executes⟩ := execute_executes again
    cases same
    obtain ⟨_, _, _, _, _, _, _, _, _, _, -, -, -, -, -, -, rfl⟩ := executes.steps
    simp [Frame.pending, final]
  · rename_i notFinal
    split at again
    · cases again
    · rename_i word rest words
      have fewer : next.cmds.length ≤ rest.length := (readWord_reads again).shortens
      have left : f.cmds.length = rest.length + 1 := by simp [words]
      unfold Frame.pending
      split <;> omega

/-- `ExecCmds` as a loop over its rounds. -/
def cmdLoop (job : Job) : Loop Frame (Server × Int) (Fault × Server) where
  body := round job
  measure := Frame.pending
  decreases := round_decreases job

/-- The frames at the head of the rounds of a line. -/
def frames (job : Job) (s : Server) (cmds : List Str) : List Frame :=
  (cmdLoop job).rounds (Frame.initial s job.sockfd cmds)

/-- `ExecCmds`. -/
def execCmds (job : Job) (s : Server) (cmds : List Str) : Outcome (Server × Int) :=
  (cmdLoop job).run (Frame.initial s job.sockfd cmds)

end NetProg.SingleProc
