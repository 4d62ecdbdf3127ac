import NetProg.Common.Views
import NetProg.SingleProc.KeepsClear

/-!
# Sessions of np_single_proc on the common language

A line of the common language takes no user pipe and reads no redirection but the one
at its end, so the flags that keep the descriptors from one word to the next are down
whenever a word is read. One round is one step of a view then. Beside the pipe that was
due an execution closes the user pipes of the client that are marked used; they are
given up with it.
-/

namespace NetProg.SingleProc

open Common Loops Outcomes NumberedPipes

/-- The socket of the client is all three default descriptors. -/
def defaults (sockfd : Int) : Defaults := ⟨sockfd, sockfd, sockfd⟩

/-- A call without what differs between the shells. -/
def Call.issue (sockfd : Int) (call : Call) : Issue where
  arguments := call.arguments
  lineEnds := call.lineEnds
  isUsingPipe := call.isUsingPipe
  input := port sockfd call.inFd call.inObject
  output := port sockfd call.outFd call.outObject
  error := port sockfd call.errFd call.errObject

/-- The calls after the first `old` ones. -/
def Server.issuesFrom (s : Server) (sockfd : Int) (old : Nat) : List Issue :=
  (s.calls.drop old).map (Call.issue sockfd)

/-- The numbered pipes of the client behind an iterator. -/
def Tables.pipesAt (t : Tables) (iter : Nat) : List PipeFd :=
  match t.holders[iter]? with
  | some h => h.pipeVector
  | none => []

/-- The server with other numbered pipes for one client. -/
def Server.withPipes (s : Server) (iter : Nat) (pipeVector : List PipeFd) (p : Process) : Server :=
  (s.update iter ({ · with pipeVector := pipeVector })).withProcess p

/-- The server with other user pipes for one client. -/
def Server.withUserPipes (s : Server) (iter : Nat) (userpipeVector : List UserPipeFd)
    (p : Process) : Server :=
  (s.update iter ({ · with userpipeVector := userpipeVector })).withProcess p

/-- The view of a frame. -/
def Frame.view (old cli : Nat) (sockfd : Int) (f : Frame) : View where
  process := f.server.process
  pipeVector := f.server.tables.pipesAt cli
  issues := f.server.issuesFrom sockfd old
  words := f.cmds
  isFirst := f.isFirstArgv
  isFinal := f.isFinalArgv
  arguments := f.arguments
  isUsingPipe := f.isUsingPipe
  lineEnds := f.lineEnds
  outFd := f.outFd
  errFd := f.errFd

/-- `ExecCmds` for one client on one line after another. -/
def session (cli : Nat) (sockfd : Int) (s : Server) (lines : List (Str × World)) : Outcome Server :=
  lines.foldlM (fun s line =>
    (execCmds ⟨cli, sockfd, line.1, line.2⟩ s (words line.1)).map Prod.fst) s

/-- What is compared at the end of a session. -/
def outlineFrom (old cli : Nat) (sockfd : Int) : Outcome Server → Outline
  | .ok s => outline true (s.issuesFrom sockfd old) (s.tables.pipesAt cli)
  | .error (_, s) => outline false (s.issuesFrom sockfd old) (s.tables.pipesAt cli)

/-- What the branches make of a word of the common language that is not the first of
its command. -/
inductive CommonKind (word : Str) (rest : List Str) : Kind → Prop
  | pipe (bar : 124 ∈ word) : CommonKind word rest .pipe
  | errorPipe (noBar : 124 ∉ word) (bang : 33 ∈ word) : CommonKind word rest .errorPipe
  | redirectOut {file : Str} (isFile : word = str ">") (follows : rest = [file]) :
      CommonKind word rest .redirectOut
  | argument (noBar : 124 ∉ word) (noBang : 33 ∉ word) (noFile : word ≠ str ">") :
      CommonKind word rest .argument

theorem commonKind {word : Str} {rest : List Str}
    (understood : common false (word :: rest) = true) : CommonKind word rest (kind word) := by
  by_cases bar : 124 ∈ word
  · rw [kind, if_pos bar]
    exact .pipe bar
  by_cases bang : 33 ∈ word
  · rw [kind, if_neg bar, if_pos bang]
    exact .errorPipe bar bang
  by_cases isFile : word = str ">"
  · subst isFile
    rw [common_file] at understood
    match rest, understood with
    | [file], _ =>
      rw [kind, if_neg bar, if_neg bang, if_pos rfl]
      exact .redirectOut rfl rfl
  · rw [common_argument bar bang isFile] at understood
    have noBracket : 62 ∉ word ∧ 60 ∉ word := by
      have solid := understood.1
      simp only [plain, Bool.and_eq_true, Bool.not_eq_true', List.contains_eq_mem,
        decide_eq_false_iff_not] at solid
      exact ⟨solid.1.2, solid.1.1⟩
    have noInput : word ≠ str "<" := by
      rintro rfl
      exact noBracket.2 (by decide)
    rw [kind, if_neg bar, if_neg bang, if_neg isFile, if_neg noInput, if_neg noBracket.1,
      if_neg noBracket.2]
    exact .argument bar bang isFile

/-- The branch of a word that is not the first of its command. -/
theorem laterKind {isFirst : Bool} {word : Str} {rest : List Str} {branch : Kind}
    (understood : common isFirst (word :: rest) = true) (later : isFirst = false)
    (same : kind word = branch) : CommonKind word rest branch := by
  subst later same
  exact commonKind understood

theorem CommonKind.which {word : Str} {rest : List Str} {isError : Bool}
    (known : CommonKind word rest (if isError then .errorPipe else .pipe)) :
    if isError then 124 ∉ word ∧ 33 ∈ word else 124 ∈ word := by
  cases isError with
  | true =>
    cases known with
    | errorPipe noBar bang => exact And.intro noBar bang
  | false =>
    cases known with
    | pipe bar => exact bar

/-- The client of the session: the first with its id, and its socket. Other clients may be there,
but do nothing in a session. -/
structure Serves (cli : Nat) (sockfd : Int) (t : Tables) (h : Holder) : Prop where
  found : t.holders[cli]? = some h
  fd : h.fd = sockfd
  first : t.holders.findIdx (·.id = h.id) = cli

section Serves

variable {cli : Nat} {sockfd : Int} {t : Tables} {h : Holder}

theorem Serves.pipesAt (serves : Serves cli sockfd t h) : t.pipesAt cli = h.pipeVector := by
  rw [Tables.pipesAt, serves.found]

theorem getClientByID_eq (s : Server) (id : Int) :
    s.getClientByID id = s.tables.holders.findIdx (·.id = id) := by
  rw [Server.getClientByID, Server.tables, List.findIdx_map]
  rfl

/-- Other pipes for the client. -/
theorem Serves.shifted (serves : Serves cli sockfd t h) (shift : Holder → Holder) (p : Process)
    (fd : ∀ g, (shift g).fd = g.fd) (id : ∀ g, (shift g).id = g.id) :
    Serves cli sockfd { t with process := p, holders := t.holders.modify cli shift } (shift h) where
  found := by
    rw [List.getElem?_modify_eq, serves.found]
    rfl
  fd := (fd h).trans serves.fd
  first := by
    have ids (l : List Holder) (x : Int) :
        l.findIdx (·.id = x) = (l.map Holder.id).findIdx (· = x) := by
      rw [List.findIdx_map]
      rfl
    have same : (t.holders.modify cli shift).map Holder.id = t.holders.map Holder.id :=
      (map_modify _ cli shift (fun x => x) Holder.id (fun g _ => id g)).trans
        (List.modify_id cli _)
    rw [ids, same, ← ids, id]
    exact serves.first

theorem Serves.process (serves : Serves cli sockfd t h) (p : Process) :
    Serves cli sockfd { t with process := p } h :=
  ⟨serves.found, serves.fd, serves.first⟩

/-- Other numbered pipes for the client, on the server. -/
theorem Serves.withPipes {s : Server} (serves : Serves cli sockfd s.tables h)
    (pipeVector : List PipeFd) (p : Process) : Serves cli sockfd
      (s.withPipes cli pipeVector p).tables { h with pipeVector := pipeVector } := by
  rw [Server.withPipes, tables_pipeVector]
  exact serves.shifted ({ · with pipeVector := pipeVector }) p (fun _ => rfl) (fun _ => rfl)

/-- The client that is served is the same with other user pipes. -/
theorem Serves.withUserPipes {s : Server} (serves : Serves cli sockfd s.tables h)
    (userpipeVector : List UserPipeFd) (p : Process) : Serves cli sockfd
      (s.withUserPipes cli userpipeVector p).tables
      { h with userpipeVector := userpipeVector } := by
  rw [Server.withUserPipes, tables_userpipeVector]
  exact serves.shifted ({ · with userpipeVector := userpipeVector }) p (fun _ => rfl)
    (fun _ => rfl)

end Serves

/-- Nothing of a user pipe is under way, and the descriptors will be set back before
the next word; a complete command reads from the socket. -/
structure Idle (job : Job) (f : Frame) : Prop where
  erase : f.needEraseCliIds = []
  recv : f.recvStrId = -1
  send : f.sendStrId = -1
  close : f.needCloseUserpipe = false
  users : f.isInUserpipe = false
  clean : f.isFinalArgv = false → f.isInRedirect = false
  input : f.isFinalArgv = true → f.inFd = job.sockfd

section Read

variable {job : Job} {f : Frame} {h : Holder} {word : Str} {rest : List Str}

/-- The descriptors are set back. -/
theorem Idle.initFd (idle : Idle job f) (reading : f.isFinalArgv = false) : f.initFd job.sockfd =
    { f with inFd := job.sockfd, outFd := job.sockfd, errFd := job.sockfd } := by
  rw [Frame.initFd, idle.clean reading, idle.users]
  rfl

/-- The program of a shared command takes no words of its own. -/
theorem readProg_shared (notExcluded : excluded.contains word = false) : f.readProg word rest =
    { f with
      prog := word
      arguments := [word]
      cmds := rest
      isFirstArgv := false
      isFinalArgv := rest.isEmpty
      isUsingPipe := false
      lineEnds := f.lineEnds || rest.isEmpty } := by
  have keeps : ¬ (word = str "tell" ∨ word = str "yell") := by
    rintro (rfl | rfl)
    · exact absurd notExcluded (by decide)
    · exact absurd notExcluded (by decide)
  simp only [Frame.readProg, keeps, if_false]

/-- What is known after a word has been read. -/
structure Read (old : Nat) (job : Job) (f : Frame) (word : Str) (rest : List Str) (h : Holder)
    (next : Frame) : Prop where
  reads : (f.view old job.cli job.sockfd).Reads (defaults job.sockfd) job.world word rest
    (next.view old job.cli job.sockfd)
  idle : Idle job next
  calls : next.server.calls = f.server.calls
  serves : ∃ pipeVector, Serves job.cli job.sockfd next.server.tables
    { h with pipeVector := pipeVector }

/-- A file ends the line. -/
theorem redirectOut_view (old : Nat) (opened : Int × Process) :
    ({ f with
      inFd := job.sockfd
      outFd := job.sockfd
      errFd := job.sockfd }.redirectOut opened []).view old job.cli job.sockfd =
      (f.view old job.cli job.sockfd).redirect (defaults job.sockfd) opened [] := by
  simp only [Frame.view, Frame.redirectOut, Frame.endLine, View.redirect, List.isEmpty_nil,
    Bool.or_true]
  rfl

/-- Reading a word of the common language is a step of the view. Nothing is called by it, and of
what the client holds only its numbered pipes may change. -/
theorem readWord_read (old : Nat) (idle : Idle job f) (reading : f.isFinalArgv = false)
    (serves : Serves job.cli job.sockfd f.server.tables h)
    (understood : common f.isFirstArgv (word :: rest) = true) {step : Step}
    (read : readWord job f word rest = .ok step) :
    ∃ next, step = .again next ∧ Read old job f word rest h next := by
  have reads := readWord_reads read
  rw [idle.initFd reading] at reads
  cases reads with
  | prog first =>
    have first : f.isFirstArgv = true := first
    rw [first, common_prog] at understood
    rw [readProg_shared understood.2.1]
    exact ⟨_, rfl, .prog first,
      { idle with clean := fun _ => idle.clean reading, input := fun _ => rfl },
      rfl, h.pipeVector, serves⟩
  | argument later same =>
    cases laterKind understood later same with
    | argument noBar noBang noFile =>
      exact ⟨_, rfl, .argument later noBar noBang noFile,
        { idle with clean := fun _ => idle.clean reading, input := fun _ => rfl },
        rfl, h.pipeVector, serves⟩
  | @pipe isError pipeNum cli created later same number isCli creates =>
    have later : f.isFirstArgv = false := later
    have which := (laterKind understood later same).which
    have isHolder : cli.holder = h :=
      Option.some.inj ((holders_getElem isCli).symm.trans serves.found)
    have isVector : f.server.tables.pipesAt job.cli = cli.pipeVector := by
      rw [serves.pipesAt, ← isHolder]
      rfl
    have creates : createPipe (job.world.pipes rest.length)
        (f.view old job.cli job.sockfd).process (f.view old job.cli job.sockfd).pipeVector pipeNum =
          some created := by
      rw [Frame.view, isVector]
      exact creates
    have served := serves.withPipes created.2.1 created.2.2
    refine ⟨_, rfl, ?_, { idle with clean := fun _ => idle.clean reading, input := fun _ => rfl },
      rfl, created.2.1, served⟩
    have reads := View.Reads.pipe (d := defaults job.sockfd) later which number creates
    have sameVector : ((f.server.update job.cli
      ({ · with pipeVector := created.2.1 })).withProcess created.2.2).tables.pipesAt job.cli =
        created.2.1 := served.pipesAt
    convert reads using 1
    simp only [Frame.view, Frame.pipeTo, View.pipeTo, sameVector]
    rfl
  | @redirectOut file left later same follows =>
    cases laterKind understood later same with
    | @redirectOut other isFile whole =>
      have empty : left = [] := by
        rw [whole] at follows
        exact (List.cons.inj follows).2.symm
      subst empty follows
      have reads : (f.view old job.cli job.sockfd).Reads (defaults job.sockfd) job.world word
          [file] _ := .redirect later isFile rfl
      rw [← redirectOut_view] at reads
      refine ⟨_, rfl, reads, { idle with clean := ?_, input := fun _ => rfl }, rfl, h.pipeVector,
        serves.process _⟩
      intro again
      simp [Frame.redirectOut, Frame.endLine] at again
  | redirectIn later same | userOut later same | userIn later same | exists_ later same
  | absent later same =>
    cases laterKind understood later same
  | missing later same =>
    rcases same with same | same
    · cases laterKind understood later same
    · cases laterKind understood later same

/-- A pipe operator that fails does so in the reference loop too, and leaves the server as it was.
-/
theorem readPipe_fails_view (old : Nat) (isError : Bool)
    (serves : Serves job.cli job.sockfd f.server.tables h) (later : f.isFirstArgv = false)
    (isPipe : 124 ∈ word ∨ 33 ∈ word) {failure : Fault × Server}
    (failed : readPipe job (f.initFd job.sockfd) isError word rest = .error failure) :
    (f.view old job.cli job.sockfd).Fails job.world word rest ∧ failure.2 = f.server := by
  obtain ⟨cli, isCli, sameHolder⟩ := holder_found serves.found
  have isVector : f.server.tables.pipesAt job.cli = cli.pipeVector := by
    rw [serves.pipesAt, ← sameHolder]
    rfl
  rw [readPipe, initFd_server] at failed
  split at failed
  · rename_i long
    cases failed
    exact ⟨.pipeChar later isPipe long, rfl⟩
  · rename_i count number
    rw [client_eq_ok.mpr isCli] at failed
    simp only [bind, Except.bind] at failed
    split at failed
    · rename_i refused
      cases failed
      rw [← isVector] at refused
      exact ⟨.pipeError later isPipe number refused, rfl⟩
    · cases failed

/-- Reading a word fails only where the view fails. -/
theorem readWord_fails_view (old : Nat) (serves : Serves job.cli job.sockfd f.server.tables h)
    (understood : common f.isFirstArgv (word :: rest) = true) {failure : Fault × Server}
    (failed : readWord job f word rest = .error failure) :
    (f.view old job.cli job.sockfd).Fails job.world word rest ∧ failure.2 = f.server := by
  unfold readWord at failed
  simp only [initFd_isFirstArgv] at failed
  split at failed
  · cases failed
  · rename_i notFirst
    have later : f.isFirstArgv = false := by simpa using notFirst
    rw [later] at understood
    have known := commonKind understood
    generalize kind word = kind at known failed
    cases known with
    | pipe bar => exact readPipe_fails_view old false serves later (.inl bar) failed
    | errorPipe noBar bang => exact readPipe_fails_view old true serves later (.inr bang) failed
    | redirectOut isFile follows =>
      subst follows
      cases failed
    | argument noBar noBang noFile => cases failed

end Read

section Execute

variable {job : Job} {f : Frame} {h : Holder}

/-- A shared command that has its arguments leaves the tables and the calls. -/
theorem builtin_complete {arguments : List Str} (shared : Shared arguments)
    (complete : runs arguments = true) (s : Server) (iter : Nat) (cli : ClientInfo) :
    ∃ ran status, builtin s iter cli arguments = .ok (ran, status) ∧ ran.tables = s.tables ∧
      ran.calls = s.calls := by
  have program := shared.program
  rw [complete] at program
  cases program with
  | printenv var rest =>
    refine ⟨printEnv s cli var, 0, rfl, ?_⟩
    rw [printEnv]
    split <;> exact ⟨rfl, rfl⟩
  | setenv var val rest =>
    refine ⟨_, 0, rfl, ?_, rfl⟩
    exact (builtin_keeps s iter cli (str "setenv" :: var :: val :: rest)).returned rfl
  | @other prog rest solid notPrintenv notSetenv notExcluded =>
    simp only [excluded, List.mem_cons, List.not_mem_nil, or_false, not_or] at notExcluded
    obtain ⟨notTell, notYell, notWho, notName, notExit⟩ := notExcluded
    refine ⟨s, 0, ?_, rfl, rfl⟩
    have first : arg s (prog :: rest) 0 = .ok prog := rfl
    rw [builtin, first]
    simp [bind, Except.bind, pure, Except.pure, notPrintenv, notSetenv, notExit, notTell, notYell,
      notWho, notName]

/-- One that has not fails. -/
theorem builtin_incomplete {arguments : List Str} (shared : Shared arguments)
    (missing : runs arguments = false) (s : Server) (iter : Nat) (cli : ClientInfo) :
    ∃ failure, builtin s iter cli arguments = .error failure ∧ failure.2.tables = s.tables ∧
      failure.2.calls = s.calls := by
  have program := shared.program
  rw [missing] at program
  cases program with
  | noName => exact ⟨_, rfl, rfl, rfl⟩
  | noVariable => exact ⟨_, rfl, rfl, rfl⟩
  | noValue var =>
    refine ⟨_, rfl, ?_, rfl⟩
    exact (builtin_keeps s iter cli [str "setenv", var]).raised rfl

theorem issuesFrom_logged {s : Server} {old : Nat} (enough : old ≤ s.calls.length) (sockfd : Int)
    (call : Call) : (s.logged call).issuesFrom sockfd old =
      s.issuesFrom sockfd old ++ [call.issue sockfd] := by
  rw [Server.issuesFrom, Server.logged, List.drop_append_of_le_length enough, List.map_append]
  rfl

/-- Nothing of a user pipe is told. -/
theorem announce_quiet (idle : Idle job f) {c : ClientInfo}
    (isCli : f.server.clientTable[job.cli]? = some c) : announce job f = .ok f.server := by
  rw [announce, client_eq_ok.mpr isCli, idle.recv, idle.send]
  rfl

/-- The input of the command, as the view has it. -/
theorem attach_view (old : Nat) (idle : Idle job f) (final : f.isFinalArgv = true)
    {c : ClientInfo} (isVector : f.server.tables.pipesAt job.cli = c.pipeVector) :
    (attach f c f.server.process).2.1 =
      (f.view old job.cli job.sockfd).inFd (defaults job.sockfd) ∧
    (attach f c f.server.process).2.2.2 = (f.view old job.cli job.sockfd).attached ∧
    (if (attach f c f.server.process).1 then
      (f.view old job.cli job.sockfd).erased.closeEnd (attach f c f.server.process).2.1
        (attach f c f.server.process).2.2.1
    else (f.view old job.cli job.sockfd).erased) = (f.view old job.cli job.sockfd).closed := by
  have same : (f.view old job.cli job.sockfd).pipeVector = c.pipeVector := isVector
  rw [View.inFd, View.attached, View.closed, same, attach]
  cases got : NumberedPipes.getPipeFd c.pipeVector f.server.process with
  | none =>
    have none : NumberedPipes.getPipeFd c.pipeVector
      (f.view old job.cli job.sockfd).process = none := got
    rw [none]
    exact ⟨idle.input final, rfl, rfl⟩
  | some taken =>
    obtain ⟨record, after⟩ := taken
    have some : NumberedPipes.getPipeFd c.pipeVector
      (f.view old job.cli job.sockfd).process = some (record, after) := got
    rw [some]
    exact ⟨rfl, rfl, rfl⟩

/-- Detaching the input of the client that is served: its due pipe is erased, the others count
down, and the end it has read is closed if the command is to close it. -/
theorem detach_serves {s : Server} (serves : Serves job.cli job.sockfd s.tables h)
    (needClose : Bool) (inFd : Int) (inPipe : Option Object) : detach job s needClose inFd inPipe =
      .ok (s.withPipes job.cli (countdownPipeVector (erasePipeVector h.pipeVector s.process).1)
        (if needClose then (erasePipeVector h.pipeVector s.process).2.closeEnd inFd inPipe
        else (erasePipeVector h.pipeVector s.process).2)) := by
  obtain ⟨c, isCli, rfl⟩ := holder_found serves.found
  rw [detach, client_eq_ok.mpr isCli]
  rfl

/-- The user pipes of the client itself. -/
theorem eraseUsed_serves {s : Server} (serves : Serves job.cli job.sockfd s.tables h) :
    eraseUsed s h.id = .ok (s.withUserPipes job.cli
      (UserPipes.eraseUserPipeVector h.userpipeVector s.process).1
      (UserPipes.eraseUserPipeVector h.userpipeVector s.process).2) := by
  obtain ⟨c, isCli, rfl⟩ := holder_found serves.found
  have iter : s.getClientByID c.holder.id = job.cli :=
    (getClientByID_eq s c.holder.id).trans serves.first
  rw [eraseUsed, iter, client_eq_ok.mpr isCli]
  rfl

/-- The frame after an execution. -/
def Frame.finished (f : Frame) (server : Server) (status inFd : Int) (inPipe : Option Object) :
    Frame :=
  { f with
    server := server
    status := status
    inFd := inFd
    inPipe := inPipe
    isFinalArgv := false
    isInRedirect := false
    isInUserpipe := false
    needCloseUserpipe := false
    needEraseCliIds := []
    recvStrId := -1
    sendStrId := -1 }

/-- The server after an execution: the pipe that was due is gone, and so are the user
pipes of the client that were used. -/
def Server.done (ran : Server) (cli : Nat) (h : Holder) (p : Process) : Server :=
  (ran.withPipes cli (countdownPipeVector (erasePipeVector h.pipeVector ran.process).1)
    p).withUserPipes cli (UserPipes.eraseUserPipeVector h.userpipeVector p).1
      (UserPipes.eraseUserPipeVector h.userpipeVector p).2

/-- An execution in which nothing of a user pipe is under way, by its parts. -/
theorem execute_eq (idle : Idle job f) {c : ClientInfo}
    (isCli : f.server.clientTable[job.cli]? = some c) {needClosePipe : Bool} {inFd status : Int}
    {inPipe : Option Object} {p : Process} {ran : Server}
    (attaches : attach f c f.server.process = (needClosePipe, inFd, inPipe, p))
    (returns : builtin ((f.server.withProcess p).logged
      (callOf job f (f.server.withProcess p) c inFd)) job.cli c f.arguments = .ok (ran, status))
    (serves : Serves job.cli job.sockfd ran.tables c.holder) : execute job f =
      .ok (.again (f.finished (ran.done job.cli c.holder (if needClosePipe then
          (erasePipeVector c.holder.pipeVector ran.process).2.closeEnd inFd inPipe
        else (erasePipeVector c.holder.pipeVector ran.process).2)) status inFd inPipe)) := by
  have detached := detach_serves serves needClosePipe inFd inPipe
  generalize (if needClosePipe then
    (erasePipeVector c.holder.pipeVector ran.process).2.closeEnd inFd inPipe
    else (erasePipeVector c.holder.pipeVector ran.process).2) = after at detached ⊢
  have erased : eraseUsed (ran.withPipes job.cli (countdownPipeVector
      (erasePipeVector c.holder.pipeVector ran.process).1) after) c.id = _ :=
    eraseUsed_serves (serves.withPipes _ after)
  simp only [execute, announce_quiet idle isCli, client_eq_ok.mpr isCli, attaches, returns,
    idle.close, Bool.or_false, detached, idle.erase, List.nil_append, List.foldlM_cons,
    List.foldlM_nil, erased, bind, Except.bind, pure, Except.pure]
  rfl

/-- What is known after an execution. -/
structure Executed (old : Nat) (job : Job) (f : Frame) (h : Holder) (next : Frame) : Prop where
  view : next.view old job.cli job.sockfd =
    (f.view old job.cli job.sockfd).executed (defaults job.sockfd)
      (UserPipes.eraseUserPipeVector h.userpipeVector
        (f.view old job.cli job.sockfd).closed).2
  idle : Idle job next
  enough : old ≤ next.server.calls.length
  serves : ∃ pipeVector, Serves job.cli job.sockfd next.server.tables
    { h with pipeVector := pipeVector, userpipeVector := h.userpipeVector.filter (! ·.isUsed) }

/-- The server of a complete command, after what `ExecCmd` has done in the process. -/
theorem done_executed (old : Nat) (serves : Serves job.cli job.sockfd f.server.tables h)
    (enough : old ≤ f.server.calls.length) {ran : Server} {call : Call}
    (tables : ran.tables = { f.server.tables with
      process := (f.view old job.cli job.sockfd).attached })
    (calls : ran.calls = f.server.calls ++ [call])
    (isCall : call.issue job.sockfd =
      (f.view old job.cli job.sockfd).issue (defaults job.sockfd)) (status inFd : Int)
    (inPipe : Option Object) : Executed old job f h (f.finished
      (ran.done job.cli h (f.view old job.cli job.sockfd).closed) status inFd inPipe) := by
  have ranServes : Serves job.cli job.sockfd ran.tables h := by
    rw [tables]
    exact serves.process _
  have doneServes : Serves job.cli job.sockfd
      (ran.done job.cli h (f.view old job.cli job.sockfd).closed).tables { h with
        pipeVector := countdownPipeVector (erasePipeVector h.pipeVector ran.process).1
        userpipeVector := (UserPipes.eraseUserPipeVector h.userpipeVector
          (f.view old job.cli job.sockfd).closed).1 } :=
    (ranServes.withPipes _ (f.view old job.cli job.sockfd).closed).withUserPipes _ _
  have vector : (f.view old job.cli job.sockfd).pipeVector = h.pipeVector := serves.pipesAt
  have issues : (ran.done job.cli h (f.view old job.cli job.sockfd).closed).issuesFrom
      job.sockfd old = (f.view old job.cli job.sockfd).issues ++
        [(f.view old job.cli job.sockfd).issue (defaults job.sockfd)] := by
    rw [← isCall]
    refine Eq.trans ?_ (issuesFrom_logged enough job.sockfd call)
    exact congrArg (fun calls : List Call => (calls.drop old).map (Call.issue job.sockfd)) calls
  refine ⟨?_, ⟨rfl, rfl, rfl, rfl, rfl, fun _ => rfl, fun again => by cases again⟩, ?_, ?_⟩
  · have sameVector := doneServes.pipesAt
    simp only [erasePipeVector_fst, ← vector] at sameVector
    rw [View.executed, ← issues, ← sameVector]
    rfl
  · have length : (ran.done job.cli h (f.view old job.cli job.sockfd).closed).calls =
        f.server.calls ++ [call] := calls
    simp only [Frame.finished, length, List.length_append]
    omega
  · rw [← UserPipes.eraseUserPipeVector_fst _ (f.view old job.cli job.sockfd).closed]
    exact ⟨_, doneServes⟩

/-- A complete command that has its arguments is an execution of the view. -/
theorem execute_complete (old : Nat) (idle : Idle job f) (final : f.isFinalArgv = true)
    (serves : Serves job.cli job.sockfd f.server.tables h) (enough : old ≤ f.server.calls.length)
    (shared : Shared f.arguments) (complete : runs f.arguments = true) :
    ∃ next, execute job f = .ok (.again next) ∧ Executed old job f h next := by
  obtain ⟨c, isCli, rfl⟩ := holder_found serves.found
  have vector : f.server.tables.pipesAt job.cli = c.pipeVector := serves.pipesAt
  obtain ⟨isIn, isProcess, isClosed⟩ := attach_view old idle final vector
  generalize attaches : attach f c f.server.process = attached at isIn isProcess isClosed
  obtain ⟨needClosePipe, inFd, inPipe, p⟩ := attached
  simp only at isIn isProcess isClosed
  obtain ⟨ran, status, returns, tables, calls⟩ := builtin_complete shared complete
    ((f.server.withProcess p).logged (callOf job f (f.server.withProcess p) c inFd)) job.cli c
  have ranServes : Serves job.cli job.sockfd ran.tables c.holder := by
    rw [tables]
    exact serves.process p
  have executed := execute_eq idle isCli attaches returns ranServes
  have isErased : (erasePipeVector c.holder.pipeVector ran.process).2 =
      (f.view old job.cli job.sockfd).erased := by
    have ranProcess : ran.process = (f.view old job.cli job.sockfd).attached :=
      (congrArg Tables.process tables).trans isProcess
    rw [ranProcess, View.erased, show (f.view old job.cli job.sockfd).pipeVector =
      c.holder.pipeVector from vector]
  rw [isErased, isClosed] at executed
  have isCall : (callOf job f (f.server.withProcess p) c inFd).issue job.sockfd =
      (f.view old job.cli job.sockfd).issue (defaults job.sockfd) := by
    rw [isIn, isProcess]
    rfl
  rw [isProcess] at tables
  exact ⟨_, executed, done_executed old serves enough tables calls isCall status inFd inPipe⟩

/-- One that has not is called all the same. -/
theorem execute_incomplete (old : Nat) (idle : Idle job f) (final : f.isFinalArgv = true)
    (serves : Serves job.cli job.sockfd f.server.tables h) (enough : old ≤ f.server.calls.length)
    (shared : Shared f.arguments) (missing : runs f.arguments = false) :
    ∃ failure, execute job f = .error failure ∧
      outlineFrom old job.cli job.sockfd (.error failure) = outline false
        ((f.view old job.cli job.sockfd).issues ++
          [(f.view old job.cli job.sockfd).issue (defaults job.sockfd)])
        (f.view old job.cli job.sockfd).pipeVector := by
  obtain ⟨c, isCli, rfl⟩ := holder_found serves.found
  have vector : f.server.tables.pipesAt job.cli = c.pipeVector := serves.pipesAt
  obtain ⟨isIn, isProcess, -⟩ := attach_view old idle final vector
  generalize attaches : attach f c f.server.process = attached at isIn isProcess
  obtain ⟨needClosePipe, inFd, inPipe, p⟩ := attached
  simp only at isIn isProcess
  obtain ⟨failure, fails, tables, calls⟩ := builtin_incomplete shared missing
    ((f.server.withProcess p).logged (callOf job f (f.server.withProcess p) c inFd)) job.cli c
  have failed : execute job f = .error failure := by
    simp only [execute, announce_quiet idle isCli, client_eq_ok.mpr isCli, attaches, fails, bind,
      Except.bind]
  have isCall : (callOf job f (f.server.withProcess p) c inFd).issue job.sockfd =
      (f.view old job.cli job.sockfd).issue (defaults job.sockfd) := by
    rw [isIn, isProcess]
    rfl
  have issues : failure.2.issuesFrom job.sockfd old = (f.view old job.cli job.sockfd).issues ++
      [(f.view old job.cli job.sockfd).issue (defaults job.sockfd)] := by
    rw [← isCall]
    refine Eq.trans ?_ (issuesFrom_logged enough job.sockfd _)
    exact congrArg (fun calls : List Call => (calls.drop old).map (Call.issue job.sockfd)) calls
  have sameVector : failure.2.tables.pipesAt job.cli =
      (f.view old job.cli job.sockfd).pipeVector := by
    rw [tables]
    rfl
  refine ⟨failure, failed, ?_⟩
  obtain ⟨fault, s⟩ := failure
  rw [outlineFrom, issues, sameVector]

end Execute

/-- What a session relies on besides numbered pipes and files: the socket, and the read
ends of the user pipes that are about to be closed. -/
def Holder.reliesOn (h : Holder) : List (Int × Object) :=
  (h.fd, .socket h.made) :: UserPipes.ends (h.userpipeVector.filter (·.isUsed))

/-- The server behind a state of the reference shell, between two lines. -/
def Holds (old cli : Nat) (sockfd : Int) (s : Server) (t : State) : Prop :=
  old ≤ s.calls.length ∧ ∃ h files g, Serves cli sockfd s.tables h ∧
    Tracks g s.process (s.tables.pipesAt cli) (files ++ h.reliesOn) t (s.issuesFrom sockfd old)

/-- Both have failed with the same. -/
def FailsAlike (old cli : Nat) (sockfd : Int) (failure : Fault × Server) (t : State) : Prop :=
  outlineFrom old cli sockfd (.error failure) = .ofResult (.error t)

/-- The server at the head of a round, behind the reference shell. The entries of other clients
are numbers that the shell of this one has besides its own. -/
def Related (old : Nat) (job : Job) (f : Frame) (r : Common.Frame) : Prop :=
  Idle job f ∧ old ≤ f.server.calls.length ∧ ∃ h files g,
    Serves job.cli job.sockfd f.server.tables h ∧
    Behind (defaults job.sockfd) g (files ++ h.reliesOn) (f.view old job.cli job.sockfd) r

section Follow

variable {job : Job} {f : Frame} {h : Holder} {old : Nat} {r : Common.Frame}

/-- The socket is there for all three. -/
theorem defaults_socket (files : List (Int × Object)) {sockfd : Int} (fd : h.fd = sockfd) :
    IsDefault (files ++ h.reliesOn) (defaults sockfd).input ∧
      IsDefault (files ++ h.reliesOn) (defaults sockfd).output ∧
      IsDefault (files ++ h.reliesOn) (defaults sockfd).error := by
  have socket : (sockfd, Object.socket h.made) ∈ files ++ h.reliesOn := by
    rw [← fd]
    exact List.mem_append_right _ List.mem_cons_self
  exact ⟨.inr ⟨_, socket⟩, .inr ⟨_, socket⟩, .inr ⟨_, socket⟩⟩

/-- Everything that was given up is closed, the used user pipes with the rest. -/
theorem erased_account {files : List (Int × Object)} {g : Nat → Nat} {v : View} {d : Defaults}
    (behind : Behind d g (files ++ h.reliesOn) v r) :
    Account False (UserPipes.eraseUserPipeVector h.userpipeVector v.closed).2
      ((files ++ [(h.fd, .socket h.made)]) ++ ends (v.pipeVector.filter (·.count ≠ 0))) [] := by
  have parts : ((files ++ [(h.fd, Object.socket h.made)]) ++
      UserPipes.ends (h.userpipeVector.filter (·.isUsed))).Perm (files ++ h.reliesOn) := by
    rw [List.append_assoc]
    exact List.Perm.refl _
  refine (UserPipes.eraseUserPipeVector_account (behind.closed parts) ?_).forget
  intro record member used
  have isMarked : record ∈ h.userpipeVector.filter (·.isUsed) := List.mem_filter.mpr ⟨member, used⟩
  refine List.mem_append_left _ (UserPipes.mem_ends isMarked ?_)
  rw [UserPipeFd.ends, if_pos used]
  exact List.mem_cons_self

/-- One round of the loop in relation to the reference shell. -/
abbrev RoundRefines (old : Nat) (job : Job) (f : Frame) (r : Common.Frame) : Prop :=
  (cmdLoop job).Refines (refLoop job.world) (Related old job)
    (fun result t => Holds old job.cli job.sockfd result.1 t)
    (FailsAlike old job.cli job.sockfd) f r

/-- Reading a word of the common language. -/
theorem read_follows (related : Related old job f r) (reading : f.isFinalArgv = false) {word : Str}
    {rest : List Str} (left : f.cmds = word :: rest) : RoundRefines old job f r := by
  obtain ⟨idle, enough, h, files, g, serves, behind⟩ := related
  have reads : round job f = readWord job f word rest := by
    rw [round, if_neg (by simp [reading]), left]
  have understood : common f.isFirstArgv (word :: rest) = true := by
    rw [← left, show f.isFirstArgv = r.isFirst from behind.isFirst,
      show f.cmds = r.words from behind.words]
    exact behind.understood
  cases read : readWord job f word rest with
  | error failure =>
    obtain ⟨fails, same⟩ := readWord_fails_view old serves understood read
    refine .fail (reads.trans read) (behind.fails reading left fails) ?_
    obtain ⟨fault, s⟩ := failure
    cases same
    exact behind.tracks.outline_error
  | ok step =>
    obtain ⟨next, rfl, isRead⟩ := readWord_read old idle reading serves understood read
    obtain ⟨more, g', twin, same, behindNext⟩ := behind.reads reading left isRead.reads
    obtain ⟨pipeVector, nextServes⟩ := isRead.serves
    rw [← List.append_assoc] at behindNext
    refine .again (reads.trans read) same ⟨isRead.idle, ?_, _, _, _, nextServes, behindNext⟩
    rw [isRead.calls]
    exact enough

/-- An execution. -/
theorem execute_follows (related : Related old job f r) (final : f.isFinalArgv = true) :
    RoundRefines old job f r := by
  obtain ⟨idle, enough, h, files, g, serves, behind⟩ := related
  have executes : round job f = execute job f := if_pos final
  have shared : Shared f.arguments := by
    rw [show f.arguments = r.arguments from behind.arguments]
    exact behind.command (.inl (behind.isFinal ▸ final))
  cases complete : runs f.arguments with
  | true =>
    obtain ⟨next, ran, executed⟩ := execute_complete old idle final serves enough shared complete
    obtain ⟨pipeVector, nextServes⟩ := executed.serves
    have relies : ({ h with
        pipeVector := pipeVector
        userpipeVector := h.userpipeVector.filter (! ·.isUsed) } : Holder).reliesOn =
          [(h.fd, Object.socket h.made)] := by
      rw [Holder.reliesOn, List.filter_filter]
      simp
    have made := (UserPipes.made_eraseUserPipeVector h.userpipeVector
      (f.view old job.cli job.sockfd).closed).trans (View.made_closed _)
    have defaults := defaults_socket files nextServes.fd
    rw [relies] at defaults
    obtain ⟨twin, same, behindNext⟩ := behind.executes job.world final complete
      (erased_account behind) made defaults
    rw [← executed.view, ← relies] at behindNext
    exact .again (executes.trans ran) same
      ⟨executed.idle, executed.enough, _, files, g, nextServes, behindNext⟩
  | false =>
    obtain ⟨failure, ran, alike⟩ := execute_incomplete old idle final serves enough shared complete
    obtain ⟨t, failed, same⟩ := behind.incomplete job.world final complete
    exact .fail (executes.trans ran) failed (alike.trans same)

theorem round_follows (related : Related old job f r) : RoundRefines old job f r := by
  cases final : f.isFinalArgv with
  | true => exact execute_follows related final
  | false =>
    cases left : f.cmds with
    | cons word rest => exact read_follows related final left
    | nil =>
      obtain ⟨-, enough, h, files, g, serves, behind⟩ := related
      have leaves : round job f = .ok (.leave (f.server, f.status)) := by
        rw [round, if_neg (by simp [final]), left]
      have empty : r.words = [] := behind.words.symm.trans left
      exact .leave leaves (run_empty (behind.isFinal.symm.trans final) empty)
        ⟨enough, h, files, g, serves, behind.tracks⟩

end Follow

/-- A line of the common language: the loop and the reference loop come to the same, or fail
alike, by the rule for a loop that refines another one. -/
theorem execCmds_follows {old : Nat} (job : Job) {s : Server} {t : State}
    (holds : Holds old job.cli job.sockfd s t) {line : List Str}
    (understood : common true line = true) :
    Parallel (fun result t => Holds old job.cli job.sockfd result.1 t)
      (FailsAlike old job.cli job.sockfd) (execCmds job s line)
      ((refLoop job.world).run (.initial t line)) := by
  obtain ⟨enough, h, files, g, serves, tracks⟩ := holds
  have start : Related old job (.initial s job.sockfd line) (.initial t line) :=
    ⟨⟨rfl, rfl, rfl, rfl, rfl, fun _ => rfl, fun again => by cases again⟩, enough, h, files, g,
      serves, .initial tracks (defaults_socket files serves.fd) understood⟩
  exact (cmdLoop job).run_refines (fun _ _ related => round_follows related) start

/-- A session on the common language is one of the reference shell. -/
theorem session_follows {old cli : Nat} {sockfd : Int} {s : Server} {t : State}
    (holds : Holds old cli sockfd s t) {lines : List (Str × World)}
    (understood : ∀ line ∈ lines, common true (words line.1) = true) :
    Parallel (Holds old cli sockfd) (FailsAlike old cli sockfd) (session cli sockfd s lines)
      (Common.session t lines) := by
  rw [session, Common.session]
  refine Parallel.foldlM ?_ holds
  intro line member before twin holds
  exact (execCmds_follows ⟨cli, sockfd, line.1, line.2⟩ holds
    (understood line member)).map_left

/-- A client at the start of a session: no numbered pipes, a socket, and of the user pipes
it has sent those that are marked used still stand for their read ends. -/
structure Ready (s : Server) (cli : Nat) (c : ClientInfo) : Prop where
  found : s.clientTable[cli]? = some c
  first : s.getClientByID c.id = cli
  account : Account False s.process c.holder.reliesOn []
  pipes : c.pipeVector = []

/-- Where the tables are settled, as between the lines of clients that keep clear of
user-pipe errors, every client without numbered pipes can start a session. -/
theorem Settled.ready {honest : Prop} {s : Server} (settled : Settled honest s.tables) {cli : Nat}
    {c : ClientInfo} (found : s.clientTable[cli]? = some c) (empty : c.pipeVector = []) :
    Ready s cli c where
  found := found
  pipes := empty
  first := by
    have member : c.id ∈ s.tables.holders.map Holder.id :=
      List.mem_map.mpr ⟨c.holder, List.mem_of_getElem? (holders_getElem found), rfl⟩
    obtain ⟨d, isFirst⟩ := getClientByID_found member
    have sameId : d.holder.id = c.holder.id := getClientByID_id isFirst
    have ids : (s.tables.holders.map Holder.id)[s.getClientByID c.id]? =
        (s.tables.holders.map Holder.id)[cli]? := by
      rw [List.getElem?_map, List.getElem?_map, holders_getElem isFirst, holders_getElem found]
      exact congrArg some sameId
    have bound : s.getClientByID c.id < (s.tables.holders.map Holder.id).length := by
      rw [List.length_map]
      exact (List.getElem?_eq_some_iff.mp (holders_getElem isFirst)).1
    exact (List.getElem?_inj bound settled.agree.distinct).mp ids
  account := by
    have member : c.holder ∈ s.tables.holders := List.mem_of_getElem? (holders_getElem found)
    have unmarked : c.holder.userpipeVector.filter (·.isUsed) = [] := by
      have none := List.flatMap_eq_nil_iff.mp settled.unmarked c.holder member
      exact List.map_eq_nil_iff.mp none
    have socket : (c.holder.fd, Object.socket c.holder.made) ∈ s.tables.entries :=
      List.mem_cons_of_mem _ (List.mem_flatMap.mpr ⟨c.holder, member, List.mem_cons_self⟩)
    rw [Holder.reliesOn, unmarked]
    have account : Account False s.process s.tables.entries [] :=
      { settled.account with proper := fun impossible => impossible.elim }
    refine account.weaken _ _ ?_ ?_
    · simpa [UserPipes.ends] using socket
    · simpa [UserPipes.ends] using socket

/-- The outline of a session is that of the reference shell. -/
theorem session_outline {s : Server} {cli : Nat} {c : ClientInfo} (ready : Ready s cli c)
    {lines : List (Str × World)}
    (understood : ∀ line ∈ lines, common true (words line.1) = true) :
    outlineFrom s.calls.length cli c.fd (session cli c.fd s lines) =
      .ofResult (Common.session .initial lines) := by
  have serves : Serves cli c.fd s.tables c.holder :=
    ⟨holders_getElem ready.found, rfl, (getClientByID_eq s c.id).symm.trans ready.first⟩
  have holds : Holds s.calls.length cli c.fd s .initial := by
    refine ⟨Nat.le_refl _, c.holder, [], id, serves, ?_⟩
    have issues : s.issuesFrom c.fd s.calls.length = [] := by
      rw [Server.issuesFrom, List.drop_length, List.map_nil]
    have vector : s.tables.pipesAt cli = [] := serves.pipesAt.trans ready.pipes
    rw [issues, vector]
    exact .initial ready.account
  have parallel := session_follows holds understood
  generalize session cli c.fd s lines = ended at parallel
  generalize Common.session .initial lines = twin at parallel
  cases parallel with
  | ok holds =>
    obtain ⟨-, h, files, g, serves, tracks⟩ := holds
    exact tracks.outline_ok
  | error alike => exact alike

end NetProg.SingleProc
