import NetProg.MultiProc.Links
import NetProg.SingleProc.Sessions

/-!
# Sessions of np_multi_proc on the common language

The loop of the multi-process server differs from that of the single-process one in its
descriptors, which are the standard ones, and in what else happens in the process: the
handler of a signal may open FIFOs between any two rounds. Those take numbers, but none
the shell calls with. One round is one step of a view again.
-/

namespace NetProg.MultiProc

open Common Loops Outcomes NumberedPipes
open SingleProc (kind commonKind laterKind)

/-- The standard descriptors. -/
def defaults : Defaults := ⟨0, 1, 2⟩

/-- A call without what differs between the shells. -/
def Call.issue (call : Call) : Issue where
  arguments := call.arguments
  lineEnds := call.lineEnds
  isUsingPipe := call.isUsingPipe
  input := port 0 call.inFd call.inObject
  output := port 1 call.outFd call.outObject
  error := port 2 call.errFd call.errObject

/-- The calls after the first `old` ones. -/
def Shell.issuesFrom (s : Shell) (old : Nat) : List Issue := (s.calls.drop old).map Call.issue

/-- The view of a frame, with the shell of its client. -/
def Frame.viewOf (old : Nat) (f : Frame) (s : Shell) : View where
  process := s.process
  pipeVector := s.pipeVector
  issues := s.issuesFrom old
  words := f.cmds
  isFirst := f.isFirstArgv
  isFinal := f.isFinalArgv
  arguments := f.arguments
  isUsingPipe := f.isUsingPipe
  lineEnds := f.lineEnds
  outFd := f.outFd
  errFd := f.errFd

/-- What the frame has to do with the reference loop, for the shell of one client. -/
def Frame.view (old curId : Nat) (f : Frame) : View := f.viewOf old (f.shell curId)

/-- `ExecCmds` for one client on one line after another, each with its schedule. -/
def session (curId : Nat) (g : Server) (lines : List ((Str × World) × (Nat → Writer → Bool))) :
    Outcome Server :=
  lines.foldlM (fun g line =>
    (execCmds ⟨curId, line.1.1, line.1.2, line.2⟩ g (words line.1.1)).map Prod.fst) g

/-- What is compared at the end of a session. -/
def outlineFrom (old curId : Nat) : Outcome Server → Outline
  | .ok g => outline true ((g.shells curId).issuesFrom old) (g.shells curId).pipeVector
  | .error (_, g) => outline false ((g.shells curId).issuesFrom old) (g.shells curId).pipeVector

section Resume

variable {holds : Shell → Prop}

/-- What stays true of a shell when files are opened in its process, stays true of it
while the handlers run. -/
theorem opensToRead_keeps (opens : ∀ s, holds s → holds (s.withProcess s.process.openFile.2))
    {g : Server} {id : Nat} (held : holds (g.shells id)) (sourceId targetId : Nat) :
    holds ((g.opensToRead sourceId targetId).shells id) := by
  by_cases same : id = targetId
  · subst same
    have shell : (g.opensToRead sourceId id).shells id =
        (g.shells id).withProcess (g.shells id).process.openFile.2 := if_pos rfl
    rw [shell]
    exact opens _ held
  · have shell : (g.opensToRead sourceId targetId).shells id = g.shells id := if_neg same
    rw [shell]
    exact held

theorem openFifos_keeps (opens : ∀ s, holds s → holds (s.withProcess s.process.openFile.2))
    {g : Server} {id : Nat} (held : holds (g.shells id)) (targetId : Nat) (sources : List Nat) :
    holds ((g.openFifos targetId sources).shells id) := by
  induction sources generalizing g with
  | nil => exact held
  | cons sourceId rest ih =>
    rw [Server.openFifos]
    split
    · split
      · rename_i writer _
        have wrote : holds ((g.opensToWrite writer).shells id) := held
        exact ih (opensToRead_keeps opens wrote sourceId targetId)
      · exact held
    · exact ih held

theorem handle_keeps (opens : ∀ s, holds s → holds (s.withProcess s.process.openFile.2))
    {g : Server} {id : Nat} (held : holds (g.shells id)) (targetId : Nat) (sources : List Nat) :
    holds ((g.handle targetId sources).shells id) := by
  have once := openFifos_keeps opens held targetId sources
  rw [Server.handle]
  split
  · have quiet : holds (((g.openFifos targetId sources).withSignal targetId false).shells id) := once
    exact openFifos_keeps opens quiet targetId ids
  · exact once

theorem setUserPipeOut_keeps (opens : ∀ s, holds s → holds (s.withProcess s.process.openFile.2))
    {g : Server} {id : Nat} (held : holds (g.shells id)) (writer : Writer) :
    holds ((g.setUserPipeOut writer).2.shells id) := by
  rw [Server.setUserPipeOut]
  split
  · exact held
  split
  · have wrote : holds ((g.opensToWrite writer).shells id) := held
    exact handle_keeps opens (opensToRead_keeps opens wrote _ _) _ _
  split
  · exact held
  · exact held

/-- Children that come to their `open`. -/
theorem resume_keeps (opens : ∀ s, holds s → holds (s.withProcess s.process.openFile.2))
    {g : Server} {id : Nat} (held : holds (g.shells id)) (now : Writer → Bool) :
    holds ((g.resume now).shells id) := by
  have all (writers : List Writer) {h : Server} (held : holds (h.shells id)) :
      holds ((writers.foldl (fun h writer => (h.setUserPipeOut writer).2) h).shells id) := by
    induction writers generalizing h with
    | nil => exact held
    | cons writer rest ih => exact ih (setUserPipeOut_keeps opens held writer)
  exact all (g.forked.filter now) held

end Resume

/-- Nothing of a user pipe is under way, and the descriptors will be set back before
the next word; a complete command reads from the standard input. -/
structure Idle (f : Frame) : Prop where
  recv : f.recvStrId = -1
  send : f.sendStrId = -1
  source : f.sourceId = -1
  target : f.targetId = -1
  users : f.isInUserpipe = false
  clean : f.isFinalArgv = false → f.isInRedirect = false
  input : f.isFinalArgv = true → f.inFd = 0

section Read

variable {job : Job} {f : Frame} {word : Str} {rest : List Str}

/-- The descriptors are set back. -/
theorem Idle.initFd (idle : Idle f) (reading : f.isFinalArgv = false) :
    f.initFd = { f with inFd := 0, outFd := 1, errFd := 2 } := by
  rw [Frame.initFd, idle.clean reading, idle.users]
  rfl

/-- The program of a shared command takes no words of its own. -/
theorem readProg_shared (notExcluded : excluded.contains word = false) : f.readProg word rest =
    { f with
      prog := word
      arguments := [word]
      cmds := rest
      isFirstArgv := false
      isFinalArgv := rest.isEmpty
      isUsingPipe := false
      lineEnds := f.lineEnds || rest.isEmpty } := by
  have keeps : ¬ (word = str "tell" ∨ word = str "yell") := by
    rintro (rfl | rfl)
    · exact absurd notExcluded (by decide)
    · exact absurd notExcluded (by decide)
  simp only [Frame.readProg, keeps, if_false]

/-- What is known after a word has been read. -/
structure Read (old : Nat) (job : Job) (f : Frame) (word : Str) (rest : List Str) (next : Frame) :
    Prop where
  reads : (f.view old job.curId).Reads defaults job.world word rest (next.view old job.curId)
  idle : Idle next
  calls : (next.shell job.curId).calls = (f.shell job.curId).calls

/-- A file ends the line. -/
theorem redirectOut_view (old : Nat) (opened : Int × Process) :
    ({ f with inFd := 0, outFd := 1, errFd := 2 }.redirectOut job.curId opened []).view
      old job.curId = (f.view old job.curId).redirect defaults opened [] := by
  have shell : ({ f with inFd := 0, outFd := 1, errFd := 2 }.redirectOut job.curId
      opened []).shell job.curId = (f.shell job.curId).withProcess opened.2 :=
    shells_onShell f.server job.curId (·.withProcess opened.2)
  rw [Frame.view, shell]
  simp only [Frame.viewOf, Frame.redirectOut, Frame.endLine, View.redirect, List.isEmpty_nil,
    Bool.or_true]
  rfl

theorem pipeTo_view (old : Nat) (isError : Bool) (created : Int × List PipeFd × Process) :
    ({ f with inFd := 0, outFd := 1, errFd := 2 }.pipeTo job.curId isError created rest).view
      old job.curId = (f.view old job.curId).pipeTo defaults isError created rest := by
  have shell : ({ f with inFd := 0, outFd := 1, errFd := 2 }.pipeTo job.curId isError
      created rest).shell job.curId = (f.shell job.curId).withPipes created.2.1 created.2.2 :=
    shells_onShell f.server job.curId (·.withPipes created.2.1 created.2.2)
  rw [Frame.view, shell]
  rfl

/-- Reading a word of the common language is a step of the view. None of the branches for user
pipes reads such a word, so nothing of one gets under way. -/
theorem readWord_read (old : Nat) (idle : Idle f) (reading : f.isFinalArgv = false)
    (understood : common f.isFirstArgv (word :: rest) = true) {step : Pass}
    (read : readWord job f word rest = .ok step) :
    ∃ next, step = .again next ∧ Read old job f word rest next := by
  have reads := readWord_reads read
  rw [idle.initFd reading] at reads
  cases reads with
  | prog first =>
    have first : f.isFirstArgv = true := first
    rw [first, common_prog] at understood
    rw [readProg_shared understood.2.1]
    exact ⟨_, rfl, .prog first,
      { idle with clean := fun _ => idle.clean reading, input := fun _ => rfl }, rfl⟩
  | argument later same =>
    cases laterKind understood later same with
    | argument noBar noBang noFile =>
      exact ⟨_, rfl, .argument later noBar noBang noFile,
        { idle with clean := fun _ => idle.clean reading, input := fun _ => rfl }, rfl⟩
  | @pipe isError pipeNum created later same number creates =>
    have later : f.isFirstArgv = false := later
    have which := (laterKind understood later same).which
    have reads : (f.view old job.curId).Reads defaults job.world word rest _ :=
      .pipe later which number creates
    rw [← pipeTo_view] at reads
    have calls := congrArg Shell.calls
      (shells_onShell f.server job.curId (·.withPipes created.2.1 created.2.2))
    exact ⟨_, rfl, reads,
      { idle with clean := fun _ => idle.clean reading, input := fun _ => rfl }, calls⟩
  | @redirectOut file left later same follows =>
    cases laterKind understood later same with
    | @redirectOut other isFile whole =>
      have empty : left = [] := by
        rw [whole] at follows
        exact (List.cons.inj follows).2.symm
      subst empty follows
      have reads : (f.view old job.curId).Reads defaults job.world word [file] _ :=
        .redirect later isFile rfl
      rw [← redirectOut_view] at reads
      have calls := congrArg Shell.calls (shells_onShell f.server job.curId
        (·.withProcess (openAs (job.world.opens 0) (f.shell job.curId).process).2))
      refine ⟨_, rfl, reads, { idle with clean := ?_, input := fun _ => rfl }, calls⟩
      intro again
      simp [Frame.redirectOut, Frame.endLine] at again
  | redirectIn later same | userOut later same | userIn later same =>
    cases laterKind understood later same
  | refused later same =>
    rcases same with same | same
    · cases laterKind understood later same
    · cases laterKind understood later same

/-- A pipe operator that fails does so in the reference loop too, and leaves the server as it was.
-/
theorem readPipe_fails_view (old : Nat) (isError : Bool) (later : f.isFirstArgv = false)
    (isPipe : 124 ∈ word ∨ 33 ∈ word) {failure : Fault × Server}
    (failed : readPipe job f.initFd isError word rest = .error failure) :
    (f.view old job.curId).Fails job.world word rest ∧ failure.2 = f.server := by
  have shell : f.initFd.shell job.curId = f.shell job.curId := by
    rw [Frame.shell, initFd_server, Frame.shell]
  rw [readPipe, initFd_server, shell] at failed
  split at failed
  · rename_i long
    cases failed
    exact ⟨.pipeChar later isPipe long, rfl⟩
  · rename_i count number
    split at failed
    · rename_i refused
      cases failed
      exact ⟨.pipeError later isPipe number refused, rfl⟩
    · cases failed

/-- Reading a word fails only where the view fails. -/
theorem readWord_fails_view (old : Nat)
    (understood : common f.isFirstArgv (word :: rest) = true) {failure : Fault × Server}
    (failed : readWord job f word rest = .error failure) :
    (f.view old job.curId).Fails job.world word rest ∧ failure.2 = f.server := by
  unfold readWord at failed
  simp only [initFd_isFirstArgv] at failed
  split at failed
  · cases failed
  · rename_i notFirst
    have later : f.isFirstArgv = false := by simpa using notFirst
    rw [later] at understood
    have known := commonKind understood
    generalize kind word = kind at known failed
    cases known with
    | pipe bar => exact readPipe_fails_view old false later (.inl bar) failed
    | errorPipe noBar bang => exact readPipe_fails_view old true later (.inr bang) failed
    | redirectOut isFile follows =>
      subst follows
      cases failed
    | argument noBar noBang noFile => cases failed

end Read

section Parts

variable (job : Job) {f : Frame}

/-- A shared command that has its arguments logs its call and leaves the rest of the shell that
matters: its descriptors and its pipes. A child is forked for it, or it is one of the built-in
ones. -/
theorem execCmd_complete (target : f.targetId = -1) (shared : Shared f.arguments)
    (complete : runs f.arguments = true) : ∃ ran status, execCmd job f = .ok (ran, status) ∧
      (ran.shells job.curId).process = (f.shell job.curId).process ∧
      (ran.shells job.curId).pipeVector = (f.shell job.curId).pipeVector ∧
      (ran.shells job.curId).calls = (f.shell job.curId).calls ++ [callOf job f] := by
  have logged := shells_onShell f.server job.curId (·.logged (callOf job f))
  have program := shared.program
  rw [complete] at program
  rw [execCmd]
  generalize f.server.onShell job.curId (·.logged (callOf job f)) = called at logged ⊢
  have after (change : Shell → Shell) (keeps : ∀ s, (change s).process = s.process ∧
      (change s).pipeVector = s.pipeVector ∧ (change s).calls = s.calls) :
      ((called.onShell job.curId change).shells job.curId).process =
        (f.shell job.curId).process ∧
      ((called.onShell job.curId change).shells job.curId).pipeVector =
        (f.shell job.curId).pipeVector ∧
      ((called.onShell job.curId change).shells job.curId).calls =
        (f.shell job.curId).calls ++ [callOf job f] := by
    rw [shells_onShell, logged]
    exact keeps _
  cases arguments : f.arguments with
  | nil =>
    rw [arguments] at program
    cases program
  | cons prog rest =>
    rw [arguments] at program
    cases program with
    | printenv var rest =>
      refine ⟨_, _, rfl, after (·.printEnv (cstr var)) (fun s => ?_)⟩
      rw [Shell.printEnv]
      split <;> exact ⟨rfl, rfl, rfl⟩
    | setenv var val rest =>
      exact ⟨_, _, rfl, after (·.setEnv (cstr var) (cstr val)) (fun _ => ⟨rfl, rfl, rfl⟩)⟩
    | other _ solid notPrintenv notSetenv notExcluded =>
      have forks : builtins.contains prog = false := by
        simp only [excluded, List.mem_cons, List.not_mem_nil, or_false, not_or] at notExcluded
        simp [builtins, notPrintenv, notSetenv, notExcluded]
      refine ⟨called, 0, ?_, ?_⟩
      · simp only [solid, forks, fork, target]
        rfl
      · rw [logged]
        exact ⟨rfl, rfl, rfl⟩

/-- One that has not fails, with its call logged. -/
theorem execCmd_incomplete (shared : Shared f.arguments) (missing : runs f.arguments = false) :
    ∃ fault, execCmd job f =
      .error (fault, f.server.onShell job.curId (·.logged (callOf job f))) := by
  have program := shared.program
  rw [missing] at program
  rw [execCmd]
  cases arguments : f.arguments with
  | nil =>
    rw [arguments] at program
    cases program
  | cons prog rest =>
    rw [arguments] at program
    cases program with
    | noName => exact ⟨_, rfl⟩
    | noVariable => exact ⟨_, rfl⟩
    | noValue var => exact ⟨_, rfl⟩

theorem issuesFrom_logged {s : Shell} {old : Nat} (enough : old ≤ s.calls.length) {call : Call}
    {t : Shell} (calls : t.calls = s.calls ++ [call]) :
    t.issuesFrom old = s.issuesFrom old ++ [call.issue] := by
  rw [Shell.issuesFrom, calls, List.drop_append_of_le_length enough, List.map_append]
  rfl

/-- Nothing of a user pipe is told. -/
theorem announce_quiet (idle : Idle f) :
    announceRecv job f = .ok f ∧ announceSend job f = .ok f := by
  rw [announceRecv, announceSend, idle.recv, idle.send]
  exact ⟨rfl, rfl⟩

/-- Nothing of a user pipe is forgotten. -/
theorem forget_quiet (source : f.sourceId = -1) (target : f.targetId = -1) :
    forget job f = f := by
  rw [forget, source, target]
  simp [source]

/-- What taking the pipe that is due leaves. -/
structure Attached (old : Nat) (job : Job) (f after : Frame) : Prop where
  shell : after.shell job.curId = (f.shell job.curId).withProcess (f.view old job.curId).attached
  inFd : after.inFd = (f.view old job.curId).inFd defaults
  closed : (if after.needClosePipe then
      (f.view old job.curId).erased.closeEnd after.inFd after.inPipe
    else (f.view old job.curId).erased) = (f.view old job.curId).closed
  rest : ∃ g inFd inPipe needClosePipe, after = { f with
    server := g, inFd := inFd, inPipe := inPipe, needClosePipe := needClosePipe }

theorem attach_attached (old : Nat) (idle : Idle f) (final : f.isFinalArgv = true) :
    Attached old job f (attach job f) := by
  rw [attach]
  cases got : NumberedPipes.getPipeFd (f.shell job.curId).pipeVector
      (f.shell job.curId).process with
  | none =>
    have none : NumberedPipes.getPipeFd (f.view old job.curId).pipeVector
      (f.view old job.curId).process = none := got
    constructor
    · rw [View.attached, none]
      rfl
    · rw [View.inFd, none]
      exact idle.input final
    · rw [View.closed, none]
      rfl
    · exact ⟨_, _, _, _, rfl⟩
  | some taken =>
    obtain ⟨record, after⟩ := taken
    have some : NumberedPipes.getPipeFd (f.view old job.curId).pipeVector
      (f.view old job.curId).process = some (record, after) := got
    constructor
    · rw [View.attached, some]
      exact shells_onShell f.server job.curId (·.withProcess after)
    · rw [View.inFd, some]
      rfl
    · rw [View.closed, some]
      rfl
    · exact ⟨_, _, _, _, rfl⟩

/-- The shell after the closes. -/
theorem closeIn_shell (called : Frame) : (closeIn job (erase job called)).shell job.curId =
    (called.shell job.curId).withPipes
      (countdownPipeVector (erasePipeVector (called.shell job.curId).pipeVector
        (called.shell job.curId).process).1)
      (if called.needClosePipe then (erasePipeVector (called.shell job.curId).pipeVector
          (called.shell job.curId).process).2.closeEnd called.inFd called.inPipe
        else (erasePipeVector (called.shell job.curId).pipeVector
          (called.shell job.curId).process).2) := by
  have erased : (erase job called).shell job.curId = (called.shell job.curId).withPipes
      (countdownPipeVector (erasePipeVector (called.shell job.curId).pipeVector
        (called.shell job.curId).process).1)
      (erasePipeVector (called.shell job.curId).pipeVector
        (called.shell job.curId).process).2 :=
    shells_onShell called.server job.curId (·.withPipes _ _)
  rw [closeIn]
  split
  · rename_i close
    have isClose : called.needClosePipe = true := close
    have closed := shells_onShell (erase job called).server job.curId
      (fun s => s.withProcess (s.process.closeEnd called.inFd called.inPipe))
    refine closed.trans ?_
    rw [show (erase job called).server.shells job.curId = _ from erased, isClose]
    rfl
  · rename_i close
    have isOpen : ¬ called.needClosePipe = true := close
    rw [erased, if_neg isOpen]

/-- The closes change the server alone. -/
theorem closeIn_rest (called : Frame) :
    ∃ g, closeIn job (erase job called) = { called with server := g } := by
  rw [closeIn]
  split
  · exact ⟨_, rfl⟩
  · exact ⟨_, rfl⟩

end Parts

/-- What is known after an execution. -/
structure Executed (old : Nat) (job : Job) (f next : Frame) : Prop where
  view : next.view old job.curId =
    (f.view old job.curId).executed defaults (f.view old job.curId).closed
  idle : Idle next
  enough : old ≤ (next.shell job.curId).calls.length

section Execute

variable {job : Job} {f : Frame}

/-- The frame after a command that has been called. -/
def Frame.called (f : Frame) (ran : Server) (status : Int) : Frame :=
  { f with
    server := ran
    status := status
    isFinalArgv := false
    isInRedirect := false
    isInUserpipe := false }

/-- An execution in which nothing of a user pipe is under way, by its parts. -/
theorem execute_eq (idle : Idle f) {ran : Server} {status : Int}
    (returns : execCmd job (attach job f) = .ok (ran, status)) : execute job f =
      .ok (.again (forget job (closeIn job (erase job ((attach job f).called ran status))))) := by
  obtain ⟨received, sent⟩ := announce_quiet job idle
  simp only [execute, received, sent, call, returns, bind, Except.bind, pure, Except.pure]
  rfl

/-- The call of a complete command, as the view has it. -/
theorem callOf_issue {old : Nat} {after : Frame} (attached : Attached old job f after) :
    (callOf job after).issue = (f.view old job.curId).issue defaults := by
  have process : (after.shell job.curId).process = (f.view old job.curId).attached := by
    rw [attached.shell]
    rfl
  have input := attached.inFd
  obtain ⟨g, inFd, inPipe, needClosePipe, same⟩ := attached.rest
  have outFd : after.outFd = f.outFd := by rw [same]
  have errFd : after.errFd = f.errFd := by rw [same]
  have arguments : after.arguments = f.arguments := by rw [same]
  have lineEnds : after.lineEnds = f.lineEnds := by rw [same]
  have isUsingPipe : after.isUsingPipe = f.isUsingPipe := by rw [same]
  simp only [callOf, Call.issue, process, input, outFd, errFd, arguments, lineEnds, isUsingPipe]
  rfl

/-- After what `ExecCmd` and the closes have done, the view has executed the command: the due pipe
was taken for the input and closed behind it, and the other records have counted down. -/
theorem called_executed {old : Nat} {after : Frame} (attached : Attached old job f after)
    (idle : Idle f) (enough : old ≤ (f.shell job.curId).calls.length) {ran : Server} {status : Int}
    (isProcess : (ran.shells job.curId).process = (after.shell job.curId).process)
    (vector : (ran.shells job.curId).pipeVector = (after.shell job.curId).pipeVector)
    (calls : (ran.shells job.curId).calls = (after.shell job.curId).calls ++ [callOf job after]) :
    Executed old job f (closeIn job (erase job (after.called ran status))) := by
  obtain ⟨done, isDone⟩ := closeIn_rest job (after.called ran status)
  have isShell := closeIn_shell job (after.called ran status)
  have ranProcess : (ran.shells job.curId).process = (f.view old job.curId).attached := by
    rw [isProcess, attached.shell]
    rfl
  have ranVector : (ran.shells job.curId).pipeVector = (f.view old job.curId).pipeVector := by
    rw [vector, attached.shell]
    rfl
  have ranCalls : (ran.shells job.curId).calls =
      (f.shell job.curId).calls ++ [callOf job after] := by
    rw [calls, attached.shell]
    rfl
  have called : ((after.called ran status).shell job.curId) = ran.shells job.curId := rfl
  rw [called, ranProcess, ranVector] at isShell
  have closed : (if (after.called ran status).needClosePipe then
      (erasePipeVector (f.view old job.curId).pipeVector
        (f.view old job.curId).attached).2.closeEnd (after.called ran status).inFd
        (after.called ran status).inPipe
    else (erasePipeVector (f.view old job.curId).pipeVector
      (f.view old job.curId).attached).2) = (f.view old job.curId).closed := attached.closed
  rw [closed, erasePipeVector_fst] at isShell
  have isCalls : ((closeIn job (erase job (after.called ran status))).shell job.curId).calls =
      (f.shell job.curId).calls ++ [callOf job after] := by
    rw [isShell]
    exact ranCalls
  obtain ⟨g, inFd, inPipe, needClosePipe, same⟩ := attached.rest
  refine ⟨?_, ?_, ?_⟩
  · have issues : ((closeIn job (erase job (after.called ran status))).shell
        job.curId).issuesFrom old = (f.view old job.curId).issues ++
          [(f.view old job.curId).issue defaults] := by
      rw [← callOf_issue attached]
      exact issuesFrom_logged enough isCalls
    rw [Frame.view, Frame.viewOf, issues, isShell, isDone, same]
    rfl
  · rw [isDone, same]
    exact ⟨idle.recv, idle.send, idle.source, idle.target, rfl, fun _ => rfl,
      fun again => by cases again⟩
  · rw [isCalls, List.length_append]
    omega

/-- A complete command that has its arguments is an execution of the view. -/
theorem execute_complete (old : Nat) (idle : Idle f) (final : f.isFinalArgv = true)
    (enough : old ≤ (f.shell job.curId).calls.length) (shared : Shared f.arguments)
    (complete : runs f.arguments = true) :
    ∃ next, execute job f = .ok (.again next) ∧ Executed old job f next := by
  have attached := attach_attached job old idle final
  generalize taken : attach job f = after at attached
  obtain ⟨g, inFd, inPipe, needClosePipe, same⟩ := attached.rest
  have target : after.targetId = -1 := by
    rw [same]
    exact idle.target
  have arguments : after.arguments = f.arguments := by rw [same]
  obtain ⟨ran, status, returns, isProcess, vector, calls⟩ :=
    execCmd_complete job target (arguments ▸ shared) (arguments ▸ complete)
  have executed := execute_eq idle (taken ▸ returns)
  rw [taken] at executed
  obtain ⟨done, isDone⟩ := closeIn_rest job (after.called ran status)
  have source : (closeIn job (erase job (after.called ran status))).sourceId = -1 := by
    rw [isDone, same]
    exact idle.source
  have noTarget : (closeIn job (erase job (after.called ran status))).targetId = -1 := by
    rw [isDone]
    exact target
  rw [forget_quiet job source noTarget] at executed
  refine ⟨_, executed, called_executed attached idle enough isProcess vector calls⟩

/-- One that has not is called all the same. -/
theorem execute_incomplete (old : Nat) (idle : Idle f) (final : f.isFinalArgv = true)
    (enough : old ≤ (f.shell job.curId).calls.length) (shared : Shared f.arguments)
    (missing : runs f.arguments = false) :
    ∃ failure, execute job f = .error failure ∧
      outlineFrom old job.curId (.error failure) = outline false
        ((f.view old job.curId).issues ++ [(f.view old job.curId).issue defaults])
        (f.view old job.curId).pipeVector := by
  have attached := attach_attached job old idle final
  generalize taken : attach job f = after at attached
  obtain ⟨g, inFd, inPipe, needClosePipe, same⟩ := attached.rest
  have arguments : after.arguments = f.arguments := by rw [same]
  obtain ⟨fault, fails⟩ :=
    execCmd_incomplete job (arguments ▸ shared) (arguments ▸ missing)
  have failed : execute job f =
      .error (fault, after.server.onShell job.curId (·.logged (callOf job after))) := by
    obtain ⟨received, sent⟩ := announce_quiet job idle
    simp only [execute, received, sent, call, taken, fails, bind, Except.bind]
  have logged := shells_onShell after.server job.curId (·.logged (callOf job after))
  have vector : (after.shell job.curId).pipeVector = (f.view old job.curId).pipeVector := by
    rw [attached.shell]
    rfl
  have calls : (after.shell job.curId).calls = (f.shell job.curId).calls := by
    rw [attached.shell]
    rfl
  refine ⟨_, failed, ?_⟩
  have issues : ((after.server.onShell job.curId (·.logged (callOf job after))).shells
      job.curId).issuesFrom old = (f.view old job.curId).issues ++
        [(f.view old job.curId).issue defaults] := by
    rw [← callOf_issue attached]
    refine issuesFrom_logged enough ?_
    rw [logged, ← calls]
    rfl
  rw [outlineFrom, issues, logged]
  exact congrArg (outline false _) vector

end Execute

/-- The shell of a client behind a state of the reference shell, between two lines. -/
def Holds (old curId : Nat) (g : Server) (t : State) : Prop :=
  old ≤ (g.shells curId).calls.length ∧ ∃ h live,
    Tracks h (g.shells curId).process (g.shells curId).pipeVector live t
      ((g.shells curId).issuesFrom old)

/-- Both have failed with the same. -/
def FailsAlike (old curId : Nat) (failure : Fault × Server) (t : State) : Prop :=
  outlineFrom old curId (.error failure) = .ofResult (.error t)

/-- The frame at the head of a round, behind the reference shell. Nothing of a user pipe is under
way there. -/
def Related (old : Nat) (job : Job) (f : Frame) (r : Common.Frame) : Prop :=
  Idle f ∧ old ≤ (f.shell job.curId).calls.length ∧ ∃ h live,
    Behind defaults h live (f.view old job.curId) r

section Follow

variable {job : Job} {f : Frame} {old : Nat} {r : Common.Frame}

/-- The standard descriptors are there. -/
theorem defaults_standard (live : List (Int × Object)) : IsDefault live defaults.input ∧
    IsDefault live defaults.output ∧ IsDefault live defaults.error :=
  ⟨.inl (by decide), .inl (by decide), .inl (by decide)⟩

/-- Children that come to their `open` open files of the process at most. -/
theorem Related.resume (related : Related old job f r) (now : Writer → Bool) :
    Related old job (f.withServer (f.server.resume now)) r := by
  obtain ⟨idle, held⟩ := related
  refine ⟨⟨idle.recv, idle.send, idle.source, idle.target, idle.users, idle.clean, idle.input⟩, ?_⟩
  have opens (s : Shell) (held : old ≤ s.calls.length ∧ ∃ h live,
      Behind defaults h live (f.viewOf old s) r) :
      old ≤ (s.withProcess s.process.openFile.2).calls.length ∧ ∃ h live,
        Behind defaults h live (f.viewOf old (s.withProcess s.process.openFile.2)) r := by
    obtain ⟨enough, h, live, behind⟩ := held
    exact ⟨enough, h, _, behind.besides⟩
  exact resume_keeps opens held now

/-- What a round does once the children have come, in relation to the reference shell. -/
inductive Advances (old : Nat) (job : Job) (f : Frame) (r : Common.Frame) : Prop
  | again {next : Frame} {twin : Common.Frame} (ran : advance job f = .ok (.again next))
      (rounds : (refLoop job.world).run r = (refLoop job.world).run twin)
      (related : Related old job next twin)
  | leave {result : Server × Int} {t : State} (ran : advance job f = .ok (.leave result))
      (ends : (refLoop job.world).run r = .ok t) (holds : Holds old job.curId result.1 t)
  | fail {failure : Fault × Server} {t : State} (ran : advance job f = .error failure)
      (ends : (refLoop job.world).run r = .error t) (alike : FailsAlike old job.curId failure t)

/-- Reading a word of the common language. -/
theorem read_follows (related : Related old job f r) (reading : f.isFinalArgv = false) {word : Str}
    {rest : List Str} (left : f.cmds = word :: rest) : Advances old job f r := by
  obtain ⟨idle, enough, h, live, behind⟩ := related
  have reads : advance job f = readWord job f word rest := by
    rw [advance, if_neg (by simp [reading]), left]
  have understood : common f.isFirstArgv (word :: rest) = true := by
    rw [← left, show f.isFirstArgv = r.isFirst from behind.isFirst,
      show f.cmds = r.words from behind.words]
    exact behind.understood
  cases read : readWord job f word rest with
  | error failure =>
    obtain ⟨fails, same⟩ := readWord_fails_view old understood read
    refine .fail (reads.trans read) (behind.fails reading left fails) ?_
    obtain ⟨fault, g⟩ := failure
    cases same
    exact behind.tracks.outline_error
  | ok step =>
    obtain ⟨next, rfl, isRead⟩ := readWord_read old idle reading understood read
    obtain ⟨more, g, twin, same, behindNext⟩ := behind.reads reading left isRead.reads
    refine .again (reads.trans read) same ⟨isRead.idle, ?_, _, _, behindNext⟩
    rw [isRead.calls]
    exact enough

/-- An execution. -/
theorem execute_follows (related : Related old job f r) (final : f.isFinalArgv = true) :
    Advances old job f r := by
  obtain ⟨idle, enough, h, live, behind⟩ := related
  have executes : advance job f = execute job f := if_pos final
  have shared : Shared f.arguments := by
    rw [show f.arguments = r.arguments from behind.arguments]
    exact behind.command (.inl (behind.isFinal ▸ final))
  cases complete : runs f.arguments with
  | true =>
    obtain ⟨next, ran, executed⟩ := execute_complete old idle final enough shared complete
    have parts : (live ++ []).Perm live := by
      rw [List.append_nil]
    obtain ⟨twin, same, behindNext⟩ := behind.executes job.world final complete
      (behind.closed parts).forget (View.made_closed _) (defaults_standard live)
    rw [← executed.view] at behindNext
    exact .again (executes.trans ran) same ⟨executed.idle, executed.enough, h, live, behindNext⟩
  | false =>
    obtain ⟨failure, ran, alike⟩ := execute_incomplete old idle final enough shared complete
    obtain ⟨t, failed, same⟩ := behind.incomplete job.world final complete
    exact .fail (executes.trans ran) failed (alike.trans same)

theorem advance_follows (related : Related old job f r) : Advances old job f r := by
  cases final : f.isFinalArgv with
  | true => exact execute_follows related final
  | false =>
    cases left : f.cmds with
    | cons word rest => exact read_follows related final left
    | nil =>
      obtain ⟨-, enough, h, live, behind⟩ := related
      have leaves : advance job f = .ok (.leave (f.server, f.status)) := by
        rw [advance, if_neg (by simp [final]), left]
      have empty : r.words = [] := behind.words.symm.trans left
      exact .leave leaves (run_empty (behind.isFinal.symm.trans final) empty)
        ⟨enough, h, live, behind.tracks⟩

theorem round_follows (related : Related old job f r) :
    (cmdLoop job).Refines (refLoop job.world) (Related old job)
      (fun result t => Holds old job.curId result.1 t) (FailsAlike old job.curId) f r := by
  cases advance_follows (related.resume (job.comes f.cmds.length)) with
  | again ran rounds still => exact .again ran rounds still
  | leave ran ends holds => exact .leave ran ends holds
  | fail ran ends alike => exact .fail ran ends alike

end Follow

/-- A line of the common language: the loop and the reference loop come to the same, or fail
alike, whatever the schedule of the children is. -/
theorem execCmds_follows {old : Nat} (job : Job) {g : Server} {t : State}
    (holds : Holds old job.curId g t) {line : List Str} (understood : common true line = true) :
    Parallel (fun result t => Holds old job.curId result.1 t) (FailsAlike old job.curId)
      (execCmds job g line) ((refLoop job.world).run (.initial t line)) := by
  obtain ⟨enough, h, live, tracks⟩ := holds
  have start : Related old job (.initial g line) (.initial t line) :=
    ⟨⟨rfl, rfl, rfl, rfl, rfl, fun _ => rfl, fun again => by cases again⟩, enough, h, live,
      .initial tracks (defaults_standard live) understood⟩
  exact (cmdLoop job).run_refines (fun _ _ related => round_follows related) start

/-- A session on the common language is one of the reference shell, whatever else
happens in the process. -/
theorem session_follows {old curId : Nat} {g : Server} {t : State} (holds : Holds old curId g t)
    {lines : List ((Str × World) × (Nat → Writer → Bool))}
    (understood : ∀ line ∈ lines, common true (words line.1.1) = true) :
    Parallel (Holds old curId) (FailsAlike old curId) (session curId g lines)
      (Common.session t (lines.map Prod.fst)) := by
  rw [session, Common.session, List.foldlM_map]
  refine Parallel.foldlM ?_ holds
  intro line member before twin holds
  exact (execCmds_follows ⟨curId, line.1.1, line.1.2, line.2⟩ holds
    (understood line member)).map_left

/-- A client at the start of a session: no numbered pipes, and the standard descriptors
of its process are open. -/
structure Ready (g : Server) (curId : Nat) : Prop where
  standard : ∀ n : Int, 0 ≤ n → n < 3 → (g.shells curId).process.object n ≠ none
  pipes : (g.shells curId).pipeVector = []

/-- The outline of a session is that of the reference shell. -/
theorem session_outline {g : Server} {curId : Nat} (ready : Ready g curId)
    {lines : List ((Str × World) × (Nat → Writer → Bool))}
    (understood : ∀ line ∈ lines, common true (words line.1.1) = true) :
    outlineFrom (g.shells curId).calls.length curId (session curId g lines) =
      .ofResult (Common.session .initial (lines.map Prod.fst)) := by
  have holds : Holds (g.shells curId).calls.length curId g .initial := by
    refine ⟨Nat.le_refl _, id, [], ?_⟩
    have issues : (g.shells curId).issuesFrom (g.shells curId).calls.length = [] := by
      rw [Shell.issuesFrom, List.drop_length, List.map_nil]
    rw [issues, ready.pipes]
    exact .initial (.standardAlone ready.standard False.elim)
  have parallel := session_follows holds understood
  generalize session curId g lines = ended at parallel
  generalize Common.session .initial (lines.map Prod.fst) = twin at parallel
  cases parallel with
  | ok holds =>
    obtain ⟨-, h, live, tracks⟩ := holds
    exact tracks.outline_ok
  | error alike => exact alike

end NetProg.MultiProc
