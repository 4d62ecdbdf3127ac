import NetProg.SingleProc.CommandLines

/-!
# Redirections

`ExecCmds` goes through the words of a line and comes to the calls that the commands of
the line come to one by one. In the middle of a command its variables are those of the
parts that have been read; where a command has been executed, nothing of it is left.
-/

namespace NetProg.SingleProc

open Loops Outcomes

/-- The frame of the next round, if there is one. -/
def onward : Outcome Step → Option Frame
  | .ok (.again next) => some next
  | _ => none

section Words

variable {job : Job} {start : Frame} {c : Command} {setup : Setup} {word : Str} {rest : List Str}

theorem readArgument_frame (left : c.rest = word :: rest) (goesOn : c.endsInPipe = false) :
    (c.frame job start setup).readArgument word rest =
      (c.grow (.argument word) rest).frame job start setup := by
  simp [Frame.readArgument, Command.frame, errFd_goesOn goesOn, goesOn, left, Part.isPipe,
    Part.asArgument, Part.usesPipe, Part.isErrorPipe]

/-- A `> f` as a part of its command: the frame is that of the command with one target more. -/
theorem redirectOut_frame (left : c.rest = word :: rest) (goesOn : c.endsInPipe = false)
    (opened : Int × Process) (behind : List Str) :
    (c.frame job start setup).redirectOut opened behind =
      (c.grow (.toFile behind.length) behind).frame job start
        (setup.writes (setup.server.withProcess opened.2) (.file opened.1)) := by
  simp [Frame.redirectOut, Frame.endLine, Command.frame, errFd_goesOn goesOn, goesOn,
    left, Part.isPipe, Part.asArgument, Part.usesPipe, Part.isErrorPipe, Target.fd,
    Target.isFile, Target.receiver]

/-- A `< f` as a part of its command: the frame is that of the command with one source more. -/
theorem redirectIn_frame (left : c.rest = word :: rest) (goesOn : c.endsInPipe = false)
    (opened : Int × Process) (behind : List Str) :
    (c.frame job start setup).redirectIn opened behind =
      (c.grow (.fromFile behind.length) behind).frame job start
        (setup.reads (setup.server.withProcess opened.2) (.file opened.1)) := by
  simp [Frame.redirectIn, Frame.endLine, Command.frame, errFd_goesOn goesOn, goesOn,
    left, Part.isPipe, Part.asArgument, Part.usesPipe, Part.isErrorPipe, Origin.fd,
    Origin.isFile, Origin.sender, Origin.taken]

/-- A `>t` as a part of its command: one target more, and the sender has the pipe in its record.
-/
theorem sendTo_frame (left : c.rest = word :: rest) (goesOn : c.endsInPipe = false)
    (targetId : Int) (created : Int × List UserPipeFd × Process) (behind : List Str) :
    (c.frame job start setup).sendTo job.cli targetId created behind =
      (c.grow (.toUser word behind.length) behind).frame job start
        (setup.writes ((setup.server.update job.cli
          ({ · with userpipeVector := created.2.1 })).withProcess created.2.2)
          (.userPipe created.1 targetId)) := by
  simp [Frame.sendTo, Frame.endLine, Command.frame, errFd_goesOn goesOn, goesOn,
    left, Part.isPipe, Part.asArgument, Part.usesPipe, Part.isErrorPipe, Target.fd,
    Target.isFile, Target.receiver]

/-- A `<s` as a part of its command: one source more, and the pipe is marked in the sender's
record. -/
theorem receiveFrom_frame (left : c.rest = word :: rest) (goesOn : c.endsInPipe = false)
    (iter : Nat) (sourceId : Int) (taken : UserPipeFd × List UserPipeFd) (behind : List Str) :
    (c.frame job start setup).receiveFrom iter sourceId taken behind =
      (c.grow (.fromUser word) behind).frame job start
        (setup.reads ((setup.server.update iter
          ({ · with userpipeVector := taken.2 })).withProcess
            (setup.server.process.closeEnd taken.1.inFd (some (.writeEnd taken.1.made))))
          (.userPipe taken.1.outFd sourceId taken.1.made)) := by
  simp [Frame.receiveFrom, Frame.endLine, Command.frame, errFd_goesOn goesOn, goesOn,
    left, Part.isPipe, Part.asArgument, Part.usesPipe, Part.isErrorPipe, Origin.fd,
    Origin.isFile, Origin.sender, Origin.taken]

/-- A pipe operator as a part of its command: one target more, and the client has the numbered
pipe. -/
theorem pipeTo_frame (left : c.rest = word :: rest) (goesOn : c.endsInPipe = false)
    (isError : Bool) (created : Int × List PipeFd × Process) (behind : List Str) :
    (c.frame job start setup).pipeTo job.cli isError created behind =
      (c.grow (.pipe isError word behind.length) behind).frame job start
        (setup.writes ((setup.server.update job.cli
          ({ · with pipeVector := created.2.1 })).withProcess created.2.2)
          (.numberedPipe created.1)) := by
  simp [Frame.pipeTo, Command.frame, errFd_goesOn goesOn, left, Part.isPipe, Part.asArgument,
    Part.usesPipe, Part.isErrorPipe, Target.fd, Target.isFile, Target.receiver]

theorem onward_client (s : Server) (iter : Nat) (next : ClientInfo → Outcome Step) :
    onward (s.client iter >>= next) = (s.clientTable[iter]?).bind (fun c => onward (next c)) := by
  rw [Server.client]
  cases s.clientTable[iter]? <;> rfl

/-- Both branches of a user pipe ask first whether there is somebody with the id. -/
theorem onward_idAt (s : Server) (id : Int) (left : Server × Int) (next : Outcome Step) :
    onward (s.idAt (id - 1) >>= fun mark =>
      if mark = 0 then return .leave left else next) =
      (guard (s.isThere id) : Option Unit).bind (fun _ => onward next) := by
  rw [Server.isThere]
  cases s.idAt (id - 1) with
  | error failure => rfl
  | ok mark =>
    by_cases cleared : mark = 0
    · subst cleared
      rfl
    · simp [bind, Except.bind, cleared]

/-- A pipe operator is read on exactly when its part can be performed, and into the same frame. -/
theorem readPipe_onward (left : c.rest = word :: rest) (goesOn : c.endsInPipe = false)
    (isError : Bool) :
    onward (readPipe job (c.frame job start setup) isError word rest) =
      (perform job setup (.pipe isError word rest.length)).map
        ((c.grow (.pipe isError word rest.length) rest).frame job start) := by
  have server : (c.frame job start setup).server = setup.server := rfl
  rw [readPipe, perform, server]
  cases NumberedPipes.pipeNum word with
  | none => rfl
  | some pipeNum =>
    simp only [onward_client, Option.bind_eq_bind, Option.bind_some, Option.map_bind,
      Function.comp_def]
    apply Option.bind_congr
    intro cli _
    cases NumberedPipes.createPipe (job.world.pipes rest.length) setup.server.process
      cli.pipeVector pipeNum with
    | none => rfl
    | some created => exact congrArg some (pipeTo_frame left goesOn isError created rest)

/-- A `>t` is read on exactly when its part can be performed, and into the same frame. -/
theorem readUserOut_onward (left : c.rest = word :: rest) (goesOn : c.endsInPipe = false) :
    onward (readUserOut job (c.frame job start setup) word rest) =
      (perform job setup (.toUser word rest.length)).map
        ((c.grow (.toUser word rest.length) rest).frame job start) := by
  have server : (c.frame job start setup).server = setup.server := rfl
  rw [readUserOut, perform, server]
  cases UserPipes.userNum word with
  | none => rfl
  | some targetId =>
    simp only [onward_idAt, onward_client, Option.bind_eq_bind, Option.bind_some, Option.map_bind,
      Function.comp_def]
    apply Option.bind_congr
    intro _ _
    apply Option.bind_congr
    intro cli _
    by_cases fresh : ∀ u ∈ cli.userpipeVector, u.targetId ≠ targetId
    · have none : cli.userpipeVector.any (·.targetId = targetId) = false := by simpa using fresh
      rw [none, guard, if_pos fresh]
      cases job.world.pipes rest.length with
      | false => rfl
      | true => exact congrArg some (sendTo_frame left goesOn targetId _ rest)
    · have present : cli.userpipeVector.any (·.targetId = targetId) = true := by
        simpa using fresh
      rw [present, guard, if_neg fresh]
      rfl

/-- A `<s` is read on exactly when its part can be performed, and into the same frame. -/
theorem readUserIn_onward (left : c.rest = word :: rest) (goesOn : c.endsInPipe = false) :
    onward (readUserIn job (c.frame job start setup) word rest) =
      (perform job setup (.fromUser word)).map
        ((c.grow (.fromUser word) rest).frame job start) := by
  have server : (c.frame job start setup).server = setup.server := rfl
  rw [readUserIn, perform, server]
  cases UserPipes.userNum word with
  | none => rfl
  | some sourceId =>
    simp only [onward_idAt, onward_client, Option.bind_eq_bind, Option.bind_some, Option.map_bind,
      Function.comp_def]
    apply Option.bind_congr
    intro _ _
    apply Option.bind_congr
    intro sourceCli _
    apply Option.bind_congr
    intro cli _
    cases UserPipes.markUserPipe sourceCli.id cli.id sourceCli.userpipeVector with
    | none => rfl
    | some taken => exact congrArg some (receiveFrom_frame left goesOn _ _ taken rest)

variable (job start) in
/-- Reading a word in the middle of a command performs the part it begins. -/
theorem readWord_onward (left : c.rest = word :: rest) (goesOn : c.endsInPipe = false)
    (noPipe : ∀ fd, .numberedPipe fd ∉ setup.targets) :
    onward (readWord job (c.frame job start setup) word rest) =
      (perform job setup (nextPart word rest).1).map
        ((c.grow (nextPart word rest).1 (nextPart word rest).2).frame job start) := by
  have later : (c.frame job start setup).isFirstArgv = false := by
    simp [Command.frame, goesOn, left]
  unfold readWord nextPart
  simp only [frame_initFd noPipe, later, Bool.false_eq_true, if_false]
  cases kind word with
  | pipe => exact readPipe_onward left goesOn false
  | errorPipe => exact readPipe_onward left goesOn true
  | redirectOut =>
    cases rest with
    | nil => rfl
    | cons file behind => exact congrArg some (redirectOut_frame left goesOn _ behind)
  | redirectIn =>
    cases rest with
    | nil => rfl
    | cons file behind => exact congrArg some (redirectIn_frame left goesOn _ behind)
  | userOut => exact readUserOut_onward left goesOn
  | userIn => exact readUserIn_onward left goesOn
  | argument => exact congrArg some (readArgument_frame left goesOn)

end Words

/-- The sources and targets that a part adds. -/
inductive Opens : Part → List Origin → List Target → Prop
  | argument (word : Str) : Opens (.argument word) [] []
  | toFile (left : Nat) (fd : Int) : Opens (.toFile left) [] [.file fd]
  | fromFile (left : Nat) (fd : Int) : Opens (.fromFile left) [.file fd] []
  | toUser (word : Str) (left : Nat) (fd targetId : Int) :
      Opens (.toUser word left) [] [.userPipe fd targetId]
  | fromUser (word : Str) (fd senderId : Int) (made : Nat) :
      Opens (.fromUser word) [.userPipe fd senderId made] []
  | pipe (isError : Bool) (word : Str) (left : Nat) (fd : Int) :
      Opens (.pipe isError word left) [] [.numberedPipe fd]

/-- What performing a part changes: the sources and targets by those that the part adds, and
nothing in the log of calls. -/
structure Performs (part : Part) (before after : Setup) : Prop where
  opens : ∃ sources targets, Opens part sources targets ∧
    after.sources = before.sources ++ sources ∧ after.targets = before.targets ++ targets
  calls : after.server.calls = before.server.calls

theorem perform_performs {job : Job} {setup after : Setup} {part : Part}
    (performed : perform job setup part = some after) : Performs part setup after := by
  cases part with
  | argument word =>
    cases performed
    exact ⟨⟨[], [], .argument word, by simp, by simp⟩, rfl⟩
  | noFile => cases performed
  | toFile left =>
    cases performed
    exact ⟨⟨[], _, .toFile left _, by simp [Setup.writes], rfl⟩, rfl⟩
  | fromFile left =>
    cases performed
    exact ⟨⟨_, [], .fromFile left _, rfl, by simp [Setup.reads]⟩, rfl⟩
  | toUser word left =>
    simp only [perform, Option.bind_eq_bind, Option.bind_eq_some_iff] at performed
    obtain ⟨targetId, -, -, -, cli, -, -, -, -, -, returned⟩ := performed
    cases returned
    exact ⟨⟨[], _, .toUser word left _ targetId, by simp [Setup.writes], rfl⟩, rfl⟩
  | fromUser word =>
    simp only [perform, Option.bind_eq_bind, Option.bind_eq_some_iff] at performed
    obtain ⟨sourceId, -, -, -, sourceCli, -, cli, -, taken, -, returned⟩ := performed
    cases returned
    exact ⟨⟨_, [], .fromUser word _ _ _, rfl, by simp [Setup.reads]⟩, rfl⟩
  | pipe isError word left =>
    simp only [perform, Option.bind_eq_bind, Option.bind_eq_some_iff] at performed
    obtain ⟨pipeNum, -, cli, -, created, -, returned⟩ := performed
    cases returned
    exact ⟨⟨[], _, .pipe isError word left _, by simp [Setup.writes], rfl⟩, rfl⟩

/-- Only a pipe operator writes to a numbered pipe. -/
theorem Performs.noPipe {part : Part} {before after : Setup} (performs : Performs part before after)
    (notPipe : part.isPipe = false) (noPipe : ∀ fd, .numberedPipe fd ∉ before.targets) (fd : Int) :
    .numberedPipe fd ∉ after.targets := by
  obtain ⟨sources, targets, opens, -, whole⟩ := performs.opens
  rw [whole]
  cases opens with
  | pipe isError word left fd => cases notPipe
  | _ => simpa using noPipe fd

section Rounds

variable {job : Job}

/-- One frame comes after another in a line, and all rounds from it on belong to the line. -/
structure Leads (job : Job) (f g : Frame) : Prop where
  run : (cmdLoop job).run f = (cmdLoop job).run g
  rounds : ∀ head ∈ (cmdLoop job).rounds g, head ∈ (cmdLoop job).rounds f

theorem Leads.refl (f : Frame) : Leads job f f := ⟨rfl, fun _ member => member⟩

theorem Leads.trans {f g h : Frame} (first : Leads job f g) (second : Leads job g h) :
    Leads job f h :=
  ⟨first.run.trans second.run, fun head member => first.rounds head (second.rounds head member)⟩

theorem Leads.again {f g : Frame} (round : round job f = .ok (.again g)) : Leads job f g := by
  refine ⟨(cmdLoop job).run_again round, fun head member => ?_⟩
  rw [(cmdLoop job).rounds_again round]
  exact List.mem_cons_of_mem f member

/-- A line ends with these calls: at a failure, at a user-pipe error, or with its last
command if it is one where all of them have been executed. -/
def EndsWith (job : Job) (f : Frame) (calls : List Call) (all : Prop) : Prop :=
  Ends ((cmdLoop job).run f)
    (fun result => result.1.calls = calls ∧
      (all ∨ ∃ g ∈ (cmdLoop job).rounds f, UserPipeError job g result))
    (fun failure => failure.2.calls = calls)

theorem EndsWith.before {f g : Frame} {calls : List Call} {all : Prop} (leads : Leads job f g)
    (ends : EndsWith job g calls all) : EndsWith job f calls all := by
  rw [EndsWith, leads.run]
  apply Ends.mono ends
  · rintro result ⟨same, complete | ⟨head, member, error⟩⟩
    · exact ⟨same, .inl complete⟩
    · exact ⟨same, .inr ⟨head, leads.rounds head member, error⟩⟩
  · exact fun failure same => same

theorem EndsWith.mono {f : Frame} {calls : List Call} {all more : Prop}
    (ends : EndsWith job f calls all) (complete : all → more) : EndsWith job f calls more :=
  Ends.mono ends (fun _ ended => ⟨ended.1, ended.2.imp_left complete⟩) (fun _ same => same)

/-- A user-pipe error makes no call. -/
theorem Reads.calls {f : Frame} {word : Str} {rest : List Str} {result : Server × Int}
    (reads : Reads job f word rest (.leave result)) : result.1.calls = f.server.calls := by
  cases reads <;> rfl

theorem round_word {f : Frame} {word : Str} {rest : List Str} (reading : f.isFinalArgv = false)
    (left : f.cmds = word :: rest) : round job f = readWord job f word rest := by
  rw [round, reading, left]
  rfl

/-- A word whose part can be performed leads on. -/
theorem leads_word {f next : Frame} {word : Str} {rest : List Str}
    (reading : f.isFinalArgv = false) (left : f.cmds = word :: rest)
    (read : onward (readWord job f word rest) = some next) : Leads job f next := by
  apply Leads.again
  rw [round_word reading left]
  unfold onward at read
  split at read
  · rename_i outcome
    rw [outcome, Option.some.inj read]
  · cases read

/-- A word whose part cannot be performed ends the line. -/
theorem endsWith_word {f : Frame} {word : Str} {rest : List Str} (reading : f.isFinalArgv = false)
    (left : f.cmds = word :: rest) (stops : onward (readWord job f word rest) = none)
    (all : Prop) : EndsWith job f f.server.calls all := by
  have body : round job f = readWord job f word rest := round_word reading left
  cases outcome : readWord job f word rest with
  | error failure =>
    have ended : (cmdLoop job).run f = .error failure :=
      (cmdLoop job).run_error (body.trans outcome)
    rw [EndsWith, ended, ends_error, (readWord_fails outcome).1]
  | ok step =>
    rw [outcome] at stops
    cases step with
    | again next => cases stops
    | leave result =>
      have ended : (cmdLoop job).run f = .ok result :=
        (cmdLoop job).run_leave (body.trans outcome)
      rw [EndsWith, ended, ends_ok]
      refine ⟨?_, .inr ⟨f, (cmdLoop job).mem_rounds_self f, ?_⟩⟩
      · rw [(readWord_reads outcome).calls, initFd_server]
      · exact ⟨reading, by simp [left], body.trans outcome⟩

variable (job) in
/-- One part of a command is read. It can be performed, or the line ends. -/
theorem part_read (start : Frame) {c : Command} {setup : Setup} {word : Str} {rest : List Str}
    (left : c.rest = word :: rest) (goesOn : c.endsInPipe = false)
    (noPipe : ∀ fd, .numberedPipe fd ∉ setup.targets) :
    match perform job setup (nextPart word rest).1 with
    | some after =>
      Leads job (c.frame job start setup)
        ((c.grow (nextPart word rest).1 (nextPart word rest).2).frame job start after)
    | none => ∀ all, EndsWith job (c.frame job start setup) setup.server.calls all := by
  have reading : (c.frame job start setup).isFinalArgv = false := by
    simp [Command.frame, goesOn, left]
  have read := readWord_onward job start left goesOn noPipe
  cases performed : perform job setup (nextPart word rest).1 with
  | none =>
    rw [performed] at read
    exact endsWith_word reading left read
  | some after =>
    rw [performed] at read
    exact leads_word reading left read

variable (job) in
/-- The parts of a command are read one after the other. All of them can be performed, or the line
ends before the command is complete. The induction follows how the parts are cut, and the rounds
of the command loop follow it with a frame for every command read so far. -/
theorem parts_read (start : Frame) (words : List Str) (c : Command) (setup : Setup)
    (left : c.rest = words) (goesOn : c.endsInPipe = false)
    (noPipe : ∀ fd, .numberedPipe fd ∉ setup.targets) :
    match (cutParts words).1.foldlM (perform job) setup with
    | some after =>
      Leads job (c.frame job start setup) ((c.extend (cutParts words)).frame job start after)
    | none => ∀ all, EndsWith job (c.frame job start setup) setup.server.calls all := by
  induction words using cutParts.induct generalizing c setup with
  | case1 =>
    have same : c.extend (cutParts []) = c := by
      rw [Command.extend, cutParts, List.append_nil, ← left]
    rw [same, cutParts]
    exact .refl _
  | case2 word rest isPipe =>
    have first := part_read job start left goesOn noPipe
    rw [cutParts, if_pos isPipe, List.foldlM_cons]
    cases performed : perform job setup (nextPart word rest).1 with
    | none =>
      rw [performed] at first
      exact first
    | some after =>
      rw [performed] at first
      exact first
  | case3 word rest notPipe ih =>
    have first := part_read job start left goesOn noPipe
    rw [cutParts, if_neg notPipe, List.foldlM_cons]
    cases performed : perform job setup (nextPart word rest).1 with
    | none =>
      rw [performed] at first
      exact first
    | some after =>
      rw [performed] at first
      have notPipe : (nextPart word rest).1.isPipe = false := by simpa using notPipe
      have performs := perform_performs performed
      have further := ih (c.grow (nextPart word rest).1 (nextPart word rest).2) after rfl
        (by rw [grow_endsInPipe, notPipe]) (performs.noPipe notPipe noPipe)
      rw [grow_extend] at further
      simp only [Option.bind_eq_bind, Option.bind_some]
      cases last : (cutParts (nextPart word rest).2).1.foldlM (perform job) after with
      | none =>
        rw [last] at further
        rw [← performs.calls]
        exact fun all => (further all).before first
      | some final =>
        rw [last] at further
        exact first.trans further

/-- A line where the first word of a command is next, or its end. -/
structure Begins (f : Frame) : Prop where
  reading : f.isFinalArgv = false
  first : f.cmds ≠ [] → f.isFirstArgv = true
  notLast : f.cmds ≠ [] → f.lineEnds = false
  noFile : f.isInRedirect = false
  noUserpipe : f.isInUserpipe = false
  nothingToClose : f.needCloseUserpipe = false
  nothingToErase : f.needEraseCliIds = []
  noSender : f.recvStrId = -1
  noReceiver : f.sendStrId = -1

/-- The first word of a command leaves nothing of the one before. -/
theorem Begins.readProg {start : Frame} (begins : Begins start) {word : Str} {rest : List Str}
    (left : start.cmds = word :: rest) (plain : ¬ (word = str "tell" ∨ word = str "yell")) :
    readWord job start word rest =
      .ok (.again ((⟨word, [], rest⟩ : Command).frame job start (.begin start.server))) := by
  have some_ : start.cmds ≠ [] := by simp [left]
  simp [readWord, Frame.initFd, begins.noFile, begins.noUserpipe, begins.first some_,
    Frame.readProg, plain, Command.frame, Command.endsInPipe, Command.endsInOperator,
    begins.notLast some_, Command.arguments, Command.usesPipe, Setup.begin, Setup.hasFile,
    Setup.inFd, Setup.outFd, Command.errFd, Setup.senders, Setup.receivers, Setup.taken,
    begins.nothingToClose, begins.nothingToErase, begins.noSender, begins.noReceiver]

/-- For `tell` and `yell` all words are arguments. -/
theorem arguments_perform (words : List Str) (setup : Setup) :
    (words.map Part.argument).foldlM (perform job) setup = some setup := by
  induction words with
  | nil => rfl
  | cons word rest ih => exact ih

theorem arguments_usesPipe (words : List Str) :
    (words.map Part.argument).foldl Part.usesPipe false = false := by
  induction words with
  | nil => rfl
  | cons word rest ih => exact ih

/-- A `tell` or a `yell` takes all words that are left for its message. -/
theorem Begins.readMessage {start : Frame} (begins : Begins start) {word : Str} {rest : List Str}
    (left : start.cmds = word :: rest) (swallows : word = str "tell" ∨ word = str "yell") :
    readWord job start word rest =
      .ok (.again ((⟨word, rest.map .argument, []⟩ : Command).frame job start
        (.begin start.server))) := by
  have some_ : start.cmds ≠ [] := by simp [left]
  have none (p : Part → Bool) (not : ∀ word, p (.argument word) = false) :
      (rest.getLast?.map Part.argument).any p = false := by
    cases rest.getLast? <;> simp [not]
  have same (word : Str) : (Part.argument word).asArgument = some word := rfl
  simp [readWord, Frame.initFd, begins.noFile, begins.noUserpipe, begins.first some_,
    Frame.readProg, swallows, Command.frame, Command.endsInPipe, Command.endsInOperator,
    begins.notLast some_, Command.arguments, Command.usesPipe, Setup.begin, Setup.hasFile,
    Setup.inFd, Setup.outFd, Command.errFd, Setup.senders, Setup.receivers, Setup.taken,
    begins.nothingToClose, begins.nothingToErase, begins.noSender, begins.noReceiver,
    arguments_usesPipe, same, none Part.isPipe (fun _ => rfl),
    none (·.asArgument.isNone) (fun _ => rfl)]

variable (job) in
/-- A command is read from its first word on. -/
theorem command_read {start : Frame} (begins : Begins start) {word : Str} {rest : List Str}
    (left : start.cmds = word :: rest) :
    match (Command.cut word rest).parts.foldlM (perform job) (.begin start.server) with
    | some setup =>
      Leads job start ((Command.cut word rest).frame job start setup) ∧
      ((Command.cut word rest).frame job start setup).isFinalArgv = true
    | none => ∀ all, EndsWith job start start.server.calls all := by
  by_cases swallows : word = str "tell" ∨ word = str "yell"
  · rw [Command.cut, if_pos swallows]
    simp only [arguments_perform]
    refine ⟨.again ?_, by simp [Command.frame]⟩
    rw [round_word begins.reading left, begins.readMessage left swallows]
  · have first : Leads job start
        ((⟨word, [], rest⟩ : Command).frame job start (.begin start.server)) := by
      apply Leads.again
      rw [round_word begins.reading left, begins.readProg left swallows]
    have read := parts_read job start rest ⟨word, [], rest⟩ (.begin start.server) rfl rfl
      (by simp [Setup.begin])
    have whole : (⟨word, [], rest⟩ : Command).extend (cutParts rest) = Command.cut word rest := by
      rw [Command.cut, if_neg swallows, Command.extend, List.nil_append]
    have parts : (Command.cut word rest).parts = (cutParts rest).1 := by rw [← whole]; rfl
    have complete := extend_complete ⟨word, [], rest⟩ job start
    rw [parts]
    cases performed : (cutParts rest).1.foldlM (perform job) (.begin start.server) with
    | none =>
      rw [performed] at read
      exact fun all => (read all).before first
    | some setup =>
      rw [performed, whole] at read
      exact ⟨first.trans read, whole ▸ complete setup rest⟩

end Rounds

section Calls

/-- The calls are a view without names and output. -/
theorem calls_unseen : Unseen Server.calls := ⟨fun _ _ => rfl, fun _ _ _ => rfl⟩

/-- A built-in command makes no further calls. -/
theorem builtin_calls (s : Server) (iter : Nat) (cli : ClientInfo) (arguments : List Str) :
    Keeps Server.calls s Prod.fst (builtin s iter cli arguments) := by
  by_cases first : arguments[0]? = some (str "setenv")
  · rw [builtin_setenv s iter cli first]
    apply Keeps.looks (arg_ends s arguments 1) rfl
    intro var
    apply Keeps.looks (arg_ends _ arguments 2) rfl
    intro val
    rfl
  · exact calls_unseen.builtin s iter cli first

theorem detach_calls (job : Job) (s : Server) (needClose : Bool) (inFd : Int)
    (inPipe : Option Object) : Keeps Server.calls s id (detach job s needClose inFd inPipe) := by
  rw [detach]
  apply Keeps.looks (client_ends s job.cli) rfl
  intro cli
  rfl

theorem eraseUsed_calls (s : Server) (ids : List Int) :
    Keeps Server.calls s id (ids.foldlM eraseUsed s) := by
  apply foldlM_keeps eraseUsed _ ids s rfl
  intro t id same
  rw [eraseUsed]
  apply Keeps.looks (client_ends t _) same
  intro candidate
  exact same

/-- What follows a call makes no further one. -/
theorem Keeps.after {β : Type} {s : Server} {server : β → Server} {x : Outcome β}
    (keeps : Keeps Server.calls s server x) {calls : List Call} (same : s.calls = calls) :
    Ends x (fun b => (server b).calls = calls) (fun failure => failure.2.calls = calls) :=
  Ends.mono keeps (fun _ kept => kept.trans same) (fun _ kept => kept.trans same)

/-- An execution makes the one call it comes to, or fails before it. -/
theorem execute_calls (job : Job) (f : Frame) :
    Ends (execute job f)
      (Round.Holds (fun next => next.server.calls = f.server.calls ++ (launched job f).toList ∧
        (launched job f).isSome) (fun _ => False))
      (fun failure => failure.2.calls = f.server.calls ++ (launched job f).toList) := by
  have told := calls_unseen.unprinted.announce job f
  rw [execute, launched]
  cases announces : announce job f with
  | error failure =>
    rw [announces] at told
    have told : failure.2.calls = f.server.calls := told
    simpa [bind, Except.bind] using told
  | ok announced =>
    rw [announces] at told
    have told : announced.calls = f.server.calls := told
    simp only [bind, Except.bind, Server.client]
    cases found : announced.clientTable[job.cli]? with
    | none => simpa using told
    | some cli =>
      simp only [Option.map_some, Option.toList_some, Option.isSome_some, and_true]
      have called (p : Process) (call : Call) :
          ((announced.withProcess p).logged call).calls = f.server.calls ++ [call] := by
        rw [← told]
        rfl
      apply Ends.bind _ ((builtin_calls _ job.cli cli f.arguments).after (called _ _))
      intro ran ranCalls
      apply Ends.bind _ ((detach_calls job ran.1 _ _ _).after ranCalls)
      intro detached detachedCalls
      apply Ends.bind _ ((eraseUsed_calls detached _).after detachedCalls)
      intro erased erasedCalls
      exact erasedCalls

end Calls

section Lines

variable {job : Job}

theorem parts_calls {parts : List Part} {setup after : Setup}
    (performed : parts.foldlM (perform job) setup = some after) :
    after.server.calls = setup.server.calls := by
  induction parts generalizing setup with
  | nil =>
    cases performed
    rfl
  | cons part rest ih =>
    rw [List.foldlM_cons, Option.bind_eq_bind, Option.bind_eq_some_iff] at performed
    obtain ⟨middle, first, others⟩ := performed
    exact (ih others).trans (perform_performs first).calls

/-- After its execution a command has left nothing, and the next one begins. -/
theorem begins_next {start next : Frame} {c : Command} {setup : Setup}
    (complete : (c.frame job start setup).isFinalArgv = true)
    (ran : execute job (c.frame job start setup) = .ok (.again next)) :
    Begins next ∧ next.cmds = c.rest := by
  obtain ⟨after, same, executes⟩ := execute_executes ran
  cases same
  obtain ⟨_, _, _, _, _, _, _, _, _, _, -, -, -, -, -, -, rfl⟩ := executes.steps
  have ended (more : c.rest ≠ []) : c.endsInPipe = true := by
    simpa [Command.frame, more] using complete
  refine ⟨?_, rfl⟩
  constructor
  case first =>
    intro more
    simp [Command.frame, ended more]
  case notLast =>
    intro more
    simpa [Command.frame] using more
  all_goals rfl

/-- A complete command is executed. It fails, after its call if it comes to that, or leads
on to the next command. -/
theorem command_executed {f : Frame} (complete : f.isFinalArgv = true) :
    (∃ failure, execute job f = .error failure ∧
      ∀ all, EndsWith job f (f.server.calls ++ (launched job f).toList) all) ∨
    ∃ next call, execute job f = .ok (.again next) ∧ launched job f = some call ∧
      next.server.calls = f.server.calls ++ [call] ∧ Leads job f next := by
  have body : round job f = execute job f := by
    rw [round, complete]
    rfl
  have ends := execute_calls job f
  cases ran : execute job f with
  | error failure =>
    rw [ran, ends_error] at ends
    left
    refine ⟨failure, rfl, fun all => ?_⟩
    rw [EndsWith, (cmdLoop job).run_error (body.trans ran), ends_error, ends]
  | ok step =>
    rw [ran, ends_ok] at ends
    cases step with
    | leave result => exact ends.elim
    | again next =>
      obtain ⟨called, some_⟩ := ends
      obtain ⟨call, launch⟩ := Option.isSome_iff_exists.mp some_
      rw [launch] at called
      right
      exact ⟨next, call, rfl, launch, called, .again (body.trans ran)⟩

/-- The line from the first word of a command on: the calls of the command loop are those of the
commands in the order of the line, as far as they can be performed. The induction follows how the
commands are cut. -/
theorem commands_read (words : List Str) {start : Frame} (begins : Begins start)
    (left : start.cmds = words) :
    EndsWith job start
      (start.server.calls ++ (executions job (commandsOf words) start).map Execution.call)
      ((executions job (commandsOf words) start).map Execution.command = commandsOf words) := by
  induction words using commandsOf.induct generalizing start with
  | case1 =>
    have body : round job start = .ok (.leave (start.server, start.status)) := by
      rw [round, begins.reading, left]
      rfl
    have ended := (cmdLoop job).run_leave body
    rw [EndsWith, ended, ends_ok, commandsOf]
    simp [executions]
  | case2 word rest ih =>
    have read := command_read job begins left
    rw [commandsOf, executions]
    cases performed : (Command.cut word rest).parts.foldlM (perform job) (.begin start.server) with
    | none =>
      rw [performed] at read
      simpa using read _
    | some setup =>
      rw [performed] at read
      obtain ⟨leads, complete⟩ := read
      apply EndsWith.before leads
      have calls : setup.server.calls = start.server.calls := parts_calls performed
      have same : ((Command.cut word rest).frame job start setup).server.calls =
        start.server.calls := calls
      dsimp only
      rcases command_executed complete with
        ⟨failure, ran, ends⟩ | ⟨next, call, ran, launch, called, further⟩
      · rw [same] at ends
        rw [ran]
        cases launch : launched job ((Command.cut word rest).frame job start setup) <;>
          exact (launch ▸ ends) _
      · obtain ⟨nextBegins, nextLeft⟩ := begins_next complete ran
        have rest := ih nextBegins nextLeft
        rw [called, same] at rest
        simp only [launch, ran, List.map_cons]
        apply EndsWith.before further
        rw [List.append_cons]
        apply EndsWith.mono rest
        intro all
        rw [all]

/-- What `ExecCmd` is called with, given what the parts of the command have opened. It is the law
of the command language, stated without the variables of the loop. -/
structure Execution.Lawful (job : Job) (e : Execution) : Prop where
  performed : ∃ before, e.command.parts.foldlM (perform job) (.begin before) = some e.setup
  arguments : e.call.arguments = e.command.arguments
  inFd : e.call.inFd = (((e.setup.server.clientTable[job.cli]?).bind (fun cli =>
    cli.pipeVector.find? (·.count = 0))).map PipeFd.outFd).getD (e.setup.inFd job.sockfd)
  outFd : e.call.outFd = e.setup.outFd job.sockfd
  errFd : e.call.errFd = if e.command.endsInErrorPipe then e.call.outFd else job.sockfd
  lineEnds : e.call.lineEnds = e.command.rest.isEmpty
  isUsingPipe : e.call.isUsingPipe = e.command.usesPipe

/-- The call of a complete command. -/
theorem launched_lawful {start : Frame} {c : Command} {setup : Setup} {call : Call}
    (performed : c.parts.foldlM (perform job) (.begin start.server) = some setup)
    (launch : launched job (c.frame job start setup) = some call) :
    (Execution.mk c setup call).Lawful job := by
  have unprinted : Unprinted Server.clientTable := ⟨fun _ _ => rfl⟩
  have told := unprinted.announce job (c.frame job start setup)
  rw [launched] at launch
  cases announces : announce job (c.frame job start setup) with
  | error failure =>
    rw [announces] at launch
    cases launch
  | ok announced =>
    rw [announces] at told launch
    obtain ⟨cli, found, isCall⟩ := Option.map_eq_some_iff.mp launch
    have found : setup.server.clientTable[job.cli]? = some cli := told ▸ found
    subst isCall
    constructor
    case performed => exact ⟨start.server, performed⟩
    case inFd =>
      simp only [found, Option.bind_some, callOf, attach, NumberedPipes.getPipeFd]
      cases cli.pipeVector.find? (·.count = 0) <;> rfl
    all_goals rfl

theorem executions_lawful (commands : List Command) (start : Frame) :
    ∀ e ∈ executions job commands start, e.Lawful job := by
  induction commands generalizing start with
  | nil => simp [executions]
  | cons c rest ih =>
    intro e member
    rw [executions] at member
    split at member
    · cases member
    rename_i setup performed
    split at member
    · cases member
    rename_i call launch
    rcases List.mem_cons.mp member with rfl | later
    · exact launched_lawful performed launch
    split at later
    · exact ih _ e later
    · cases later

theorem executions_prefix (commands : List Command) (start : Frame) :
    (executions job commands start).map Execution.command <+: commands := by
  induction commands generalizing start with
  | nil => simp [executions]
  | cons c rest ih =>
    rw [executions]
    split
    · exact List.nil_prefix
    split
    · exact List.nil_prefix
    rw [List.map_cons, List.prefix_cons_inj]
    split
    · exact ih _
    · exact List.nil_prefix

end Lines

/-- The line from its first word on, by induction on how many words are left: each command is one
execution, and the rest of the line begins behind it. -/
theorem executed_ends (job : Job) (s : Server) (words : List Str) :
    EndsWith job (Frame.initial s job.sockfd words)
      (s.calls ++ (executed job s words).map Execution.call)
      ((executed job s words).map Execution.command = commandsOf words) := by
  have begins : Begins (Frame.initial s job.sockfd words) := by
    constructor <;> simp [Frame.initial]
  exact commands_read words begins rfl

end NetProg.SingleProc
