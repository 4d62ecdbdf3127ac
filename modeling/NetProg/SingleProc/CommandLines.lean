import Mathlib.Data.Option.Basic
import NetProg.SingleProc.UserPipeErrors

/-!
# What the commands of a line are given

`ExecCmds` keeps the descriptors of a command in variables that live on from one
command to the next, and two flags say when they go back to the socket. Here a line is
cut into commands before anything is done: a command is its first word and the parts
behind it, up to a pipe operator or the end of the line. The parts are performed in
order and leave a list of sources and a list of targets, which are empty at the first
word of every command, and what the command is called with follows from the last of
each.

The loop comes to the same calls. What its variables are in the middle of a command is
a function of the parts that have been read.
-/

namespace NetProg.SingleProc

open Loops Outcomes

/-- What can stand behind the first word of a command. Where the answer of the operating
system is asked for, the number of the words left says which. -/
inductive Part where
  | argument (word : Str)
  | toFile (left : Nat)
  | fromFile (left : Nat)
  | noFile
  | toUser (word : Str) (left : Nat)
  | fromUser (word : Str)
  | pipe (isError : Bool) (word : Str) (left : Nat)
  deriving DecidableEq

/-- The part a word begins and the words behind it. The file name behind a `>` or a `<`
belongs to the part and is not looked at. -/
def nextPart (word : Str) (rest : List Str) : Part × List Str :=
  match kind word with
  | .pipe => (.pipe false word rest.length, rest)
  | .errorPipe => (.pipe true word rest.length, rest)
  | .redirectOut =>
    match rest with
    | [] => (.noFile, [])
    | _ :: left => (.toFile left.length, left)
  | .redirectIn =>
    match rest with
    | [] => (.noFile, [])
    | _ :: left => (.fromFile left.length, left)
  | .userOut => (.toUser word rest.length, rest)
  | .userIn => (.fromUser word, rest)
  | .argument => (.argument word, rest)

theorem nextPart_shortens (word : Str) (rest : List Str) :
    (nextPart word rest).2.length ≤ rest.length := by
  unfold nextPart
  split
  case h_3 | h_4 => split <;> simp
  all_goals exact Nat.le_refl _

namespace Part

/-- A pipe operator of either kind. -/
def isPipe : Part → Bool
  | pipe _ _ _ => true
  | _ => false

/-- A pipe operator for the errors as well. -/
def isErrorPipe : Part → Bool
  | pipe isError _ _ => isError
  | _ => false

/-- The word, if it is none of the operators. -/
def asArgument : Part → Option Str
  | argument word => some word
  | _ => none

/-- What `is_using_pipe` is after the part. A `<s` leaves it as it is. -/
def usesPipe (before : Bool) : Part → Bool
  | toUser _ _ | pipe _ _ _ => true
  | fromUser _ => before
  | argument _ | toFile _ | fromFile _ | noFile => false

end Part

/-- The parts of a command, up to a pipe operator, and the words behind the command. -/
def cutParts : List Str → List Part × List Str
  | [] => ([], [])
  | word :: rest =>
    if (nextPart word rest).1.isPipe then ([(nextPart word rest).1], (nextPart word rest).2)
    else
      ((nextPart word rest).1 :: (cutParts (nextPart word rest).2).1,
        (cutParts (nextPart word rest).2).2)
  termination_by words => words.length
  decreasing_by all_goals exact Nat.lt_succ_of_le (nextPart_shortens word rest)

theorem cutParts_shortens (words : List Str) : (cutParts words).2.length ≤ words.length := by
  induction words using cutParts.induct with
  | case1 => simp [cutParts]
  | case2 word rest isPipe =>
    rw [cutParts, if_pos isPipe]
    exact Nat.le_succ_of_le (nextPart_shortens word rest)
  | case3 word rest notPipe ih =>
    rw [cutParts, if_neg notPipe]
    exact Nat.le_succ_of_le (Nat.le_trans ih (nextPart_shortens word rest))

/-- A command is complete with a pipe operator or with the last word of the line. -/
theorem cutParts_complete (words : List Str) : (cutParts words).2 = [] ∨
    ∃ part, (cutParts words).1.getLast? = some part ∧ part.isPipe = true := by
  induction words using cutParts.induct with
  | case1 => exact .inl (by rw [cutParts])
  | case2 word rest isPipe =>
    rw [cutParts, if_pos isPipe]
    exact .inr ⟨_, rfl, isPipe⟩
  | case3 word rest notPipe ih =>
    rw [cutParts, if_neg notPipe]
    apply ih.imp_right
    rintro ⟨part, last, isPipe⟩
    exact ⟨part, by simp [List.getLast?_cons, last], isPipe⟩

/-- A command, or the beginning of one, and the words that are left behind it. Its parts are kept
in their order, for it matters to `is_using_pipe` which of them comes last. -/
structure Command where
  prog : Str
  parts : List Part
  rest : List Str
  deriving DecidableEq

namespace Command

/-- The command that starts with a word. For `tell` and `yell` all words are arguments. -/
def cut (word : Str) (rest : List Str) : Command :=
  if word = str "tell" ∨ word = str "yell" then ⟨word, rest.map .argument, []⟩
  else ⟨word, (cutParts rest).1, (cutParts rest).2⟩

theorem cut_shortens (word : Str) (rest : List Str) :
    (cut word rest).rest.length ≤ rest.length := by
  rw [cut]
  split
  · exact Nat.zero_le _
  · exact cutParts_shortens rest

/-- The first word and the words that are no operators. -/
def arguments (c : Command) : List Str := c.prog :: c.parts.filterMap Part.asArgument

/-- The last word read is a pipe operator. -/
def endsInPipe (c : Command) : Bool := c.parts.getLast?.any Part.isPipe

/-- The last word read is a pipe operator for the errors as well. -/
def endsInErrorPipe (c : Command) : Bool := c.parts.getLast?.any Part.isErrorPipe

/-- The last word read is not an argument and not the first of the command. -/
def endsInOperator (c : Command) : Bool := c.parts.getLast?.any (·.asArgument.isNone)

/-- What `is_using_pipe` is after all parts. -/
def usesPipe (c : Command) : Bool := c.parts.foldl Part.usesPipe false

/-- The command with one more part. -/
def grow (c : Command) (part : Part) (left : List Str) : Command :=
  ⟨c.prog, c.parts ++ [part], left⟩

/-- The command with the parts that follow. -/
def extend (c : Command) (cut : List Part × List Str) : Command :=
  ⟨c.prog, c.parts ++ cut.1, cut.2⟩

end Command

/-- The commands of a line. -/
def commandsOf : List Str → List Command
  | [] => []
  | word :: rest => .cut word rest :: commandsOf (Command.cut word rest).rest
  termination_by words => words.length
  decreasing_by exact Nat.lt_succ_of_le (Command.cut_shortens word rest)

/-- Where the input of a command comes from: a file, or a user pipe of a client. -/
inductive Origin where
  | file (fd : Int)
  | userPipe (fd senderId : Int) (made : Nat)
  deriving DecidableEq

/-- Where its output goes to. -/
inductive Target where
  | file (fd : Int)
  | userPipe (fd targetId : Int)
  | numberedPipe (fd : Int)
  deriving DecidableEq

namespace Origin

/-- The descriptor that becomes `in_fd`. -/
def fd : Origin → Int
  | file fd => fd
  | userPipe fd _ _ => fd

/-- It is the file of a `< f`. -/
def isFile : Origin → Bool
  | file _ => true
  | userPipe _ _ _ => false

/-- The id of the client whose user pipe it is. -/
def sender : Origin → Option Int
  | file _ => none
  | userPipe _ senderId _ => some senderId

/-- The read end that is taken. -/
def taken : Origin → Option Object
  | file _ => none
  | userPipe _ _ made => some (.readEnd made)

end Origin

namespace Target

/-- The descriptor that becomes `out_fd`. -/
def fd : Target → Int
  | file fd => fd
  | userPipe fd _ => fd
  | numberedPipe fd => fd

/-- It is the file of a `> f`. -/
def isFile : Target → Bool
  | file _ => true
  | userPipe _ _ | numberedPipe _ => false

/-- The id of the client for whom a user pipe was made. -/
def receiver : Target → Option Int
  | userPipe _ targetId => some targetId
  | file _ | numberedPipe _ => none

end Target

/-- The server after some parts of a command, and what they have opened, in order. The last source
is what the command reads, and the last target what it writes to. -/
structure Setup where
  server : Server
  sources : List Origin
  targets : List Target

namespace Setup

/-- At the first word of a command. -/
def begin (s : Server) : Setup := ⟨s, [], []⟩

/-- One source more, and the server as its word has left it. -/
def reads (setup : Setup) (server : Server) (source : Origin) : Setup :=
  ⟨server, setup.sources ++ [source], setup.targets⟩

/-- One target more, and the server as its word has left it. -/
def writes (setup : Setup) (server : Server) (target : Target) : Setup :=
  ⟨server, setup.sources, setup.targets ++ [target]⟩

/-- The source of the last `< f` or `<s`. -/
def inFd (setup : Setup) (sockfd : Int) : Int := (setup.sources.getLast?.map Origin.fd).getD sockfd

/-- The target of the last `> f`, `>t` or pipe operator. -/
def outFd (setup : Setup) (sockfd : Int) : Int := (setup.targets.getLast?.map Target.fd).getD sockfd

/-- A file was opened for the command, for its input or its output. -/
def hasFile (setup : Setup) : Bool :=
  setup.sources.any Origin.isFile || setup.targets.any Target.isFile

/-- The clients whose user pipes have been taken. -/
def senders (setup : Setup) : List Int := setup.sources.filterMap Origin.sender

/-- The read ends that have been taken. -/
def taken (setup : Setup) : List Object := setup.sources.filterMap Origin.taken

/-- The clients for whom there are new user pipes. -/
def receivers (setup : Setup) : List Int := setup.targets.filterMap Target.receiver

end Setup

/-- Somebody is logged in with an id. -/
def Server.isThere (s : Server) (id : Int) : Bool :=
  match s.idAt (id - 1) with
  | .ok mark => mark ≠ 0
  | .error _ => false

/-- What a part does on its own. Without a value where the line ends with an error. -/
def perform (job : Job) (setup : Setup) : Part → Option Setup
  | .argument _ => some setup
  | .noFile => none
  | .toFile left =>
    let opened := openAs (job.world.opens left) setup.server.process
    some (setup.writes (setup.server.withProcess opened.2) (.file opened.1))
  | .fromFile left =>
    let opened := openAs (job.world.opens left) setup.server.process
    some (setup.reads (setup.server.withProcess opened.2) (.file opened.1))
  | .toUser word left => do
    let targetId ← UserPipes.userNum word
    guard (setup.server.isThere targetId)
    let cli ← setup.server.clientTable[job.cli]?
    guard (∀ u ∈ cli.userpipeVector, u.targetId ≠ targetId)
    guard (job.world.pipes left)
    let created :=
      UserPipes.createUserPipe setup.server.process cli.userpipeVector cli.id targetId
    return setup.writes ((setup.server.update job.cli
      ({ · with userpipeVector := created.2.1 })).withProcess created.2.2)
      (.userPipe created.1 targetId)
  | .fromUser word => do
    let sourceId ← UserPipes.userNum word
    guard (setup.server.isThere sourceId)
    let iter := setup.server.getClientByID sourceId
    let sourceCli ← setup.server.clientTable[iter]?
    let cli ← setup.server.clientTable[job.cli]?
    let taken ← UserPipes.markUserPipe sourceCli.id cli.id sourceCli.userpipeVector
    return setup.reads ((setup.server.update iter
      ({ · with userpipeVector := taken.2 })).withProcess
        (setup.server.process.closeEnd taken.1.inFd (some (.writeEnd taken.1.made))))
      (.userPipe taken.1.outFd sourceCli.id taken.1.made)
  | .pipe _ word left => do
    let pipeNum ← NumberedPipes.pipeNum word
    let cli ← setup.server.clientTable[job.cli]?
    let created ← NumberedPipes.createPipe (job.world.pipes left) setup.server.process
      cli.pipeVector pipeNum
    return setup.writes ((setup.server.update job.cli
      ({ · with pipeVector := created.2.1 })).withProcess created.2.2) (.numberedPipe created.1)

namespace Command

/-- Where the errors of a command go: with its output if it ends in `!`, and else to the
client. -/
def errFd (c : Command) (setup : Setup) (sockfd : Int) : Int :=
  if c.endsInErrorPipe then setup.outFd sockfd else sockfd

/-- The variables of the loop where some parts of a command have been read, or all of
them. Of those before its first word, in `start`, only the status is left. -/
def frame (c : Command) (job : Job) (start : Frame) (setup : Setup) : Frame where
  server := setup.server
  cmds := c.rest
  isFirstArgv := c.endsInPipe || (c.rest.isEmpty && c.endsInOperator)
  isFinalArgv := c.endsInPipe || c.rest.isEmpty
  prog := c.prog
  arguments := c.arguments
  isUsingPipe := c.usesPipe
  lineEnds := c.rest.isEmpty
  isInRedirect := setup.hasFile
  inFd := setup.inFd job.sockfd
  outFd := setup.outFd job.sockfd
  errFd := c.errFd setup job.sockfd
  status := start.status
  isInUserpipe := !setup.senders.isEmpty || !setup.receivers.isEmpty
  needCloseUserpipe := !setup.senders.isEmpty
  needEraseCliIds := setup.senders
  recvStrId := setup.senders.getLast?.getD (-1)
  sendStrId := setup.receivers.getLast?.getD (-1)
  -- a ghost, which a command that takes no user pipe leaves as it was
  inPipe := setup.taken.getLast?.or start.inPipe

end Command

/-- The call a complete command comes to, if its user pipes can be announced. -/
def launched (job : Job) (f : Frame) : Option Call :=
  match announce job f with
  | .error _ => none
  | .ok announced =>
    (announced.clientTable[job.cli]?).map (fun cli =>
      let (_, inFd, _, p) := attach f cli announced.process
      callOf job f (announced.withProcess p) cli inFd)

/-- A command that is executed: what its parts have set up and what `ExecCmd` is called
with. -/
structure Execution where
  command : Command
  setup : Setup
  call : Call

/-- The commands one after the other, each from what the one before has left, as far as
they are executed. -/
def executions (job : Job) : List Command → Frame → List Execution
  | [], _ => []
  | c :: rest, start =>
    match c.parts.foldlM (perform job) (.begin start.server) with
    | none => []
    | some setup =>
      match launched job (c.frame job start setup) with
      | none => []
      | some call =>
        ⟨c, setup, call⟩ ::
          match execute job (c.frame job start setup) with
          | .ok (.again next) => executions job rest next
          | _ => []

/-- The commands executed in a line. -/
def executed (job : Job) (s : Server) (words : List Str) : List Execution :=
  executions job (commandsOf words) (Frame.initial s job.sockfd words)

section Setup

variable (setup : Setup) (server : Server) (source : Origin) (target : Target) (sockfd : Int)

@[simp] theorem reads_server : (setup.reads server source).server = server := rfl

@[simp] theorem writes_server : (setup.writes server target).server = server := rfl

@[simp] theorem reads_inFd : (setup.reads server source).inFd sockfd = source.fd := by
  simp [Setup.reads, Setup.inFd]

@[simp] theorem writes_inFd : (setup.writes server target).inFd sockfd = setup.inFd sockfd := rfl

@[simp] theorem reads_outFd : (setup.reads server source).outFd sockfd = setup.outFd sockfd := rfl

@[simp] theorem writes_outFd : (setup.writes server target).outFd sockfd = target.fd := by
  simp [Setup.writes, Setup.outFd]

@[simp] theorem reads_hasFile :
    (setup.reads server source).hasFile = (setup.hasFile || source.isFile) := by
  simp [Setup.reads, Setup.hasFile, Bool.or_right_comm]

@[simp] theorem writes_hasFile :
    (setup.writes server target).hasFile = (setup.hasFile || target.isFile) := by
  simp [Setup.writes, Setup.hasFile, Bool.or_assoc]

@[simp] theorem reads_senders :
    (setup.reads server source).senders = setup.senders ++ source.sender.toList := by
  cases source <;> simp [Setup.reads, Setup.senders, Origin.sender]

@[simp] theorem writes_senders : (setup.writes server target).senders = setup.senders := rfl

@[simp] theorem reads_taken :
    (setup.reads server source).taken = setup.taken ++ source.taken.toList := by
  cases source <;> simp [Setup.reads, Setup.taken, Origin.taken]

@[simp] theorem writes_taken : (setup.writes server target).taken = setup.taken := rfl

@[simp] theorem reads_receivers : (setup.reads server source).receivers = setup.receivers := rfl

@[simp] theorem writes_receivers :
    (setup.writes server target).receivers = setup.receivers ++ target.receiver.toList := by
  cases target <;> simp [Setup.writes, Setup.receivers, Target.receiver]

/-- Where no file and no user pipe has been opened and no numbered pipe is written to,
nothing has been set up. -/
theorem untouched {setup : Setup} (noPipe : ∀ fd, .numberedPipe fd ∉ setup.targets)
    (noFile : setup.hasFile = false) (noSender : setup.senders = [])
    (noReceiver : setup.receivers = []) : setup.sources = [] ∧ setup.targets = [] := by
  rw [Setup.hasFile, Bool.or_eq_false_iff] at noFile
  constructor
  · cases sources : setup.sources with
    | nil => rfl
    | cons first rest =>
      cases first with
      | file fd => simp [sources, Origin.isFile] at noFile
      | userPipe fd senderId made => simp [Setup.senders, sources, Origin.sender] at noSender
  · cases targets : setup.targets with
    | nil => rfl
    | cons first rest =>
      cases first with
      | file fd => simp [targets, Target.isFile] at noFile
      | userPipe fd targetId => simp [Setup.receivers, targets, Target.receiver] at noReceiver
      | numberedPipe fd => exact absurd (by simp [targets]) (noPipe fd)

end Setup

section Grow

variable (c : Command) (part : Part) (left : List Str)

@[simp] theorem grow_prog : (c.grow part left).prog = c.prog := rfl

@[simp] theorem grow_rest : (c.grow part left).rest = left := rfl

@[simp] theorem grow_arguments :
    (c.grow part left).arguments = c.arguments ++ part.asArgument.toList := by
  cases part <;> simp [Command.grow, Command.arguments, Part.asArgument]

@[simp] theorem grow_endsInPipe : (c.grow part left).endsInPipe = part.isPipe := by
  simp [Command.grow, Command.endsInPipe]

@[simp] theorem grow_endsInErrorPipe : (c.grow part left).endsInErrorPipe = part.isErrorPipe := by
  simp [Command.grow, Command.endsInErrorPipe]

@[simp] theorem grow_endsInOperator :
    (c.grow part left).endsInOperator = part.asArgument.isNone := by
  simp [Command.grow, Command.endsInOperator]

@[simp] theorem grow_usesPipe : (c.grow part left).usesPipe = part.usesPipe c.usesPipe := by
  simp [Command.grow, Command.usesPipe]

@[simp] theorem grow_errFd (setup : Setup) (sockfd : Int) :
    (c.grow part left).errFd setup sockfd =
      if part.isErrorPipe then setup.outFd sockfd else sockfd := by
  rw [Command.errFd, grow_endsInErrorPipe]

/-- Before a pipe operator errors go to the client. -/
theorem errFd_goesOn {c : Command} (goesOn : c.endsInPipe = false) (setup : Setup)
    (sockfd : Int) : c.errFd setup sockfd = sockfd := by
  rw [Command.errFd, Command.endsInErrorPipe]
  rw [Command.endsInPipe] at goesOn
  cases last : c.parts.getLast? with
  | none => rfl
  | some part =>
    rw [last] at goesOn
    cases part with
    | pipe isError word left => cases goesOn
    | _ => rfl

theorem grow_extend (cut : List Part × List Str) :
    (c.grow part left).extend cut = c.extend (part :: cut.1, cut.2) := by
  simp [Command.grow, Command.extend]

/-- With all its parts a command is complete. -/
theorem extend_complete (job : Job) (start : Frame) (setup : Setup) (words : List Str) :
    ((c.extend (cutParts words)).frame job start setup).isFinalArgv = true := by
  rcases cutParts_complete words with last | ⟨part, isLast, isPipe⟩
  · simp [Command.frame, Command.extend, last]
  · simp [Command.frame, Command.extend, Command.endsInPipe, isLast, isPipe]

end Grow

section Frame

variable {job : Job} {start : Frame} {c : Command} {setup : Setup}

/-- In the middle of a command the descriptors are those set up, or all three are the
socket. -/
theorem frame_initFd (noPipe : ∀ fd, .numberedPipe fd ∉ setup.targets) :
    (c.frame job start setup).initFd job.sockfd = c.frame job start setup := by
  rw [Frame.initFd]
  split
  · rename_i clear
    simp only [Command.frame, Bool.and_eq_true, Bool.not_eq_true', Bool.or_eq_false_iff,
      Bool.not_eq_false', List.isEmpty_iff] at clear
    obtain ⟨noFile, noSender, noReceiver⟩ := clear
    obtain ⟨sources, targets⟩ := untouched noPipe noFile noSender noReceiver
    simp [Command.frame, Command.errFd, Setup.inFd, Setup.outFd, sources, targets]
  · rfl

end Frame

end NetProg.SingleProc
