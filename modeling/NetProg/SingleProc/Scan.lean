import NetProg.SingleProc.Ids

/-!
# Where a line goes

How far the command loop gets in a line is decided by the words, by who is logged
in, by the counts of the client's numbered pipes and by which user pipes there are
between whom. Descriptors, names, the environment and what is printed have no part
in it. A scan of the words keeps track of these alone: it says which words are
looked at and which commands are executed, and stops where the loop leaves the
line, at a user-pipe error.

A command or a word is in range when the accesses made for it are, and when the
pipe it asks for is made: a failed `pipe` ends the one process that serves
everybody. The scan of a line ends without a result at the first command or word
that is not in range.
-/

namespace NetProg.SingleProc

open Loops Outcomes

/-- A user pipe without its ends. -/
structure Link where
  sourceId : Int
  targetId : Int
  isUsed : Bool
  deriving DecidableEq

/-- A client by its id, the counts of its numbered pipes and the user pipes it has
sent. -/
structure Party where
  id : Int
  counts : List Int
  links : List Link
  deriving DecidableEq

/-- What the scan knows of a user pipe: who it is from and for, and whether it is marked. -/
def UserPipeFd.link (record : UserPipeFd) : Link :=
  ⟨record.sourceId, record.targetId, record.isUsed⟩

/-- What the scan knows of a client: its id, the counts of its pipes and its user pipes. -/
def Holder.party (h : Holder) : Party :=
  ⟨h.id, h.pipeVector.map PipeFd.count, h.userpipeVector.map UserPipeFd.link⟩

namespace Party

/-- A numbered pipe with a count. -/
def await (count : Int) (p : Party) : Party := { p with counts := p.counts ++ [count] }

/-- The pipe that was due is gone, and the others are nearer by one. -/
def advance (p : Party) : Party :=
  { p with counts := (p.counts.filter (· ≠ 0)).map (· - 1) }

/-- A user pipe to a client. -/
def send (targetId : Int) (p : Party) : Party :=
  { p with links := p.links ++ [⟨p.id, targetId, false⟩] }

/-- The user pipes with other marks. -/
def mark (links : List Link) (p : Party) : Party := { p with links := links }

/-- The user pipes that are not marked used. -/
def clean (p : Party) : Party := { p with links := p.links.filter (! ·.isUsed) }

end Party

/-- The first user pipe between two clients is marked used. -/
def markLink (sourceId cliId : Int) : List Link → Option (List Link)
  | [] => none
  | link :: rest =>
    if link.sourceId = sourceId ∧ link.targetId = cliId then some ({ link with isUsed := true } :: rest)
    else (markLink sourceId cliId rest).map (link :: ·)

/-- The built-in commands index their arguments, and `tell` the table of ids. -/
def commandInRange : List Str → Bool
  | [] => false
  | prog :: rest =>
    if prog = str "printenv" then 1 ≤ rest.length
    else if prog = str "setenv" then 2 ≤ rest.length
    else if prog = str "who" then true
    else if prog = str "yell" then 1 ≤ rest.length
    else if prog = str "tell" then 2 ≤ rest.length &&
      ((rest[0]?).bind stoi).any (fun id : Int => decide (1 ≤ id ∧ id ≤ maxClientSize))
    else if prog = str "name" then 1 ≤ rest.length
    else true

/-- A word after the first: a pipe operator fits its buffer, a redirection has a
file name, and a user pipe has an id of at most two characters in 1..30. -/
def wordInRange (word : Str) (rest : List Str) : Bool :=
  match kind word with
  | .pipe | .errorPipe => word.length ≤ 5
  | .redirectOut | .redirectIn => rest ≠ []
  | .userOut | .userIn =>
    word.length ≤ 3 && decide (1 ≤ atoi (word.drop 1) ∧ atoi (word.drop 1) ≤ maxClientSize)
  | .argument => true

/-- The clients, the words left, the command that is begun or complete, and the clients whose user
pipes it has taken. It is as much of a frame as decides whether a line stays in range. -/
structure Scan where
  parties : List Party
  words : List Str
  isFirst : Bool
  isFinal : Bool
  arguments : List Str
  taken : List Int
  deriving DecidableEq

namespace Scan

/-- A word asks for a new pipe: a pipe operator whose count no numbered pipe of the client
has, and a user pipe to a client who is logged in and gets none from this one yet. -/
def asks (c : Scan) (me : Nat) (word : Str) : Bool :=
  match kind word with
  | .pipe | .errorPipe =>
    !c.parties[me]?.any ((NumberedPipes.pipeNum word).getD 0 ∈ ·.counts)
  | .userOut =>
    c.parties.any (·.id = atoi (word.drop 1)) &&
      !c.parties[me]?.any (·.links.any (·.targetId = atoi (word.drop 1)))
  | _ => false

/-- The next thing the line does is in range: the command has its arguments, or the word is
the first of a command, or its accesses are in range and the pipe it asks for is made. -/
def inRange (c : Scan) (pipes : Nat → Bool) (me : Nat) : Bool :=
  if c.isFinal then commandInRange c.arguments
  else
    match c.words with
    | [] => true
    | word :: rest =>
      c.isFirst || (wordInRange word rest && (!c.asks me word || pipes rest.length))

/-- Where a client is in the list. -/
def position (parties : List Party) (id : Int) : Nat := parties.findIdx (·.id = id)

/-- The words of a redirection or a user pipe are read, and the command goes on
unless they were the last. -/
def goOn (c : Scan) (rest : List Str) : Scan :=
  { c with words := rest, isFirst := c.isFirst || rest.isEmpty, isFinal := c.isFinal || rest.isEmpty }

/-- The first word of a command; `tell` and `yell` take the rest of the line. -/
def readProg (c : Scan) (word : Str) (rest : List Str) : Scan :=
  let swallows := word = str "tell" ∨ word = str "yell"
  let left := if swallows then [] else rest
  { c with
    arguments := if swallows then word :: rest else [word]
    words := left
    isFirst := false
    isFinal := left.isEmpty }

/-- The word becomes an argument; without another word the command is complete. -/
def readArgument (c : Scan) (word : Str) (rest : List Str) : Scan :=
  { c with arguments := c.arguments ++ [word], words := rest, isFinal := rest.isEmpty }

/-- A pipe operator joins a numbered pipe of the client or makes a new one. -/
def readPipe (c : Scan) (me : Nat) (word : Str) (rest : List Str) : Scan :=
  let count := (NumberedPipes.pipeNum word).getD 0
  let ended := { c with words := rest, isFirst := true, isFinal := true }
  if c.parties[me]?.any (count ∈ ·.counts) then ended
  else { ended with parties := c.parties.modify me (Party.await count) }

/-- A user pipe to a client who is logged in and gets none from this one yet. -/
def readUserOut (c : Scan) (me : Nat) (word : Str) (rest : List Str) : Round Scan Unit :=
  let targetId := atoi (word.drop 1)
  if c.parties.any (·.id = targetId) &&
      !c.parties[me]?.any (·.links.any (·.targetId = targetId)) then
    .again (goOn { c with parties := c.parties.modify me (Party.send targetId) } rest)
  else .leave ()

/-- A user pipe from a client who is logged in and has sent one to this one. -/
def readUserIn (c : Scan) (me : Nat) (word : Str) (rest : List Str) : Round Scan Unit :=
  let source := position c.parties (atoi (word.drop 1))
  match c.parties[source]?, c.parties[me]? with
  | some sender, some receiver =>
    match markLink sender.id receiver.id sender.links with
    | some links =>
      .again (goOn { c with
        parties := c.parties.modify source (Party.mark links)
        taken := c.taken ++ [sender.id] } rest)
    | none => .leave ()
  | _, _ => .leave ()

/-- A command is executed: the client's numbered pipes advance, and the used user
pipes of everybody it has taken one from, and of the client, are gone. -/
def execute (c : Scan) (me : Nat) : Scan :=
  let own := (c.parties[me]?.map Party.id).toList
  { c with
    parties := (c.taken ++ own).foldl
      (fun parties id => parties.modify (position parties id) Party.clean)
      (c.parties.modify me Party.advance)
    isFinal := false
    taken := [] }

/-- What comes next in the line, if it is in range. -/
def next (c : Scan) (me : Nat) : Round Scan Unit :=
  if c.isFinal then .again (c.execute me)
  else
    match c.words with
    | [] => .leave ()
    | word :: rest =>
      if c.isFirst then .again (c.readProg word rest)
      else
        match kind word with
        | .pipe | .errorPipe => .again (c.readPipe me word rest)
        | .redirectOut | .redirectIn => .again (c.goOn rest.tail)
        | .userOut => c.readUserOut me word rest
        | .userIn => c.readUserIn me word rest
        | .argument => .again (c.readArgument word rest)

section Words

variable {me : Nat} {c after : Scan} {word : Str} {rest : List Str}

theorem readPipe_words (c : Scan) (me : Nat) (word : Str) (rest : List Str) :
    (c.readPipe me word rest).words = rest := by
  simp only [readPipe]
  split <;> rfl

theorem readUserOut_words (again : c.readUserOut me word rest = .again after) :
    after.words = rest := by
  simp only [readUserOut] at again
  split at again
  · cases again
    rfl
  · cases again

theorem readUserIn_words (again : c.readUserIn me word rest = .again after) :
    after.words = rest := by
  simp only [readUserIn] at again
  split at again
  · split at again
    · cases again
      rfl
    · cases again
  · cases again

end Words

/-- Words left and commands waiting to be executed. -/
def pending (c : Scan) : Nat := 2 * c.words.length + if c.isFinal then 1 else 0

/-- Everything that is read leaves fewer words, and an execution no complete
command. -/
theorem next_decreases {me : Nat} {c after : Scan}
    (again : c.next me = .again after) : after.pending < c.pending := by
  have fewer {word : Str} {rest : List Str} (left : c.words = word :: rest)
      (short : after.words.length ≤ rest.length) : after.pending < c.pending := by
    have length : c.words.length = rest.length + 1 := by rw [left, List.length_cons]
    unfold pending
    split <;> omega
  rw [next] at again
  split at again
  · rename_i final
    cases again
    simp [pending, execute, final]
  split at again
  · cases again
  rename_i word rest left
  apply fewer left
  split at again
  · cases again
    simp only [readProg]
    split <;> simp
  split at again
  · cases again
    exact Nat.le_of_eq (congrArg List.length (readPipe_words c me word rest))
  · cases again
    exact Nat.le_of_eq (congrArg List.length (readPipe_words c me word rest))
  · cases again
    exact List.length_tail ▸ Nat.sub_le _ _
  · cases again
    exact List.length_tail ▸ Nat.sub_le _ _
  · exact Nat.le_of_eq (congrArg List.length (readUserOut_words again))
  · exact Nat.le_of_eq (congrArg List.length (readUserIn_words again))
  · cases again
    exact Nat.le_refl _

/-- The scan of a line, which fails at the first thing that is out of range. -/
def loop (pipes : Nat → Bool) (me : Nat) : Loop Scan Unit Unit where
  body c := if c.inRange pipes me then .ok (c.next me) else .error ()
  measure := pending
  decreases c after round := by
    split at round
    · exact next_decreases (Except.ok.inj round)
    · cases round

end Scan

/-- Marking a user pipe, without its ends. -/
theorem markLink_link (sourceId cliId : Int) (userpipeVector : List UserPipeFd) :
    markLink sourceId cliId (userpipeVector.map UserPipeFd.link) =
      (UserPipes.markUserPipe sourceId cliId userpipeVector).map
        (fun taken => taken.2.map UserPipeFd.link) := by
  induction userpipeVector with
  | nil => rfl
  | cons record rest ih =>
    simp only [List.map_cons, markLink, UserPipes.markUserPipe, ih]
    by_cases here : record.sourceId = sourceId ∧ record.targetId = cliId
    · simp [here, UserPipeFd.link]
    · have notHere : ¬ (record.link.sourceId = sourceId ∧ record.link.targetId = cliId) := here
      rw [if_neg here, if_neg notHere, Option.map_map, Option.map_map]
      rfl

/-- The clients of the tables. -/
def Tables.parties (t : Tables) : List Party := t.holders.map Holder.party

section Parties

variable {t : Tables} {i : Nat} {h : Holder}

theorem parties_getElem (found : t.holders[i]? = some h) : t.parties[i]? = some h.party := by
  simp [Tables.parties, found]

theorem parties_withPipes (found : t.holders[i]? = some h) (pipeVector : List PipeFd)
    (p : Process) (change : Party → Party)
    (same : Holder.party { h with pipeVector := pipeVector } = change h.party) :
    (t.withPipes i pipeVector p).parties = t.parties.modify i change := by
  apply map_modify
  intro g isHere
  cases found.symm.trans isHere
  exact same

theorem parties_withUserPipes (found : t.holders[i]? = some h)
    (userpipeVector : List UserPipeFd) (p : Process) (change : Party → Party)
    (same : Holder.party { h with userpipeVector := userpipeVector } = change h.party) :
    (t.withUserPipes i userpipeVector p).parties = t.parties.modify i change := by
  apply map_modify
  intro g isHere
  cases found.symm.trans isHere
  exact same

end Parties

/-- The scan of a line at its start. -/
def Scan.ofLine (t : Tables) (line : Str) : Scan where
  parties := t.parties
  words := NetProg.words line
  isFirst := true
  isFinal := false
  arguments := []
  taken := []

/-- A client is found where the scan finds it. -/
theorem position_parties (s : Server) (id : Int) :
    Scan.position s.tables.parties id = s.getClientByID id := by
  simp only [Scan.position, Tables.parties, Server.tables, List.findIdx_map, Server.getClientByID]
  rfl

/-- The frame as the scan sees it. -/
def Frame.scan (f : Frame) : Scan where
  parties := f.server.tables.parties
  words := f.cmds
  isFirst := f.isFirstArgv
  isFinal := f.isFinalArgv
  arguments := f.arguments
  taken := f.needEraseCliIds

/-- The step as the scan sees it. -/
def scanned : Step → Round Scan Unit
  | .again next => .again next.scan
  | .leave _ => .leave ()

theorem initFd_scan (f : Frame) (sockfd : Int) : (f.initFd sockfd).scan = f.scan := by
  rw [Frame.initFd]
  split <;> rfl

/-- Somebody is logged in under an id exactly if its mark is set. -/
theorem inUse_iff {s : Server} (agree : Agree s.tables) {id mark : Int}
    (looked : s.idAt (id - 1) = .ok mark) :
    s.tables.parties.any (·.id = id) = true ↔ mark ≠ 0 := by
  have anybody : s.tables.parties.any (·.id = id) = true ↔ id ∈ s.tables.holders.map Holder.id := by
    simp only [Tables.parties, List.any_map, List.any_eq_true, Function.comp_apply,
      decide_eq_true_eq, List.mem_map]
    rfl
  rw [anybody]
  constructor
  · rintro member rfl
    exact ((agree.inUse id).mp member).2 (idAt_eq_ok.mp looked).2
  · exact agree.marked looked

section Read

variable {job : Job} {f : Frame} {word : Str} {rest : List Str}

/-- The scan follows a pipe operator. -/
theorem readPipe_scan {isError : Bool} {pipeNum : Int} {cli : ClientInfo}
    {created : Int × List PipeFd × Process}
    (number : NumberedPipes.pipeNum word = some pipeNum)
    (isCli : f.server.clientTable[job.cli]? = some cli)
    (creates : NumberedPipes.createPipe (job.world.pipes rest.length) f.server.process
      cli.pipeVector pipeNum = some created) :
    f.scan.readPipe job.cli word rest = (f.pipeTo job.cli isError created rest).scan := by
  have holder := holders_getElem isCli
  have party : f.scan.parties[job.cli]? = some cli.holder.party := parties_getElem holder
  have ended : (f.pipeTo job.cli isError created rest).scan = { f.scan with
      parties := (f.server.tables.withPipes job.cli created.2.1 created.2.2).parties
      words := rest
      isFirst := true
      isFinal := true } := by
    simp only [Frame.scan, Frame.pipeTo, tables_pipeVector]
  obtain ⟨writeEnd, extended, opened⟩ := created
  simp only [Scan.readPipe, number, Option.getD_some, party, Option.any_some, ended]
  rcases NumberedPipes.createPipe_cases creates with
    ⟨same, member, count, rfl, rfl, rfl⟩ | ⟨-, fresh, rfl, rfl, rfl⟩
  · have waits : pipeNum ∈ cli.holder.party.counts := List.mem_map.mpr ⟨same, member, count⟩
    have kept := parties_withPipes holder cli.pipeVector f.server.process id rfl
    rw [if_pos (decide_eq_true waits), kept, List.modify_id]
    rfl
  · have none : pipeNum ∉ cli.holder.party.counts := by
      intro waits
      obtain ⟨record, member, count⟩ := List.mem_map.mp waits
      exact fresh record member count
    rw [if_neg (by simpa using none), parties_withPipes holder _ _ (Party.await pipeNum)
      (by simp [Holder.party, Party.await, ClientInfo.holder])]
    rfl

/-- A pipe operator asks for a pipe exactly if the client has no record with its count. -/
theorem asks_pipe {pipeNum : Int} {cli : ClientInfo}
    (same : kind word = .pipe ∨ kind word = .errorPipe)
    (number : NumberedPipes.pipeNum word = some pipeNum)
    (isCli : f.server.clientTable[job.cli]? = some cli) :
    f.scan.asks job.cli word = true ↔ ∀ record ∈ cli.pipeVector, record.count ≠ pipeNum := by
  have party : f.scan.parties[job.cli]? = some cli.holder.party :=
    parties_getElem (holders_getElem isCli)
  have counts : cli.holder.party.counts = cli.pipeVector.map PipeFd.count := rfl
  rcases same with same | same <;> simp [Scan.asks, same, number, party, counts]

/-- The scan sees who is logged in and whom the client sends to already: what it decides from this
is what the branch of a `>t` decides from the id table and the record. -/
theorem sends_iff {id mark : Int} {cli : ClientInfo} (agree : Agree f.server.tables)
    (looked : f.server.idAt (id - 1) = .ok mark)
    (isCli : f.server.clientTable[job.cli]? = some cli) :
    (f.scan.parties.any (·.id = id) &&
      !f.scan.parties[job.cli]?.any (·.links.any (·.targetId = id))) = true ↔
      mark ≠ 0 ∧ ∀ u ∈ cli.userpipeVector, u.targetId ≠ id := by
  have party : f.scan.parties[job.cli]? = some cli.holder.party :=
    parties_getElem (holders_getElem isCli)
  have known : f.scan.parties.any (·.id = id) = true ↔ mark ≠ 0 := inUse_iff agree looked
  have fresh : cli.holder.party.links.any (·.targetId = id) = false ↔
      ∀ u ∈ cli.userpipeVector, u.targetId ≠ id := by
    simp only [Holder.party, ClientInfo.holder, List.any_map, List.any_eq_false,
      Function.comp_apply, decide_eq_true_eq]
    rfl
  rw [party, Option.any_some, Bool.and_eq_true, Bool.not_eq_true', known, fresh]

/-- A user pipe asks for a pipe exactly if it can be sent. -/
theorem asks_userOut {id mark : Int} {cli : ClientInfo} (agree : Agree f.server.tables)
    (same : kind word = .userOut) (number : UserPipes.userNum word = some id)
    (looked : f.server.idAt (id - 1) = .ok mark)
    (isCli : f.server.clientTable[job.cli]? = some cli) :
    f.scan.asks job.cli word = true ↔ mark ≠ 0 ∧ ∀ u ∈ cli.userpipeVector, u.targetId ≠ id := by
  obtain ⟨-, rfl⟩ := UserPipes.userNum_eq_some.mp number
  rw [← sends_iff agree looked isCli]
  simp only [Scan.asks, same]

/-- The scan follows a user pipe that is created. -/
theorem readUserOut_scan {targetId mark : Int} {cli : ClientInfo} (agree : Agree f.server.tables)
    (number : UserPipes.userNum word = some targetId)
    (looked : f.server.idAt (targetId - 1) = .ok mark) (marked : mark ≠ 0)
    (isCli : f.server.clientTable[job.cli]? = some cli)
    (fresh : ∀ u ∈ cli.userpipeVector, u.targetId ≠ targetId) :
    f.scan.readUserOut job.cli word rest =
      .again (f.sendTo job.cli targetId
        (UserPipes.createUserPipe f.server.process cli.userpipeVector cli.id targetId) rest).scan := by
  obtain ⟨-, rfl⟩ := UserPipes.userNum_eq_some.mp number
  have guards := (sends_iff agree looked isCli).mpr ⟨marked, fresh⟩
  have parties := parties_withUserPipes (holders_getElem isCli)
    (cli.userpipeVector ++ [⟨f.server.process.pipe.2.1, f.server.process.pipe.1, cli.id,
      atoi (word.drop 1), false, f.server.process.made⟩])
    f.server.process.pipe.2.2 (Party.send (atoi (word.drop 1)))
    (by simp [Holder.party, Party.send, ClientInfo.holder, UserPipeFd.link])
  rw [Scan.readUserOut, if_pos guards, UserPipes.createUserPipe_eq]
  simp only [Frame.scan, Frame.sendTo, Frame.endLine, Scan.goOn, tables_userpipeVector, parties]

/-- The scan stops where a user pipe cannot be created. -/
theorem readUserOut_stops {id mark : Int} {cli : ClientInfo} (agree : Agree f.server.tables)
    (number : UserPipes.userNum word = some id) (looked : f.server.idAt (id - 1) = .ok mark)
    (isCli : f.server.clientTable[job.cli]? = some cli)
    (stops : mark ≠ 0 → ¬ ∀ u ∈ cli.userpipeVector, u.targetId ≠ id) :
    f.scan.readUserOut job.cli word rest = .leave () := by
  obtain ⟨-, rfl⟩ := UserPipes.userNum_eq_some.mp number
  rw [Scan.readUserOut, if_neg]
  intro guards
  obtain ⟨marked, fresh⟩ := (sends_iff agree looked isCli).mp guards
  exact stops marked fresh

/-- The scan follows a user pipe that is taken. -/
theorem readUserIn_scan {sourceId : Int} {sourceCli cli : ClientInfo}
    {taken : UserPipeFd × List UserPipeFd} (number : UserPipes.userNum word = some sourceId)
    (isSource : f.server.clientTable[f.server.getClientByID sourceId]? = some sourceCli)
    (isCli : f.server.clientTable[job.cli]? = some cli)
    (takes : UserPipes.markUserPipe sourceCli.id cli.id sourceCli.userpipeVector = some taken) :
    f.scan.readUserIn job.cli word rest =
      .again (f.receiveFrom (f.server.getClientByID sourceId) sourceCli.id taken rest).scan := by
  obtain ⟨-, rfl⟩ := UserPipes.userNum_eq_some.mp number
  have holder := holders_getElem isSource
  have sender : f.scan.parties[f.server.getClientByID (atoi (word.drop 1))]? =
      some sourceCli.holder.party := parties_getElem holder
  have receiver : f.scan.parties[job.cli]? = some cli.holder.party :=
    parties_getElem (holders_getElem isCli)
  have position : Scan.position f.scan.parties (atoi (word.drop 1)) =
      f.server.getClientByID (atoi (word.drop 1)) := position_parties f.server _
  have marks : markLink sourceCli.holder.party.id cli.holder.party.id sourceCli.holder.party.links =
      some (taken.2.map UserPipeFd.link) := by
    simp only [Holder.party, ClientInfo.holder, markLink_link, takes, Option.map_some]
  have parties := parties_withUserPipes holder taken.2
    (f.server.process.closeEnd taken.1.inFd (some (.writeEnd taken.1.made)))
    (Party.mark (taken.2.map UserPipeFd.link)) rfl
  have step : f.scan.readUserIn job.cli word rest = .again (Scan.goOn { f.scan with
      parties := f.scan.parties.modify (f.server.getClientByID (atoi (word.drop 1)))
        (Party.mark (taken.2.map UserPipeFd.link))
      taken := f.scan.taken ++ [sourceCli.id] } rest) := by
    simp only [Scan.readUserIn, position, sender, receiver, marks]
    rfl
  rw [step]
  simp only [Frame.scan, Frame.receiveFrom, Frame.endLine, Scan.goOn, tables_userpipeVector,
    parties]

/-- The scan stops where there is no user pipe to take, or nobody to take it from. -/
theorem readUserIn_stops {id mark : Int} {cli : ClientInfo} (agree : Agree f.server.tables)
    (number : UserPipes.userNum word = some id) (looked : f.server.idAt (id - 1) = .ok mark)
    (isCli : f.server.clientTable[job.cli]? = some cli)
    (stops : mark ≠ 0 → ∃ sourceCli,
      f.server.clientTable[f.server.getClientByID id]? = some sourceCli ∧
      UserPipes.markUserPipe sourceCli.id cli.id sourceCli.userpipeVector = none) :
    f.scan.readUserIn job.cli word rest = .leave () := by
  obtain ⟨-, rfl⟩ := UserPipes.userNum_eq_some.mp number
  have receiver : f.scan.parties[job.cli]? = some cli.holder.party :=
    parties_getElem (holders_getElem isCli)
  have position : Scan.position f.scan.parties (atoi (word.drop 1)) =
      f.server.getClientByID (atoi (word.drop 1)) := position_parties f.server _
  by_cases marked : mark = 0
  · have nobody : f.scan.parties.any (·.id = atoi (word.drop 1)) = false := by
      rw [← Bool.not_eq_true]
      intro somebody
      exact (inUse_iff agree looked).mp somebody marked
    have past : Scan.position f.scan.parties (atoi (word.drop 1)) = f.scan.parties.length :=
      List.findIdx_eq_length.mpr (by simpa using nobody)
    simp only [Scan.readUserIn, past, List.getElem?_eq_none (Nat.le_refl _)]
  · obtain ⟨sourceCli, isSource, none⟩ := stops marked
    have sender : f.scan.parties[f.server.getClientByID (atoi (word.drop 1))]? =
        some sourceCli.holder.party := parties_getElem (holders_getElem isSource)
    have marks : markLink sourceCli.holder.party.id cli.holder.party.id
        sourceCli.holder.party.links = Option.none := by
      simp only [Holder.party, ClientInfo.holder, markLink_link, none, Option.map_none]
    simp only [Scan.readUserIn, position, sender, receiver, marks]

end Read

/-- What comes next when a word is read that is not the first of its command. -/
theorem next_word {job : Job} {f : Frame} {word : Str} {rest : List Str}
    (notFinal : f.isFinalArgv = false) (left : f.cmds = word :: rest)
    (later : f.isFirstArgv = false) : f.scan.next job.cli =
      match kind word with
      | .pipe | .errorPipe => .again (f.scan.readPipe job.cli word rest)
      | .redirectOut | .redirectIn => .again (f.scan.goOn rest.tail)
      | .userOut => f.scan.readUserOut job.cli word rest
      | .userIn => f.scan.readUserIn job.cli word rest
      | .argument => .again (f.scan.readArgument word rest) := by
  rw [Scan.next, if_neg (by simp [Frame.scan, notFinal])]
  simp only [show f.scan.words = word :: rest from left]
  rw [if_neg (by simp [Frame.scan, later])]

/-- The scan follows the command loop in what it reads. It has the words and the tables and no
descriptors, so that the condition of a line can be said without running it. -/
theorem Reads.scan {job : Job} {f : Frame} {word : Str} {rest : List Str} {step : Step}
    (reads : Reads job f word rest step) (agree : Agree f.server.tables)
    (present : ∃ c, f.server.clientTable[job.cli]? = some c)
    (notFinal : f.isFinalArgv = false) (left : f.cmds = word :: rest) :
    f.scan.next job.cli = scanned step := by
  cases reads with
  | prog first =>
    rw [Scan.next, if_neg (by simp [Frame.scan, notFinal])]
    simp only [show f.scan.words = word :: rest from left]
    rw [if_pos (by simp [Frame.scan, first])]
    rfl
  | argument later same =>
    rw [next_word notFinal left later, same]
    rfl
  | @pipe isError _ _ _ later same number isCli creates =>
    rw [next_word notFinal left later, same]
    cases isError with
    | true => exact congrArg Round.again (readPipe_scan number isCli creates)
    | false => exact congrArg Round.again (readPipe_scan number isCli creates)
  | redirectOut later same follows =>
    rw [next_word notFinal left later, same, follows]
    rfl
  | redirectIn later same follows =>
    rw [next_word notFinal left later, same, follows]
    rfl
  | userOut later same number looked marked isCli fresh can =>
    rw [next_word notFinal left later, same]
    exact readUserOut_scan agree number looked marked isCli fresh
  | userIn later same number looked marked isSource isCli takes =>
    rw [next_word notFinal left later, same]
    exact readUserIn_scan number isSource isCli takes
  | missing later same number looked =>
    obtain ⟨cli, isCli⟩ := present
    rw [next_word notFinal left later]
    rcases same with same | same
    · rw [same]
      exact readUserOut_stops agree number looked isCli (fun marked => absurd rfl marked)
    · rw [same]
      exact readUserIn_stops agree number looked isCli (fun marked => absurd rfl marked)
  | exists_ later same number looked marked isCli taken =>
    obtain ⟨u, member, isTarget⟩ := taken
    rw [next_word notFinal left later, same]
    exact readUserOut_stops agree number looked isCli
      (fun _ fresh => fresh u member isTarget)
  | absent later same number looked marked isSource isCli none =>
    rw [next_word notFinal left later, same]
    exact readUserIn_stops agree number looked isCli (fun _ => ⟨_, isSource, none⟩)

/-- Erasing used user pipes of several clients, as the scan sees it. -/
theorem eraseUsed_parties {ids : List Int} {server after : Server}
    (erased : ids.foldlM eraseUsed server = .ok after) :
    after.tables.parties = ids.foldl
      (fun parties id => parties.modify (Scan.position parties id) Party.clean)
      server.tables.parties := by
  induction ids generalizing server with
  | nil =>
    cases erased
    rfl
  | cons id rest ih =>
    rw [List.foldlM_cons] at erased
    obtain ⟨one, first, others⟩ := bind_eq_ok.mp erased
    obtain ⟨candidate, isCandidate, rfl⟩ := eraseUsed_eq_ok first
    rw [ih others, tables_userpipeVector, List.foldl_cons, position_parties,
      parties_withUserPipes (holders_getElem isCandidate) _ _ Party.clean]
    rw [UserPipes.eraseUserPipeVector_fst]
    simp only [Holder.party, ClientInfo.holder, Party.clean, List.filter_map]
    rfl

/-- The scan follows an execution. -/
theorem Executes.scan {job : Job} {f next : Frame} (executes : Executes job f next)
    (final : f.isFinalArgv = true) : f.scan.next job.cli = .again next.scan := by
  obtain ⟨announced, cli, needClosePipe, inFd, inPipe, p, ran, status, detached, erased, announces,
    isCli, -, built, detaches, erases, rfl⟩ := executes.steps
  have told : announced.tables = f.server.tables := (announce_keeps job f).returned announces
  have kept : ran.tables.parties = f.server.tables.parties := by
    rw [(builtin_keeps _ _ _ _).returned built, tables_logged, tables_withProcess, told]
    rfl
  have own : f.server.tables.parties[job.cli]? = some cli.holder.party := by
    have found := parties_getElem (holders_getElem (client_eq_ok.mp isCli))
    rwa [told] at found
  obtain ⟨holder, isHolder, rfl⟩ := detach_eq_ok detaches
  have counts : (NumberedPipes.countdownPipeVector (NumberedPipes.erasePipeVector holder.pipeVector
      ran.process).1).map PipeFd.count =
        ((holder.pipeVector.map PipeFd.count).filter (· ≠ 0)).map (· - 1) := by
    rw [NumberedPipes.erasePipeVector_fst, NumberedPipes.countdownPipeVector, List.filter_map]
    simp [Function.comp_def]
  have erasedParties := eraseUsed_parties erases
  rw [tables_pipeVector, parties_withPipes (holders_getElem isHolder) _ _ Party.advance
    (by simp only [Holder.party, ClientInfo.holder, Party.advance, counts]), kept] at erasedParties
  rw [Scan.next, if_pos (by simp [Frame.scan, final])]
  simp only [Scan.execute, Frame.scan, own, Option.map_some, Option.toList_some, erasedParties]
  rfl

end NetProg.SingleProc
