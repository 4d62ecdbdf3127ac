import NetProg.SingleProc.Ids
import Mathlib.Algebra.Ring.Nat
import Mathlib.Data.Prod.Lex

/-!
# Lines that end in a user-pipe error

A user pipe that cannot be created or taken ends the line, and its command is not
executed. But the words of that command before the failing one have been read by then: a
`>t` among them has created its pipe, and a `<s` has closed the write end of the pipe it
took and marked it. Nothing of this is undone. So the pipes are as they were before the
command only if there was no such word, or nothing but a `<s` for a pipe that an earlier
line of this kind has left marked.
-/

namespace NetProg.SingleProc

open Loops Outcomes Runs

/-- A user pipe as its record has it, and which of its ends are open. -/
structure Listed where
  record : UserPipeFd
  inOpen : Bool
  outOpen : Bool
  deriving DecidableEq

/-- A record with what its two numbers stand for at the moment. -/
def UserPipeFd.listed (p : Process) (u : UserPipeFd) : Listed where
  record := u
  inOpen := decide (p.object u.inFd = some (.writeEnd u.made))
  outOpen := decide (p.object u.outFd = some (.readEnd u.made))

/-- The user pipes and the numbered pipes of every client. -/
def Server.pipes (s : Server) : List (List Listed × List PipeFd) :=
  s.clientTable.map (fun c => (c.userpipeVector.map (UserPipeFd.listed s.process), c.pipeVector))

/-- A number that is not in use for an end of a user pipe. -/
def Spare (s : Server) (n : Int) : Prop :=
  ∀ c ∈ s.clientTable, ∀ u ∈ c.userpipeVector,
    (u.inFd = n → s.process.object n ≠ some (.writeEnd u.made)) ∧
    (u.outFd = n → s.process.object n ≠ some (.readEnd u.made))

/-- The next word does nothing to the pipes: it is the first of its command, or it is not a
`>t`, and if it is a `<s` then the pipe it takes is marked already and the number of its
write end is not in use for a user pipe. -/
def Harmless (job : Job) (f : Frame) : Prop :=
  f.isFirstArgv = true ∨ ∀ word ∈ f.cmds.head?, kind word ≠ .userOut ∧
    ∀ sourceId sourceCli cli record marked, kind word = .userIn →
      UserPipes.userNum word = some sourceId →
      f.server.clientTable[f.server.getClientByID sourceId]? = some sourceCli →
      f.server.clientTable[job.cli]? = some cli →
      UserPipes.markUserPipe sourceCli.id cli.id sourceCli.userpipeVector = some (record, marked) →
      record.isUsed = true ∧ Spare f.server record.inFd

/-- The words of one command are read, from the head of a round where its first word is
next. The list has the heads of the rounds on the way. -/
inductive Reading (job : Job) (start : Frame) : List Frame → Frame → Prop
  | first (isFirst : start.isFirstArgv = true) (reading : start.isFinalArgv = false) :
      Reading job start [] start
  | next {heads : List Frame} {f next : Frame} (before : Reading job start heads f)
      (again : round job f = .ok (.again next)) (reading : next.isFinalArgv = false) :
      Reading job start (heads ++ [f]) next

/-- The next word ends the line although it is not finished. There is no other way for a line to
end before its words without failing, but for an `exit`. -/
structure UserPipeError (job : Job) (f : Frame) (result : Server × Int) : Prop where
  reading : f.isFinalArgv = false
  left : f.cmds ≠ []
  leaves : round job f = .ok (.leave result)

section Listed

/-- What a record has been through. -/
def Listed.wear (l : Listed) : Nat :=
  l.record.isUsed.toNat + ((!l.inOpen).toNat + (!l.outOpen).toNat)

/-- The records of a list, worn together. -/
def wear (p : Process) (records : List UserPipeFd) : Nat :=
  (records.map (fun u => (u.listed p).wear)).sum

@[simp] theorem wear_nil (p : Process) : wear p [] = 0 := rfl

@[simp] theorem wear_cons (p : Process) (u : UserPipeFd) (records : List UserPipeFd) :
    wear p (u :: records) = (u.listed p).wear + wear p records := rfl

@[simp] theorem wear_append (p : Process) (first second : List UserPipeFd) :
    wear p (first ++ second) = wear p first + wear p second := by
  simp [wear]

/-- All user pipes there are. -/
def Server.records (s : Server) : List UserPipeFd := s.clientTable.flatMap (·.userpipeVector)

theorem spare_iff {s : Server} {n : Int} : Spare s n ↔ ∀ u ∈ s.records,
    (u.inFd = n → s.process.object n ≠ some (.writeEnd u.made)) ∧
    (u.outFd = n → s.process.object n ≠ some (.readEnd u.made)) := by
  simp only [Spare, Server.records, List.mem_flatMap]
  constructor
  · rintro spare u ⟨c, inTable, member⟩
    exact spare c inTable u member
  · intro spare c inTable u member
    exact spare u ⟨c, inTable, member⟩

/-- How many user pipes there are, and how worn they are. Reading words never makes this
less. -/
def Server.age (s : Server) : ℕ ×ₗ ℕ := toLex (s.records.length, wear s.process s.records)

/-- The age shows in the pipes. -/
theorem age_of_pipes {s t : Server} (same : t.pipes = s.pipes) : t.age = s.age := by
  have listed (s : Server) : s.records.map (UserPipeFd.listed s.process) =
      s.pipes.flatMap Prod.fst := by
    simp [Server.records, Server.pipes, List.flatMap_map, List.map_flatMap]
  have all : t.records.map (UserPipeFd.listed t.process) =
      s.records.map (UserPipeFd.listed s.process) := by
    rw [listed, listed, same]
  have lengths := congrArg List.length all
  have worn := congrArg (fun l => (l.map Listed.wear).sum) all
  simp only [List.length_map] at lengths
  simp only [List.map_map] at worn
  rw [Server.age, Server.age, lengths]
  exact congrArg (fun w => toLex (s.records.length, w)) worn

/-- An end of a pipe after a number is closed. -/
theorem open_close (p : Process) (n m : Int) (meant : Option Object) (o : Object) :
    (!decide (p.object m = some o)).toNat ≤
      (!decide ((p.closeEnd n meant).object m = some o)).toNat ∧
    ((!decide (p.object m = some o)).toNat =
      (!decide ((p.closeEnd n meant).object m = some o)).toNat → m = n → p.object n ≠ some o) := by
  rw [Process.object_closeEnd]
  by_cases same : m = n
  · subst same
    by_cases isOpen : p.object m = some o <;> simp [isOpen]
  · simp [same]

/-- No end becomes open when a number is closed, and none stops to be if the number was not
in use for one of the two. -/
theorem listed_close (p : Process) (n : Int) (meant : Option Object) (u : UserPipeFd) :
    (u.listed p).wear ≤ (u.listed (p.closeEnd n meant)).wear ∧
    ((u.listed p).wear = (u.listed (p.closeEnd n meant)).wear →
      (u.inFd = n → p.object n ≠ some (.writeEnd u.made)) ∧
      (u.outFd = n → p.object n ≠ some (.readEnd u.made))) := by
  obtain ⟨inFewer, inSame⟩ := open_close p n u.inFd meant (.writeEnd u.made)
  obtain ⟨outFewer, outSame⟩ := open_close p n u.outFd meant (.readEnd u.made)
  simp only [UserPipeFd.listed, Listed.wear]
  refine ⟨by omega, fun same => ⟨inSame (by omega), outSame (by omega)⟩⟩

/-- So for a list of records. -/
theorem wear_close (p : Process) (n : Int) (meant : Option Object) (records : List UserPipeFd) :
    wear p records ≤ wear (p.closeEnd n meant) records ∧
    (wear p records = wear (p.closeEnd n meant) records → ∀ u ∈ records,
      (u.inFd = n → p.object n ≠ some (.writeEnd u.made)) ∧
      (u.outFd = n → p.object n ≠ some (.readEnd u.made))) := by
  induction records with
  | nil =>
    rw [wear_nil, wear_nil]
    simp
  | cons first rest ih =>
    obtain ⟨fewer, same⟩ := listed_close p n meant first
    rw [wear_cons, wear_cons]
    refine ⟨by omega, fun equal u member => ?_⟩
    rcases List.mem_cons.mp member with rfl | later
    · exact same (by omega)
    · exact ih.2 (by omega) u later

/-- A record that is marked. -/
theorem wear_marked (p : Process) (record : UserPipeFd) :
    ({ record with isUsed := true }.listed p).wear =
      (record.listed p).wear + (!record.isUsed).toNat := by
  cases used : record.isUsed with
  | true => simp [UserPipeFd.listed, Listed.wear, used]
  | false =>
    simp only [UserPipeFd.listed, Listed.wear, used, Bool.toNat_true, Bool.not_false,
      Bool.toNat_false]
    omega

/-- And where the number was not in use, everything stays as it is. -/
theorem Spare.listed {s : Server} {n : Int} (spare : Spare s n) (meant : Option Object)
    {c : ClientInfo} (inTable : c ∈ s.clientTable) {u : UserPipeFd}
    (member : u ∈ c.userpipeVector) :
    u.listed (s.process.closeEnd n meant) = u.listed s.process := by
  obtain ⟨inSpare, outSpare⟩ := spare c inTable u member
  have kept (m : Int) (o : Object) (notIn : m = n → s.process.object n ≠ some o) :
      decide ((s.process.closeEnd n meant).object m = some o) =
        decide (s.process.object m = some o) := by
    rw [Process.object_closeEnd]
    by_cases same : m = n
    · subst same
      simp [notIn rfl]
    · simp [same]
  rw [UserPipeFd.listed, UserPipeFd.listed, kept _ _ inSpare, kept _ _ outSpare]

/-- A file that is opened closes nothing and is no end of a pipe. -/
theorem listed_openAs (opens : Bool) (p : Process) (u : UserPipeFd) :
    u.listed (openAs opens p).2 = u.listed p := by
  rw [openAs]
  split
  · have kept (m : Int) (o : Object) (notFile : ∀ serial, o ≠ .file serial) :
        decide (p.openFile.2.object m = some o) = decide (p.object m = some o) := by
      rw [Process.openFile, Process.object_put_nat]
      split
      · rename_i same
        have closed : p.object m = none := by
          rw [same]
          exact Process.object_lowest p.fds p.made p.closes
        simp [closed, (notFile p.made).symm]
      · rfl
    rw [UserPipeFd.listed, UserPipeFd.listed, kept _ _ (by simp), kept _ _ (by simp)]
  · rfl

end Listed

section Reading

variable {job : Job} {f next : Frame}

/-- The pipes of a server under another process. -/
theorem pipes_withProcess {s : Server} {p : Process}
    (same : ∀ c ∈ s.clientTable, ∀ u ∈ c.userpipeVector, u.listed p = u.listed s.process) :
    (s.withProcess p).pipes = s.pipes := by
  refine List.map_congr_left (fun c inTable => ?_)
  rw [Prod.mk.injEq]
  exact ⟨List.map_congr_left (fun u member => same c inTable u member), rfl⟩

/-- A pipe that is taken is worn by it, unless it was marked before and its descriptor is in use
for no user pipe: then nothing changes in the pipes that are listed. Taking marks the record and
closes the number of its write end, so that there are two ways to be worn. -/
theorem take_age {s : Server} {iter : Nat} {source : ClientInfo} {sourceId cliId : Int}
    {taken : UserPipeFd × List UserPipeFd} (found : s.clientTable[iter]? = some source)
    (takes : UserPipes.markUserPipe sourceId cliId source.userpipeVector = some taken) :
    let after := (s.update iter ({ · with userpipeVector := taken.2 })).withProcess
      (s.process.closeEnd taken.1.inFd (some (.writeEnd taken.1.made)))
    s.age ≤ after.age ∧ (s.age = after.age → taken.1.isUsed = true ∧ Spare s taken.1.inFd) ∧
      (taken.1.isUsed = true → Spare s taken.1.inFd → after.pipes = s.pipes) := by
  intro after
  obtain ⟨record, marked⟩ := taken
  obtain ⟨earlier, further, isVector, rfl, -⟩ := UserPipes.markUserPipe_split takes
  obtain ⟨before, behind, whole, changed⟩ := modify_split found
  let meant := some (Object.writeEnd record.made)
  let first := before.flatMap (·.userpipeVector) ++ earlier
  let last := further ++ behind.flatMap (·.userpipeVector)
  have records : s.records = first ++ record :: last := by
    simp [Server.records, whole, isVector, first, last]
  have recordsAfter : after.records = first ++ { record with isUsed := true } :: last := by
    change (s.clientTable.modify _ _).flatMap (·.userpipeVector) = _
    rw [changed]
    simp [first, last]
  have lengths : after.records.length = s.records.length := by
    rw [records, recordsAfter]
    simp
  have worn : wear s.process s.records =
      wear s.process first + ((record.listed s.process).wear + wear s.process last) := by
    rw [records, wear_append, wear_cons]
  have wornAfter : wear after.process after.records = wear after.process first +
      ((record.listed after.process).wear + (!record.isUsed).toNat + wear after.process last) := by
    rw [recordsAfter, wear_append, wear_cons, wear_marked]
  obtain ⟨firstFewer, firstSame⟩ := wear_close s.process record.inFd meant first
  obtain ⟨fewer, same⟩ := listed_close s.process record.inFd meant record
  obtain ⟨lastFewer, lastSame⟩ := wear_close s.process record.inFd meant last
  change wear s.process first ≤ wear after.process first at firstFewer
  change (record.listed s.process).wear ≤ (record.listed after.process).wear at fewer
  change wear s.process last ≤ wear after.process last at lastFewer
  refine ⟨?_, fun equal => ?_, fun used spare => ?_⟩
  · exact Prod.Lex.toLex_le_toLex.mpr (.inr ⟨lengths.symm, by omega⟩)
  · have isWear : wear s.process s.records = wear after.process after.records :=
      congrArg (fun age => (ofLex age).2) equal
    have used : record.isUsed = true := by
      cases isUsed : record.isUsed with
      | true => rfl
      | false =>
        rw [isUsed] at wornAfter
        simp only [Bool.not_false, Bool.toNat_true] at wornAfter
        omega
    refine ⟨used, spare_iff.mpr (fun u member => ?_)⟩
    rw [records] at member
    rcases List.mem_append.mp member with inFirst | inRest
    · exact firstSame (show wear s.process first = wear after.process first by omega) u inFirst
    · rcases List.mem_cons.mp inRest with rfl | inLast
      · exact same (show (u.listed s.process).wear = (u.listed after.process).wear by omega)
      · exact lastSame (show wear s.process last = wear after.process last by omega) u inLast
  · have marked : { record with isUsed := true } = record := by
      obtain ⟨inFd, outFd, sourceId, targetId, isUsed, made⟩ := record
      cases used
      rfl
    have table : (s.update iter ({ · with userpipeVector :=
        earlier ++ { record with isUsed := true } :: further })) = s := by
      rw [Server.update, changed, marked, ← isVector]
      exact congrArg (fun l => { s with clientTable := l }) whole.symm
    change ((Server.update _ _ _).withProcess _).pipes = _
    rw [table]
    exact pipes_withProcess (fun c inTable u member => spare.listed meant inTable member)

/-- A word that is read ages the pipes, or does nothing to them. The age orders first by how many
user pipes there are and then by how worn they are: a `>t` adds one, and a `<s` wears the one it
takes if there is anything left to wear. -/
theorem Reads.age {word : Str} {rest : List Str} (reads : Reads job f word rest (.again next))
    (queue : f.cmds = word :: rest) (goesOn : next.isFinalArgv = false) :
    f.server.age ≤ next.server.age ∧ (f.server.age = next.server.age → Harmless job f) ∧
      (Harmless job f → next.server.pipes = f.server.pipes) := by
  have unchanged (same : next.server.pipes = f.server.pipes) (harmless : Harmless job f) :
      f.server.age ≤ next.server.age ∧ (f.server.age = next.server.age → Harmless job f) ∧
        (Harmless job f → next.server.pipes = f.server.pipes) :=
    ⟨le_of_eq (age_of_pipes same).symm, fun _ => harmless, fun _ => same⟩
  have other (notOut : kind word ≠ .userOut) (notIn : kind word ≠ .userIn) : Harmless job f := by
    refine .inr (fun first isFirst => ?_)
    rw [queue] at isFirst
    cases isFirst
    exact ⟨notOut, fun _ _ _ _ _ isIn => absurd isIn notIn⟩
  cases reads with
  | prog first => exact unchanged rfl (.inl first)
  | argument later same => exact unchanged rfl (other (by simp [same]) (by simp [same]))
  | pipe => cases goesOn
  | redirectOut later same follows | redirectIn later same follows =>
    exact unchanged (pipes_withProcess (fun _ _ u _ => listed_openAs _ _ u))
      (other (by simp [same]) (by simp [same]))
  | @userOut targetId mark cli later same number looked marked isCli fresh can =>
    obtain ⟨before, after, whole, changed⟩ := modify_split isCli
    have longer : f.server.records.length < (f.sendTo job.cli targetId (UserPipes.createUserPipe
        f.server.process cli.userpipeVector cli.id targetId) rest).server.records.length := by
      change _ < ((f.server.clientTable.modify job.cli _).flatMap (·.userpipeVector)).length
      rw [changed, Server.records, whole]
      simp [UserPipes.createUserPipe_eq]
    have older : f.server.age < (f.sendTo job.cli targetId (UserPipes.createUserPipe
        f.server.process cli.userpipeVector cli.id targetId) rest).server.age :=
      Prod.Lex.toLex_lt_toLex.mpr (.inl longer)
    refine ⟨le_of_lt older, fun equal => absurd equal (ne_of_lt older), ?_⟩
    rintro (first | all)
    · rw [first] at later
      cases later
    · exact absurd same (all word (by rw [queue]; rfl)).1
  | @userIn sourceId mark sourceCli cli taken later same number looked marked isSource isCli takes =>
    obtain ⟨older, aged, kept⟩ := take_age isSource takes
    refine ⟨older, fun equal => ?_, ?_⟩
    · refine .inr (fun first isFirst => ?_)
      rw [queue] at isFirst
      cases isFirst
      refine ⟨by simp [same], fun id other own record vector _ isNumber found isOwn marks => ?_⟩
      cases number.symm.trans isNumber
      cases isSource.symm.trans found
      cases isCli.symm.trans isOwn
      cases takes.symm.trans marks
      exact aged equal
    · rintro (first | all)
      · rw [first] at later
        cases later
      · obtain ⟨used, spare⟩ := (all word (by rw [queue]; rfl)).2 sourceId sourceCli cli taken.1
          taken.2 same number isSource isCli takes
        exact kept used spare

/-- Descriptors that go back to the socket have nothing to do with it. -/
theorem harmless_initFd (sockfd : Int) : Harmless job (f.initFd sockfd) ↔ Harmless job f := by
  rw [Frame.initFd]
  split <;> rfl

theorem round_reads {word : Str} {rest : List Str} {step : Step} (reading : f.isFinalArgv = false)
    (queue : f.cmds = word :: rest) (ran : round job f = .ok step) :
    Reads job (f.initFd job.sockfd) word rest step := by
  rw [round, reading, queue] at ran
  exact readWord_reads ran

/-- A round that goes on to read has read a word. It makes the tables older unless the word is
harmless, and leaves the pipes as they are if it is. -/
theorem round_age (reading : f.isFinalArgv = false) (again : round job f = .ok (.again next))
    (goesOn : next.isFinalArgv = false) :
    f.server.age ≤ next.server.age ∧ (f.server.age = next.server.age → Harmless job f) ∧
      (Harmless job f → next.server.pipes = f.server.pipes) := by
  cases queue : f.cmds with
  | nil =>
    rw [round, reading, queue] at again
    cases again
  | cons word rest =>
    have cmds : (f.initFd job.sockfd).cmds = word :: rest := by
      rw [Frame.initFd]
      split <;> exact queue
    have age := (round_reads reading queue again).age cmds goesOn
    rwa [harmless_initFd, initFd_server] at age

theorem Reading.reading {start : Frame} {heads : List Frame} (read : Reading job start heads f) :
    f.isFinalArgv = false := by
  cases read with
  | first isFirst reading => exact reading
  | next before again reading => exact reading

/-- The words of a command together. -/
theorem Reading.age {start : Frame} {heads : List Frame} (read : Reading job start heads f) :
    start.server.age ≤ f.server.age ∧
      (start.server.age = f.server.age → ∀ head ∈ heads, Harmless job head) ∧
      ((∀ head ∈ heads, Harmless job head) → f.server.pipes = start.server.pipes) := by
  induction read with
  | first => simp
  | next before again reading ih =>
    obtain ⟨older, harmless, kept⟩ := round_age before.reading again reading
    refine ⟨ih.1.trans older, fun equal => ?_, fun all => ?_⟩
    · have same := le_antisymm older (equal ▸ ih.1)
      have sameBefore := le_antisymm ih.1 (equal ▸ older)
      intro head member
      rcases List.mem_append.mp member with earlier | last
      · exact ih.2.1 sameBefore head earlier
      · rw [List.mem_singleton.mp last]
        exact harmless same
    · rw [kept (all _ (List.mem_append_right _ List.mem_cons_self))]
      exact ih.2.2 (fun head member => all head (List.mem_append_left _ member))

/-- The error itself only prints. -/
theorem UserPipeError.pipes {result : Server × Int} (error : UserPipeError job f result) :
    result.1.pipes = f.server.pipes := by
  cases queue : f.cmds with
  | nil => exact absurd queue error.left
  | cons word rest =>
    have reads := round_reads error.reading queue error.leaves
    rw [← initFd_server f job.sockfd]
    cases reads <;> rfl

/-- A word completes a command only by its last word or a pipe operator. -/
theorem Reads.completes {word : Str} {rest : List Str} (reads : Reads job f word rest (.again next))
    (reading : f.isFinalArgv = false) (complete : next.isFinalArgv = true) :
    next.isFirstArgv = true ∨ next.cmds = [] := by
  cases reads with
  | prog | argument => exact .inr (List.isEmpty_iff.mp complete)
  | pipe => exact .inl rfl
  | redirectOut | redirectIn | userOut | userIn =>
    simp only [Frame.redirectOut, Frame.redirectIn, Frame.sendTo, Frame.receiveFrom, Frame.endLine,
      reading, Bool.false_or] at complete ⊢
    exact .inr (List.isEmpty_iff.mp complete)

/-- At the head of a round of a line with words left that is not an execution, the words of
one command have been read from its first one on. -/
theorem rounds_reading {start : Frame} (isFirst : start.isFirstArgv = true)
    (reading : start.isFinalArgv = false) : ∀ head ∈ (cmdLoop job).rounds start,
    (head.isFinalArgv = true → head.isFirstArgv = true ∨ head.cmds = []) ∧
    (head.isFinalArgv = false → head.cmds ≠ [] → ∃ first ∈ (cmdLoop job).rounds start, ∃ heads,
      Reading job first heads head) := by
  refine (cmdLoop job).rounds_invariant _ ⟨fun complete => ?_, fun _ _ => ?_⟩ ?_
  · rw [reading] at complete
    cases complete
  · exact ⟨start, (cmdLoop job).mem_rounds_self start, [], .first isFirst reading⟩
  · intro f next _ held again listed
    have ran : round job f = .ok (.again next) := again
    cases complete : f.isFinalArgv with
    | true =>
      rw [round, complete] at ran
      obtain ⟨_, same, executes⟩ := execute_executes ran
      cases same
      obtain ⟨_, _, _, _, _, _, _, _, _, _, -, -, -, -, -, -, rfl⟩ := executes.steps
      refine ⟨fun final => (by cases final), fun goesOn left => ?_⟩
      rcases held.1 complete with first | empty
      · exact ⟨_, listed, [], .first first goesOn⟩
      · exact absurd empty left
    | false =>
      cases queue : f.cmds with
      | nil =>
        rw [round, complete, queue] at ran
        cases ran
      | cons word rest =>
        have reads := round_reads complete queue ran
        have notFinal : (f.initFd job.sockfd).isFinalArgv = false := by
          rw [Frame.initFd]
          split <;> exact complete
        refine ⟨reads.completes notFinal, fun goesOn _ => ?_⟩
        obtain ⟨first, inRounds, heads, read⟩ := held.2 complete (by simp [queue])
        exact ⟨first, inRounds, heads ++ [f], .next read ran goesOn⟩

end Reading

/-- For every server and every line that stops at a user-pipe error: the words of the failing
command have been read from its first one on, and after the line the pipes are as they were when
that one was read if and only if each word before the failing one was harmless.

A word does harm when it makes a pipe, counts the table down or takes a user pipe; none of that is
undone when a later word fails. Each word that does can only move the pipes on, never back, which
is what makes the condition necessary. -/
theorem user_pipe_error_atomic_iff {world : World} {s : Server} {iter : Nat} {cliMsg : Str}
    {job : Job} {failing : Frame} {result : Server × Int}
    (visits : (job, failing) ∈ visited world s iter cliMsg)
    (error : UserPipeError job failing result) :
    ∃ start heads, (job, start) ∈ visited world s iter cliMsg ∧ Reading job start heads failing ∧
      clientExec world s iter cliMsg = .ok (result.1.write job.sockfd (str "% "), result.2) ∧
      ((result.1.write job.sockfd (str "% ")).pipes = start.server.pipes ↔
        ∀ head ∈ heads, Harmless job head) := by
  unfold visited at visits ⊢
  cases found : s.clientTable[iter]? with
  | none =>
    rw [found] at visits
    cases visits
  | some cli =>
    simp only [found, List.mem_map] at visits ⊢
    obtain ⟨frame, listed, same⟩ := visits
    cases same
    let job : Job := ⟨iter, cli.fd, cliMsg, world⟩
    let begun := Frame.initial (beginLine s cli) cli.fd (words cliMsg)
    have all := @rounds_reading job begun rfl rfl failing listed
    obtain ⟨start, inRounds, heads, read⟩ := all.2 error.reading error.left
    refine ⟨start, heads, ⟨start, inRounds, rfl⟩, read, ?_, ?_⟩
    · have nonempty : cliMsg ≠ [] := by
        rintro rfl
        have leaves : round job begun = .ok (.leave (begun.server, 0)) := rfl
        have single : failing = begun := by
          simpa [frames, Loop.rounds, Loop.heads, cmdLoop, leaves, begun, job] using listed
        exact error.left (by rw [single]; rfl)
      have looped : execCmds job (beginLine s cli) (words cliMsg) = .ok result :=
        ((cmdLoop job).run_of_mem_rounds listed).symm.trans
          ((cmdLoop job).run_leave error.leaves)
      rw [clientExec, client_eq_ok.mpr found]
      change (if cliMsg = [] then _ else _) = _
      rw [if_neg nonempty]
      change (execCmds job (beginLine s cli) (words cliMsg) >>= _) = _
      rw [looped]
      rfl
    · obtain ⟨-, harmless, kept⟩ := read.age
      change result.1.pipes = _ ↔ _
      rw [error.pipes]
      exact ⟨fun same => harmless (age_of_pipes same).symm, kept⟩

/-- Where a line stops at a user-pipe error, and what it comes to. -/
def stopsAt (world : World) (s : Server) (iter : Nat) (cliMsg : Str) :
    Option (Job × Frame × Server × Int) :=
  (visited world s iter cliMsg).findSome? (fun v =>
    if v.2.isFinalArgv = false ∧ v.2.cmds ≠ [] then
      match round v.1 v.2 with
      | .ok (.leave result) => some (v.1, v.2, result)
      | _ => none
    else none)

/-- The first user-pipe error that is found is one, at a frame that the line comes to. -/
theorem stopsAt_eq_some {world : World} {s : Server} {iter : Nat} {cliMsg : Str} {job : Job}
    {failing : Frame} {result : Server × Int}
    (stops : stopsAt world s iter cliMsg = some (job, failing, result)) :
    (job, failing) ∈ visited world s iter cliMsg ∧ UserPipeError job failing result := by
  obtain ⟨⟨job', f⟩, member, found⟩ := List.exists_of_findSome?_eq_some stops
  simp only at found
  split at found
  · rename_i reading
    split at found
    · rename_i leaves
      cases found
      exact ⟨member, reading.1, reading.2, leaves⟩
    · cases found
  · cases found

/-- Two clients, and the second has sent something to the first. -/
def sentToFirst : List Event :=
  [.accept (str "127.0.0.1") 4001, .accept (str "127.0.0.1") 4002,
    .line 5 (str "ls >1\n") World.plain]

/-- The first wants to send something on to nobody. -/
theorem user_pipe_error_atomic_to_nobody : ∃ s job start heads failing result,
    Run system ByExit sentToFirst s ∧
    stopsAt World.plain s 0 (str "cat >9") = some (job, failing, result) ∧
    Reading job start heads failing ∧
    clientExec World.plain s 0 (str "cat >9") =
      .ok (result.1.write job.sockfd (str "% "), result.2) ∧
    ((result.1.write job.sockfd (str "% ")).pipes = start.server.pipes ↔
      ∀ head ∈ heads, Harmless job head) := by
  have plays : ((play system ByExit system.start sentToFirst).map (fun s =>
      (stopsAt World.plain s 0 (str "cat >9")).isSome)) = some true := by
    decide +kernel
  obtain ⟨s, played, stops⟩ := Option.map_eq_some_iff.mp plays
  obtain ⟨⟨job, failing, result⟩, stopped⟩ := Option.isSome_iff_exists.mp stops
  obtain ⟨visits, error⟩ := stopsAt_eq_some stopped
  obtain ⟨start, heads, -, read, ended, same⟩ := user_pipe_error_atomic_iff visits error
  exact ⟨s, job, start, heads, failing, result, Run.played sentToFirst s played, stopped, read,
    ended, same⟩

/-- A pipe has been taken before the error. -/
theorem taken_before_error : ∃ s after,
    Run system ByExit sentToFirst s ∧ offers s (.line 4 (str "cat <2 >9\n") World.plain) ∧
    serve s (.line 4 (str "cat <2 >9\n") World.plain) = .ok after ∧
    (stopsAt World.plain s 0 (str "cat <2 >9")).isSome ∧
    (visited World.plain s 0 (str "cat <2 >9")).head?.map (fun v => v.2.server.pipes) =
      some s.pipes ∧ after.pipes ≠ s.pipes := by
  have plays : ((play system ByExit system.start sentToFirst).bind (fun s =>
      match serve s (.line 4 (str "cat <2 >9\n") World.plain) with
      | .ok after => some (decide (offers s (.line 4 (str "cat <2 >9\n") World.plain) ∧
          (stopsAt World.plain s 0 (str "cat <2 >9")).isSome ∧
          (visited World.plain s 0 (str "cat <2 >9")).head?.map (fun v => v.2.server.pipes) =
            some s.pipes ∧ after.pipes ≠ s.pipes))
      | .error _ => none)) = some true := by
    decide +kernel
  obtain ⟨s, played, served⟩ := Option.bind_eq_some_iff.mp plays
  have run := Run.played sentToFirst s played
  split at served
  · rename_i after isServed
    obtain ⟨offered, stops, begins, differs⟩ := of_decide_eq_true (Option.some.inj served)
    exact ⟨s, after, run, offered, isServed, stops, begins, differs⟩
  · cases served

end NetProg.SingleProc
