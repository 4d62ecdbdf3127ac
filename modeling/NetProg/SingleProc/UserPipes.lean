import NetProg.SingleProc.State

/-!
# User pipes

A client's record holds the user pipes it has sent. `CreateUserPipe` adds one,
`GetUserPipeFd` takes the one for the current client by closing its write end
and marking it used, `EraseUserPipeVector` removes what is marked and closes the
read ends, and a departure removes every pipe to the departing client with both
ends closed. Marking and removing are separate steps of a command, so a record
can be marked while its write end is closed and its number free.
-/

namespace NetProg.SingleProc

/-- The ends a record still relies on: both while it is unused, and only the
read end once it is marked used. -/
def UserPipeFd.ends (record : UserPipeFd) : List (Int × Object) :=
  if record.isUsed then [(record.outFd, .readEnd record.made)]
  else [(record.inFd, .writeEnd record.made), (record.outFd, .readEnd record.made)]

namespace UserPipes

/-- The entries of a whole vector. -/
def ends (userpipeVector : List UserPipeFd) : List (Int × Object) :=
  userpipeVector.flatMap UserPipeFd.ends

/-- The decimal after the first character of a user-pipe word, read through the
three bytes of `user_char`; without a value when the word overruns them. -/
def userNum (word : Str) : Option Int :=
  if word.length ≤ 3 then some (atoi (word.drop 1)) else none

/-- `CreateUserPipe`: the write end, the longer vector and the process. -/
def createUserPipe (p : Process) (userpipeVector : List UserPipeFd) (sourceId targetId : Int) :
    Int × List UserPipeFd × Process :=
  let (readEnd, writeEnd, opened) := p.pipe
  (writeEnd, userpipeVector ++ [⟨writeEnd, readEnd, sourceId, targetId, false, p.made⟩], opened)

/-- `GetUserPipeFd`: the first record from the source to the client, as it was,
and the vector with that record marked. -/
def markUserPipe (sourceId cliId : Int) :
    List UserPipeFd → Option (UserPipeFd × List UserPipeFd)
  | [] => none
  | record :: rest =>
    if record.sourceId = sourceId ∧ record.targetId = cliId then
      some (record, { record with isUsed := true } :: rest)
    else (markUserPipe sourceId cliId rest).map (fun found => (found.1, record :: found.2))

/-- `EraseUserPipeVector`: marked records leave, their read end closed. -/
def eraseUserPipeVector : List UserPipeFd → Process → List UserPipeFd × Process
  | [], p => ([], p)
  | record :: rest, p =>
    if record.isUsed then
      eraseUserPipeVector rest (p.closeEnd record.outFd (some (.readEnd record.made)))
    else
      let (kept, closed) := eraseUserPipeVector rest p
      (record :: kept, closed)

/-- The part of `EraseClientVector` on one client's vector: records to the
departing client leave, both their ends closed. -/
def eraseTarget (id : Int) : List UserPipeFd → Process → List UserPipeFd × Process
  | [], p => ([], p)
  | record :: rest, p =>
    if record.targetId = id then
      eraseTarget id rest
        ((p.closeEnd record.inFd (some (.writeEnd record.made))).closeEnd record.outFd
          (some (.readEnd record.made)))
    else
      let (kept, closed) := eraseTarget id rest p
      (record :: kept, closed)

theorem userNum_eq_some {word : Str} {id : Int} :
    userNum word = some id ↔ word.length ≤ 3 ∧ id = atoi (word.drop 1) := by
  rw [userNum]
  split
  · rename_i short
    simp [short, eq_comm]
  · rename_i long
    simp [long]

theorem userNum_eq_none {word : Str} : userNum word = none ↔ ¬ word.length ≤ 3 := by
  rw [userNum]
  split
  · rename_i short
    simp [short]
  · rename_i long
    simp [long]

/-- The new pipe is entered at the end, with both of its ends and its serial number. -/
theorem createUserPipe_eq (p : Process) (userpipeVector : List UserPipeFd)
    (sourceId targetId : Int) : createUserPipe p userpipeVector sourceId targetId =
      (p.pipe.2.1, userpipeVector ++
        [⟨p.pipe.2.1, p.pipe.1, sourceId, targetId, false, p.made⟩], p.pipe.2.2) := rfl

@[simp] theorem ends_nil : ends [] = [] := rfl

@[simp] theorem ends_cons (record : UserPipeFd) (rest : List UserPipeFd) :
    ends (record :: rest) = record.ends ++ ends rest := List.flatMap_cons

@[simp] theorem ends_append (first second : List UserPipeFd) :
    ends (first ++ second) = ends first ++ ends second := List.flatMap_append

theorem mem_ends {record : UserPipeFd} {userpipeVector : List UserPipeFd}
    (member : record ∈ userpipeVector) {e : Int × Object} (isEnd : e ∈ record.ends) :
    e ∈ ends userpipeVector :=
  List.mem_flatMap.mpr ⟨record, member, isEnd⟩

/-- Taking a pipe changes one record, the first between the two clients, and
that record only by its mark. -/
theorem markUserPipe_split {sourceId cliId : Int} {userpipeVector marked : List UserPipeFd}
    {record : UserPipeFd}
    (found : markUserPipe sourceId cliId userpipeVector = some (record, marked)) :
    ∃ before after, userpipeVector = before ++ record :: after ∧
      marked = before ++ { record with isUsed := true } :: after ∧
      record.sourceId = sourceId ∧ record.targetId = cliId ∧
      ∀ other ∈ before, ¬ (other.sourceId = sourceId ∧ other.targetId = cliId) := by
  induction userpipeVector generalizing marked with
  | nil => simp [markUserPipe] at found
  | cons first rest ih =>
    by_cases here : first.sourceId = sourceId ∧ first.targetId = cliId
    · have same : first = record ∧ { first with isUsed := true } :: rest = marked := by
        simpa [markUserPipe, here] using found
      obtain ⟨rfl, rfl⟩ := same
      exact ⟨[], rest, rfl, rfl, here.1, here.2, by simp⟩
    · simp only [markUserPipe, here, if_false, Option.map_eq_some_iff, Prod.mk.injEq] at found
      obtain ⟨⟨inner, innerMarked⟩, inRest, sameRecord, sameMarked⟩ := found
      simp only at sameRecord sameMarked
      subst sameRecord sameMarked
      obtain ⟨before, after, whole, result, source, target, earlier⟩ := ih inRest
      refine ⟨first :: before, after, by simp [whole], by simp [result], source, target, ?_⟩
      intro other member
      rcases List.mem_cons.mp member with rfl | later
      · exact here
      · exact earlier other later

theorem eraseUserPipeVector_fst (userpipeVector : List UserPipeFd) (p : Process) :
    (eraseUserPipeVector userpipeVector p).1 = userpipeVector.filter (! ·.isUsed) := by
  induction userpipeVector generalizing p with
  | nil => rfl
  | cons record rest ih =>
    by_cases used : record.isUsed = true
    · simpa [eraseUserPipeVector, used] using ih _
    · simpa [eraseUserPipeVector, used] using ih p

theorem eraseTarget_fst (id : Int) (userpipeVector : List UserPipeFd) (p : Process) :
    (eraseTarget id userpipeVector p).1 = userpipeVector.filter (·.targetId ≠ id) := by
  induction userpipeVector generalizing p with
  | nil => rfl
  | cons record rest ih =>
    by_cases leaving : record.targetId = id
    · simpa [eraseTarget, leaving] using ih _
    · simpa [eraseTarget, leaving] using ih p

@[simp] theorem made_eraseUserPipeVector (userpipeVector : List UserPipeFd) (p : Process) :
    (eraseUserPipeVector userpipeVector p).2.made = p.made := by
  induction userpipeVector generalizing p with
  | nil => rfl
  | cons record rest ih =>
    by_cases used : record.isUsed = true
    · simp [eraseUserPipeVector, used, ih]
    · simpa [eraseUserPipeVector, used] using ih p

@[simp] theorem made_eraseTarget (id : Int) (userpipeVector : List UserPipeFd) (p : Process) :
    (eraseTarget id userpipeVector p).2.made = p.made := by
  induction userpipeVector generalizing p with
  | nil => rfl
  | cons record rest ih =>
    by_cases leaving : record.targetId = id
    · simp [eraseTarget, leaving, ih]
    · simpa [eraseTarget, leaving] using ih p

/-- Removing marked records closes read ends that were given up before. -/
theorem eraseUserPipeVector_account {honest : Prop} {p : Process}
    {userpipeVector : List UserPipeFd} {live dying : List (Int × Object)}
    (account : Account honest p live dying)
    (given : ∀ record ∈ userpipeVector, record.isUsed = true →
      (record.outFd, .readEnd record.made) ∈ dying) :
    Account honest (eraseUserPipeVector userpipeVector p).2 live dying := by
  induction userpipeVector generalizing p with
  | nil => exact account
  | cons record rest ih =>
    have givenRest : ∀ other ∈ rest, other.isUsed = true →
        (other.outFd, .readEnd other.made) ∈ dying :=
      fun other member => given other (List.mem_cons_of_mem record member)
    by_cases used : record.isUsed = true
    · have closed := account.closeDying (given record List.mem_cons_self used)
      simpa [eraseUserPipeVector, used] using ih closed givenRest
    · simpa [eraseUserPipeVector, used] using ih account givenRest

/-- Removing the records to a client closes their read ends, given up before, and their
write ends, given up or closed before. -/
theorem eraseTarget_account {honest : Prop} {p : Process} {id : Int}
    {userpipeVector : List UserPipeFd} {live dying : List (Int × Object)}
    (account : Account honest p live dying)
    (given : ∀ record ∈ userpipeVector, record.targetId = id →
      ((record.inFd, .writeEnd record.made) ∈ dying ∨ p.object record.inFd = none) ∧
        (record.outFd, .readEnd record.made) ∈ dying) :
    Account honest (eraseTarget id userpipeVector p).2 live dying := by
  induction userpipeVector generalizing p with
  | nil => exact account
  | cons record rest ih =>
    by_cases leaving : record.targetId = id
    · obtain ⟨written, read⟩ := given record List.mem_cons_self leaving
      have first : Account honest (p.closeEnd record.inFd (some (.writeEnd record.made)))
          live dying := by
        rcases written with inDying | absent
        · exact account.closeDying inDying
        · exact account.closeAbsent _ absent
      have left := ih (first.closeDying read) (fun other member isTarget => by
        obtain ⟨otherWritten, otherRead⟩ :=
          given other (List.mem_cons_of_mem record member) isTarget
        refine ⟨otherWritten.imp_right (fun absent => ?_), otherRead⟩
        exact Process.absent_closeEnd (Process.absent_closeEnd absent _ _) _ _)
      simpa [eraseTarget, leaving] using left
    · have left := ih account (fun other member => given other (List.mem_cons_of_mem record member))
      simpa [eraseTarget, leaving] using left

/-- Removing marked records only closes. -/
theorem shuts_eraseUserPipeVector (userpipeVector : List UserPipeFd) (p : Process) :
    Shuts p (eraseUserPipeVector userpipeVector p).2 := by
  induction userpipeVector generalizing p with
  | nil => exact .refl p
  | cons record rest ih =>
    by_cases used : record.isUsed = true
    · have one := Shuts.closeEnd p record.outFd (some (.readEnd record.made))
      simpa [eraseUserPipeVector, used] using one.trans (ih _)
    · simpa [eraseUserPipeVector, used] using ih p

/-- The read end of a marked record is closed. -/
theorem eraseUserPipeVector_closes {userpipeVector : List UserPipeFd} (p : Process)
    {record : UserPipeFd} (member : record ∈ userpipeVector) (used : record.isUsed = true) :
    (eraseUserPipeVector userpipeVector p).2.object record.outFd = none := by
  induction userpipeVector generalizing p with
  | nil => cases member
  | cons first rest ih =>
    rcases List.mem_cons.mp member with rfl | later
    · have closed : (p.closeEnd record.outFd (some (.readEnd record.made))).object record.outFd =
          none := by simp [Process.object_closeEnd]
      simpa [eraseUserPipeVector, used] using (shuts_eraseUserPipeVector rest _).absent closed
    · by_cases here : first.isUsed = true
      · simpa [eraseUserPipeVector, here] using ih _ later
      · simpa [eraseUserPipeVector, here] using ih p later

/-- Removing the records to a client only closes. -/
theorem shuts_eraseTarget (id : Int) (userpipeVector : List UserPipeFd) (p : Process) :
    Shuts p (eraseTarget id userpipeVector p).2 := by
  induction userpipeVector generalizing p with
  | nil => exact .refl p
  | cons record rest ih =>
    by_cases leaving : record.targetId = id
    · have both := (Shuts.closeEnd p record.inFd (some (.writeEnd record.made))).trans
        (.closeEnd _ record.outFd (some (.readEnd record.made)))
      simpa [eraseTarget, leaving] using both.trans (ih _)
    · simpa [eraseTarget, leaving] using ih p

/-- Both numbers of a record to the client are closed. -/
theorem eraseTarget_closes {id : Int} {userpipeVector : List UserPipeFd} (p : Process)
    {record : UserPipeFd} (member : record ∈ userpipeVector) (isTarget : record.targetId = id)
    {e : Int × Object} (isEnd : e ∈ record.ends) :
    (eraseTarget id userpipeVector p).2.object e.1 = none := by
  induction userpipeVector generalizing p with
  | nil => cases member
  | cons first rest ih =>
    rcases List.mem_cons.mp member with rfl | later
    · have number : e.1 = record.inFd ∨ e.1 = record.outFd := by
        rw [UserPipeFd.ends] at isEnd
        split at isEnd
        · exact .inr (congrArg Prod.fst (List.mem_singleton.mp isEnd))
        · rcases List.mem_cons.mp isEnd with rfl | last
          · exact .inl rfl
          · exact .inr (congrArg Prod.fst (List.mem_singleton.mp last))
      have closed : ((p.closeEnd record.inFd (some (.writeEnd record.made))).closeEnd record.outFd
          (some (.readEnd record.made))).object e.1 = none := by
        rcases number with same | same
        · rw [same]
          exact Process.absent_closeEnd (by simp [Process.object_closeEnd]) _ _
        · simp [same, Process.object_closeEnd]
      simpa [eraseTarget, isTarget] using (shuts_eraseTarget id rest _).absent closed
    · by_cases here : first.targetId = id
      · simpa [eraseTarget, here] using ih _ later
      · simpa [eraseTarget, here] using ih p later

end UserPipes

end NetProg.SingleProc
