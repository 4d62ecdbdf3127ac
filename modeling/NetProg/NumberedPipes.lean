import NetProg.CText
import NetProg.Process

/-!
# Numbered pipes

The pipe table of a shell. A record holds both ends of one pipe and the number
of commands left until the pipe is read; the operator `|N` adds a record with
count N, or joins the one that has this count already. Around every command the
record with count zero is read, its write end is closed first, the record is
erased with both ends closed again, and all counts go down by one.

The three shells share these functions. `np_project1` has its own `GetPipeFd`,
which does not stop at the first record with count zero.
-/

namespace NetProg

/-- `PipeFd`: the write end, the read end and the count. `made` is the serial number of the `pipe`
call, by which a record is known when its numbers have been closed and given out again. -/
structure PipeFd where
  inFd : Int
  outFd : Int
  count : Int
  made : Nat
  deriving DecidableEq

/-- Both ends of a record, as entries of an account. -/
def PipeFd.ends (record : PipeFd) : List (Int × Object) :=
  [(record.inFd, .writeEnd record.made), (record.outFd, .readEnd record.made)]

namespace NumberedPipes

/-- The number of a word with `|` or `!` in it: one for a single character, and
else what `atoi` reads in `pipe_char`, which holds everything after the first
character. Without a value when that overruns the five bytes of `pipe_char`. -/
def pipeNum (word : Str) : Option Int :=
  if word.length = 1 then some 1
  else if word.length ≤ 5 then some (atoi (word.drop 1))
  else none

/-- `CreatePipe`: the write end of the last record with this count, or of a new
pipe. Without a value when `pipe` fails, which ends the process. -/
def createPipe (canPipe : Bool) (p : Process) (pipeVector : List PipeFd) (pipeNum : Int) :
    Option (Int × List PipeFd × Process) :=
  match (pipeVector.filter (·.count = pipeNum)).getLast? with
  | some same => some (same.inFd, pipeVector, p)
  | none =>
    if canPipe then
      let (readEnd, writeEnd, opened) := p.pipe
      some (writeEnd, pipeVector ++ [⟨writeEnd, readEnd, pipeNum, p.made⟩], opened)
    else none

/-- `CountdownPipeVector`. -/
def countdownPipeVector (pipeVector : List PipeFd) : List PipeFd :=
  pipeVector.map (fun record => { record with count := record.count - 1 })

/-- `ErasePipeVector`: records with count zero leave, both their ends closed. -/
def erasePipeVector : List PipeFd → Process → List PipeFd × Process
  | [], p => ([], p)
  | record :: rest, p =>
    if record.count = 0 then
      erasePipeVector rest
        ((p.closeEnd record.inFd (some (.writeEnd record.made))).closeEnd record.outFd
          (some (.readEnd record.made)))
    else
      let (kept, closed) := erasePipeVector rest p
      (record :: kept, closed)

/-- `GetPipeFd` of the two servers: the first record with count zero, its write
end closed. -/
def getPipeFd (pipeVector : List PipeFd) (p : Process) : Option (PipeFd × Process) :=
  match pipeVector.find? (·.count = 0) with
  | some record => some (record, p.closeEnd record.inFd (some (.writeEnd record.made)))
  | none => none

/-- A number is read only where the buffer holds it. -/
theorem pipeNum_fits {word : Str} {count : Int}
    (number : pipeNum word = some count) : word.length ≤ 5 := by
  rw [pipeNum] at number
  split at number
  · omega
  · split at number
    · assumption
    · cases number

theorem pipeNum_long {word : Str} (long : pipeNum word = none) :
    ¬ word.length ≤ 5 := by
  rw [pipeNum] at long
  split at long
  · cases long
  · split at long
    · cases long
    · assumption

/-- The entries of a whole table. -/
def ends (pipeVector : List PipeFd) : List (Int × Object) := pipeVector.flatMap PipeFd.ends

@[simp] theorem ends_nil : ends [] = [] := rfl

@[simp] theorem ends_cons (record : PipeFd) (rest : List PipeFd) :
    ends (record :: rest) = record.ends ++ ends rest := List.flatMap_cons

@[simp] theorem ends_append (first second : List PipeFd) :
    ends (first ++ second) = ends first ++ ends second := List.flatMap_append

@[simp] theorem ends_countdown (pipeVector : List PipeFd) :
    ends (countdownPipeVector pipeVector) = ends pipeVector := by
  induction pipeVector with
  | nil => rfl
  | cons record rest ih =>
    simp only [countdownPipeVector, List.map_cons, ends_cons] at ih ⊢
    rw [ih]
    rfl

theorem mem_ends {record : PipeFd} {pipeVector : List PipeFd} (member : record ∈ pipeVector)
    {e : Int × Object} (isEnd : e ∈ record.ends) : e ∈ ends pipeVector :=
  List.mem_flatMap.mpr ⟨record, member, isEnd⟩

/-- What `createPipe` does: it joins a record with the count, or opens a pipe
when there is none. -/
theorem createPipe_cases {canPipe : Bool} {p after : Process} {pipeVector extended : List PipeFd}
    {pipeNum outFd : Int}
    (created : createPipe canPipe p pipeVector pipeNum = some (outFd, extended, after)) :
    (∃ same ∈ pipeVector, same.count = pipeNum ∧ outFd = same.inFd ∧ extended = pipeVector ∧
      after = p) ∨
    (canPipe = true ∧ (∀ record ∈ pipeVector, record.count ≠ pipeNum) ∧ outFd = p.pipe.2.1 ∧
      extended = pipeVector ++ [⟨p.pipe.2.1, p.pipe.1, pipeNum, p.made⟩] ∧
      after = p.pipe.2.2) := by
  rw [createPipe] at created
  split at created
  · rename_i same found
    have member : same ∈ pipeVector.filter (·.count = pipeNum) := List.mem_of_getLast? found
    obtain ⟨inVector, sameCount⟩ := List.mem_filter.mp member
    simp only [Option.some.injEq, Prod.mk.injEq] at created
    obtain ⟨rfl, rfl, rfl⟩ := created
    exact .inl ⟨same, inVector, by simpa using sameCount, rfl, rfl, rfl⟩
  · rename_i missing
    split at created
    · rename_i can
      simp only [Option.some.injEq, Prod.mk.injEq] at created
      obtain ⟨rfl, rfl, rfl⟩ := created
      refine .inr ⟨can, ?_, rfl, rfl, rfl⟩
      simpa using missing
    · cases created

/-- `pipe` is called, and fails, where no record has the count. -/
theorem createPipe_refused {canPipe : Bool} {p : Process} {pipeVector : List PipeFd}
    {pipeNum : Int} (refused : createPipe canPipe p pipeVector pipeNum = none) :
    canPipe = false ∧ ∀ record ∈ pipeVector, record.count ≠ pipeNum := by
  rw [createPipe] at refused
  split at refused
  · cases refused
  · rename_i missing
    split at refused
    · cases refused
    · rename_i cannot
      exact ⟨by simpa using cannot, by simpa using missing⟩

/-- A pipe created or joined is entered in the account. -/
theorem createPipe_account {honest : Prop} {canPipe : Bool} {p after : Process}
    {pipeVector extended : List PipeFd} {pipeNum outFd : Int} {rest : List (Int × Object)}
    (account : Account honest p (ends pipeVector ++ rest) [])
    (created : createPipe canPipe p pipeVector pipeNum = some (outFd, extended, after)) :
    Account honest after (ends extended ++ rest) [] := by
  rcases createPipe_cases created with ⟨_, _, _, _, rfl, rfl⟩ | ⟨_, _, _, rfl, rfl⟩
  · exact account
  · apply account.pipe.perm
    simp only [ends_append, ends_cons, ends_nil, PipeFd.ends, List.append_nil, List.append_assoc,
      List.cons_append, List.nil_append]
    exact List.perm_middle.trans (List.Perm.cons _ List.perm_middle)

/-- The ends of a pipe table and of its records that are not due. -/
theorem ends_filter_due (pipeVector : List PipeFd) : (ends pipeVector).Perm
    (ends (pipeVector.filter (·.count ≠ 0)) ++
      ends (pipeVector.filter (·.count = 0))) := by
  have apart : (pipeVector.filter (·.count ≠ 0) ++ pipeVector.filter (·.count = 0)).Perm
      pipeVector := by
    have both := List.filter_append_perm (fun record : PipeFd => decide (record.count ≠ 0)) pipeVector
    simpa using both
  exact (apart.symm.flatMap_right _).trans (by simp [ends])

/-- Erasing keeps exactly the records with another count. -/
theorem erasePipeVector_fst (pipeVector : List PipeFd) (p : Process) :
    (erasePipeVector pipeVector p).1 = pipeVector.filter (·.count ≠ 0) := by
  induction pipeVector generalizing p with
  | nil => rfl
  | cons record rest ih =>
    by_cases due : record.count = 0
    · simpa [erasePipeVector, due] using ih _
    · simpa [erasePipeVector, due] using ih p

@[simp] theorem erasePipeVector_made (pipeVector : List PipeFd) (p : Process) :
    (erasePipeVector pipeVector p).2.made = p.made := by
  induction pipeVector generalizing p with
  | nil => rfl
  | cons record rest ih =>
    by_cases due : record.count = 0
    · simp [erasePipeVector, due, ih]
    · simpa [erasePipeVector, due] using ih p

/-- Erasing closes ends of records that are due, which were given up before. -/
theorem erasePipeVector_account {honest : Prop} {p : Process} {pipeVector : List PipeFd}
    {live dying : List (Int × Object)} (account : Account honest p live dying)
    (given : ∀ record ∈ pipeVector, record.count = 0 → ∀ e ∈ record.ends, e ∈ dying) :
    Account honest (erasePipeVector pipeVector p).2 live dying := by
  induction pipeVector generalizing p with
  | nil => exact account
  | cons record rest ih =>
    have givenRest : ∀ other ∈ rest, other.count = 0 → ∀ e ∈ other.ends, e ∈ dying :=
      fun other member => given other (List.mem_cons_of_mem record member)
    by_cases due : record.count = 0
    · have both := given record List.mem_cons_self due
      have first :=
        account.closeDying (both (record.inFd, .writeEnd record.made) (by simp [PipeFd.ends]))
      have second :=
        first.closeDying (both (record.outFd, .readEnd record.made) (by simp [PipeFd.ends]))
      simpa [erasePipeVector, due] using ih second givenRest
    · simpa [erasePipeVector, due] using ih account givenRest

/-- Erasing only closes. -/
theorem shuts_erasePipeVector (pipeVector : List PipeFd) (p : Process) :
    Shuts p (erasePipeVector pipeVector p).2 := by
  induction pipeVector generalizing p with
  | nil => exact .refl p
  | cons record rest ih =>
    by_cases due : record.count = 0
    · have both := (Shuts.closeEnd p record.inFd (some (.writeEnd record.made))).trans
        (.closeEnd _ record.outFd (some (.readEnd record.made)))
      simpa [erasePipeVector, due] using both.trans (ih _)
    · simpa [erasePipeVector, due] using ih p

/-- Both ends of a record that is due are closed. -/
theorem erasePipeVector_closes {pipeVector : List PipeFd} (p : Process) {record : PipeFd}
    (member : record ∈ pipeVector) (due : record.count = 0) {e : Int × Object}
    (isEnd : e ∈ record.ends) : (erasePipeVector pipeVector p).2.object e.1 = none := by
  induction pipeVector generalizing p with
  | nil => cases member
  | cons first rest ih =>
    rcases List.mem_cons.mp member with rfl | later
    · have closed : ((p.closeEnd record.inFd (some (.writeEnd record.made))).closeEnd record.outFd
          (some (.readEnd record.made))).object e.1 = none := by
        simp only [PipeFd.ends, List.mem_cons, List.not_mem_nil, or_false] at isEnd
        rcases isEnd with rfl | rfl
        · exact Process.absent_closeEnd (by simp [Process.object_closeEnd]) _ _
        · simp [Process.object_closeEnd]
      simpa [erasePipeVector, due] using (shuts_erasePipeVector rest _).absent closed
    · by_cases here : first.count = 0
      · simpa [erasePipeVector, here] using ih _ later
      · simpa [erasePipeVector, here] using ih p later

/-- Reading a record that is due closes its write end, given up before. -/
theorem getPipeFd_account {honest : Prop} {p after : Process} {pipeVector : List PipeFd}
    {live dying : List (Int × Object)} {record : PipeFd} (account : Account honest p live dying)
    (given : ∀ record ∈ pipeVector, record.count = 0 → ∀ e ∈ record.ends, e ∈ dying)
    (got : getPipeFd pipeVector p = some (record, after)) :
    (record ∈ pipeVector ∧ record.count = 0) ∧ Account honest after live dying := by
  rw [getPipeFd] at got
  split at got
  · rename_i found first
    simp only [Option.some.injEq, Prod.mk.injEq] at got
    obtain ⟨rfl, rfl⟩ := got
    have member : found ∈ pipeVector := List.mem_of_find?_eq_some first
    have due : found.count = 0 := by simpa using List.find?_some first
    refine ⟨⟨member, due⟩, account.closeDying ?_⟩
    exact given found member due _ (by simp [PipeFd.ends])
  · cases got

end NumberedPipes

end NetProg
