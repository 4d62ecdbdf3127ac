import NetProg.SingleProc.Holdings

/-!
# A client on its own

What a client gets to see of its own lines, as far as it depends on what the client
holds: the search path a program is looked up in, what `printenv` prints and the
counts of its numbered pipes. A client alone starts each line from what it has set,
and its words and commands change only what it holds. A line without user pipes
goes the same way at a server with other clients: at its start the environment is
cleared and filled again, which leaves nothing of the client served before, because
every client has an entry for `PATH`.
-/

namespace NetProg.SingleProc

open Loops Outcomes

/-- What `printenv`, about to be executed, prints. -/
def printed (job : Job) (f : Frame) : List Str :=
  if f.isFinalArgv ∧ f.arguments.head? = some (str "printenv") then
    match round job f with
    | .ok (.again next) => (next.server.output.drop f.server.output.length).map Prod.snd
    | _ => []
  else []

/-- What is seen at the head of a round: the command about to be executed, the search path of
`IsExecutable`, what `printenv` prints, and the counts of the client's pipes. It has no descriptor
and no id in it, so it can be compared between two runs. -/
structure Glimpse where
  command : Option (List Str)
  pathVector : List Str
  printed : List Str
  counts : Option (List Int)
  deriving DecidableEq

/-- What is seen in a frame of `ExecCmds`. -/
def glimpse (job : Job) (f : Frame) : Glimpse where
  command := if f.isFinalArgv then some f.arguments else none
  pathVector := f.server.environment.pathVector
  printed := printed job f
  counts := (f.server.clientTable[job.cli]?).map (fun c => c.pipeVector.map PipeFd.count)

/-- The words left, the command that is begun or complete, the environment and what the client
holds. This is a line as it would go if there were nobody else. -/
structure Solo where
  words : List Str
  isFirst : Bool
  isFinal : Bool
  arguments : List Str
  environment : Environment
  own : Option Belongings

namespace Solo

/-- What is seen of the client on its own. -/
def glimpse (c : Solo) : Glimpse where
  command := if c.isFinal then some c.arguments else none
  pathVector := c.environment.pathVector
  printed :=
    if c.isFinal ∧ c.arguments.head? = some (str "printenv") then
      ((c.arguments[1]?.bind c.environment.getenv).map (· ++ str "\n")).toList
    else []
  counts := c.own.map Belongings.counts

/-- The words of a redirection are read, and the command goes on unless they were the
last. -/
def goOn (c : Solo) (rest : List Str) : Solo :=
  { c with words := rest, isFirst := c.isFirst || rest.isEmpty, isFinal := c.isFinal || rest.isEmpty }

/-- The first word of a command; `tell` and `yell` take the rest of the line. -/
def readProg (c : Solo) (word : Str) (rest : List Str) : Solo :=
  let swallows := word = str "tell" ∨ word = str "yell"
  let left := if swallows then [] else rest
  { c with
    arguments := if swallows then word :: rest else [word]
    words := left
    isFirst := false
    isFinal := left.isEmpty }

/-- The word becomes an argument; without another word the command is complete. -/
def readArgument (c : Solo) (word : Str) (rest : List Str) : Solo :=
  { c with arguments := c.arguments ++ [word], words := rest, isFinal := rest.isEmpty }

/-- A pipe operator completes the command. -/
def readPipe (c : Solo) (word : Str) (rest : List Str) : Solo :=
  { c with
    own := c.own.map (Belongings.await ((NumberedPipes.pipeNum word).getD 0))
    words := rest
    isFirst := true
    isFinal := true }

/-- A command is executed. -/
def execute (c : Solo) : Solo :=
  { c with
    own := c.own.map (fun own => (own.store c.arguments).advance)
    environment := environmentAfter c.arguments c.environment
    isFinal := false }

/-- What comes next in the line. A client on its own has nobody to send a user pipe to
or to take one from. -/
def next (c : Solo) : Round Solo (Option Belongings) :=
  if c.isFinal then .again c.execute
  else
    match c.words with
    | [] => .leave c.own
    | word :: rest =>
      if c.isFirst then .again (c.readProg word rest)
      else
        match kind word with
        | .pipe | .errorPipe => .again (c.readPipe word rest)
        | .redirectOut | .redirectIn => .again (c.goOn rest.tail)
        | .userOut | .userIn => .leave c.own
        | .argument => .again (c.readArgument word rest)

section Next

variable {c : Solo} {word : Str} {rest : List Str}

theorem next_prog (notFinal : c.isFinal = false) (left : c.words = word :: rest)
    (first : c.isFirst = true) : c.next = .again (c.readProg word rest) := by
  simp [next, notFinal, left, first]

variable (notFinal : c.isFinal = false) (left : c.words = word :: rest)
  (later : c.isFirst = false)

include notFinal left later

theorem next_argument (same : kind word = .argument) :
    c.next = .again (c.readArgument word rest) := by
  simp [next, notFinal, left, later, same]

theorem next_pipe {isError : Bool} (same : kind word = if isError then .errorPipe else .pipe) :
    c.next = .again (c.readPipe word rest) := by
  cases isError <;> simp [next, notFinal, left, later, same]

theorem next_redirect (same : kind word = .redirectOut ∨ kind word = .redirectIn) :
    c.next = .again (c.goOn rest.tail) := by
  rcases same with same | same <;> simp [next, notFinal, left, later, same]

end Next

/-- Words left and commands waiting to be executed. -/
def pending (c : Solo) : Nat := 2 * c.words.length + if c.isFinal then 1 else 0

/-- Everything that is read leaves fewer words, and an execution no complete command. -/
theorem next_decreases {c after : Solo} (again : c.next = .again after) :
    after.pending < c.pending := by
  have fewer {word : Str} {rest : List Str} (left : c.words = word :: rest)
      (short : after.words.length ≤ rest.length) : after.pending < c.pending := by
    have length : c.words.length = rest.length + 1 := by rw [left, List.length_cons]
    unfold pending
    split <;> omega
  rw [next] at again
  split at again
  · rename_i final
    cases again
    simp [pending, execute, final]
  split at again
  · cases again
  rename_i word rest left
  apply fewer left
  split at again
  · cases again
    simp only [readProg]
    split <;> simp
  split at again
  all_goals cases again
  all_goals simp [readPipe, goOn, readArgument]

/-- The line of a client on its own. -/
def loop : Loop Solo (Option Belongings) Empty where
  body c := .ok c.next
  measure := pending
  decreases _ _ round := next_decreases (Except.ok.inj round)

/-- The start of a line. -/
def ofLine (own : Belongings) (line : Str) : Solo where
  words := NetProg.words line
  isFirst := true
  isFinal := false
  arguments := []
  environment := setAllEnv ⟨[], []⟩ own.envVector
  own := some own

end Solo

/-- What a client sees of a line on its own. -/
def glimpsesAlone (own : Belongings) (line : Str) : List Glimpse :=
  (Solo.loop.rounds (Solo.ofLine own line)).map Solo.glimpse

/-- What the client holds after a line on its own. -/
def Belongings.after (own : Belongings) (line : Str) : Belongings :=
  match Solo.loop.run (Solo.ofLine own line) with
  | .ok ended => ended.getD own

/-- What a client sees of its lines on its own, one after the other. -/
def linesAlone : Belongings → List Str → List (Str × List Glimpse)
  | _, [] => []
  | own, line :: rest => (line, glimpsesAlone own line) :: linesAlone (own.after line) rest

theorem linesAlone_append (own : Belongings) (lines : List Str) (line : Str) :
    linesAlone own (lines ++ [line]) =
      linesAlone own lines ++ [(line, glimpsesAlone (lines.foldl Belongings.after own) line)] := by
  induction lines generalizing own with
  | nil => rfl
  | cons first rest ih => simp [linesAlone, ih]

/-- What a client holds when it has just logged in. -/
def Belongings.fresh : Belongings := ⟨[⟨str "PATH", str "bin:."⟩], []⟩

section Path

/-- There is an entry for `PATH`. -/
def HasPath (envVector : List EnvInfo) : Prop := ∃ info ∈ envVector, info.envVar = str "PATH"

/-- An assignment to `PATH` replaces its entry, and every other assignment leaves it. -/
theorem HasPath.store {own : Belongings} (has : HasPath own.envVector) (arguments : List Str) :
    HasPath (own.store arguments).envVector := by
  rw [Belongings.store]
  split
  · rename_i var val _
    by_cases isPath : var = str "PATH"
    · exact ⟨⟨var, val⟩, List.mem_append_right _ List.mem_cons_self, isPath⟩
    · obtain ⟨info, member, path⟩ := has
      have other : ¬ info.envVar = var := fun same => isPath (same.symm.trans path)
      have stays : info ∈ eraseEnv var own.envVector :=
        (List.mem_eraseP_of_neg (by simpa using other)).mpr member
      exact ⟨info, List.mem_append_left _ stays, path⟩
  · exact has

/-- The entries for `PATH` are never all gone. -/
theorem Solo.next_hasPath {c : Solo} (has : ∀ own, c.own = some own → HasPath own.envVector) :
    c.next.Holds (fun after => ∀ own, after.own = some own → HasPath own.envVector)
      (fun left => ∀ own, left = some own → HasPath own.envVector) := by
  have piped (count : Int) (own : Belongings) :
      (own.await count).envVector = own.envVector := by
    rw [Belongings.await]
    split <;> rfl
  rw [next]
  split
  · intro own same
    obtain ⟨before, isOwn, rfl⟩ := Option.map_eq_some_iff.mp same
    exact (has before isOwn).store c.arguments
  split
  · exact has
  split
  · exact has
  split
  all_goals try exact has
  all_goals
    intro own same
    obtain ⟨before, isOwn, rfl⟩ := Option.map_eq_some_iff.mp same
    rw [piped]
    exact has before isOwn

theorem Belongings.after_hasPath {own : Belongings} (has : HasPath own.envVector) (line : Str) :
    HasPath (own.after line).envVector := by
  have kept : Ends (Solo.loop.run (Solo.ofLine own line))
      (fun left => ∀ own, left = some own → HasPath own.envVector) (fun _ => True) := by
    refine Solo.loop.run_ends (fun c => ∀ own, c.own = some own → HasPath own.envVector)
      (fun _ => True) _ _ (fun c held _ => Solo.next_hasPath held) _ ?_ (fun _ _ => trivial)
    intro same isOwn
    cases isOwn
    exact has
  rw [after]
  split
  rename_i left ran
  cases left with
  | none => exact has
  | some held => exact (kept.returned ran) held rfl

theorem foldl_after_hasPath {own : Belongings} (has : HasPath own.envVector) (lines : List Str) :
    HasPath (lines.foldl Belongings.after own).envVector := by
  induction lines generalizing own with
  | nil => exact has
  | cons line rest ih => exact ih (Belongings.after_hasPath has line)

theorem setenv_pathVector (e : Environment) (name value : Str) :
    (e.setenv name value).pathVector = e.pathVector := by
  rw [Environment.setenv]
  split <;> rfl

theorem setEnv_vars (e : Environment) (var val : Str) :
    (e.setEnv var val).vars = (e.setenv var val).vars := by
  simp only [Environment.setEnv]
  split <;> rfl

theorem setEnv_pathVector (e : Environment) (var val : Str) :
    (e.setEnv var val).pathVector =
      if var = str "PATH" then split val (str ":") (by decide) else e.pathVector := by
  simp only [Environment.setEnv]
  split
  · rfl
  · exact setenv_pathVector e var val

/-- Filling the environment depends on the variables before, and on the search path
only without an entry for `PATH`. -/
theorem setAllEnv_congr {e d : Environment} {envVector : List EnvInfo} (vars : e.vars = d.vars)
    (path : e.pathVector = d.pathVector ∨ HasPath envVector) :
    setAllEnv e envVector = setAllEnv d envVector := by
  induction envVector generalizing e d with
  | nil =>
    rcases path with same | ⟨_, none, -⟩
    · exact congrArg₂ Environment.mk vars same
    · cases none
  | cons info rest ih =>
    have stored : (e.setEnv info.envVar info.envVal).vars =
        (d.setEnv info.envVar info.envVal).vars := by
      rw [setEnv_vars, setEnv_vars, Environment.setenv, Environment.setenv]
      split
      · exact vars
      · simp only [vars]
    refine ih stored ?_
    rw [setEnv_pathVector, setEnv_pathVector]
    by_cases isPath : info.envVar = str "PATH"
    · exact .inl (by rw [if_pos isPath, if_pos isPath])
    · rw [if_neg isPath, if_neg isPath]
      refine path.imp_right ?_
      rintro ⟨found, member, isEntry⟩
      rcases List.mem_cons.mp member with rfl | later
      · exact absurd isEntry isPath
      · exact ⟨found, later, isEntry⟩

end Path

end NetProg.SingleProc
