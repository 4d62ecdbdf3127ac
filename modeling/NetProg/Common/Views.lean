import NetProg.Common.Plumbing

/-!
# Shells seen alike

What the frames of the three shells have in common, under one set of names, and what
each of them does with it: reading a word of the common language, failing to make a
pipe, or executing a command. A view is behind a frame of the reference shell when
both have read the same and the descriptors of the view lead where the reference shell
says. Every step of a view is one the reference shell makes as well.
-/

namespace NetProg.Common

open Loops NumberedPipes

/-- The default descriptors of a shell. -/
structure Defaults where
  input : Int
  output : Int
  error : Int

/-- The process, the pipe table and the calls of a shell, with the queue and the local variables.
It is what the three shells have in common: a frame of each is one view. -/
structure View where
  process : Process
  pipeVector : List PipeFd
  issues : List Issue
  words : List Str
  isFirst : Bool
  isFinal : Bool
  arguments : List Str
  isUsingPipe : Bool
  lineEnds : Bool
  outFd : Int
  errFd : Int

namespace View

variable (d : Defaults) (v : View)

/-- The first word of a command. -/
def readProg (word : Str) (rest : List Str) : View :=
  { v with
    words := rest
    isFirst := false
    isFinal := rest.isEmpty
    arguments := [word]
    isUsingPipe := false
    lineEnds := v.lineEnds || rest.isEmpty
    outFd := d.output
    errFd := d.error }

/-- A word that is an argument. -/
def readArgument (word : Str) (rest : List Str) : View :=
  { v with
    words := rest
    isFinal := rest.isEmpty
    arguments := v.arguments ++ [word]
    isUsingPipe := false
    lineEnds := v.lineEnds || rest.isEmpty
    outFd := d.output
    errFd := d.error }

/-- A pipe operator, with what `createPipe` gave. -/
def pipeTo (isError : Bool) (created : Int × List PipeFd × Process) (rest : List Str) : View :=
  { v with
    process := created.2.2
    pipeVector := created.2.1
    words := rest
    isFirst := true
    isFinal := true
    isUsingPipe := true
    lineEnds := v.lineEnds || rest.isEmpty
    outFd := created.1
    errFd := if isError then created.1 else d.error }

/-- A redirection to a file. -/
def redirect (opened : Int × Process) (rest : List Str) : View :=
  { v with
    process := opened.2
    words := rest
    isFirst := true
    isFinal := true
    isUsingPipe := false
    lineEnds := v.lineEnds || rest.isEmpty
    outFd := opened.1
    errFd := d.error }

/-- The process after the pipe that is due has been taken. -/
def attached : Process := ((getPipeFd v.pipeVector v.process).map Prod.snd).getD v.process

/-- The input of a command. -/
def inFd : Int := ((getPipeFd v.pipeVector v.process).map (·.1.outFd)).getD d.input

/-- The call of a complete command. -/
def issue : Issue where
  arguments := v.arguments
  lineEnds := v.lineEnds
  isUsingPipe := v.isUsingPipe
  input := port d.input (v.inFd d) (v.attached.object (v.inFd d))
  output := port d.output v.outFd (v.attached.object v.outFd)
  error := port d.error v.errFd (v.attached.object v.errFd)

/-- The process after the pipe that was due has been erased. -/
def erased : Process := (erasePipeVector v.pipeVector v.attached).2

/-- The process after the input has been closed once more. -/
def closed : Process :=
  match getPipeFd v.pipeVector v.process with
  | some (record, _) => v.erased.closeEnd record.outFd (some (.readEnd record.made))
  | none => v.erased

/-- After a call, with what the closes leave of the process. -/
def executed (p : Process) : View :=
  { v with
    process := p
    pipeVector := countdownPipeVector (v.pipeVector.filter (·.count ≠ 0))
    issues := v.issues ++ [v.issue d]
    isFinal := false }

end View

/-- The outcomes of reading a word. What the shells do with the words of the common language is
proved about this relation once, and each shell is shown to read its words so. -/
inductive View.Reads (d : Defaults) (world : World) (v : View) (word : Str) (rest : List Str) :
    View → Prop
  | prog (first : v.isFirst = true) : Reads d world v word rest (v.readProg d word rest)
  | argument (later : v.isFirst = false) (noPipe : 124 ∉ word) (noError : 33 ∉ word)
      (noFile : word ≠ str ">") : Reads d world v word rest (v.readArgument d word rest)
  | pipe {isError : Bool} {count : Int} {created : Int × List PipeFd × Process}
      (later : v.isFirst = false)
      (same : if isError then 124 ∉ word ∧ 33 ∈ word else 124 ∈ word)
      (number : pipeNum word = some count)
      (creates : createPipe (world.pipes rest.length) v.process v.pipeVector count = some created) :
      Reads d world v word rest (v.pipeTo d isError created rest)
  | redirect {file : Str} {left : List Str} (later : v.isFirst = false) (same : word = str ">")
      (follows : rest = file :: left) :
      Reads d world v word rest (v.redirect d (openAs (world.opens left.length) v.process) left)

/-- The ways reading a word fails. In each of them the view is left as it was. -/
inductive View.Fails (world : World) (v : View) (word : Str) (rest : List Str) : Prop
  | pipeChar (later : v.isFirst = false) (same : 124 ∈ word ∨ 33 ∈ word)
      (long : pipeNum word = none)
  | pipeError {count : Int} (later : v.isFirst = false) (same : 124 ∈ word ∨ 33 ∈ word)
      (number : pipeNum word = some count)
      (refused : createPipe (world.pipes rest.length) v.process v.pipeVector count = none)

/-- The command has a program that all shells run alike. -/
def Shared (arguments : List Str) : Prop :=
  ∃ prog rest, arguments = prog :: rest ∧ plain prog = true ∧ excluded.contains prog = false

/-- What a shared command is, and whether it has all the arguments that are read. -/
inductive Program : List Str → Bool → Prop
  | printenv (var : Str) (rest : List Str) : Program (str "printenv" :: var :: rest) true
  | setenv (var val : Str) (rest : List Str) : Program (str "setenv" :: var :: val :: rest) true
  | other {prog : Str} (rest : List Str) (solid : cstr prog = prog)
      (notPrintenv : prog ≠ str "printenv") (notSetenv : prog ≠ str "setenv")
      (notExcluded : prog ∉ excluded) : Program (prog :: rest) true
  | noName : Program [str "printenv"] false
  | noVariable : Program [str "setenv"] false
  | noValue (var : Str) : Program [str "setenv", var] false

theorem Shared.program {arguments : List Str} (shared : Shared arguments) :
    Program arguments (runs arguments) := by
  obtain ⟨prog, rest, rfl, solid, notExcluded⟩ := shared
  by_cases isPrintenv : prog = str "printenv"
  · subst isPrintenv
    match rest with
    | [] => exact .noName
    | var :: rest => exact .printenv var rest
  by_cases isSetenv : prog = str "setenv"
  · subst isSetenv
    match rest with
    | [] => exact .noVariable
    | [var] => exact .noValue var
    | var :: val :: rest => exact .setenv var val rest
  · have complete : runs (prog :: rest) = true := by simp [runs, isPrintenv, isSetenv]
    have text : cstr prog = prog := by
      refine List.takeWhile_eq_self_iff.mpr (fun c member => ?_)
      have noZero : (0 : UInt8) ∉ prog := by
        simp only [plain, Bool.and_eq_true, Bool.not_eq_true', List.contains_eq_mem,
          decide_eq_false_iff_not] at solid
        exact solid.2
      have nonzero : c ≠ 0 := by
        rintro rfl
        exact noZero member
      simpa using nonzero
    rw [complete]
    exact .other rest text isPrintenv isSetenv (by simpa using notExcluded)

/-- A view behind a frame of the reference shell: the same queue and the same flags, the arguments
that were read, descriptors that lead where those of the reference do, and the tracked tables. -/
structure Behind (d : Defaults) (f : Nat → Nat) (live : List (Int × Object)) (v : View)
    (r : Frame) : Prop where
  tracks : Tracks f v.process v.pipeVector live r.state v.issues
  defaults : IsDefault live d.input ∧ IsDefault live d.output ∧ IsDefault live d.error
  words : v.words = r.words
  isFirst : v.isFirst = r.isFirst
  isFinal : v.isFinal = r.isFinal
  arguments : v.arguments = r.arguments
  isUsingPipe : v.isUsingPipe = r.isUsingPipe
  lineEnds : v.lineEnds = r.lineEnds
  output : r.isFinal = true → Leads f v.pipeVector live r.state.made d.output v.outFd r.output
  error : r.isFinal = true → Leads f v.pipeVector live r.state.made d.error v.errFd r.error
  understood : common r.isFirst r.words = true
  command : r.isFinal = true ∨ r.isFirst = false → Shared r.arguments

section Behind

variable {d : Defaults} {f : Nat → Nat} {live : List (Int × Object)} {v : View} {r : Frame}
  {world : World}

/-- At the start of a line. -/
theorem Behind.initial {p : Process} {pipeVector : List PipeFd} {s : State} {issues : List Issue}
    {words : List Str} {outFd errFd : Int} (tracks : Tracks f p pipeVector live s issues)
    (defaults : IsDefault live d.input ∧ IsDefault live d.output ∧ IsDefault live d.error)
    (understood : common true words = true) :
    Behind d f live ⟨p, pipeVector, issues, words, true, false, [], false, false, outFd, errFd⟩
      (.initial s words) where
  tracks := tracks
  defaults := defaults
  words := rfl
  isFirst := rfl
  isFinal := rfl
  arguments := rfl
  isUsingPipe := rfl
  lineEnds := rfl
  output final := by cases final
  error final := by cases final
  understood := understood
  command started := by rcases started with final | later <;> cases ‹_›

/-- The first word of a command. -/
theorem Behind.readProg (behind : Behind d f live v r) (first : r.isFirst = true) {word : Str}
    {rest : List Str} (left : r.words = word :: rest) :
    Behind d f live (v.readProg d word rest) (r.readProg word rest) := by
  have understood := behind.understood
  rw [first, left, common_prog] at understood
  exact { behind with
    words := rfl
    isFirst := rfl
    isFinal := rfl
    arguments := rfl
    isUsingPipe := rfl
    lineEnds := congrArg (· || rest.isEmpty) behind.lineEnds
    output := fun _ => rfl
    error := fun _ => rfl
    understood := understood.2.2
    command := fun _ => ⟨word, [], rfl, understood.1, understood.2.1⟩ }

/-- An argument. -/
theorem Behind.readArgument (behind : Behind d f live v r) (later : r.isFirst = false) {word : Str}
    {rest : List Str} (left : r.words = word :: rest) (noPipe : 124 ∉ word) (noError : 33 ∉ word)
    (noFile : word ≠ str ">") :
    Behind d f live (v.readArgument d word rest) (r.readArgument word rest) := by
  have understood := behind.understood
  rw [later, left, common_argument noPipe noError noFile] at understood
  obtain ⟨prog, others, same, shared⟩ := behind.command (.inr later)
  exact { behind with
    words := rfl
    isFinal := rfl
    arguments := congrArg (· ++ [word]) behind.arguments
    isUsingPipe := rfl
    lineEnds := congrArg (· || rest.isEmpty) behind.lineEnds
    output := fun _ => rfl
    error := fun _ => rfl
    understood := by
      rw [show (r.readArgument word rest).isFirst = false from later]
      exact understood.2
    command := fun _ => ⟨prog, others ++ [word], congrArg (· ++ [word]) same, shared⟩ }

/-- A pipe operator leads to the same pipe. -/
theorem Behind.pipeTo (behind : Behind d f live v r) (later : r.isFirst = false) {word : Str}
    {rest : List Str} (left : r.words = word :: rest) (isPipe : 124 ∈ word ∨ 33 ∈ word)
    {canPipe : Bool} (isError : Bool) {count : Int} {created : Int × List PipeFd × Process}
    (creates : createPipe canPipe v.process v.pipeVector count = some created) :
    ∃ pipe g, r.state.pipeTo canPipe count = some pipe ∧
      Behind d g live (v.pipeTo d isError created rest) (r.pipeTo isError pipe rest) := by
  have understood := behind.understood
  rw [later, left, common_pipe isPipe] at understood
  obtain ⟨k, after, g, made, tracks, below, record, member, isIn, isMade⟩ :=
    behind.tracks.pipeTo creates
  have leads (default : Int) : Leads g created.2.1 live after.made default created.1
      (.object (.writeEnd k)) := ⟨below, record, member, isIn, isMade⟩
  refine ⟨(k, after), g, made, ?_⟩
  exact { behind with
    tracks := tracks
    words := rfl
    isFirst := rfl
    isFinal := rfl
    isUsingPipe := rfl
    lineEnds := congrArg (· || rest.isEmpty) behind.lineEnds
    output := fun _ => leads d.output
    error := fun _ => by
      cases isError with
      | true => exact leads d.error
      | false => rfl
    understood := understood.2
    command := fun _ => behind.command (.inr later) }

/-- A file is opened or not. -/
theorem Behind.redirect (behind : Behind d f live v r) (later : r.isFirst = false)
    {file : Str} {left : List Str} (queue : r.words = str ">" :: file :: left) (opens : Bool) :
    ∃ files g, Behind d g (files ++ live) (v.redirect d (openAs opens v.process) left)
      (r.redirect (r.state.openFile opens) left) := by
  have understood := behind.understood
  rw [later, queue, common_file] at understood
  have empty : left = [] := by simpa using understood
  obtain ⟨files, g, tracks, leads⟩ := behind.tracks.openFile opens d.output
  have more : live ⊆ files ++ live := List.subset_append_right files live
  obtain ⟨input, output, error⟩ := behind.defaults
  refine ⟨files, g, ?_⟩
  exact { behind with
    tracks := tracks
    defaults := ⟨input.mono more, output.mono more, error.mono more⟩
    words := rfl
    isFirst := rfl
    isFinal := rfl
    isUsingPipe := rfl
    lineEnds := congrArg (· || left.isEmpty) behind.lineEnds
    output := fun _ => leads
    error := fun _ => rfl
    understood := by rw [empty]; rfl
    command := fun _ => behind.command (.inr later) }

/-- What a shell reads, the reference shell reads as well. -/
theorem Behind.reads (behind : Behind d f live v r) (reading : v.isFinal = false) {word : Str}
    {rest : List Str} (left : v.words = word :: rest) {after : View}
    (reads : v.Reads d world word rest after) : ∃ files g next,
      (refLoop world).run r = (refLoop world).run next ∧
      Behind d g (files ++ live) after next := by
  have reading : r.isFinal = false := behind.isFinal ▸ reading
  have left : r.words = word :: rest := behind.words ▸ left
  cases reads with
  | prog first =>
    have first : r.isFirst = true := behind.isFirst ▸ first
    exact ⟨[], f, _, run_prog reading left first, behind.readProg first left⟩
  | argument later noPipe noError noFile =>
    have later : r.isFirst = false := behind.isFirst ▸ later
    exact ⟨[], f, _, run_argument reading left later noPipe noError noFile,
      behind.readArgument later left noPipe noError noFile⟩
  | @pipe isError count created later same number creates =>
    have later : r.isFirst = false := behind.isFirst ▸ later
    have isPipe : 124 ∈ word ∨ 33 ∈ word := by
      cases isError with
      | true => exact .inr same.2
      | false => exact .inl same
    have which : isError = decide (124 ∉ word) := by
      cases isError with
      | true => exact (decide_eq_true same.1).symm
      | false => exact (decide_eq_false (not_not_intro same)).symm
    obtain ⟨pipe, g, made, behindPipe⟩ := behind.pipeTo later left isPipe isError creates
    refine ⟨[], g, _, run_pipe reading left later isPipe number made, ?_⟩
    rw [← which]
    exact behindPipe
  | @redirect file left' later same follows =>
    subst same follows
    have later : r.isFirst = false := behind.isFirst ▸ later
    obtain ⟨files, g, behindFile⟩ := behind.redirect later left (world.opens left'.length)
    exact ⟨files, g, _, run_file reading left later, behindFile⟩

/-- Where a shell fails to read a word, the reference shell fails. -/
theorem Behind.fails (behind : Behind d f live v r) (reading : v.isFinal = false) {word : Str}
    {rest : List Str} (left : v.words = word :: rest) (fails : v.Fails world word rest) :
    (refLoop world).run r = .error r.state := by
  have reading : r.isFinal = false := behind.isFinal ▸ reading
  have left : r.words = word :: rest := behind.words ▸ left
  cases fails with
  | pipeChar later same long =>
    exact run_long reading left (behind.isFirst ▸ later) same long
  | pipeError later same number refused =>
    exact run_refused reading left (behind.isFirst ▸ later) same number
      (behind.tracks.pipeTo_refused refused)

/-- Both call a complete command with the same. -/
theorem Behind.issue (behind : Behind d f live v r) (final : r.isFinal = true) :
    v.issue d = r.issue.relabel f := by
  obtain ⟨input, output, error⟩ := behind.defaults
  have sameOutput := behind.tracks.port_shut output (behind.output final) (q := v.attached) rfl
  have sameError := behind.tracks.port_shut error (behind.error final) (q := v.attached) rfl
  have sameInput : port d.input (v.inFd d) (v.attached.object (v.inFd d)) =
      r.issue.input.relabel f := by
    cases got : getPipeFd v.pipeVector v.process with
    | none =>
      have isDefault : v.inFd d = d.input := by rw [View.inFd, got]; rfl
      rw [isDefault, port_default, Frame.issue, behind.tracks.got_none got]
      rfl
    | some taken =>
      obtain ⟨record, after⟩ := taken
      obtain ⟨k, isDue, shown⟩ := behind.tracks.port_due input got
      have isRead : v.inFd d = record.outFd := by rw [View.inFd, got]; rfl
      have isAttached : v.attached = after := by rw [View.attached, got]; rfl
      rw [isRead, isAttached, shown, Frame.issue, isDue]
  rw [View.issue, sameInput, sameOutput, sameError, behind.arguments, behind.lineEnds,
    behind.isUsingPipe]
  rfl

/-- What a command is called with has been made. -/
theorem Behind.issue_below (behind : Behind d f live v r) (final : r.isFinal = true) :
    ∀ n ∈ r.issue.serials, n < r.state.made := by
  intro n occurs
  rcases List.mem_append.mp occurs with first | isError
  · rcases List.mem_append.mp first with isInput | isOutput
    · rw [Frame.issue] at isInput
      split at isInput
      · rename_i k isDue
        obtain ⟨e, found, rfl⟩ := Option.map_eq_some_iff.mp isDue
        rw [List.mem_singleton.mp isInput]
        exact behind.tracks.below e (List.mem_of_find?_eq_some found)
      · cases isInput
    · exact (behind.output final).below n (Port.serials_shut isOutput)
  · exact (behind.error final).below n (Port.serials_shut isError)

/-- At most one pipe is due. -/
theorem Behind.distinct (behind : Behind d f live v r) :
    (v.pipeVector.map PipeFd.count).Nodup := by
  rw [behind.tracks.counts]
  exact behind.tracks.distinct

theorem View.attached_made (v : View) : v.attached.made = v.process.made := by
  rw [View.attached, getPipeFd]
  split
  · exact Process.made_closeEnd _ _ _
  · rfl

/-- After an execution, whatever else has been closed. -/
theorem Behind.executes (behind : Behind d f live v r) (world : World) (final : v.isFinal = true)
    (complete : runs v.arguments = true) {p : Process} {fewer : List (Int × Object)}
    (account : Account False p (fewer ++ ends (v.pipeVector.filter (·.count ≠ 0))) [])
    (made : p.made = v.process.made)
    (defaults : IsDefault fewer d.input ∧ IsDefault fewer d.output ∧ IsDefault fewer d.error) :
    ∃ next, (refLoop world).run r = (refLoop world).run next ∧
      Behind d f fewer (v.executed d p) next := by
  have final : r.isFinal = true := behind.isFinal ▸ final
  refine ⟨_, run_execute final (behind.arguments ▸ complete), ?_⟩
  have tracks := behind.tracks.issued account made (behind.issue_below final)
  rw [← behind.issue final] at tracks
  exact { behind with
    tracks := tracks
    defaults := defaults
    isFinal := rfl
    output := fun again => by cases again
    error := fun again => by cases again
    command := fun _ => behind.command (.inl final) }

/-- The pipe that was due has been given up, with what else the command has read. -/
theorem Behind.erased (behind : Behind d f live v r) {fewer given : List (Int × Object)}
    (parts : (fewer ++ given).Perm live) :
    Account False v.erased (fewer ++ ends (v.pipeVector.filter (·.count ≠ 0)))
      (given ++ ends (v.pipeVector.filter (·.count = 0))) :=
  behind.tracks.detach parts rfl

/-- The account of a shell that has run a command: of the ends that were relied on, those of the
due pipe are closed, so that what is left lists the pipes that are not due. -/
theorem Behind.closed (behind : Behind d f live v r) {fewer given : List (Int × Object)}
    (parts : (fewer ++ given).Perm live) :
    Account False v.closed (fewer ++ ends (v.pipeVector.filter (·.count ≠ 0)))
      (given ++ ends (v.pipeVector.filter (·.count = 0))) := by
  rw [View.closed]
  split
  · rename_i record after got
    refine (behind.erased parts).closeDying ?_
    rw [getPipeFd] at got
    split at got
    · rename_i found isFound
      cases got
      have isDue : record.count = 0 := by simpa using List.find?_some isFound
      have due : record ∈ v.pipeVector.filter (·.count = 0) :=
        List.mem_filter.mpr ⟨List.mem_of_find?_eq_some isFound, by simpa using isDue⟩
      exact List.mem_append_right given (mem_ends due (List.mem_cons_of_mem _ List.mem_cons_self))
    · cases got
  · exact behind.erased parts

theorem View.made_erased (v : View) : v.erased.made = v.process.made :=
  (erasePipeVector_made _ _).trans v.attached_made

theorem View.made_closed (v : View) : v.closed.made = v.process.made := by
  rw [View.closed]
  split
  · exact (Process.made_closeEnd _ _ _).trans v.made_erased
  · exact v.made_erased

/-- A file that is opened besides. -/
theorem Behind.besides (behind : Behind d f live v r) :
    Behind d f ((v.process.openFile.1, .file v.process.made) :: live)
      { v with process := v.process.openFile.2 } r := by
  have more : live ⊆ (v.process.openFile.1, .file v.process.made) :: live :=
    List.subset_cons_self _ _
  obtain ⟨input, output, error⟩ := behind.defaults
  exact { behind with
    tracks := behind.tracks.besides
    defaults := ⟨input.mono more, output.mono more, error.mono more⟩
    output := fun final => (behind.output final).mono more
    error := fun final => (behind.error final).mono more }

end Behind

/-- What is compared at the end: whether the shell got through its lines, its calls, and the
counts in its pipe table. The serial numbers in the calls are those of their own order, so that
equal outlines mean the same pipes. -/
structure Outline where
  returned : Bool
  issues : List Issue
  counts : List Int
  deriving DecidableEq

/-- The outline of a shell. -/
def outline (returned : Bool) (issues : List Issue) (pipeVector : List PipeFd) : Outline :=
  ⟨returned, numbered issues, pipeVector.map PipeFd.count⟩

/-- The outline of the reference shell. -/
def Outline.ofResult : Except State State → Outline
  | .ok s => ⟨true, numbered s.issues, s.pipes.map Prod.fst⟩
  | .error s => ⟨false, numbered s.issues, s.pipes.map Prod.fst⟩

section Outlines

variable {f : Nat → Nat} {p : Process} {pipeVector : List PipeFd} {live : List (Int × Object)}
  {s : State} {issues : List Issue}

/-- Issues of a shell that come from issues of the reference shell. -/
theorem Tracks.numbered_relabel (tracks : Tracks f p pipeVector live s issues)
    {more : List Issue} (occurs : ∀ n ∈ more.flatMap Issue.serials, n < s.made) :
    numbered (more.map (Issue.relabel f)) = numbered more :=
  Common.numbered_relabel (fun a _ b isOther less => tracks.ordered a b less (occurs b isOther))

/-- A shell has the outline of the reference shell behind it. -/
theorem Tracks.outline_ok (tracks : Tracks f p pipeVector live s issues) :
    outline true issues pipeVector = .ofResult (.ok s) := by
  rw [outline, tracks.same, tracks.numbered_relabel tracks.occurs, tracks.counts]
  rfl

theorem Tracks.outline_error (tracks : Tracks f p pipeVector live s issues) :
    outline false issues pipeVector = .ofResult (.error s) := by
  rw [outline, tracks.same, tracks.numbered_relabel tracks.occurs, tracks.counts]
  rfl

/-- A call that fails is the last one of both. -/
theorem Behind.incomplete {d : Defaults} {v : View} {r : Frame}
    (behind : Behind d f live v r) (world : World) (final : v.isFinal = true)
    (missing : runs v.arguments = false) : ∃ t, (refLoop world).run r = .error t ∧
      outline false (v.issues ++ [v.issue d]) v.pipeVector = .ofResult (.error t) := by
  have final : r.isFinal = true := behind.isFinal ▸ final
  have all : v.issues ++ [v.issue d] = (r.state.issues ++ [r.issue]).map (Issue.relabel f) := by
    rw [behind.issue final, behind.tracks.same, List.map_append]
    rfl
  have occurs : ∀ n ∈ (r.state.issues ++ [r.issue]).flatMap Issue.serials, n < r.state.made := by
    intro n member
    rw [List.flatMap_append] at member
    rcases List.mem_append.mp member with old | new
    · exact behind.tracks.occurs n old
    · exact behind.issue_below final n (by simpa using new)
  refine ⟨_, run_incomplete final (behind.arguments ▸ missing), ?_⟩
  rw [outline, all, behind.tracks.numbered_relabel occurs, behind.tracks.counts]
  rfl

end Outlines

end NetProg.Common
