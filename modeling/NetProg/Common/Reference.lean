import NetProg.Common.Issues
import NetProg.Environment
import NetProg.NumberedPipes
import NetProg.Library.Loops

/-!
# The common language

The lines all three shells understand: words without redirections and user pipes,
apart from a file at the end of a line, and programs none of the shells has commands
of its own for. A reference shell runs them without any descriptors. Its pipes and
files are numbered in the order they are made; of a pipe it keeps the count and the
number, of a descriptor what it leads to.
-/

namespace NetProg.Common

open Loops

/-- The programs that not all shells run alike. -/
def excluded : List Str := [str "tell", str "yell", str "who", str "name", str "exit"]

/-- A word without a redirection or a user pipe in it. The words of a C string have no
zero bytes. -/
def plain (word : Str) : Bool := !word.contains 60 && !word.contains 62 && !word.contains 0

/-- The words of the common language, from the first word of a command or from a later
one. -/
def common : Bool → List Str → Bool
  | _, [] => true
  | true, prog :: rest => plain prog && !excluded.contains prog && common false rest
  | false, word :: rest =>
    if 124 ∈ word ∨ 33 ∈ word then plain word && common true rest
    else if word = str ">" then rest.length = 1
    else plain word && common false rest

theorem common_prog {prog : Str} {rest : List Str} : common true (prog :: rest) = true ↔
    plain prog = true ∧ excluded.contains prog = false ∧ common false rest = true := by
  simp [common, and_assoc]

theorem common_pipe {word : Str} {rest : List Str} (isPipe : 124 ∈ word ∨ 33 ∈ word) :
    common false (word :: rest) = true ↔ plain word = true ∧ common true rest = true := by
  simp [common, isPipe]

theorem common_file {rest : List Str} :
    common false (str ">" :: rest) = true ↔ rest.length = 1 := by
  have solid : ¬ (124 ∈ str ">" ∨ 33 ∈ str ">") := by decide
  simp [common, solid]

theorem common_argument {word : Str} {rest : List Str} (noPipe : 124 ∉ word) (noError : 33 ∉ word)
    (noFile : word ≠ str ">") :
    common false (word :: rest) = true ↔ plain word = true ∧ common false rest = true := by
  simp [common, noPipe, noError, noFile]

/-- The numbered pipes with their counts, how many pipes and files were made, and the calls so
far. There are no descriptors, so nothing here can be closed too early or leak. -/
structure State where
  pipes : List (Int × Nat)
  made : Nat
  issues : List Issue

/-- The queue and the local variables. -/
structure Frame where
  state : State
  words : List Str
  isFirst : Bool
  isFinal : Bool
  arguments : List Str
  isUsingPipe : Bool
  lineEnds : Bool
  output : Port
  error : Port

namespace State

/-- The pipe with a count, which is made if there is none. -/
def pipeTo (s : State) (canPipe : Bool) (count : Int) : Option (Nat × State) :=
  match (s.pipes.filter (·.1 = count)).getLast? with
  | some same => some (same.2, s)
  | none =>
    if canPipe then
      some (s.made, { s with pipes := s.pipes ++ [(count, s.made)], made := s.made + 1 })
    else none

/-- Before the first line. -/
def initial : State := ⟨[], 0, []⟩

/-- A file, if it can be opened. -/
def openFile (s : State) (opens : Bool) : Port × State :=
  if opens then (.object (.file s.made), { s with made := s.made + 1 }) else (.failed, s)

/-- The pipe that is due. -/
def due (s : State) : Option Nat := (s.pipes.find? (·.1 = 0)).map Prod.snd

/-- A call, after which the pipe that was due is gone and the others are nearer by
one. -/
def issued (s : State) (issue : Issue) : State where
  pipes := (s.pipes.filter (·.1 ≠ 0)).map (fun entry => (entry.1 - 1, entry.2))
  made := s.made
  issues := s.issues ++ [issue]

end State

/-- The write end of the pipe that is due is closed before the call. -/
def Port.shut (due : Option Nat) (port : Port) : Port :=
  match due with
  | none => port
  | some k => if port = .object (.writeEnd k) then .closed else port

theorem Port.shut_same {k : Nat} : (Port.object (.writeEnd k)).shut (some k) = .closed := if_pos rfl

theorem Port.shut_other {due : Option Nat} {port : Port}
    (other : ∀ k ∈ due, port ≠ .object (.writeEnd k)) : port.shut due = port := by
  cases due with
  | none => rfl
  | some k => exact if_neg (other k rfl)

theorem Port.serials_shut {due : Option Nat} {port : Port} {n : Nat}
    (occurs : n ∈ (port.shut due).serials) : n ∈ port.serials := by
  cases due with
  | none => exact occurs
  | some k =>
    rw [Port.shut] at occurs
    split at occurs
    · cases occurs
    · exact occurs

/-- Two commands read their arguments without a look at how many there are. -/
def runs : List Str → Bool
  | [] => false
  | prog :: rest =>
    if prog = str "printenv" then 1 ≤ rest.length
    else if prog = str "setenv" then 2 ≤ rest.length
    else true

namespace Frame

/-- The variables at the start of a line. -/
def initial (s : State) (words : List Str) : Frame where
  state := s
  words := words
  isFirst := true
  isFinal := false
  arguments := []
  isUsingPipe := false
  lineEnds := false
  output := .standard
  error := .standard

/-- The first word of a command. -/
def readProg (f : Frame) (word : Str) (rest : List Str) : Frame :=
  { f with
    words := rest
    isFirst := false
    isFinal := rest.isEmpty
    arguments := [word]
    isUsingPipe := false
    lineEnds := f.lineEnds || rest.isEmpty
    output := .standard
    error := .standard }

/-- A word that is an argument. -/
def readArgument (f : Frame) (word : Str) (rest : List Str) : Frame :=
  { f with
    words := rest
    isFinal := rest.isEmpty
    arguments := f.arguments ++ [word]
    isUsingPipe := false
    lineEnds := f.lineEnds || rest.isEmpty
    output := .standard
    error := .standard }

/-- A pipe operator, with the pipe it leads to. -/
def pipeTo (f : Frame) (isError : Bool) (pipe : Nat × State) (rest : List Str) : Frame :=
  { f with
    state := pipe.2
    words := rest
    isFirst := true
    isFinal := true
    isUsingPipe := true
    lineEnds := f.lineEnds || rest.isEmpty
    output := .object (.writeEnd pipe.1)
    error := if isError then .object (.writeEnd pipe.1) else .standard }

/-- A redirection to a file. -/
def redirect (f : Frame) (opened : Port × State) (rest : List Str) : Frame :=
  { f with
    state := opened.2
    words := rest
    isFirst := true
    isFinal := true
    isUsingPipe := false
    lineEnds := f.lineEnds || rest.isEmpty
    output := opened.1
    error := .standard }

/-- The call of a complete command. -/
def issue (f : Frame) : Issue where
  arguments := f.arguments
  lineEnds := f.lineEnds
  isUsingPipe := f.isUsingPipe
  input :=
    match f.state.due with
    | some k => .object (.readEnd k)
    | none => .standard
  output := f.output.shut f.state.due
  error := f.error.shut f.state.due

/-- A complete command is called. -/
def execute (f : Frame) : Except State (Round Frame State) :=
  if runs f.arguments then
    .ok (.again { f with state := f.state.issued f.issue, isFinal := false })
  else .error { f.state with issues := f.state.issues ++ [f.issue] }

/-- A pipe operator, with its number. -/
def readPipe (f : Frame) (world : World) (isError : Bool) (word : Str) (rest : List Str) :
    Except State (Round Frame State) :=
  match NumberedPipes.pipeNum word with
  | none => .error f.state
  | some count =>
    match f.state.pipeTo (world.pipes rest.length) count with
    | none => .error f.state
    | some pipe => .ok (.again (f.pipeTo isError pipe rest))

/-- What comes next in the line. -/
def next (world : World) (f : Frame) : Except State (Round Frame State) :=
  if f.isFinal then f.execute
  else
    match f.words with
    | [] => .ok (.leave f.state)
    | word :: rest =>
      if f.isFirst then .ok (.again (f.readProg word rest))
      else if 124 ∈ word then f.readPipe world false word rest
      else if 33 ∈ word then f.readPipe world true word rest
      else if word = str ">" then
        match rest with
        | [] => .error f.state
        | _ :: left => .ok (.again (f.redirect (f.state.openFile (world.opens left.length)) left))
      else .ok (.again (f.readArgument word rest))

/-- Words left and commands waiting to be called. -/
def pending (f : Frame) : Nat := 2 * f.words.length + if f.isFinal then 1 else 0

theorem readPipe_words {f after : Frame} {world : World} {isError : Bool} {word : Str}
    {rest : List Str} (again : f.readPipe world isError word rest = .ok (.again after)) :
    after.words = rest := by
  rw [readPipe] at again
  split at again
  · cases again
  · split at again
    · cases again
    · cases again
      rfl

/-- Everything that is read leaves fewer words, and a call no complete command. -/
theorem next_decreases {world : World} {f after : Frame}
    (again : f.next world = .ok (.again after)) : after.pending < f.pending := by
  have fewer {word : Str} {rest : List Str} (left : f.words = word :: rest)
      (short : after.words.length ≤ rest.length) : after.pending < f.pending := by
    have length : f.words.length = rest.length + 1 := by rw [left, List.length_cons]
    unfold pending
    split <;> omega
  rw [next] at again
  split at again
  · rename_i final
    rw [execute] at again
    split at again
    · cases again
      simp [pending, final]
    · cases again
  split at again
  · cases again
  rename_i word rest left
  apply fewer left
  split at again
  · cases again
    exact Nat.le_refl _
  split at again
  · exact Nat.le_of_eq (congrArg List.length (readPipe_words again))
  split at again
  · exact Nat.le_of_eq (congrArg List.length (readPipe_words again))
  split at again
  · split at again
    · cases again
    · cases again
      exact Nat.le_succ _
  · cases again
    exact Nat.le_refl _

end Frame

/-- The reference shell on the words of a line. -/
def refLoop (world : World) : Loop Frame State State where
  body := Frame.next world
  measure := Frame.pending
  decreases _ _ again := Frame.next_decreases again

section Runs

variable {world : World} {f : Frame} {word : Str} {rest : List Str}

theorem run_prog (reading : f.isFinal = false) (left : f.words = word :: rest)
    (first : f.isFirst = true) :
    (refLoop world).run f = (refLoop world).run (f.readProg word rest) := by
  apply Loop.run_again
  simp [refLoop, Frame.next, reading, left, first]

/-- A word that is neither first nor an operator becomes an argument. -/
theorem run_argument (reading : f.isFinal = false) (left : f.words = word :: rest)
    (later : f.isFirst = false) (noPipe : 124 ∉ word) (noError : 33 ∉ word)
    (noFile : word ≠ str ">") :
    (refLoop world).run f = (refLoop world).run (f.readArgument word rest) := by
  apply Loop.run_again
  simp [refLoop, Frame.next, reading, left, later, noPipe, noError, noFile]

/-- Both pipe operators. -/
theorem next_pipe (reading : f.isFinal = false) (left : f.words = word :: rest)
    (later : f.isFirst = false) (isPipe : 124 ∈ word ∨ 33 ∈ word) :
    f.next world = f.readPipe world (decide (124 ∉ word)) word rest := by
  by_cases bar : 124 ∈ word
  · simp [Frame.next, reading, left, later, bar]
  · have bang : 33 ∈ word := isPipe.resolve_left bar
    simp [Frame.next, reading, left, later, bar, bang]

/-- A pipe operator joins a pipe of the table or makes one. -/
theorem run_pipe (reading : f.isFinal = false) (left : f.words = word :: rest)
    (later : f.isFirst = false) (isPipe : 124 ∈ word ∨ 33 ∈ word) {count : Int}
    (number : NumberedPipes.pipeNum word = some count) {pipe : Nat × State}
    (made : f.state.pipeTo (world.pipes rest.length) count = some pipe) :
    (refLoop world).run f = (refLoop world).run (f.pipeTo (decide (124 ∉ word)) pipe rest) := by
  apply Loop.run_again
  refine (next_pipe reading left later isPipe).trans ?_
  simp [Frame.readPipe, number, made]

theorem run_long (reading : f.isFinal = false) (left : f.words = word :: rest)
    (later : f.isFirst = false) (isPipe : 124 ∈ word ∨ 33 ∈ word)
    (long : NumberedPipes.pipeNum word = none) : (refLoop world).run f = .error f.state := by
  apply Loop.run_error
  refine (next_pipe reading left later isPipe).trans ?_
  simp [Frame.readPipe, long]

/-- The line fails at a pipe operator whose pipe cannot be made, in the state before it. -/
theorem run_refused (reading : f.isFinal = false) (left : f.words = word :: rest)
    (later : f.isFirst = false) (isPipe : 124 ∈ word ∨ 33 ∈ word) {count : Int}
    (number : NumberedPipes.pipeNum word = some count)
    (refused : f.state.pipeTo (world.pipes rest.length) count = none) :
    (refLoop world).run f = .error f.state := by
  apply Loop.run_error
  refine (next_pipe reading left later isPipe).trans ?_
  simp [Frame.readPipe, number, refused]

/-- A `>` with its file: the words behind the file are read on. -/
theorem run_file (reading : f.isFinal = false) {file : Str} {left : List Str}
    (queue : f.words = str ">" :: file :: left) (later : f.isFirst = false) :
    (refLoop world).run f = (refLoop world).run
      (f.redirect (f.state.openFile (world.opens left.length)) left) := by
  have solid : 124 ∉ str ">" ∧ 33 ∉ str ">" := by decide
  apply Loop.run_again
  simp [refLoop, Frame.next, reading, queue, later, solid]

theorem run_empty (reading : f.isFinal = false) (empty : f.words = []) :
    (refLoop world).run f = .ok f.state := by
  apply Loop.run_leave
  simp [refLoop, Frame.next, reading, empty]

theorem run_execute (final : f.isFinal = true) (complete : runs f.arguments = true) :
    (refLoop world).run f = (refLoop world).run
      { f with state := f.state.issued f.issue, isFinal := false } := by
  apply Loop.run_again
  simp [refLoop, Frame.next, Frame.execute, final, complete]

theorem run_incomplete (final : f.isFinal = true) (missing : runs f.arguments = false) :
    (refLoop world).run f = .error { f.state with issues := f.state.issues ++ [f.issue] } := by
  apply Loop.run_error
  simp [refLoop, Frame.next, Frame.execute, final, missing]

end Runs

/-- The reference shell on one line after another, each with the answers of the
operating system. -/
def session (s : State) (lines : List (Str × World)) : Except State State :=
  lines.foldlM (fun s line => (refLoop line.2).run (Frame.initial s (words line.1))) s

end NetProg.Common
