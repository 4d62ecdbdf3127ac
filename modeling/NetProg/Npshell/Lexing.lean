import NetProg.Npshell.CommandLines

/-!
# Which words are pipe operators

A word that is not the first of its command is taken for a pipe operator when there is a
`|` or a `!` anywhere in it, and its number is what `atoi` makes of everything behind its
first character, which is copied into five bytes. On a word without these characters, and
on an operator with at most four digits, that is what a pipe operator is meant to be.
-/

namespace NetProg.Npshell

open Outcomes

/-- `|` or `!`, alone or followed by the digits of a number that is at least one. -/
def IsOperator (word : Str) : Prop :=
  ∃ (isError : Bool) (digits : Str), word = (if isError then 33 else 124) :: digits ∧
    (∀ c ∈ digits, isdigit c = true) ∧ 1 ≤ numberOf digits

/-- A pipe is created, or joined, that leads some commands on, and ends the command. -/
def createsPipe (world : World) (f : Frame) (isError : Bool) (count : Int) (rest : List Str) :
    Outcome Frame :=
  match NumberedPipes.createPipe (world.pipes rest.length) f.shell.process f.shell.pipeVector
      count with
  | none => .error (.pipeError, f.shell)
  | some created => .ok (f.initFd.pipeTo isError created rest)

/-- A word behind the first of its command is read for what it is: an operator makes or joins the
pipe for its own number, with every byte of that inside the buffer; any other word becomes an
argument. -/
structure ReadRight (world : World) (f : Frame) (word : Str) (rest : List Str) : Prop where
  /-- An operator creates a pipe, with exactly its number if that fits an `int`. -/
  operator : ∀ (isError : Bool) (digits : Str), word = (if isError then 33 else 124) :: digits →
    (∀ c ∈ digits, isdigit c = true) → 1 ≤ numberOf digits →
    ∃ count : Int, (numberOf digits ≤ 2147483647 → count = numberOf digits) ∧
      readWord world f word rest = createsPipe world f isError count rest
  /-- A word that is neither an operator nor a redirection is an argument. -/
  argument : ¬ IsOperator word → word ∉ [str ">", str ">>", str "&>"] →
    readWord world f word rest = .ok (f.initFd.readArgument word rest)

section Word

variable {world : World} {f : Frame} {word : Str} {rest : List Str}

/-- An operator has one of the two characters. -/
theorem IsOperator.marked (operator : IsOperator word) : 124 ∈ word ∨ 33 ∈ word := by
  obtain ⟨isError, digits, rfl, -, -⟩ := operator
  cases isError with
  | false => exact Or.inl List.mem_cons_self
  | true => exact Or.inr List.mem_cons_self

/-- A word with one of the two characters goes to one of the pipe branches. -/
theorem readWord_marked (later : f.isFirstArgv = false) (marked : 124 ∈ word ∨ 33 ∈ word) :
    ∃ isError, readWord world f word rest = readPipe world f.initFd isError word rest := by
  have still : f.initFd.isFirstArgv = false := later
  by_cases bar : 124 ∈ word
  · refine ⟨false, ?_⟩
    simp [readWord, still, kind, bar]
  · have bang : 33 ∈ word := marked.resolve_left bar
    refine ⟨true, ?_⟩
    simp [readWord, still, kind, bar, bang]

/-- A pipe branch never makes an argument of a word. -/
theorem readPipe_ne_argument (later : f.isFirstArgv = false) (isError : Bool) :
    readPipe world f.initFd isError word rest ≠ .ok (f.initFd.readArgument word rest) := by
  intro same
  rw [readPipe] at same
  split at same
  · cases same
  · split at same
    · cases same
    · have first := congrArg Frame.isFirstArgv (Except.ok.inj same)
      rw [show (f.initFd.readArgument word rest).isFirstArgv = f.isFirstArgv from rfl, later] at first
      cases first

/-- A pipe branch that has no room for the number creates no pipe. -/
theorem readPipe_overruns (long : ¬ word.length ≤ 5) (isError : Bool) :
    readPipe world f.initFd isError word rest = .error (.pipeChar, f.shell) := by
  have more : word.length ≠ 1 := by
    intro one
    omega
  rw [readPipe, NumberedPipes.pipeNum, if_neg more, if_neg long]
  rfl

theorem createsPipe_ne_overrun (isError : Bool) (count : Int) :
    createsPipe world f isError count rest ≠ .error (.pipeChar, f.shell) := by
  intro same
  rw [createsPipe] at same
  split at same
  · cases same
  · cases same

/-- A word without the two characters is a redirection or an argument. -/
theorem readRight_unmarked (later : f.isFirstArgv = false) (noBar : 124 ∉ word)
    (noBang : 33 ∉ word) : ReadRight world f word rest := by
  constructor
  · intro isError digits same all positive
    rcases IsOperator.marked ⟨isError, digits, same, all, positive⟩ with bar | bang
    · exact absurd bar noBar
    · exact absurd bang noBang
  · intro _ noFile
    simp only [List.mem_cons, List.not_mem_nil, or_false, not_or] at noFile
    have still : f.initFd.isFirstArgv = false := later
    have isArgument := PlainWord.kind ⟨noBar, noBang, noFile⟩
    simp only [readWord, still, Bool.false_eq_true, if_false, isArgument]

/-- An operator that leaves room for its digits. -/
theorem readRight_operator (later : f.isFirstArgv = false) (operator : IsOperator word)
    (short : word.length ≤ 5) : ReadRight world f word rest := by
  constructor
  · rintro isError digits rfl all positive
    refine ⟨numberOf digits, fun _ => rfl, ?_⟩
    have few : digits.length ≤ 4 := by
      rw [List.length_cons] at short
      omega
    exact @readWord_operator world isError digits rest f ⟨few, all, positive⟩ later
  · intro noOperator
    exact absurd operator noOperator

/-- A word with one of the two characters that is no operator, or has no room, is read
for something else. -/
theorem not_readRight (later : f.isFirstArgv = false) (marked : 124 ∈ word ∨ 33 ∈ word)
    (bad : ¬ (IsOperator word ∧ word.length ≤ 5)) : ¬ ReadRight world f word rest := by
  intro right
  obtain ⟨branch, reads⟩ := @readWord_marked world f word rest later marked
  by_cases operator : IsOperator word
  · have long : ¬ word.length ≤ 5 := fun short => bad ⟨operator, short⟩
    obtain ⟨isError, digits, same, all, positive⟩ := operator
    obtain ⟨count, -, created⟩ := right.operator isError digits same all positive
    rw [reads, readPipe_overruns long] at created
    exact createsPipe_ne_overrun isError count created.symm
  · have unmarked : ∀ file ∈ [str ">", str ">>", str "&>"], 124 ∉ file ∧ 33 ∉ file := by
      decide
    have noFile : word ∉ [str ">", str ">>", str "&>"] := by
      intro isFile
      rcases marked with bar | bang
      · exact (unmarked word isFile).1 bar
      · exact (unmarked word isFile).2 bang
    have isArgument := right.argument operator noFile
    rw [reads] at isArgument
    exact readPipe_ne_argument later branch isArgument

end Word

/-- A word behind the first of its command is read for what it is, in whatever state and whatever
follows, if and only if there is no `|` or `!` in it, or it is an operator of at most five bytes.

The shell looks for these characters anywhere in a word and copies all behind the first byte into
a buffer of five, with a zero at its end: so an argument that has one of them is taken for an
operator, and an operator with more than four digits is written outside of the buffer. -/
theorem word_read_right_iff (world : World) {f : Frame} (later : f.isFirstArgv = false)
    (word : Str) (rest : List Str) :
    ReadRight world f word rest ↔
      (124 ∉ word ∧ 33 ∉ word) ∨ (IsOperator word ∧ word.length ≤ 5) := by
  constructor
  · intro readRight
    by_cases marked : 124 ∈ word ∨ 33 ∈ word
    · right
      apply Classical.byContradiction
      intro bad
      exact not_readRight later marked bad readRight
    · exact Or.inl (not_or.mp marked)
  · rintro (⟨noBar, noBang⟩ | ⟨operator, short⟩)
    · exact readRight_unmarked later noBar noBang
    · exact readRight_operator later operator short

/-- A shell that has read the program of a command. -/
def afterProg : Frame :=
  (Frame.initial (Shell.initial []) []).readProg (str "echo") [str "|2"]

/-- An operator behind it is read right. -/
theorem word_read_right_operator : afterProg.isFirstArgv = false ∧
    ReadRight World.plain afterProg (str "|2") [] := by
  refine ⟨rfl, (word_read_right_iff World.plain rfl (str "|2") []).mpr (Or.inr ⟨?_, by decide⟩)⟩
  exact ⟨false, str "2", by decide +kernel, by decide +kernel, by decide +kernel⟩

/-- The argument of `echo hi!` is lost to a pipe, as that of `echo a|b` is, and the
number of `|10000` does not fit into its buffer. -/
theorem argument_taken_for_operator :
    ¬ ReadRight World.plain afterProg (str "hi!") [] ∧
      ((execCmds World.plain (Shell.initial []) [str "echo", str "hi!"]).toOption.map
        (fun s => s.calls.map Call.arguments)) = some [[str "echo"]] ∧
      ((execCmds World.plain (Shell.initial []) [str "echo", str "a|b"]).toOption.map
        (fun s => s.calls.map Call.arguments)) = some [[str "echo"]] ∧
      ¬ ReadRight World.plain afterProg (str "|10000") [] := by
  refine ⟨?_, by decide +kernel, by decide +kernel, ?_⟩
  · apply not_readRight rfl
    · exact Or.inr (by decide)
    · rintro ⟨⟨isError, digits, same, -⟩, -⟩
      have first := congrArg List.head? same
      rw [List.head?_cons] at first
      cases isError <;> exact absurd first (by decide)
  · apply not_readRight rfl
    · exact Or.inl (by decide)
    · rintro ⟨-, short⟩
      exact absurd short (by decide)

end NetProg.Npshell
