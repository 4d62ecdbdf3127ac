import Mathlib.Data.List.Forall2
import NetProg.SingleProc.Main

/-!
# From chunks to command lines

The server takes every chunk that `recv` returns for one command line: it puts
a zero over the last byte, wherever the line ends, and keeps nothing for the
next chunk. So the lines of a stream come through only when the stream is cut
at the ends of its lines.

How many bytes come through is what decides it. Every chunk loses its last byte,
so a line that is cut, or whose last byte is not the last of a chunk, loses more
than the newline and the carriage return it may lose. White space is not
counted: lines without a word make no difference to anybody.
-/

namespace NetProg.SingleProc

/-- Nothing but white space. -/
def isBlank (line : Str) : Bool := line.all isspace

/-- The command lines of a sequence: without the blank ones, and without one
carriage return at the end of each. -/
def commandLines (lines : List Str) : List Str := (lines.filter (! isBlank ·)).map lineInput

/-- The chunks are a cut of the lines: none of them is empty, together they are the lines with
their newlines, and a line has neither a newline nor a zero in it. Nothing else is known of where
the stream is cut. -/
structure Cut (lines chunks : List Str) : Prop where
  nonempty : ∀ chunk ∈ chunks, chunk ≠ []
  whole : chunks.flatten = lines.flatMap (· ++ [10])
  newline : ∀ line ∈ lines, (10 : UInt8) ∉ line
  zero : ∀ line ∈ lines, (0 : UInt8) ∉ line

/-- The chunk is the line with its newline, or a line that ends in exactly one
carriage return up to that. -/
def Arrives (line chunk : Str) : Prop :=
  chunk = line ++ [10] ∨ chunk = line ∧ ∃ text, line = text ++ [13] ∧ text.getLast? ≠ some 13

/-- How many bytes a line counts. -/
def weight (line : Str) : Nat := if isBlank line then 0 else (lineInput line).length

/-- How many bytes a sequence of lines counts. -/
def weights : List Str → Nat
  | [] => 0
  | line :: lines => weight line + weights lines

theorem isBlank_append (first second : Str) :
    isBlank (first ++ second) = (isBlank first && isBlank second) := by
  simp [isBlank]

theorem isBlank_dropLast {line : Str} (blank : isBlank line = true) :
    isBlank line.dropLast = true := by
  simp only [isBlank, List.all_eq_true] at blank ⊢
  intro c member
  exact blank c ((List.dropLast_sublist line).subset member)

theorem lineInput_concat (text : Str) (c : UInt8) :
    lineInput (text ++ [c]) = if c = 13 then text else text ++ [c] := by
  simp [lineInput]

/-- A line that is not empty ends in some byte. -/
theorem exists_concat {line : Str} (nonempty : line ≠ []) :
    ∃ (text : Str) (c : UInt8), line = text ++ [c] := by
  rcases List.eq_nil_or_concat line with empty | ends
  · exact absurd empty nonempty
  · simpa only [List.concat_eq_append] using ends

theorem lineInput_append (first : Str) {second : Str} (nonempty : second ≠ []) :
    lineInput (first ++ second) = first ++ lineInput second := by
  obtain ⟨text, c, rfl⟩ := exists_concat nonempty
  rw [← List.append_assoc, lineInput_concat, lineInput_concat]
  split
  · rfl
  · rw [List.append_assoc]

theorem lineInput_length_le (line : Str) : (lineInput line).length ≤ line.length := by
  rw [lineInput]
  split
  · simp
  · exact Nat.le_refl _

theorem weight_le (line : Str) : weight line ≤ (lineInput line).length := by
  rw [weight]
  split
  · exact Nat.zero_le _
  · exact Nat.le_refl _

@[simp] theorem weight_nil : weight [] = 0 := rfl

/-- A line and what is left of it after a chunk: the chunk and the rest count no
more than the line. They count as much only if the line is blank, or if the chunk
is the line, with one carriage return at its end. -/
theorem weight_cut {chunk : Str} (rest : Str) (nonempty : chunk ≠ []) :
    weight chunk.dropLast + weight rest ≤ weight (chunk ++ rest) ∧
      (weight chunk.dropLast + weight rest = weight (chunk ++ rest) →
        isBlank (chunk ++ rest) = true ∨
        rest = [] ∧ ∃ text, chunk = text ++ [13] ∧ text.getLast? ≠ some 13) := by
  obtain ⟨text, c, rfl⟩ := exists_concat nonempty
  rw [List.dropLast_concat]
  have textBound : weight text ≤ text.length :=
    (weight_le text).trans (lineInput_length_le text)
  cases blank : isBlank (text ++ [c] ++ rest) with
  | true =>
    rw [isBlank_append, isBlank_append, Bool.and_eq_true, Bool.and_eq_true] at blank
    obtain ⟨⟨textBlank, -⟩, restBlank⟩ := blank
    simp [weight, textBlank, restBlank]
  | false =>
    have whole : weight (text ++ [c] ++ rest) = (lineInput (text ++ [c] ++ rest)).length := by
      simp only [weight, blank, Bool.false_eq_true, if_false]
    rw [whole]
    by_cases last : rest = []
    · subst last
      rw [List.append_nil, lineInput_concat, weight_nil, Nat.add_zero]
      by_cases carriage : c = 13
      · subst carriage
        rw [if_pos rfl]
        refine ⟨textBound, fun equal => .inr ⟨rfl, text, rfl, fun again => ?_⟩⟩
        -- a second carriage return at the end would be lost as well
        obtain ⟨shorter, rfl⟩ : ∃ shorter, text = shorter ++ [13] :=
          ⟨text.dropLast, (List.dropLast_append_getLast? 13 again).symm⟩
        have lost := weight_le (shorter ++ [13])
        rw [lineInput_concat, if_pos rfl] at lost
        simp only [List.length_append, List.length_singleton] at equal
        omega
      · rw [if_neg carriage, List.length_append, List.length_singleton]
        constructor
        · omega
        · intro equal
          omega
    · rw [lineInput_append _ last]
      have restBound := weight_le rest
      simp only [List.length_append, List.length_singleton]
      constructor
      · omega
      · intro equal
        omega

/-- The lines and chunks that are not blank, as they arrive. -/
def ArriveWhole (lines chunks : List Str) : Prop :=
  List.Forall₂ Arrives (lines.filter (! isBlank ·)) (chunks.filter (! isBlank ·))

/-- A chunk with its newline is blank exactly when its line is. -/
theorem isBlank_newline (line : Str) : isBlank (line ++ [10]) = isBlank line := by
  rw [isBlank_append]
  simp [isBlank, isspace]

/-- A chunk whose message is blank does not arrive as a line. -/
theorem Arrives.message {line chunk : Str} (arrives : Arrives line chunk)
    (filled : isBlank line = false) : isBlank chunk.dropLast = false := by
  rcases arrives with rfl | ⟨rfl, text, rfl, -⟩
  · rwa [List.dropLast_concat]
  · rw [List.dropLast_concat]
    rw [isBlank_append] at filled
    simpa [isBlank, isspace] using filled

theorem arriveWhole_blankLine {line : Str} {lines chunks : List Str}
    (blank : isBlank line = true) :
    ArriveWhole (line :: lines) chunks ↔ ArriveWhole lines chunks := by
  unfold ArriveWhole
  rw [List.filter_cons_of_neg (by simp [blank])]

theorem arriveWhole_blankChunk {chunk : Str} {lines chunks : List Str}
    (blank : isBlank chunk = true) :
    ArriveWhole lines (chunk :: chunks) ↔ ArriveWhole lines chunks := by
  unfold ArriveWhole
  rw [List.filter_cons_of_neg (by simp [blank])]

/-- A chunk that arrives as a line which is not blank is not blank itself. -/
theorem ArriveWhole.blank_of_message {lines chunks : List Str} {chunk : Str}
    (arrive : ArriveWhole lines (chunk :: chunks)) (blank : isBlank chunk.dropLast = true) :
    isBlank chunk = true := by
  by_contra filled
  rw [ArriveWhole] at arrive
  rw [List.filter_cons_of_pos (by simpa using filled)] at arrive
  generalize kept : lines.filter (! isBlank ·) = remaining at arrive
  cases arrive with
  | @cons line _ others _ arrives _ =>
    have member : line ∈ lines.filter (! isBlank ·) := kept ▸ List.mem_cons_self
    have lineFilled : isBlank line = false := by simpa using (List.mem_filter.mp member).2
    rw [arrives.message lineFilled] at blank
    cases blank

/-- One more line whose chunk is it, before lines that have arrived. -/
theorem ArriveWhole.line {line chunk : Str} {lines chunks : List Str}
    (arrive : ArriveWhole lines chunks) (filled : isBlank line = false)
    (filledToo : isBlank chunk = false) (arrives : Arrives line chunk) :
    ArriveWhole (line :: lines) (chunk :: chunks) := by
  rw [ArriveWhole]
  rw [List.filter_cons_of_pos (by simp [filled]), List.filter_cons_of_pos (by simp [filledToo])]
  exact .cons arrives arrive

theorem weights_cons (line : Str) (lines : List Str) :
    weights (line :: lines) = weight line + weights lines := rfl

/-- Where a chunk ends in the stream of a line and the rest: inside the line, with
its newline, or after that. -/
theorem chunk_ends {chunk tail line rest : Str} (whole : chunk ++ tail = line ++ [10] ++ rest) :
    (∃ left, line = chunk ++ left ∧ tail = left ++ [10] ++ rest) ∨
    (chunk = line ++ [10] ∧ tail = rest) ∨
    (∃ more, more ≠ [] ∧ chunk = line ++ [10] ++ more ∧ more ++ tail = rest) := by
  rcases List.append_eq_append_iff.mp whole with ⟨left, within, later⟩ | ⟨more, beyond, later⟩
  · by_cases done : left = []
    · subst done
      exact .inr (.inl ⟨by simpa using within.symm, by simpa using later⟩)
    · obtain ⟨inside, last, rfl⟩ := exists_concat done
      rw [← List.append_assoc] at within
      obtain ⟨same, isNewline⟩ := List.append_inj' within rfl
      rw [← List.singleton_inj.mp isNewline] at later
      exact .inl ⟨inside, same, later⟩
  · by_cases done : more = []
    · subst done
      exact .inr (.inl ⟨by simpa using beyond, by simpa using later.symm⟩)
    · exact .inr (.inr ⟨more, done, beyond, later.symm⟩)

/-- The messages of the chunks count no more than the lines, and as much only if
every line that is not blank arrives whole. -/
def Counted (lines chunks : List Str) : Prop :=
  weights (chunks.map List.dropLast) ≤ weights lines ∧
    (weights (chunks.map List.dropLast) = weights lines → ArriveWhole lines chunks)

section Counted

variable {lines chunks : List Str}

/-- The chunk ends inside the line: what is left of it is a line of its own. -/
theorem Counted.inside {chunk left : Str} (counted : Counted (left :: lines) chunks)
    (filled : chunk ≠ []) : Counted ((chunk ++ left) :: lines) (chunk :: chunks) := by
  obtain ⟨bound, equal⟩ := weight_cut left filled
  obtain ⟨laterBound, laterEqual⟩ := counted
  rw [weights_cons] at laterBound laterEqual
  rw [Counted]
  rw [List.map_cons, weights_cons, weights_cons]
  constructor
  · omega
  · intro same
    have arrive := laterEqual (by omega)
    rcases equal (by omega) with blank | ⟨rfl, text, rfl, other⟩
    · have parts := blank
      rw [isBlank_append, Bool.and_eq_true] at parts
      rw [arriveWhole_blankLine parts.2] at arrive
      rw [arriveWhole_blankLine blank, arriveWhole_blankChunk parts.1]
      exact arrive
    · rw [arriveWhole_blankLine rfl] at arrive
      rw [List.append_nil]
      cases blank : isBlank (text ++ [13]) with
      | true =>
        rw [arriveWhole_blankLine blank, arriveWhole_blankChunk blank]
        exact arrive
      | false => exact arrive.line blank blank (.inr ⟨rfl, text, rfl, other⟩)

/-- The chunk is the line with its newline. -/
theorem Counted.withNewline (counted : Counted lines chunks) (line : Str) :
    Counted (line :: lines) ((line ++ [10]) :: chunks) := by
  obtain ⟨laterBound, laterEqual⟩ := counted
  rw [Counted]
  rw [List.map_cons, weights_cons, weights_cons, List.dropLast_concat]
  constructor
  · omega
  · intro same
    have arrive := laterEqual (by omega)
    have alike := isBlank_newline line
    cases blank : isBlank line with
    | true =>
      rw [blank] at alike
      rw [arriveWhole_blankLine blank, arriveWhole_blankChunk alike]
      exact arrive
    | false =>
      rw [blank] at alike
      exact arrive.line blank alike (.inl rfl)

/-- The chunk goes on after the newline. Its message has the newline in it, so it
is blank, and so is the line. -/
theorem Counted.beyond {line more : Str} (counted : Counted lines (more :: chunks))
    (goesOn : more ≠ []) (blank : isBlank (line ++ [10] ++ more).dropLast = true) :
    Counted (line :: lines) ((line ++ [10] ++ more) :: chunks) := by
  have message : (line ++ [10] ++ more).dropLast = line ++ [10] ++ more.dropLast :=
    List.dropLast_append_of_ne_nil goesOn
  have parts : isBlank line = true ∧ isBlank more.dropLast = true := by
    rw [message, isBlank_append, isBlank_newline, Bool.and_eq_true] at blank
    exact blank
  have noWeight {text : Str} (empty : isBlank text = true) : weight text = 0 := by
    simp only [weight, empty, if_true]
  obtain ⟨laterBound, laterEqual⟩ := counted
  rw [List.map_cons, weights_cons, noWeight parts.2] at laterBound laterEqual
  rw [Counted]
  rw [List.map_cons, weights_cons, weights_cons, noWeight blank, noWeight parts.1]
  constructor
  · omega
  · intro same
    have arrive := laterEqual (by omega)
    have moreBlank := arrive.blank_of_message parts.2
    have chunkBlank : isBlank (line ++ [10] ++ more) = true := by
      rw [isBlank_append, isBlank_newline, parts.1, moreBlank]
      rfl
    rw [arriveWhole_blankChunk moreBlank] at arrive
    rw [arriveWhole_blankLine parts.1, arriveWhole_blankChunk chunkBlank]
    exact arrive

end Counted

/-- A cut counts no more than its lines, and as much only if every line that is
not blank arrives whole. A message with a newline in it counts nothing here. -/
theorem counted_cut {lines chunks : List Str} (nonempty : ∀ chunk ∈ chunks, chunk ≠ [])
    (whole : chunks.flatten = lines.flatMap (· ++ [10]))
    (newline : ∀ line ∈ lines, (10 : UInt8) ∉ line)
    (single : ∀ chunk ∈ chunks, isBlank chunk.dropLast = false → (10 : UInt8) ∉ chunk.dropLast) :
    Counted lines chunks := by
  -- every step goes past the end of a chunk or the end of a line
  induction size : chunks.length + lines.length using Nat.strongRecOn generalizing lines chunks with
  | ind size ih =>
  cases lines with
  | nil =>
    have none : chunks = [] := by
      rw [List.flatMap_nil, List.flatten_eq_nil_iff] at whole
      apply List.eq_nil_iff_forall_not_mem.mpr
      intro chunk member
      exact nonempty chunk member (whole chunk member)
    subst none
    exact ⟨Nat.le_refl _, fun _ => .nil⟩
  | cons line lines =>
  cases chunks with
  | nil => simp at whole
  | cons chunk chunks =>
  rw [List.flatten_cons, List.flatMap_cons] at whole
  have filled : chunk ≠ [] := nonempty chunk List.mem_cons_self
  have nonemptyLater := fun c (member : c ∈ chunks) => nonempty c (List.mem_cons_of_mem chunk member)
  have newlineLater := fun l (member : l ∈ lines) => newline l (List.mem_cons_of_mem line member)
  have singleLater := fun c (member : c ∈ chunks) => single c (List.mem_cons_of_mem chunk member)
  rcases chunk_ends whole with ⟨left, rfl, later⟩ | ⟨rfl, later⟩ | ⟨more, goesOn, rfl, later⟩
  · have newlineLeft : ∀ l ∈ left :: lines, (10 : UInt8) ∉ l := by
      refine List.forall_mem_cons.mpr ⟨?_, ?_⟩
      · intro inside
        exact newline _ List.mem_cons_self (List.mem_append_right chunk inside)
      · exact newlineLater
    have counted := ih _ (by simp at size ⊢; omega) nonemptyLater
      (by rw [later, List.flatMap_cons]) newlineLeft singleLater rfl
    exact counted.inside filled
  · have counted := ih _ (by simp at size ⊢; omega) nonemptyLater later newlineLater singleLater rfl
    exact counted.withNewline line
  · have message : (line ++ [10] ++ more).dropLast = line ++ [10] ++ more.dropLast :=
      List.dropLast_append_of_ne_nil goesOn
    have blank : isBlank (line ++ [10] ++ more).dropLast = true := by
      by_contra filledMessage
      apply single _ List.mem_cons_self (by simpa using filledMessage)
      rw [message]
      simp
    have moreBlank : isBlank more.dropLast = true := by
      rw [message, isBlank_append, Bool.and_eq_true] at blank
      exact blank.2
    have moreSingle : ∀ c ∈ more :: chunks,
        isBlank c.dropLast = false → (10 : UInt8) ∉ c.dropLast := by
      refine List.forall_mem_cons.mpr ⟨?_, ?_⟩
      · intro filledMessage
        rw [moreBlank] at filledMessage
        cases filledMessage
      · exact singleLater
    have moreNonempty : ∀ c ∈ more :: chunks, c ≠ [] :=
      List.forall_mem_cons.mpr ⟨goesOn, nonemptyLater⟩
    have counted := ih _ (by simp at size ⊢; omega) moreNonempty
      (by rw [List.flatten_cons, later]) newlineLater moreSingle rfl
    exact counted.beyond goesOn blank

/-- What is counted is the bytes of the command lines. -/
theorem weights_commandLines (lines : List Str) :
    weights lines = (commandLines lines).flatten.length := by
  induction lines with
  | nil => rfl
  | cons line rest ih =>
    rw [weights_cons, ih]
    cases blank : isBlank line with
    | true => simp [commandLines, weight, blank]
    | false => simp [commandLines, weight, blank]

/-- Without zeros a message is its chunk up to the last byte. -/
theorem Cut.messages {lines chunks : List Str} (cut : Cut lines chunks) :
    chunks.map cliMsg = chunks.map List.dropLast := by
  apply List.map_congr_left
  intro chunk member
  apply List.takeWhile_eq_self_iff.mpr
  intro c inside
  have inChunk : c ∈ chunk := (List.dropLast_sublist chunk).subset inside
  have inStream : c ∈ lines.flatMap (· ++ [10]) := cut.whole ▸ List.mem_flatten_of_mem member inChunk
  obtain ⟨line, isLine, inLine⟩ := List.mem_flatMap.mp inStream
  have notZero : c ≠ 0 := by
    rintro rfl
    rcases List.mem_append.mp inLine with early | last
    · exact cut.zero line isLine early
    · simp at last
  simpa using notZero

/-- A newline is not taken off with a carriage return. -/
theorem newline_mem_lineInput {line : Str} (member : (10 : UInt8) ∈ line) :
    (10 : UInt8) ∈ lineInput line := by
  obtain ⟨text, c, rfl⟩ := exists_concat (List.ne_nil_of_mem member)
  rw [lineInput_concat]
  split
  · rename_i carriage
    subst carriage
    simpa using member
  · exact member

theorem lineInput_subset (line : Str) : lineInput line ⊆ line := by
  rw [lineInput]
  split
  · exact (List.dropLast_sublist line).subset
  · exact List.Subset.refl _

/-- What arrives whole is handed over as the line. -/
theorem Arrives.lineInput_eq {line chunk : Str} (arrives : Arrives line chunk) :
    lineInput chunk.dropLast = lineInput line := by
  rcases arrives with rfl | ⟨rfl, text, rfl, other⟩
  · rw [List.dropLast_concat]
  · rw [List.dropLast_concat, lineInput_concat, if_pos rfl, lineInput, if_neg other]

/-- Lines that arrive whole are handed over as they are. -/
theorem commandLines_of_arrive {filled chunks : List Str}
    (all : ∀ line ∈ filled, isBlank line = false)
    (arrive : List.Forall₂ Arrives filled (chunks.filter (! isBlank ·))) :
    commandLines (chunks.map List.dropLast) = filled.map lineInput := by
  induction chunks generalizing filled with
  | nil =>
    rw [List.forall₂_nil_right_iff.mp arrive]
    rfl
  | cons chunk rest ih =>
    cases blank : isBlank chunk with
    | true =>
      rw [List.filter_cons_of_neg (by simp [blank])] at arrive
      have message := isBlank_dropLast blank
      simpa [commandLines, message] using ih all arrive
    | false =>
      rw [List.filter_cons_of_pos (by simp [blank])] at arrive
      obtain ⟨line, others, arrives, later, rfl⟩ := List.forall₂_cons_right_iff.mp arrive
      have message := arrives.message (all line List.mem_cons_self)
      have laterLines := ih (fun l member => all l (List.mem_cons_of_mem line member)) later
      simp only [commandLines, List.map_cons] at laterLines ⊢
      rw [List.filter_cons_of_pos (by simp [message]), List.map_cons, laterLines,
        arrives.lineInput_eq]

/-- For every stream and every cut of it: the lines of a stream are handed over as they are,
whatever is done to blank lines and to one carriage return, exactly when the chunks that are not
blank are the lines that are not blank, each with its newline, or up to the carriage return it
ends in.

The server takes what one `recv` returns for one line. That no other cut does is shown by counting
what is neither blank nor the end of a line: lines that come through have to have the same
weights. -/
theorem command_lines_come_through_iff {lines chunks : List Str} (cut : Cut lines chunks) :
    commandLines (chunks.map cliMsg) = commandLines lines ↔
      List.Forall₂ Arrives (lines.filter (! isBlank ·)) (chunks.filter (! isBlank ·)) := by
  rw [cut.messages]
  constructor
  · intro same
    have counted : weights (chunks.map List.dropLast) = weights lines := by
      rw [weights_commandLines, weights_commandLines, same]
    apply (counted_cut cut.nonempty cut.whole cut.newline ?_).2 counted
    intro chunk member filled inside
    have kept : lineInput chunk.dropLast ∈ commandLines (chunks.map List.dropLast) := by
      refine List.mem_map_of_mem (List.mem_filter.mpr ⟨List.mem_map_of_mem member, ?_⟩)
      simp [filled]
    rw [same] at kept
    obtain ⟨line, isLine, equal⟩ := List.mem_map.mp kept
    have newline := newline_mem_lineInput inside
    rw [← equal] at newline
    exact cut.newline line (List.mem_of_mem_filter isLine) (lineInput_subset line newline)
  · intro arrive
    apply commandLines_of_arrive
    · intro line member
      simpa using (List.mem_filter.mp member).2
    · exact arrive

/-- Two lines, the second with a carriage return that arrives before its newline,
and a blank line. -/
theorem command_lines_come_through_with_carriage_return :
    commandLines ([str "ls\n", str "who\r", str "\n", str "\n"].map cliMsg) =
      commandLines [str "ls", str "who\r", str ""] := by
  have cut : Cut [str "ls", str "who\r", str ""] [str "ls\n", str "who\r", str "\n", str "\n"] :=
    ⟨by decide, by decide, by decide, by decide⟩
  apply (command_lines_come_through_iff cut).mpr
  have first : Arrives (str "ls") (str "ls\n") := .inl (by decide)
  have second : Arrives (str "who\r") (str "who\r") := .inr ⟨rfl, str "who", by decide, by decide⟩
  exact .cons first (.cons second .nil)

/-- The line `ls` in two chunks: the last byte of each is lost. -/
theorem cut_line_loses_bytes : ∃ lines chunks, Cut lines chunks ∧
    commandLines (chunks.map cliMsg) ≠ commandLines lines := by
  refine ⟨[str "ls"], [str "l", str "s\n"], ⟨?_, ?_, ?_, ?_⟩, ?_⟩ <;> decide

end NetProg.SingleProc
