import Mathlib.Data.List.Forall2
import NetProg.Socks.Rules

/-!
# What the rule file grants

A rule file in good order has lines of a rule word, a mode and four parts, each
part a star or a number up to 255. Read from such a file, the loop decides on the
first line it comes to that covers the request: the mode is the request's, and
each part counts as zero or as the octet of the destination. The rule word plays
no role, and a literal zero is as good as a star.

So a grant is due to a `permit` line that matches exactly when every covering
line leaves it to such a line. Nothing can be said where a word overruns its array
before the decision: what the process does from there on is not defined.
-/

namespace NetProg.Socks

open Loops Outcomes

/-- A part of an address pattern. -/
inductive Part where
  | any
  | literal (digits : Str)
  deriving DecidableEq

namespace Part

/-- The text of a part. -/
def text : Part → Str
  | any => str "*"
  | literal digits => digits

/-- The number a part counts as in the comparisons. -/
def value : Part → Nat
  | any => 0
  | literal digits => digitsValue digits

/-- A literal is a decimal number up to 255. -/
def WellFormed : Part → Prop
  | any => True
  | literal digits => digits ≠ [] ∧ (∀ c ∈ digits, isdigit c = true) ∧ digitsValue digits ≤ 255

/-- A star matches every octet, a literal the octet of its value. -/
def Matches (part : Part) (octet : UInt8) : Prop := part = any ∨ part.value = octet.toNat

/-- What the comparisons let through. A star is stored as 0, and so is the literal 0. -/
def Admits (part : Part) (octet : UInt8) : Prop := part.value = 0 ∨ part.value = octet.toNat

theorem Matches.admits {part : Part} {octet : UInt8} (hit : part.Matches octet) :
    part.Admits octet := by
  rcases hit with rfl | same
  · exact .inl rfl
  · exact .inr same

end Part

/-- A line of the rule file. -/
structure Line where
  rule : Str
  mode : Str
  parts : List Part
  deriving DecidableEq

namespace Line

/-- The address as it is written. -/
def address (line : Line) : Str := [46].intercalate (line.parts.map Part.text)

/-- The three words. -/
def words (line : Line) : List Str := [line.rule, line.mode, line.address]

/-- Four parts, and a mode without a zero byte. -/
structure WellFormed (line : Line) : Prop where
  mode : 0 ∉ line.mode
  four : line.parts.length = 4
  parts : ∀ part ∈ line.parts, part.WellFormed

/-- The words fit into their arrays. -/
def fits (line : Line) : Bool :=
  line.rule.length < 10 && line.mode.length < 10 && line.address.length < 20

/-- The mode of the request, and parts that let its destination through: the line with which the
loop stops, whatever its first word is. -/
def Covers (line : Line) (message : Str) : Prop :=
  hasMode (message.getD 1 0) line.mode = true ∧
    List.Forall₂ Part.Admits line.parts ((message.drop 4).take 4)

/-- The mode of the request, and parts that match its destination. -/
def Matches (line : Line) (message : Str) : Prop :=
  hasMode (message.getD 1 0) line.mode = true ∧
    List.Forall₂ Part.Matches line.parts ((message.drop 4).take 4)

/-- The line as a text without its newline. -/
structure Written (text : Str) (line : Line) : Prop where
  words : NetProg.words text = line.words
  single : 10 ∉ text

end Line

/-- The file of newline-terminated lines. -/
def confText (texts : List Str) : Str := texts.flatMap (· ++ [10])

theorem words_confText {texts : List Str} {lines : List Line}
    (written : List.Forall₂ Line.Written texts lines) :
    words (confText texts) = lines.flatMap Line.words := by
  induction written with
  | nil => rfl
  | @cons text line texts lines isText _ ih =>
    have apart : confText (text :: texts) = text ++ 10 :: confText texts := by
      simp [confText]
    rw [apart, words_append_space (by decide), isText.words, ih, List.flatMap_cons]

theorem confText_last {texts : List Str} (nonempty : texts ≠ []) :
    (confText texts).getLast? = some 10 := by
  rcases List.eq_nil_or_concat texts with none | ⟨init, last, rfl⟩
  · exact absurd none nonempty
  · simp [confText]

/-- A rest of a text ends as the text does. -/
theorem getLast?_suffix {rest text : Str} (suffix : rest <:+ text) (nonempty : rest ≠ []) :
    rest.getLast? = text.getLast? := by
  obtain ⟨before, rfl⟩ := suffix
  exact (List.getLast?_append_of_ne_nil before nonempty).symm

section Scan

variable {file : File}

/-- A file with the words still to come, the last of them followed by a newline. -/
structure File.Holds (file : File) (left : List Str) : Prop where
  words : NetProg.words file.rest = left
  newline : left ≠ [] → file.rest.getLast? = some 10
  open_ : file.eof = false

/-- A word that is there is read, if it fits. -/
theorem scanWord_some {word : Str} {left : List Str} (holds : file.Holds (word :: left))
    (capacity : Nat) : ∃ after : File, after.Holds left ∧
      scanWord capacity file =
        if word.length < capacity then .ok (some word, after) else .error .overflow := by
  obtain ⟨c, more, text, isWord, isLeft, parts⟩ := words_cut holds.words
  have last : (c :: more).getLast? = some 10 := by
    rw [← holds.newline (by simp)]
    exact getLast?_suffix (text ▸ List.dropWhile_suffix _) (by simp)
  have remains : (c :: more).dropWhile (! isspace ·) ≠ [] := by
    intro none
    rw [none, List.append_nil] at parts
    rw [← parts] at last
    have member : (10 : UInt8) ∈ word := List.mem_of_getLast? last
    rw [← isWord] at member
    have isSolid := List.mem_takeWhile_imp member
    exact absurd isSolid (by decide)
  refine ⟨⟨(c :: more).dropWhile (! isspace ·), false⟩, ⟨isLeft, fun _ => ?_, rfl⟩, ?_⟩
  · rw [← last]
    exact getLast?_suffix (List.dropWhile_suffix _) remains
  · have stillOpen : ((c :: more).dropWhile (! isspace ·)).isEmpty = false := by
      simpa using remains
    simp only [scanWord, text, isWord, holds.open_, stillOpen, Bool.or_self, reduceCtorEq, if_false]

/-- Nothing but white space is the end of the file. -/
theorem scanWord_none (holds : file.Holds []) (capacity : Nat) :
    scanWord capacity file = .ok (none, ⟨[], true⟩) := by
  have none : file.rest.dropWhile isspace = [] := by
    have skipped := words_dropWhile file.rest
    rw [holds.words] at skipped
    cases text : file.rest.dropWhile isspace with
    | nil => rfl
    | cons c more =>
      rw [text, words_takeWhile (head_not_space text)] at skipped
      cases skipped
  simp [scanWord, none]

/-- The arrays of a line are filled, or one of its words does not fit. -/
theorem fscanf_line {line : Line} {left : List Str} (holds : file.Holds (line.words ++ left)) :
    ∃ after : File, after.Holds left ∧ fscanf ruleArrays file =
      if line.fits then .ok (line.words, after) else .error .overflow := by
  obtain ⟨one, holdsOne, scansRule⟩ := scanWord_some holds 10
  obtain ⟨two, holdsTwo, scansMode⟩ := scanWord_some holdsOne 10
  obtain ⟨three, holdsThree, scansAddress⟩ := scanWord_some holdsTwo 20
  refine ⟨three, holdsThree, ?_⟩
  by_cases rule : line.rule.length < 10
  · by_cases mode : line.mode.length < 10
    · by_cases address : line.address.length < 20
      · simp [ruleArrays, fscanf, scansRule, scansMode, scansAddress, Line.fits, Line.words, rule,
          mode, address, bind, Except.bind, pure, Except.pure]
      · simp [ruleArrays, fscanf, scansRule, scansMode, scansAddress, Line.fits, rule, mode, address,
          bind, Except.bind]
    · simp [ruleArrays, fscanf, scansRule, scansMode, Line.fits, rule, mode, bind, Except.bind]
  · simp [ruleArrays, fscanf, scansRule, Line.fits, rule, bind, Except.bind]

end Scan

section Address

variable {line : Line}

theorem Part.WellFormed.solid {part : Part} (wellFormed : part.WellFormed) :
    part.text ≠ [] ∧ (46 : UInt8) ∉ part.text ∧ (0 : UInt8) ∉ part.text := by
  cases part with
  | any => decide
  | literal digits =>
    obtain ⟨nonempty, all, -⟩ := wellFormed
    refine ⟨nonempty, ?_, ?_⟩
    · intro member
      have digit := all 46 member
      simp [isdigit] at digit
    · intro member
      have digit := all 0 member
      simp [isdigit] at digit

/-- A part becomes its value. -/
theorem Part.WellFormed.octet {part : Part} (wellFormed : part.WellFormed) :
    (Socks.octet part.text).toNat = part.value := by
  cases part with
  | any => decide
  | literal digits =>
    obtain ⟨nonempty, all, small⟩ := wellFormed
    have read : atoi digits = digitsValue digits := atoi_digits digits nonempty all
    have below : digitsValue digits % 256 = digitsValue digits := Nat.mod_eq_of_lt (by omega)
    simp only [Socks.octet, Part.text, Part.value, read]
    have cast : ((digitsValue digits : Int) % 256).toNat = digitsValue digits % 256 := by omega
    rw [cast, below, Nat.toUInt8, UInt8.toNat_ofNat', Nat.mod_eq_of_lt (by omega)]

theorem mem_intercalate {c separator : UInt8} {texts : List Str}
    (member : c ∈ [separator].intercalate texts) : c = separator ∨ ∃ text ∈ texts, c ∈ text := by
  induction texts with
  | nil => cases member
  | cons text rest ih =>
    cases rest with
    | nil => exact .inr ⟨text, List.mem_cons_self, by simpa using member⟩
    | cons next more =>
      rw [List.intercalate_cons_cons] at member
      rcases List.mem_append.mp member with here | later
      · rcases List.mem_append.mp here with inText | isSeparator
        · exact .inr ⟨text, List.mem_cons_self, inText⟩
        · exact .inl (List.mem_singleton.mp isSeparator)
      · rcases ih later with same | ⟨other, isOther, inOther⟩
        · exact .inl same
        · exact .inr ⟨other, List.mem_cons_of_mem text isOther, inOther⟩

/-- A well-formed address is cut into its parts. -/
theorem addrPass_address (wellFormed : line.WellFormed) :
    addrPass line.address = .ok (line.parts.map (fun part => octet part.text)) := by
  have texts : ∀ text ∈ line.parts.map Part.text,
      text ≠ [] ∧ (46 : UInt8) ∉ text ∧ (0 : UInt8) ∉ text := by
    intro text member
    obtain ⟨part, isPart, rfl⟩ := List.mem_map.mp member
    exact (wellFormed.parts part isPart).solid
  have some : line.parts.map Part.text ≠ [] := by
    intro none
    have four := wellFormed.four
    rw [List.map_eq_nil_iff.mp none] at four
    cases four
  have noZero : cstr line.address = line.address := by
    apply List.takeWhile_eq_self_iff.mpr
    intro c member
    rcases mem_intercalate member with rfl | ⟨text, isText, inText⟩
    · decide
    · have other : c ≠ 0 := by
        rintro rfl
        exact (texts text isText).2.2 inText
      simpa using other
  have cut : addressParts line.address = line.parts.map Part.text := by
    rw [addressParts, noZero, Line.address,
      List.splitOn_intercalate 46 (fun text member => (texts text member).2.1) some]
    apply List.filter_eq_self.mpr
    intro text member
    simpa using (texts text member).1
  have four : (line.parts.map Part.text).length = 4 := by simpa using wellFormed.four
  have whole : (line.parts.map Part.text).take 4 = line.parts.map Part.text := by
    rw [← four, List.take_length]
  simp only [addrPass, cut, whole, four, Nat.lt_irrefl, if_false, List.map_map]
  rfl

/-- The four comparisons are those of the parts. -/
theorem admits_parts {message : Str} (whole : 8 ≤ message.length) (wellFormed : line.WellFormed) :
    admits (line.parts.map (fun part => octet part.text)) message = true ↔
      List.Forall₂ Part.Admits line.parts ((message.drop 4).take 4) := by
  have lengths : line.parts.length = ((message.drop 4).take 4).length := by
    simp only [wellFormed.four, List.length_take, List.length_drop]
    omega
  simp only [admits, List.zip_map_left, List.all_map, List.all_eq_true]
  generalize (message.drop 4).take 4 = wanted at lengths ⊢
  have each : ∀ part ∈ line.parts, ∀ o : UInt8,
      (octet part.text = o ∨ octet part.text = 0) ↔ part.Admits o := by
    intro part member o
    have value := (wellFormed.parts part member).octet
    simp only [Part.Admits, ← UInt8.toNat_inj, value, UInt8.toNat_zero]
    exact Or.comm
  rw [List.forall₂_iff_zip]
  constructor
  · intro all
    refine ⟨lengths, fun {part o} member => ?_⟩
    exact (each part (List.of_mem_zip member).1 o).mp (by simpa using all (part, o) member)
  · rintro ⟨-, all⟩ ⟨part, o⟩ member
    simpa using (each part (List.of_mem_zip member).1 o).mpr (all member)

end Address

/-- What the loop comes to on the lines of a file. -/
def verdict (message : Str) : List Line → Except Fault Bool
  | [] => .ok false
  | line :: rest =>
    if line.fits then
      if hasMode (message.getD 1 0) line.mode &&
          admits (line.parts.map (fun part => octet part.text)) message then .ok true
      else verdict message rest
    else .error .overflow

/-- The loop reads the lines in order, up to one that decides. -/
theorem ruleLoop_run {message : Str} {lines : List Line}
    (wellFormed : ∀ line ∈ lines, line.WellFormed) {file : File}
    (holds : file.Holds (lines.flatMap Line.words)) :
    (ruleLoop message).run file = verdict message lines := by
  induction lines generalizing file with
  | nil =>
    apply (ruleLoop message).run_leave
    have scans := scanWord_none holds 10
    simp [ruleLoop, ruleRound, holds.open_, ruleArrays, fscanf, scans, bind, Except.bind, pure,
      Except.pure]
  | cons line rest ih =>
    rw [List.flatMap_cons] at holds
    obtain ⟨after, holdsAfter, scans⟩ := fscanf_line holds
    have good := wellFormed line List.mem_cons_self
    by_cases fits : line.fits = true
    · rw [if_pos fits] at scans
      have body : (ruleLoop message).body file =
          if hasMode (message.getD 1 0) line.mode &&
              admits (line.parts.map (fun part => octet part.text)) message
          then .ok (.leave true) else .ok (.again after) := by
        simp only [ruleLoop, ruleRound, holds.open_, scans, holdsAfter.open_, Line.words,
          addrPass_address good, bind, Except.bind, Bool.false_eq_true, if_false]
        rfl
      by_cases covers : (hasMode (message.getD 1 0) line.mode &&
          admits (line.parts.map (fun part => octet part.text)) message) = true
      · rw [if_pos covers] at body
        rw [(ruleLoop message).run_leave body, verdict, if_pos fits, if_pos covers]
      · rw [if_neg covers] at body
        rw [(ruleLoop message).run_again body, verdict, if_pos fits, if_neg covers]
        exact ih (fun other member => wellFormed other (List.mem_cons_of_mem line member)) holdsAfter
    · rw [if_neg fits] at scans
      rw [verdict, if_neg fits]
      apply (ruleLoop message).run_error
      simp [ruleLoop, ruleRound, holds.open_, scans, bind, Except.bind]

/-- The loop grants when a line that covers the request comes before every line
that does not fit. -/
theorem verdict_eq_true {message : Str} (whole : 8 ≤ message.length) {lines : List Line}
    (wellFormed : ∀ line ∈ lines, line.WellFormed) :
    verdict message lines = .ok true ↔
      ∃ line ∈ lines.takeWhile Line.fits, line.Covers message := by
  induction lines with
  | nil => simp [verdict]
  | cons line rest ih =>
    have further := ih (fun other member => wellFormed other (List.mem_cons_of_mem line member))
    have covers : (hasMode (message.getD 1 0) line.mode &&
        admits (line.parts.map (fun part => octet part.text)) message) = true ↔
        line.Covers message := by
      rw [Bool.and_eq_true, admits_parts whole (wellFormed line List.mem_cons_self)]
      rfl
    by_cases fits : line.fits = true
    · rw [List.takeWhile_cons_of_pos fits, verdict, if_pos fits]
      by_cases hit : line.Covers message
      · rw [if_pos (covers.mpr hit)]
        exact iff_of_true rfl ⟨line, List.mem_cons_self, hit⟩
      · rw [if_neg (fun found => hit (covers.mp found)), further]
        simp [hit]
    · rw [List.takeWhile_cons_of_neg fits, verdict, if_neg fits]
      simp

/-- No word overruns its array before the decision: all words fit, or a line that covers the
request comes before the first that has one that does not. -/
def Fitting (lines : List Line) (message : Str) : Prop :=
  (∀ line ∈ lines, line.fits = true) ∨ ∃ line ∈ lines.takeWhile Line.fits, line.Covers message

/-- The loop comes to a decision when nothing overruns before it, by induction on the lines: a
line that covers the request ends it, and any other one leaves the rest. -/
theorem verdict_returns {message : Str} (whole : 8 ≤ message.length) {lines : List Line}
    (wellFormed : ∀ line ∈ lines, line.WellFormed) :
    (∃ isGranted, verdict message lines = .ok isGranted) ↔ Fitting lines message := by
  induction lines with
  | nil => simp [verdict, Fitting]
  | cons line rest ih =>
    have further := ih (fun other member => wellFormed other (List.mem_cons_of_mem line member))
    have covers : (hasMode (message.getD 1 0) line.mode &&
        admits (line.parts.map (fun part => octet part.text)) message) = true ↔
        line.Covers message := by
      rw [Bool.and_eq_true, admits_parts whole (wellFormed line List.mem_cons_self)]
      rfl
    by_cases fits : line.fits = true
    · rw [Fitting, List.takeWhile_cons_of_pos fits, verdict, if_pos fits]
      by_cases hit : line.Covers message
      · rw [if_pos (covers.mpr hit)]
        exact iff_of_true ⟨true, rfl⟩ (.inr ⟨line, List.mem_cons_self, hit⟩)
      · rw [if_neg (fun found => hit (covers.mp found)), further]
        simp [Fitting, fits, hit]
    · rw [Fitting, List.takeWhile_cons_of_neg fits, verdict, if_neg fits]
      simp [fits]

/-- A request of version 4 that a `permit` line with its mode matches. -/
def PermittedBy (lines : List Line) (message : Str) : Prop :=
  message.getD 0 0 = 4 ∧ ∃ line ∈ lines, line.rule = str "permit" ∧ line.Matches message

/-- The request is decided, and granted only where a `permit` line with its mode matches. A loop
that leaves its arrays has decided nothing. -/
def FailsClosed (lines : List Line) (texts : List Str) (message : Str) : Prop :=
  ∃ isGranted, decision (some (confText texts)) message = .ok isGranted ∧
    (isGranted = true → PermittedBy lines message)

/-- For every rule file and request: the firewall is closed if and only if no word overruns its
array before the decision, and the request is of another version, or no line that is read
covers it, or a `permit` line that matches is there. The loop is computed line by line by
`verdict`, on which both halves of the condition are read off by induction. -/
theorem granted_only_by_permit_iff {lines : List Line} {texts : List Str}
    (wellFormed : ∀ line ∈ lines, line.WellFormed)
    (written : List.Forall₂ Line.Written texts lines) {message : Str} (whole : 8 ≤ message.length) :
    FailsClosed lines texts message ↔ Fitting lines message ∧
      (message.getD 0 0 ≠ 4 ∨ (∀ line ∈ lines.takeWhile Line.fits, ¬ line.Covers message) ∨
        PermittedBy lines message) := by
  have holds : (⟨confText texts, false⟩ : File).Holds (lines.flatMap Line.words) := by
    refine ⟨words_confText written, fun nonempty => confText_last ?_, rfl⟩
    rintro rfl
    cases written
    exact nonempty rfl
  have decides (isGranted : Bool) : decision (some (confText texts)) message = .ok isGranted ↔
      ∃ covered, verdict message lines = .ok covered ∧
        (covered && decide (message.getD 0 0 = 4)) = isGranted := by
    simp only [decision, ruleLoop_run wellFormed holds]
    cases verdict message lines with
    | error fault => simp [bind, Except.bind]
    | ok covered => simp [bind, Except.bind, pure, Except.pure]
  have granted := verdict_eq_true whole wellFormed
  have returns := verdict_returns whole wellFormed
  constructor
  · rintro ⟨isGranted, decided, due⟩
    obtain ⟨covered, isVerdict, same⟩ := (decides isGranted).mp decided
    refine ⟨returns.mp ⟨covered, isVerdict⟩, ?_⟩
    by_cases version : message.getD 0 0 = 4
    · by_cases isCovered : ∃ line ∈ lines.takeWhile Line.fits, line.Covers message
      · rw [granted.mpr isCovered] at isVerdict
        obtain rfl := Except.ok.inj isVerdict
        refine .inr (.inr (due ?_))
        rw [← same, decide_eq_true version]
        rfl
      · exact .inr (.inl (by simpa using isCovered))
    · exact .inl version
  · rintro ⟨fitting, excused⟩
    obtain ⟨covered, isVerdict⟩ := returns.mpr fitting
    refine ⟨_, (decides _).mpr ⟨covered, isVerdict, rfl⟩, fun isGranted => ?_⟩
    obtain ⟨isCovered, isVersion⟩ := Bool.and_eq_true_iff.mp isGranted
    rw [isCovered] at isVerdict
    obtain ⟨line, member, covers⟩ := granted.mp isVerdict
    rcases excused with version | uncovered | permitted
    · exact absurd (of_decide_eq_true isVersion) version
    · exact absurd covers (uncovered line member)
    · exact permitted

/-- The rule file of the repository, and a CONNECT request to 10.0.0.1, port 80. -/
def shippedTexts : List Str := [str "permit c *.*.*.*", str "permit b *.*.*.*"]

/-- The lines of the rule file that comes with the server. -/
def shippedLines : List Line :=
  [⟨str "permit", str "c", [.any, .any, .any, .any]⟩,
    ⟨str "permit", str "b", [.any, .any, .any, .any]⟩]

/-- A CONNECT request for port 80 of 10.0.0.1. -/
def connectRequest : Str := [4, 1, 0, 80, 10, 0, 0, 1]

/-- The shipped rule file grants this request, with a `permit` line that covers it. -/
theorem granted_only_by_permit_shipped :
    decision (some (confText shippedTexts)) connectRequest = .ok true ∧
    (FailsClosed shippedLines shippedTexts connectRequest ↔ Fitting shippedLines connectRequest ∧
      (connectRequest.getD 0 0 ≠ 4 ∨
        (∀ line ∈ shippedLines.takeWhile Line.fits, ¬ line.Covers connectRequest) ∨
        PermittedBy shippedLines connectRequest)) := by
  have wellFormed : ∀ line ∈ shippedLines, line.WellFormed := by
    intro line member
    have either : line = ⟨str "permit", str "c", [.any, .any, .any, .any]⟩ ∨
        line = ⟨str "permit", str "b", [.any, .any, .any, .any]⟩ := by
      simpa [shippedLines] using member
    rcases either with rfl | rfl <;>
      exact ⟨by decide, rfl, fun part isPart => by simp_all [Part.WellFormed]⟩
  have written : List.Forall₂ Line.Written shippedTexts shippedLines :=
    .cons ⟨by decide +kernel, by decide⟩ (.cons ⟨by decide +kernel, by decide⟩ .nil)
  have granted : decision (some (confText shippedTexts)) connectRequest = .ok true := by
    decide +kernel
  exact ⟨granted, granted_only_by_permit_iff wellFormed written (by decide)⟩

/-- A `deny` line with the request's mode grants the request. -/
theorem deny_line_grants : ∃ lines texts, (∀ line ∈ lines, line.WellFormed) ∧
    List.Forall₂ Line.Written texts lines ∧
    decision (some (confText texts)) connectRequest = .ok true ∧
    ¬ FailsClosed lines texts connectRequest := by
  have granted : decision (some (confText [str "deny c *.*.*.*"])) connectRequest = .ok true := by
    decide +kernel
  refine ⟨[⟨str "deny", str "c", [.any, .any, .any, .any]⟩], [str "deny c *.*.*.*"], ?_,
    .cons ⟨by decide +kernel, by decide⟩ .nil, granted, ?_⟩
  · intro line member
    rw [List.mem_singleton.mp member]
    exact ⟨by decide, rfl, fun part isPart => by simp_all [Part.WellFormed]⟩
  · rintro ⟨isGranted, decided, due⟩
    obtain rfl : true = isGranted := Except.ok.inj (granted.symm.trans decided)
    obtain ⟨-, line, member, permit, -⟩ := due rfl
    rw [List.mem_singleton.mp member] at permit
    exact absurd permit (by decide)

end NetProg.Socks
