import NetProg.Socks.Firewall

/-!
# Which rules of the file are examined

The loop over the rules looks at the end-of-file flag twice, before a triple is read and
right behind it. A word that ends where the file ends raises the flag when it is read.
So the last rule of a file is examined if some white space follows it, a newline for
instance, and is dropped otherwise.
-/

namespace NetProg.Socks

open Loops Outcomes

/-- A rule: three words that fit into their arrays, the last of them with four parts. -/
structure Rule where
  rule : Str
  mode : Str
  addr : Str
  solid : ∀ word ∈ [rule, mode, addr], word ≠ [] ∧ ∀ c ∈ word, isspace c = false
  fits : rule.length < 10 ∧ mode.length < 10 ∧ addr.length < 20
  four : (addressParts addr).length = 4

namespace Rule

/-- The words in the order in which they are read. -/
def words (rule : Rule) : List Str := [rule.rule, rule.mode, rule.addr]

/-- What `read_info` finds of a rule and a message. -/
def matchesMessage (message : Str) (rule : Rule) : Bool :=
  hasMode (message.getD 1 0) rule.mode && admits ((addressParts rule.addr).map octet) message

end Rule

/-- A file of rules: its words are those of the rules, with any white space around and
between them. -/
structure RuleFile where
  text : Str
  rules : List Rule
  written : NetProg.words text = rules.flatMap Rule.words

/-- White space follows the last word. -/
def endsSpaced (text : Str) : Bool := text.getLast?.any isspace

/-- The words of the triple that a pass of the loop examines, if it examines one. -/
def examined (file : File) : List (List Str) :=
  if file.eof then []
  else
    match fscanf ruleArrays file with
    | .ok (words, after) => if after.eof then [] else [words]
    | .error _ => []

/-- The triples examined while a file is read, in order. -/
def examinedRules (message text : Str) : List (List Str) :=
  ((ruleLoop message).rounds ⟨text, false⟩).flatMap examined

/-- The rules up to the first that matches, this one included. -/
def untilMatch (message : Str) : List Rule → List Rule
  | [] => []
  | rule :: rest => if rule.matchesMessage message then [rule] else rule :: untilMatch message rest

/-- The rules that are not dropped. -/
def kept (spaced : Bool) (rules : List Rule) : List Rule := if spaced then rules else rules.dropLast

theorem endsSpaced_suffix {rest text : Str} (suffix : rest <:+ text) (nonempty : rest ≠ []) :
    endsSpaced rest = endsSpaced text := by
  rw [endsSpaced, endsSpaced, getLast?_suffix suffix nonempty]

/-- A text without words that is not empty ends with white space. -/
theorem endsSpaced_of_no_words {text : Str} (none : words text = []) (nonempty : text ≠ []) :
    endsSpaced text = true := by
  obtain ⟨init, last, split⟩ := (List.eq_nil_or_concat text).resolve_left nonempty
  rw [List.concat_eq_append] at split
  subst split
  by_cases space : isspace last = true
  · simp [endsSpaced, space]
  · exfalso
    have dropped := words_dropWhile (init ++ [last])
    cases left : (init ++ [last]).dropWhile isspace with
    | nil =>
      have all := List.dropWhile_eq_nil_iff.mp left last (by simp)
      exact space all
    | cons c more =>
      rw [left, none, words_takeWhile (head_not_space left)] at dropped
      cases dropped

/-- A word that is there and fits is read. The flag is raised when nothing is left of the
file, which is when the word is the last one and no white space follows it. -/
theorem scanWord_word (file : File) {word : Str} {left : List Str}
    (holds : words file.rest = word :: left) (stillOpen : file.eof = false) {capacity : Nat}
    (fits : word.length < capacity) :
    ∃ rest : Str, scanWord capacity file = .ok (some word, ⟨rest, rest.isEmpty⟩) ∧
      words rest = left ∧ rest <:+ file.rest ∧
      (rest = [] ↔ left = [] ∧ endsSpaced file.rest = false) := by
  obtain ⟨c, more, text, isWord, isLeft, parts⟩ := words_cut holds
  have inFile : (c :: more) <:+ file.rest := text ▸ List.dropWhile_suffix _
  have sameEnd : endsSpaced (c :: more) = endsSpaced file.rest :=
    endsSpaced_suffix inFile (List.cons_ne_nil c more)
  refine ⟨(c :: more).dropWhile (! isspace ·), ?_, isLeft,
    (List.dropWhile_suffix _).trans inFile, ?_⟩
  · simp only [scanWord, text, isWord, fits, stillOpen, Bool.false_or, reduceCtorEq, if_false,
      if_true]
  · constructor
    · intro none
      rw [none] at isLeft
      rw [none, List.append_nil] at parts
      constructor
      · exact isLeft.symm
      · -- the file ends with the last character of the word
        rw [← sameEnd, ← parts, ← isWord]
        rw [endsSpaced]
        cases isLast : ((c :: more).takeWhile (! isspace ·)).getLast? with
        | none => rfl
        | some last => simpa using List.mem_takeWhile_imp (List.mem_of_getLast? isLast)
    · rintro ⟨noWord, unspaced⟩
      apply Classical.byContradiction
      intro remains
      have spaced := endsSpaced_of_no_words (isLeft.trans noWord) remains
      rw [endsSpaced_suffix (List.dropWhile_suffix _) remains, sameEnd, unspaced] at spaced
      cases spaced

/-- The three words of a rule are read. -/
theorem fscanf_rule {file : File} {rule : Rule} {left : List Str}
    (holds : words file.rest = rule.words ++ left) (stillOpen : file.eof = false) :
    ∃ rest : Str, fscanf ruleArrays file = .ok (rule.words, ⟨rest, rest.isEmpty⟩) ∧
      words rest = left ∧ rest <:+ file.rest ∧
      (rest = [] ↔ left = [] ∧ endsSpaced file.rest = false) := by
  obtain ⟨first, scansRule, holdsFirst, suffixFirst, endsFirst⟩ :=
    scanWord_word file holds stillOpen rule.fits.1
  have openFirst : first.isEmpty = false := by
    apply List.isEmpty_eq_false_iff.mpr
    intro none
    exact absurd (endsFirst.mp none).1 (List.cons_ne_nil _ _)
  obtain ⟨second, scansMode, holdsSecond, suffixSecond, endsSecond⟩ :=
    scanWord_word ⟨first, first.isEmpty⟩ holdsFirst openFirst rule.fits.2.1
  have openSecond : second.isEmpty = false := by
    apply List.isEmpty_eq_false_iff.mpr
    intro none
    exact absurd (endsSecond.mp none).1 (List.cons_ne_nil _ _)
  obtain ⟨third, scansAddress, holdsThird, suffixThird, endsThird⟩ :=
    scanWord_word ⟨second, second.isEmpty⟩ holdsSecond openSecond rule.fits.2.2
  have suffix : second <:+ file.rest := suffixSecond.trans suffixFirst
  have sameEnd : endsSpaced second = endsSpaced file.rest :=
    endsSpaced_suffix suffix (List.isEmpty_eq_false_iff.mp openSecond)
  refine ⟨third, ?_, holdsThird, suffixThird.trans suffix, ?_⟩
  · simp [ruleArrays, fscanf, scansRule, scansMode, scansAddress, Rule.words, bind, Except.bind,
      pure, Except.pure]
  · rw [endsThird, sameEnd]
    exact Iff.rfl

theorem addrPass_rule (rule : Rule) :
    addrPass rule.addr = .ok ((addressParts rule.addr).map octet) := by
  have whole : (addressParts rule.addr).take 4 = addressParts rule.addr := by
    rw [← rule.four, List.take_length]
  simp only [addrPass, whole, rule.four, Nat.lt_irrefl, if_false]

/-- The pass that reads the last rule of a file and raises the flag with it drops it. -/
theorem ruleRound_dropped (message : Str) {rest : Str} {file : File} {rule : Rule}
    (stillOpen : file.eof = false)
    (scans : fscanf ruleArrays file = .ok (rule.words, ⟨rest, true⟩)) :
    ruleRound message file = .ok (.leave false) ∧ examined file = [] := by
  constructor
  · simp [ruleRound, stillOpen, scans, bind, Except.bind, pure, Except.pure]
  · simp [examined, stillOpen, scans]

/-- A pass that reads a rule without raising the flag examines it. -/
theorem ruleRound_examined (message : Str) {rest : Str} {file : File} {rule : Rule}
    (stillOpen : file.eof = false)
    (scans : fscanf ruleArrays file = .ok (rule.words, ⟨rest, false⟩)) :
    ruleRound message file = .ok (if rule.matchesMessage message then .leave true
        else .again ⟨rest, false⟩) ∧
      examined file = [rule.words] := by
  constructor
  · have decides : (hasMode (message.getD 1 0) rule.mode &&
        admits ((addressParts rule.addr).map octet) message) = rule.matchesMessage message := rfl
    simp only [ruleRound, stillOpen, scans, Rule.words, addrPass_rule, bind, Except.bind,
      Bool.false_eq_true, if_false, decides]
    cases rule.matchesMessage message <;> rfl
  · simp [examined, stillOpen, scans]

/-- The passes over a file of rules: the rules that are kept are examined in order, up to the
first that matches, and decide. The induction is on the rules; the last one is apart, since it is
kept only if white space follows it. -/
theorem ruleLoop_examines {message : Str} {rules : List Rule} {file : File}
    (holds : words file.rest = rules.flatMap Rule.words) (stillOpen : file.eof = false) :
    ((ruleLoop message).rounds file).flatMap examined =
        (untilMatch message (kept (endsSpaced file.rest) rules)).map Rule.words ∧
      (ruleLoop message).run file =
        .ok ((kept (endsSpaced file.rest) rules).any (Rule.matchesMessage message)) := by
  induction rules generalizing file with
  | nil =>
    have nothing : file.Holds [] := ⟨holds, fun some => absurd rfl some, stillOpen⟩
    have scans : fscanf ruleArrays file = .ok ([], ⟨[], true⟩) := by
      simp [ruleArrays, fscanf, scanWord_none nothing, bind, Except.bind, pure, Except.pure]
    have leaves : (ruleLoop message).body file = .ok (.leave false) := by
      simp [ruleLoop, ruleRound, stillOpen, scans, bind, Except.bind, pure, Except.pure]
    have none : kept (endsSpaced file.rest) [] = [] := by
      cases endsSpaced file.rest <;> rfl
    rw [none, (ruleLoop message).run_leave leaves]
    simp [Loop.rounds, Loop.heads, leaves, examined, stillOpen, scans, untilMatch]
  | cons rule rules ih =>
    rw [List.flatMap_cons] at holds
    obtain ⟨rest, scans, holdsRest, suffix, ends⟩ := fscanf_rule holds stillOpen
    by_cases last : rest = []
    · -- nothing is left of the file, so this was its last rule
      subst last
      obtain ⟨noWords, unspaced⟩ := ends.mp rfl
      have single : rules = [] := by
        cases rules with
        | nil => rfl
        | cons next rules => cases noWords
      obtain ⟨leaves, unexamined⟩ := ruleRound_dropped message stillOpen scans
      have body : (ruleLoop message).body file = .ok (.leave false) := leaves
      rw [unspaced, single, (ruleLoop message).run_leave body]
      simp [Loop.rounds, Loop.heads, body, unexamined, kept, untilMatch]
    · have left : rest.isEmpty = false := List.isEmpty_eq_false_iff.mpr last
      rw [left] at scans
      obtain ⟨decides, isExamined⟩ := ruleRound_examined message stillOpen scans
      have sameEnd : endsSpaced rest = endsSpaced file.rest := endsSpaced_suffix suffix last
      have goesOn : kept (endsSpaced file.rest) (rule :: rules) =
          rule :: kept (endsSpaced file.rest) rules := by
        cases spaced : endsSpaced file.rest with
        | true => rfl
        | false =>
          cases rules with
          | nil => exact absurd (ends.mpr ⟨rfl, spaced⟩) last
          | cons next rules => rfl
      rw [goesOn, untilMatch, List.any_cons]
      cases hit : rule.matchesMessage message with
      | true =>
        rw [hit] at decides
        have body : (ruleLoop message).body file = .ok (.leave true) := decides
        rw [(ruleLoop message).run_leave body]
        simp [Loop.rounds, Loop.heads, body, isExamined]
      | false =>
        rw [hit] at decides
        have body : (ruleLoop message).body file = .ok (.again ⟨rest, false⟩) := decides
        obtain ⟨later, result⟩ := @ih ⟨rest, false⟩ holdsRest rfl
        rw [sameEnd] at later result
        rw [(ruleLoop message).rounds_again body, (ruleLoop message).run_again body, result,
          List.flatMap_cons, later, isExamined]
        exact ⟨rfl, rfl⟩

/-- The loop examines the rules that are kept, up to the first that matches, and grants exactly if
there is one. -/
theorem RuleFile.examines (file : RuleFile) (message : Str) :
    examinedRules message file.text =
        (untilMatch message (kept (endsSpaced file.text) file.rules)).map Rule.words ∧
      (ruleLoop message).run ⟨file.text, false⟩ =
        .ok ((kept (endsSpaced file.text) file.rules).any (Rule.matchesMessage message)) :=
  @ruleLoop_examines message file.rules ⟨file.text, false⟩ file.written rfl

/-- The same rules with one newline more at the end. -/
def RuleFile.withNewline (file : RuleFile) : RuleFile where
  text := file.text ++ [10]
  rules := file.rules
  written := by
    rw [words_append_space (by decide), file.written]
    exact List.append_nil _

/-- With a newline at the end all rules decide. -/
theorem RuleFile.run_withNewline (file : RuleFile) (message : Str) :
    (ruleLoop message).run ⟨file.text ++ [10], false⟩ =
      .ok (file.rules.any (Rule.matchesMessage message)) := by
  have spaced : endsSpaced (file.text ++ [10]) = true := by
    simp [endsSpaced]
    decide
  have run := (file.withNewline.examines message).2
  rw [show file.withNewline.text = file.text ++ [10] from rfl, spaced] at run
  exact run

section Dropped

variable {message : Str} {rules : List Rule}

theorem untilMatch_length (message : Str) (rules : List Rule) :
    (untilMatch message rules).length ≤ rules.length := by
  induction rules with
  | nil => exact Nat.le_refl 0
  | cons rule rules ih =>
    rw [untilMatch]
    split
    · exact Nat.succ_le_succ (Nat.zero_le _)
    · exact Nat.succ_le_succ ih

/-- Behind a rule that matches nothing is looked at. -/
theorem untilMatch_append (more : List Rule)
    (decided : ∃ rule ∈ rules, rule.matchesMessage message = true) :
    untilMatch message (rules ++ more) = untilMatch message rules := by
  induction rules with
  | nil => simp at decided
  | cons rule rules ih =>
    rw [List.cons_append, untilMatch, untilMatch]
    by_cases hit : rule.matchesMessage message = true
    · rw [if_pos hit, if_pos hit]
    · rw [if_neg hit, if_neg hit, ih]
      obtain ⟨other, member, found⟩ := decided
      rcases List.mem_cons.mp member with rfl | later
      · exact absurd found hit
      · exact ⟨other, later, found⟩

/-- Rules that do not match are all looked at, and so is the next one. -/
theorem untilMatch_undecided (last : Rule)
    (undecided : ¬ ∃ rule ∈ rules, rule.matchesMessage message = true) :
    untilMatch message (rules ++ [last]) = rules ++ [last] := by
  induction rules with
  | nil =>
    rw [List.nil_append, untilMatch]
    split <;> rfl
  | cons rule rules ih =>
    have miss : ¬ rule.matchesMessage message = true :=
      fun hit => undecided ⟨rule, List.mem_cons_self, hit⟩
    rw [List.cons_append, untilMatch, if_neg miss, ih]
    rintro ⟨other, later, found⟩
    exact undecided ⟨other, List.mem_cons_of_mem rule later, found⟩

/-- The rules that are kept are looked at like all of them when an earlier rule than the
dropped one decides, and only then. -/
theorem untilMatch_kept_iff (spaced : Bool) :
    (untilMatch message (kept spaced rules)).map Rule.words =
        (untilMatch message rules).map Rule.words ↔
      spaced = true ∨ rules = [] ∨ ∃ rule ∈ rules.dropLast, rule.matchesMessage message = true := by
  cases spaced with
  | true => simp [kept]
  | false =>
    rw [kept, if_neg Bool.false_ne_true]
    rcases List.eq_nil_or_concat rules with rfl | ⟨init, last, rfl⟩
    · simp
    · rw [List.concat_eq_append, List.dropLast_concat]
      by_cases decided : ∃ rule ∈ init, rule.matchesMessage message = true
      · rw [untilMatch_append [last] decided]
        simp [decided]
      · rw [untilMatch_undecided last decided]
        constructor
        · intro same
          have lengths := congrArg List.length same
          have few := untilMatch_length message init
          simp only [List.length_map, List.length_append, List.length_singleton] at lengths
          omega
        · simp [decided]

/-- They decide like all of them also when the dropped one does not match. -/
theorem any_kept_iff (spaced : Bool) :
    (kept spaced rules).any (Rule.matchesMessage message) =
        rules.any (Rule.matchesMessage message) ↔
      spaced = true ∨ (∃ rule ∈ rules.dropLast, rule.matchesMessage message = true) ∨
        ∀ rule ∈ rules.getLast?, rule.matchesMessage message = false := by
  cases spaced with
  | true => simp [kept]
  | false =>
    rw [kept, if_neg Bool.false_ne_true]
    rcases List.eq_nil_or_concat rules with rfl | ⟨init, last, rfl⟩
    · simp
    · rw [List.concat_eq_append, List.dropLast_concat, List.any_append, ← List.any_eq_true]
      cases init.any (Rule.matchesMessage message) <;> simp

end Dropped

/-- The decision is the one with a newline at the end, which all rules make, exactly when no rule
is dropped that is the first to match. -/
theorem same_decision_iff (message : Str) (file : RuleFile) :
    (ruleLoop message).run ⟨file.text, false⟩ = (ruleLoop message).run ⟨file.text ++ [10], false⟩ ↔
      endsSpaced file.text = true ∨
        (∃ rule ∈ file.rules.dropLast, rule.matchesMessage message = true) ∨
        ∀ rule ∈ file.rules.getLast?, rule.matchesMessage message = false := by
  rw [(file.examines message).2, file.run_withNewline, Except.ok.injEq, any_kept_iff]

/-- Every rule up to the first that matches is examined once and in order, and a newline at the
end of the file makes no difference to the decision. This is what reading a file of lines is for.
-/
structure ReadThrough (message : Str) (file : RuleFile) : Prop where
  examined : examinedRules message file.text = (untilMatch message file.rules).map Rule.words
  decision : (ruleLoop message).run ⟨file.text, false⟩ =
    (ruleLoop message).run ⟨file.text ++ [10], false⟩

/-- A rule file is read through if and only if white space follows its last word, or it has no
rules, or a rule before the last one matches.

The loop asks for the end of the file before it uses the words it has read, and a last word at the
very end sets the end. So it is the last rule alone that can be lost, and it matters only where
the loop comes to it. -/
theorem rule_file_read_through_iff (message : Str) (file : RuleFile) :
    ReadThrough message file ↔
      endsSpaced file.text = true ∨ file.rules = [] ∨
        ∃ rule ∈ file.rules.dropLast, rule.matchesMessage message = true := by
  have looked := @untilMatch_kept_iff message file.rules (endsSpaced file.text)
  rw [← (file.examines message).1] at looked
  constructor
  · intro through
    exact looked.mp through.examined
  · intro complete
    constructor
    · exact looked.mpr complete
    · apply (same_decision_iff message file).mpr
      rcases complete with spaced | none | decided
      · exact Or.inl spaced
      · right
        right
        simp [none]
      · exact Or.inr (Or.inl decided)

/-- A file of one rule without a newline at its end. -/
def unterminated : RuleFile where
  text := str "permit c *.*.*.*"
  rules := [{
    rule := str "permit"
    mode := str "c"
    addr := str "*.*.*.*"
    solid := by decide +kernel
    fits := by decide
    four := by decide +kernel }]
  written := by decide +kernel

/-- Its rule is not examined and the request is not granted; with the newline it is. -/
theorem unterminated_rule_dropped :
    examinedRules connectRequest unterminated.text = [] ∧
      (ruleLoop connectRequest).run ⟨unterminated.text, false⟩ = .ok false ∧
      (ruleLoop connectRequest).run ⟨unterminated.text ++ [10], false⟩ = .ok true ∧
      ¬ ReadThrough connectRequest unterminated := by
  have unexamined : examinedRules connectRequest unterminated.text = [] := by decide +kernel
  have refused : (ruleLoop connectRequest).run ⟨unterminated.text, false⟩ = .ok false := by
    decide +kernel
  have granted : (ruleLoop connectRequest).run ⟨unterminated.text ++ [10], false⟩ = .ok true := by
    decide +kernel
  refine ⟨unexamined, refused, granted, ?_⟩
  intro through
  have same := through.decision
  rw [refused, granted] at same
  cases same

end NetProg.Socks
