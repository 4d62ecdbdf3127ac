import NetProg.CText
import NetProg.Library.ScriptLiterals

/-!
# What the consoles write into the page

Everything a shell answers, and every command sent to it, is written into the page
as a script that appends a string literal to the text of the shell. One pass over
the bytes replaces the characters that mean something in HTML, and the line ends.

The literal is read back here by a reader of script literals. It is the encoded
text exactly when there is no backslash in it: a backslash is not encoded, and the
script takes it for the start of an escape.
-/

namespace NetProg.Console

open ScriptLiterals

/-- One character in the loop of `encode`. -/
def encodeChar (c : UInt8) : Str :=
  match c with
  | 38 => str "&amp;"
  | 34 => str "&quot;"
  | 39 => str "&apos;"
  | 60 => str "&lt;"
  | 62 => str "&gt;"
  | 10 => str "&NewLine;"
  | 13 => []
  | _ => [c]

/-- `encode`. -/
def encode (data : Str) : Str := data.flatMap encodeChar

/-- The script up to the opening quote of its literal. -/
def scriptHead (index : Nat) : Str :=
  str "<script>document.getElementById('s" ++ decimal index ++ str "')" ++ str ".innerHTML += '"

/-- The text `output_shell` writes to the page. -/
def outputShell (index : Nat) (s : Str) : Str := scriptHead index ++ encode s ++ str "';</script>"

/-- The text `output_command` writes to the page. -/
def outputCommand (index : Nat) (s : Str) : Str :=
  scriptHead index ++ (str "<b>" ++ encode s ++ str "</b>") ++ str "';</script>"

/-- What a written script appends: the value of the literal behind its head, if the
literal is complete and the fixed end of the script follows it. -/
def appended (index : Nat) (script : Str) : Option Str :=
  if (scriptHead index).isPrefixOf script then
    match literal (script.drop (scriptHead index).length) with
    | some (value, rest) => if rest = str ";</script>" then some value else none
    | none => none
  else none

/-- What both functions append for a text is its encoding, between the fixed tags of a command,
and there is no character of a tag in the encoding: so the text is shown and nothing else happens.
-/
structure InjectionFree (index : Nat) (s : Str) : Prop where
  shell : appended index (outputShell index s) = some (encode s)
  command : appended index (outputCommand index s) = some (str "<b>" ++ encode s ++ str "</b>")
  noTag : 60 ∉ encode s ∧ 62 ∉ encode s

/-- A character that is not encoded means nothing in HTML or in a literal, or is a
backslash. -/
theorem mem_encodeChar {c d : UInt8} (member : d ∈ encodeChar c) :
    (d ≠ 39 ∧ d ≠ 10 ∧ d ≠ 13) ∧ (d ≠ 60 ∧ d ≠ 62) ∧ (d = 92 ↔ c = 92) := by
  rw [encodeChar.eq_def] at member
  split at member
  case h_8 =>
    simp_all
  all_goals revert d; decide +kernel

theorem mem_encode {d : UInt8} {s : Str} (member : d ∈ encode s) :
    (d ≠ 39 ∧ d ≠ 10 ∧ d ≠ 13) ∧ (d ≠ 60 ∧ d ≠ 62) ∧ (d = 92 → 92 ∈ s) := by
  obtain ⟨c, inText, encoded⟩ := List.mem_flatMap.mp member
  obtain ⟨plain, noTag, same⟩ := mem_encodeChar encoded
  refine ⟨plain, noTag, fun isBackslash => ?_⟩
  rw [← same.mp isBackslash]
  exact inText

/-- A backslash goes through the encoding. -/
theorem backslash_mem_encode {s : Str} (member : 92 ∈ s) : 92 ∈ encode s :=
  List.mem_flatMap.mpr ⟨92, member, by decide⟩

/-- A script with a body between its quotes appends that body if and only if the
literal reads as it. -/
theorem appended_eq_iff (index : Nat) (body : Str) :
    appended index (scriptHead index ++ body ++ str "';</script>") = some body ↔
      literal (body ++ 39 :: str ";</script>") = some (body, str ";</script>") := by
  have tail : str "';</script>" = 39 :: str ";</script>" := by decide
  have isHead : (scriptHead index).isPrefixOf
      (scriptHead index ++ (body ++ 39 :: str ";</script>")) = true := by
    simp
  rw [tail, List.append_assoc, appended, if_pos isHead, List.drop_left]
  constructor
  · intro read
    split at read
    · rename_i value rest found
      obtain ⟨ends, same⟩ := Option.ite_none_right_eq_some.mp read
      cases same
      rw [found, ends]
    · cases read
  · intro read
    rw [read]
    simp

/-- What the consoles append for a text is the encoded text, in a literal that ends where the
script means it to end, if and only if there is no backslash in the text.

The reader of the literals is the grammar of the script language and knows nothing of `encode`. A
literal without a backslash is read as it stands; one with a backslash in it is read as something
else or not at all. -/
theorem output_injection_free_iff (index : Nat) (s : Str) : InjectionFree index s ↔ 92 ∉ s := by
  constructor
  · intro free member
    have read := (appended_eq_iff index (encode s)).mp free.shell
    exact no_backslash_of_literal read (backslash_mem_encode member)
  · intro absent
    have plain : ∀ c ∈ encode s, Plain c := by
      intro c member
      obtain ⟨⟨noQuote, noFeed, noReturn⟩, -, backslash⟩ := mem_encode member
      exact ⟨noQuote, noFeed, noReturn, fun same => absent (backslash same)⟩
    have tagged : ∀ c ∈ str "<b>" ++ encode s ++ str "</b>", Plain c := by
      have fixed : ∀ c ∈ str "<b>" ++ str "</b>", c ≠ 39 ∧ c ≠ 10 ∧ c ≠ 13 ∧ c ≠ 92 := by
        decide +kernel
      intro c member
      rcases List.mem_append.mp member with front | isClose
      · rcases List.mem_append.mp front with isOpen | inside
        · exact fixed c (List.mem_append_left _ isOpen)
        · exact plain c inside
      · exact fixed c (List.mem_append_right _ isClose)
    constructor
    · exact (appended_eq_iff index _).mpr (literal_plain plain _)
    · exact (appended_eq_iff index _).mpr (literal_plain tagged _)
    · constructor
      · intro member
        exact (mem_encode member).2.1.1 rfl
      · intro member
        exact (mem_encode member).2.1.2 rfl

/-- A text of a shell without a character of a tag in it. -/
def escapedTag : Str := str "\\x3cimg src=x onerror=alert(1)\\x3e"

/-- It is appended to the page as a tag; and a lone backslash takes the closing quote
with it. -/
theorem backslash_injects :
    appended 0 (outputShell 0 escapedTag) = some (str "<img src=x onerror=alert(1)>") ∧
      appended 0 (outputShell 0 (str "\\")) = none ∧ ¬ InjectionFree 0 escapedTag := by
  refine ⟨by decide +kernel, by decide +kernel, ?_⟩
  intro free
  exact absurd free.shell (by decide +kernel)

end NetProg.Console
