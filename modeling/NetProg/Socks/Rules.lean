import NetProg.CText
import NetProg.Library.Loops

/-!
# The rule file of the proxy

For every request `read_info` opens `socks.conf` and reads triples of words from
it, a rule word, a mode and an address, until one of them admits the request or
the end of the file has been seen. The four parts of the address are cut at the
dots and turned into numbers; what is not a number, a star for instance, counts as
zero, and zero admits every octet.

The words go into arrays of ten, ten and twenty characters without a bound. A
word that does not fit, an address with fewer than four parts and a file that
cannot be opened are failures.
-/

namespace NetProg.Socks

open Loops Outcomes

/-- A file opened for reading: what is left of it and its end-of-file flag. -/
structure File where
  rest : Str
  eof : Bool
  deriving DecidableEq

/-- A word longer than its array, `atoi` of a part that is not there, and an
operation on the file that could not be opened. The source checks for none of
them and goes on, with a behaviour that is not defined: a failure here is an end
of what can be said, not a refusal. -/
inductive Fault where
  | overflow
  | noPart
  | noFile
  deriving DecidableEq

/-- One `%s`: white space is skipped and a word is read up to the next white
space. Reaching the end sets the flag; a conversion that finds only the end has
no word. -/
def scanWord (capacity : Nat) (file : File) : Except Fault (Option Str × File) :=
  let text := file.rest.dropWhile isspace
  let word := text.takeWhile (! isspace ·)
  let rest := text.dropWhile (! isspace ·)
  if text = [] then .ok (none, ⟨[], true⟩)
  else if word.length < capacity then .ok (some word, ⟨rest, file.eof || rest.isEmpty⟩)
  else .error .overflow

/-- `fscanf` with a `%s` for each array: the words read before the first
conversion without one. -/
def fscanf : List Nat → File → Except Fault (List Str × File)
  | [], file => .ok ([], file)
  | capacity :: capacities, file => do
    let (word, after) ← scanWord capacity file
    match word with
    | none => return ([], after)
    | some word =>
      let (words, final) ← fscanf capacities after
      return (word :: words, final)

/-- `rule`, `mode` and `addr`. -/
def ruleArrays : List Nat := [10, 10, 20]

/-- The parts `strtok` cuts an address into. -/
def addressParts (addr : Str) : List Str := ((cstr addr).splitOn 46).filter (· ≠ [])

/-- `(unsigned char)atoi(check)`. -/
def octet (part : Str) : UInt8 := (atoi part % 256).toNat.toUInt8

/-- `addr_pass`; further parts are not asked for. -/
def addrPass (addr : Str) : Except Fault (List UInt8) :=
  let parts := (addressParts addr).take 4
  if parts.length < 4 then .error .noPart else .ok (parts.map octet)

/-- The command code of the request has this mode. -/
def hasMode (cd : UInt8) (mode : Str) : Bool :=
  (cd = 1 && cstr mode = str "c") || (cd = 2 && cstr mode = str "b")

/-- The four comparisons with the destination in `message[4]` to `message[7]`. -/
def admits (pass : List UInt8) (message : Str) : Bool :=
  (pass.zip ((message.drop 4).take 4)).all (fun (part, wanted) => part = wanted || part = 0)

/-- One pass of the loop over the rules. The words are three unless the end of
the file was seen. -/
def ruleRound (message : Str) (file : File) : Except Fault (Round File Bool) := do
  if file.eof then return .leave false
  let (words, after) ← fscanf ruleArrays file
  if after.eof then return .leave false
  match words with
  | [_, mode, addr] =>
    let pass ← addrPass addr
    if hasMode (message.getD 1 0) mode && admits pass message then return .leave true
    else return .again after
  | _ => return .leave false

/-- A word read leaves less of the file. -/
theorem scanWord_shorter {capacity : Nat} {file after : File} {word : Str}
    (scanned : scanWord capacity file = .ok (some word, after)) :
    after.rest.length < file.rest.length := by
  simp only [scanWord] at scanned
  split at scanned
  · cases scanned
  · rename_i nonempty
    split at scanned
    · cases scanned
      obtain ⟨c, more, text⟩ := List.exists_cons_of_ne_nil nonempty
      have solid := head_not_space text
      have skipped : (file.rest.dropWhile isspace).length ≤ file.rest.length :=
        List.length_dropWhile_le _ _
      have cut : ((c :: more).dropWhile (! isspace ·)).length ≤ more.length := by
        rw [List.dropWhile_cons_of_pos (by simpa using solid)]
        exact List.length_dropWhile_le _ _
      simp only [text] at skipped ⊢
      simp only [List.length_cons] at skipped
      omega
    · cases scanned

theorem scanWord_length {capacity : Nat} {file after : File} {word : Option Str}
    (scanned : scanWord capacity file = .ok (word, after)) :
    after.rest.length ≤ file.rest.length := by
  cases word with
  | some found => exact Nat.le_of_lt (scanWord_shorter scanned)
  | none =>
    simp only [scanWord] at scanned
    split at scanned
    · cases scanned
      exact Nat.zero_le _
    · split at scanned <;> cases scanned

/-- A call never gives bytes back, and a call that returns a word has taken some. -/
theorem fscanf_length {capacities : List Nat} {file after : File} {words : List Str}
    (scanned : fscanf capacities file = .ok (words, after)) :
    after.rest.length ≤ file.rest.length ∧
      (words ≠ [] → after.rest.length < file.rest.length) := by
  induction capacities generalizing file words with
  | nil =>
    cases scanned
    exact ⟨Nat.le_refl _, fun nonempty => absurd rfl nonempty⟩
  | cons capacity capacities ih =>
    obtain ⟨⟨word, middle⟩, first, scanned⟩ := bind_eq_ok.mp scanned
    cases word with
    | none =>
      cases scanned
      exact ⟨scanWord_length first, fun nonempty => absurd rfl nonempty⟩
    | some word =>
      obtain ⟨⟨more, final⟩, rest, returned⟩ := bind_eq_ok.mp scanned
      cases returned
      have shorter := scanWord_shorter first
      have further := (ih rest).1
      exact ⟨by omega, fun _ => by omega⟩

/-- The loop over the rules. -/
def ruleLoop (message : Str) : Loop File Bool Fault where
  body := ruleRound message
  measure file := file.rest.length
  decreases file next again := by
    simp only [ruleRound] at again
    split at again
    · cases again
    · obtain ⟨⟨words, after⟩, scanned, again⟩ := bind_eq_ok.mp again
      have shorter := fscanf_length scanned
      simp only at again
      split at again
      · cases again
      · split at again
        · obtain ⟨pass, -, again⟩ := bind_eq_ok.mp again
          split at again
          · cases again
          · cases again
            exact shorter.2 (by simp)
        · cases again

/-- The decision of `read_info` on the message in its buffer: granted if a rule
admits it and its version is 4. -/
def decision (conf : Option Str) (message : Str) : Except Fault Bool :=
  match conf with
  | none => .error .noFile
  | some text => do
    let isGranted ← (ruleLoop message).run ⟨text, false⟩
    return isGranted && message.getD 0 0 = 4

end NetProg.Socks
