import NetProg.CText
import NetProg.Library.Loops
import NetProg.Library.Tokens

/-!
# The query of the consoles

`do_resolve` cuts the query string at its ampersands and takes three fields for each
session, whatever they are called: the host, the port and the input file. The console
behind the proxy takes the last two fields for the proxy. A field's value is what
stands between its first two equality signs.

The number of fields is what the client sent. The loop steps by three without a look at
the number that is left, and five sessions is all that `host` has room for.
-/

namespace NetProg.Console

open Loops Outcomes

/-- `Host`. -/
structure Host where
  hostname : Str
  port : Int
  filename : Str
  deriving DecidableEq

/-- An index behind the end of `split_query` or of `host`. -/
inductive OutOfRange where
  | splitQuery (index : Nat)
  | host (index : Nat)
  deriving DecidableEq

/-- The subtraction of two `size_t` values. -/
def sizeSub (a b : Nat) : Nat := if b ≤ a then a - b else 2 ^ 64 - (b - a)

/-- The fields of a query string. -/
def splitQuery (qstring : Str) : List Str := Tokens.split (· = 38) qstring

/-- `split_query[index]`. -/
def field (fields : List Str) (index : Nat) : Except OutOfRange Str :=
  match fields[index]? with
  | some text => .ok text
  | none => .error (.splitQuery index)

/-- `split_item[1]`, where there is one. -/
def itemValue (text : Str) : Option Str := (Tokens.split (· = 61) text)[1]?

/-- The value of a field that is a text. -/
def textOf (text : Str) : Str := (itemValue text).getD []

/-- The value of a field that is a port. -/
def portOf (text : Str) : Int := ((itemValue text).map atoi).getD 0

/-- An assignment to a member of `host[index]`. -/
def setHost (host : Vector Host 5) (index : Nat) (assign : Host → Host) :
    Except OutOfRange (Vector Host 5) :=
  if inside : index < 5 then .ok (host.set index (assign host[index])) else .error (.host index)

/-- One pass of the loop over the fields. -/
def hostRound (fields : List Str) (bound : Nat) (state : Nat × Vector Host 5) :
    Except OutOfRange (Round (Nat × Vector Host 5) (Vector Host 5)) := do
  let (i, host) := state
  if i < bound then
    let nowIdx := i / 3
    let hostname ← field fields i
    let host ← setHost host nowIdx (fun h => { h with hostname := textOf hostname })
    let port ← field fields (i + 1)
    let host ← setHost host nowIdx (fun h => { h with port := portOf port })
    let filename ← field fields (i + 2)
    let host ← setHost host nowIdx (fun h => { h with filename := textOf filename })
    return .again (i + 3, host)
  else return .leave host

theorem field_ok {fields : List Str} {index : Nat} (inside : index < fields.length) :
    field fields index = .ok (fields.getD index []) := by
  simp [field, inside]

theorem field_inside {fields : List Str} {index : Nat} {text : Str}
    (found : field fields index = .ok text) : index < fields.length := by
  apply Classical.byContradiction
  intro outside
  simp [field, List.getElem?_eq_none (Nat.not_lt.mp outside)] at found

theorem setHost_ok {host : Vector Host 5} {index : Nat} (inside : index < 5)
    (assign : Host → Host) :
    setHost host index assign = .ok (host.set index (assign host[index])) := by
  rw [setHost, dif_pos inside]

theorem setHost_inside {host after : Vector Host 5} {index : Nat} {assign : Host → Host}
    (assigned : setHost host index assign = .ok after) : index < 5 := by
  apply Classical.byContradiction
  intro outside
  rw [setHost, dif_neg outside] at assigned
  cases assigned

/-- A pass over three fields that does not fail has found all three, and room in `host`. -/
theorem hostRound_inside {fields : List Str} {bound i : Nat} {host : Vector Host 5}
    {result : Round (Nat × Vector Host 5) (Vector Host 5)} (more : i < bound)
    (returned : hostRound fields bound (i, host) = .ok result) :
    (i + 2 < fields.length ∧ i < 15) ∧ ∃ after, result = .again (i + 3, after) := by
  simp only [hostRound, if_pos more] at returned
  obtain ⟨hostname, -, returned⟩ := bind_eq_ok.mp returned
  obtain ⟨first, room, returned⟩ := bind_eq_ok.mp returned
  obtain ⟨port, -, returned⟩ := bind_eq_ok.mp returned
  obtain ⟨second, -, returned⟩ := bind_eq_ok.mp returned
  obtain ⟨filename, found, returned⟩ := bind_eq_ok.mp returned
  obtain ⟨third, -, returned⟩ := bind_eq_ok.mp returned
  cases returned
  have inside := setHost_inside room
  exact ⟨⟨field_inside found, by omega⟩, third, rfl⟩

/-- The loop over the fields. -/
def hostLoop (fields : List Str) (bound : Nat) :
    Loop (Nat × Vector Host 5) (Vector Host 5) OutOfRange where
  body := hostRound fields bound
  measure state := 15 - state.1
  decreases := by
    rintro ⟨i, host⟩ next again
    by_cases more : i < bound
    · obtain ⟨⟨-, room⟩, after, further⟩ := hostRound_inside more again
      cases further
      simp only
      omega
    · simp only [hostRound, if_neg more] at again
      cases again

/-- `do_resolve` of the console without a proxy, up to the table it fills. -/
def doResolve (qstring : Str) (host : Vector Host 5) : Except OutOfRange (Vector Host 5) :=
  let fields := splitQuery qstring
  (hostLoop fields fields.length).run (0, host)

/-- What `do_resolve` of the console behind the proxy fills. -/
structure ProxyQuery where
  host : Vector Host 5
  socksHostname : Str
  socksPort : Int
  deriving DecidableEq

/-- `do_resolve` of the console behind the proxy. -/
def doResolveProxy (qstring : Str) (host : Vector Host 5) : Except OutOfRange ProxyQuery := do
  let fields := splitQuery qstring
  let host ← (hostLoop fields (sizeSub fields.length 2)).run (0, host)
  let socksHostname ← field fields (sizeSub fields.length 2)
  let socksPort ← field fields (sizeSub fields.length 1)
  return ⟨host, textOf socksHostname, portOf socksPort⟩

/-- The entry that three fields make. -/
def hostOf (fields : List Str) (index : Nat) : Host :=
  ⟨textOf (fields.getD (3 * index) []), portOf (fields.getD (3 * index + 1) []),
    textOf (fields.getD (3 * index + 2) [])⟩

/-- The table behind the passes before an index. -/
def filled (fields : List Str) (host : Vector Host 5) (i : Nat) : Vector Host 5 :=
  .ofFn fun j => if 3 * j.val < i then hostOf fields j else host[j]

/-- Every pass of the loop finds three fields and an entry of `host`. -/
def InBounds (fields : List Str) (bound : Nat) : Prop :=
  ∀ i < bound, 3 ∣ i → i + 2 < fields.length ∧ i < 15

theorem filled_zero (fields : List Str) (host : Vector Host 5) : filled fields host 0 = host := by
  apply Vector.ext
  intro j inside
  simp [filled]

/-- A pass over three fields fills one entry more. -/
theorem filled_set {fields : List Str} {host : Vector Host 5} {i : Nat} (three : 3 ∣ i)
    (inside : i / 3 < 5) :
    (filled fields host i).set (i / 3) (hostOf fields (i / 3)) = filled fields host (i + 3) := by
  obtain ⟨index, rfl⟩ := three
  have same : 3 * index / 3 = index := by omega
  apply Vector.ext
  intro j room
  rw [Vector.getElem_set]
  by_cases here : 3 * index / 3 = j
  · have below : 3 * j < 3 * index + 3 := by omega
    rw [if_pos here]
    simp [filled, here, below]
  · have alike : 3 * j < 3 * index + 3 ↔ 3 * j < 3 * index := by omega
    rw [if_neg here]
    simp [filled, alike]

/-- A pass that finds three fields and room. -/
theorem hostRound_filled {fields : List Str} {bound i : Nat} {host : Vector Host 5}
    (more : i < bound) (three : 3 ∣ i) (found : i + 2 < fields.length) (room : i < 15) :
    hostRound fields bound (i, filled fields host i) =
      .ok (.again (i + 3, filled fields host (i + 3))) := by
  have inside : i / 3 < 5 := by omega
  have whole : 3 * (i / 3) = i := Nat.mul_div_cancel' three
  have entry : hostOf fields (i / 3) = ⟨textOf (fields.getD i []),
      portOf (fields.getD (i + 1) []), textOf (fields.getD (i + 2) [])⟩ := by
    rw [hostOf, whole]
  simp only [hostRound, if_pos more, field_ok (show i < fields.length by omega),
    field_ok (show i + 1 < fields.length by omega), field_ok found, setHost_ok inside]
  rw [← filled_set three inside, entry]
  simp [bind, Except.bind, pure, Except.pure]

/-- The loop fills the table exactly when all its indices are in range. Its invariant is that the
first entries are filled from the first fields; a pass reads three more. -/
theorem hostLoop_ends (fields : List Str) (bound : Nat) (host : Vector Host 5) :
    Ends ((hostLoop fields bound).run (0, host))
      (fun after => InBounds fields bound ∧ after = filled fields host bound)
      (fun _ => ¬ InBounds fields bound) := by
  apply (hostLoop fields bound).run_ends
    (fun state => 3 ∣ state.1 ∧ state.1 < bound + 3 ∧ state.2 = filled fields host state.1 ∧
      ∀ j < state.1, 3 ∣ j → j + 2 < fields.length ∧ j < 15)
    (fun _ => True)
  · rintro ⟨i, seen⟩ ⟨three, near, same, before⟩ -
    simp only at three near same before
    subst same
    by_cases more : i < bound
    · by_cases inside : i + 2 < fields.length ∧ i < 15
      · have round : (hostLoop fields bound).body (i, filled fields host i) =
            .ok (.again (i + 3, filled fields host (i + 3))) :=
          hostRound_filled more three inside.1 inside.2
        rw [round]
        refine ⟨Nat.dvd_add three (Nat.dvd_refl 3), by simp only; omega, rfl, ?_⟩
        intro j below divides
        by_cases here : j = i
        · exact here ▸ inside
        · apply before j
          · simp only at below
            omega
          · exact divides
      · -- a pass out of range is one that fails
        cases outcome : (hostLoop fields bound).body (i, filled fields host i) with
        | ok result => exact absurd (hostRound_inside more outcome).1 inside
        | error e =>
          intro all
          exact inside (all i more three)
    · have round : (hostLoop fields bound).body (i, filled fields host i) =
          .ok (.leave (filled fields host i)) := by
        simp only [hostLoop, hostRound, if_neg more]
        rfl
      rw [round]
      constructor
      · intro j below divides
        exact before j (by omega) divides
      · apply Vector.ext
        intro j room
        have alike : 3 * j < i ↔ 3 * j < bound := by omega
        simp [filled, alike]
  · exact ⟨Nat.dvd_zero 3, Nat.zero_lt_succ _, (filled_zero fields host).symm, by simp⟩
  · intro _ _
    trivial

/-- The number of fields of a query string: one more than the ampersands that do not
stand directly behind another one. -/
def fieldCount (qstring : Str) : Nat := 1 + Tokens.runs (· = 38) qstring

theorem splitQuery_length (qstring : Str) : (splitQuery qstring).length = fieldCount qstring :=
  Tokens.split_length qstring

/-- All fields of the console without a proxy are taken by threes. -/
theorem inBounds_length_iff {fields : List Str} (some : 0 < fields.length) :
    InBounds fields fields.length ↔ 3 ∣ fields.length ∧ fields.length ≤ 15 := by
  constructor
  · intro all
    have last := all (3 * ((fields.length - 1) / 3)) (by omega) (Nat.dvd_mul_right 3 _)
    omega
  · rintro ⟨⟨groups, total⟩, few⟩ i below ⟨group, rfl⟩
    omega

/-- The last two fields are left to the proxy. -/
theorem inBounds_sub_iff {fields : List Str} (some : 0 < fields.length) :
    InBounds fields (sizeSub fields.length 2) ↔ 2 ≤ fields.length ∧ fields.length ≤ 17 := by
  by_cases two : 2 ≤ fields.length
  · rw [sizeSub, if_pos two]
    constructor
    · intro all
      by_cases more : 0 < fields.length - 2
      · have last := all (3 * ((fields.length - 3) / 3)) (by omega) (Nat.dvd_mul_right 3 _)
        omega
      · omega
    · rintro ⟨-, few⟩ i below ⟨group, rfl⟩
      omega
  · -- the bound has wrapped, and already the first pass looks for a third field
    rw [sizeSub, if_neg two]
    constructor
    · intro all
      have first := all 0 (by omega) (Nat.dvd_zero 3)
      omega
    · intro both
      exact absurd both.1 two

/-- The console without a proxy stays in range on some queries and fills its table there. -/
theorem doResolve_ends (qstring : Str) (host : Vector Host 5) :
    Ends (doResolve qstring host)
      (fun after => (3 ∣ fieldCount qstring ∧ fieldCount qstring ≤ 15) ∧
        after = filled (splitQuery qstring) host (fieldCount qstring))
      (fun _ => ¬ (3 ∣ fieldCount qstring ∧ fieldCount qstring ≤ 15)) := by
  have counted := splitQuery_length qstring
  have some : 0 < (splitQuery qstring).length := by
    rw [counted, fieldCount]
    omega
  have bounds := inBounds_length_iff some
  have ends := hostLoop_ends (splitQuery qstring) (splitQuery qstring).length host
  rw [bounds, counted] at ends
  simpa only [doResolve, counted] using ends

/-- So does the console behind the proxy, which also has the two fields of the proxy
then. -/
theorem doResolveProxy_ends (qstring : Str) (host : Vector Host 5) :
    Ends (doResolveProxy qstring host)
      (fun after => (2 ≤ fieldCount qstring ∧ fieldCount qstring ≤ 17) ∧
        after = ⟨filled (splitQuery qstring) host (fieldCount qstring - 2),
          textOf ((splitQuery qstring).getD (fieldCount qstring - 2) []),
          portOf ((splitQuery qstring).getD (fieldCount qstring - 1) [])⟩)
      (fun _ => ¬ (2 ≤ fieldCount qstring ∧ fieldCount qstring ≤ 17)) := by
  have counted := splitQuery_length qstring
  have some : 0 < (splitQuery qstring).length := by
    rw [counted, fieldCount]
    omega
  have bounds := inBounds_sub_iff some
  have ends := hostLoop_ends (splitQuery qstring) (sizeSub (splitQuery qstring).length 2) host
  rw [bounds, counted] at ends
  simp only [doResolveProxy, counted]
  refine ends.bind _ ?_
  rintro after ⟨few, rfl⟩
  have minusTwo : sizeSub (fieldCount qstring) 2 = fieldCount qstring - 2 := if_pos few.1
  have minusOne : sizeSub (fieldCount qstring) 1 = fieldCount qstring - 1 := if_pos (by omega)
  rw [minusTwo, minusOne, field_ok (by omega), field_ok (by omega)]
  exact ⟨few, rfl⟩

/-- For every query string: the consoles read and write in range, and the second one's bound has
not wrapped, exactly for these numbers of fields. The first one takes its fields three at a time
and needs a multiple of three; the second one takes off the two fields of the proxy before.

Both are one loop with different bounds, and the number of fields decides whether it returns. -/
theorem do_resolve_in_range_iff (qstring : Str) (host : Vector Host 5) :
    ((∃ after, doResolve qstring host = .ok after) ↔
        3 ∣ fieldCount qstring ∧ fieldCount qstring ≤ 15) ∧
      (((∃ after, doResolveProxy qstring host = .ok after) ∧
          sizeSub (splitQuery qstring).length 2 + 2 = (splitQuery qstring).length) ↔
        2 ≤ fieldCount qstring ∧ fieldCount qstring ≤ 17) := by
  have direct := doResolve_ends qstring host
  have proxied := doResolveProxy_ends qstring host
  constructor
  · constructor
    · rintro ⟨after, returned⟩
      exact (direct.returned returned).1
    · intro few
      cases outcome : doResolve qstring host with
      | ok after => exact ⟨after, rfl⟩
      | error e => exact absurd few (direct.raised outcome)
  · constructor
    · rintro ⟨⟨after, returned⟩, -⟩
      exact (proxied.returned returned).1
    · intro few
      have unwrapped : sizeSub (splitQuery qstring).length 2 + 2 = (splitQuery qstring).length := by
        rw [splitQuery_length, sizeSub, if_pos few.1]
        omega
      cases outcome : doResolveProxy qstring host with
      | ok after => exact ⟨⟨after, rfl⟩, unwrapped⟩
      | error e => exact absurd few (proxied.raised outcome)

/-- An empty table. -/
def noHosts : Vector Host 5 := .replicate 5 ⟨[], 0, []⟩

/-- The console without a proxy looks for a second field in an empty query, and for a
sixth entry on eighteen fields. The bound of the other one wraps on an empty query. -/
theorem do_resolve_out_of_range :
    doResolve [] noHosts = .error (.splitQuery 1) ∧
      doResolve (str "a&a&a&a&a&a&a&a&a&a&a&a&a&a&a&a&a&a") noHosts = .error (.host 5) ∧
      doResolveProxy [] noHosts = .error (.splitQuery 1) ∧
      sizeSub (splitQuery []).length 2 = 2 ^ 64 - 1 := by
  decide +kernel

end NetProg.Console
