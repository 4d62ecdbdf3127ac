import NetProg.Library.Batches
import NetProg.MultiProc.Main

/-!
# Logins that overlap

The server forks a process for every connection and goes on to accept the next one. The
processes look for a free slot in the shared table at the same time: each reads one slot
after the other and then marks the first it has found free. Between the reading and the
marking another process can read the slot as well. The record of the client is written
later still, and until then the slot, which is marked already, has the process number of
its last client, or zero.

`Broadcast` goes through the table and sends a signal to the process number in every slot
that is marked. A process that has not come to `ClientExec` yet is terminated by it, and
the number zero stands for all processes of the server.

At the end of its input a process returns to the loop of the server, which it cannot go
on with, and leaves its slot marked.
-/

namespace NetProg.MultiProc

open Runs

/-- How far the process of a client has come: it is about to read a slot, or to mark the
slot it has found free; it has an id and is about to write its record, or to start
`ClientExec`; it is at a slot in a `Broadcast`, the last one or not; it waits for a line;
it is about to empty its slot; it has come to the end of its input; there was no slot for
it; it has ended; a signal has ended it. -/
inductive Phase where
  | absent
  | scanning (i : Nat)
  | claiming (i : Nat)
  | entering (i : Nat)
  | entered (i : Nat)
  | telling (i j : Nat) (leaves : Bool)
  | serving (i : Nat)
  | leaving (i : Nat)
  | hungUp (i : Nat)
  | turnedAway
  | gone
  | terminated
  deriving DecidableEq

namespace Phase

/-- The slot whose id the process has. -/
def slot : Phase → Option Nat
  | entering i | entered i | telling i _ _ | serving i | leaving i | hungUp i => some i
  | absent | scanning _ | claiming _ | turnedAway | gone | terminated => none

/-- The slot with the record of the process. -/
def record : Phase → Option Nat
  | entered i | telling i _ _ | serving i | leaving i | hungUp i => some i
  | absent | scanning _ | claiming _ | entering _ | turnedAway | gone | terminated => none

/-- `SigHandler` is installed, and prints to a client. -/
def handles : Phase → Bool
  | telling _ _ _ | serving _ | leaving _ | turnedAway => true
  | absent | scanning _ | claiming _ | entering _ | entered _ | hungUp _ | gone | terminated =>
    false

/-- What a `SIGUSR1` makes of a process: without a handler it is terminated. -/
def signalled : Phase → Phase
  | scanning _ | claiming _ | entering _ | entered _ => terminated
  | phase => phase

end Phase

/-- The process of the server; the table in shared memory; how far each process has come, the
address its connection is from, and how many signals its handler has caught. The phase of a
process has the slot that it is about to take or has. -/
structure Logins where
  serverRuns : Bool
  table : List ClientInfo
  phase : Nat → Phase
  address : Nat → Str × Nat
  caught : Nat → Nat

namespace Logins

/-- Before the first connection. -/
def initial : Logins where
  serverRuns := true
  table := Server.initial.table
  phase _ := .absent
  address _ := ([], 0)
  caught _ := 0

/-- A process comes to a phase, and nothing else happens: the table of slots and the other
processes are as they were. Every step of a login is this and, for some, a change of the table. -/
def goes (s : Logins) (pid : Nat) (phase : Phase) : Logins :=
  { s with phase := Function.update s.phase pid phase }

/-- A process marks a slot, and has its id. -/
def marks (s : Logins) (pid i : Nat) : Logins :=
  { s.goes pid (.entering i) with
    table := s.table.modify i (fun client => { client with valid := true }) }

/-- A process empties its slot, and ends. -/
def frees (s : Logins) (pid i : Nat) : Logins :=
  { s.goes pid .gone with
    table := s.table.modify i (fun client => { client with valid := false }) }

/-- `kill` with `SIGUSR1`. The number zero stands for the whole process group, in which
the server itself has no handler. -/
def kill (s : Logins) (pid : Nat) : Logins :=
  { s with
    serverRuns := s.serverRuns && pid != 0
    phase := fun p => if pid = 0 ∨ p = pid then (s.phase p).signalled else s.phase p
    caught := fun p =>
      if (pid = 0 ∨ p = pid) ∧ (s.phase p).handles then s.caught p + 1 else s.caught p }

end Logins

/-- The steps of the server and of the processes of its clients. Looking for a slot and marking it
are two steps, since nothing keeps another process from coming between. -/
inductive LoginStep where
  | forks (pid : Nat) (userIp : Str) (port : Nat)
  | reads (pid : Nat)
  | claims (pid : Nat)
  | enters (pid : Nat)
  | begins (pid : Nat)
  | broadcasts (pid : Nat)
  | tells (pid : Nat)
  | exits (pid : Nat)
  | empties (pid : Nat)
  | hangsUp (pid : Nat)

namespace Logins

/-- What a step does, where it is possible. -/
def next (s : Logins) : LoginStep → Option Logins
  | .forks pid userIp port =>
    if s.serverRuns = true ∧ pid ≠ 0 ∧ s.phase pid = .absent then
      some { s.goes pid (.scanning 0) with
        address := Function.update s.address pid (userIp, port) }
    else none
  -- one pass of the loop in `GetAvaliableIDFromSHM`, up to the test
  | .reads pid =>
    match s.phase pid with
    | .scanning i =>
      match s.table[i]? with
      | none => some (s.goes pid .turnedAway)
      | some client => some (s.goes pid (if client.valid then .scanning (i + 1) else .claiming i))
    | _ => none
  | .claims pid =>
    match s.phase pid with
    | .claiming i => some (s.marks pid i)
    | _ => none
  -- `AddClient`
  | .enters pid =>
    match s.phase pid with
    | .entering i => some { s.goes pid (.entered i) with
        table := s.table.set i
          ⟨true, pid, i + 1, str "(no name)", (s.address pid).1, (s.address pid).2⟩ }
    | _ => none
  -- `ClientExec` installs the handlers and announces the login
  | .begins pid =>
    match s.phase pid with
    | .entered i => some (s.goes pid (.telling i 0 false))
    | _ => none
  | .broadcasts pid =>
    match s.phase pid with
    | .serving i => some (s.goes pid (.telling i 0 false))
    | _ => none
  -- one pass of the loop in `Broadcast`
  | .tells pid =>
    match s.phase pid with
    | .telling i j leaves =>
      match s.table[j]? with
      | none => some (s.goes pid (if leaves then .leaving i else .serving i))
      | some client =>
        some ((if client.valid then s.kill client.pid else s).goes pid (.telling i (j + 1) leaves))
    | _ => none
  | .exits pid =>
    match s.phase pid with
    | .serving i => some (s.goes pid (.telling i 0 true))
    | _ => none
  | .empties pid =>
    match s.phase pid with
    | .leaving i => some (s.frees pid i)
    | _ => none
  | .hangsUp pid =>
    match s.phase pid with
    | .serving i => some (s.goes pid (.hungUp i))
    | _ => none

/-- A process is about to read a slot that is free. -/
def Finds (s : Logins) (pid i : Nat) : Prop :=
  s.phase pid = .scanning i ∧ ∃ client, s.table[i]? = some client ∧ client.valid = false

/-- No slot is read as free while another process is about to mark it. -/
def Spaced (s : Logins) : LoginStep → Prop
  | .reads pid => ∀ i, s.Finds pid i → ∀ q, s.phase q ≠ .claiming i
  | _ => True

/-- No signal is sent for a slot whose process has not come to `ClientExec`. -/
def Quiet (s : Logins) : LoginStep → Prop
  | .tells pid => ∀ i j leaves, s.phase pid = .telling i j leaves →
      ∀ q, s.phase q ≠ .entering j ∧ s.phase q ≠ .entered j
  | _ => True

/-- No two processes have one id. -/
def IdsApart (s : Logins) : Prop :=
  ∀ p q i, (s.phase p).slot = some i → (s.phase q).slot = some i → p = q

end Logins

/-- The logins of the multi-process server, with all interleavings of the processes. A signal is
sent to the number that a slot has, whoever has that number. -/
def logins : System Logins LoginStep Empty where
  start := .initial
  offers s step := (s.next step).isSome = true
  serve s step := .ok ((s.next step).getD s)

instance (s : Logins) (step : LoginStep) : Decidable (logins.offers s step) :=
  inferInstanceAs (Decidable (_ = _))

/-- A step that is served is possible. -/
theorem Logins.next_of_served {s t : Logins} {step : LoginStep} (offered : logins.offers s step)
    (served : logins.serve s step = .ok t) : s.next step = some t := by
  obtain ⟨after, possible⟩ := Option.isSome_iff_exists.mp offered
  have same : (s.next step).getD s = t := Except.ok.inj served
  rw [possible] at same
  rw [possible, ← same]
  rfl

namespace Logins

/-- What the steps do, one case for each way through them. All invariants of the logins go by
these cases, and by what a change of phase does. -/
inductive Leads (s : Logins) : LoginStep → Logins → Prop
  | forks {pid : Nat} {userIp : Str} {port : Nat} (runs : s.serverRuns = true) (positive : pid ≠ 0)
      (absent : s.phase pid = .absent) : Leads s (.forks pid userIp port)
        { s.goes pid (.scanning 0) with
          address := Function.update s.address pid (userIp, port) }
  | turnsAway {pid i : Nat} (was : s.phase pid = .scanning i) (past : s.table[i]? = none) :
      Leads s (.reads pid) (s.goes pid .turnedAway)
  | taken {pid i : Nat} {client : ClientInfo} (was : s.phase pid = .scanning i)
      (found : s.table[i]? = some client) (valid : client.valid = true) :
      Leads s (.reads pid) (s.goes pid (.scanning (i + 1)))
  | free {pid i : Nat} (finds : s.Finds pid i) :
      Leads s (.reads pid) (s.goes pid (.claiming i))
  | claims {pid i : Nat} (was : s.phase pid = .claiming i) :
      Leads s (.claims pid) (s.marks pid i)
  | enters {pid i : Nat} (was : s.phase pid = .entering i) : Leads s (.enters pid)
      { s.goes pid (.entered i) with
        table := s.table.set i
          ⟨true, pid, i + 1, str "(no name)", (s.address pid).1, (s.address pid).2⟩ }
  | begins {pid i : Nat} (was : s.phase pid = .entered i) :
      Leads s (.begins pid) (s.goes pid (.telling i 0 false))
  | broadcasts {pid i : Nat} (was : s.phase pid = .serving i) :
      Leads s (.broadcasts pid) (s.goes pid (.telling i 0 false))
  | told {pid i j : Nat} {leaves : Bool} (was : s.phase pid = .telling i j leaves)
      (past : s.table[j]? = none) :
      Leads s (.tells pid) (s.goes pid (if leaves then .leaving i else .serving i))
  | passes {pid i j : Nat} {leaves : Bool} {client : ClientInfo}
      (was : s.phase pid = .telling i j leaves) (found : s.table[j]? = some client)
      (notValid : client.valid = false) :
      Leads s (.tells pid) (s.goes pid (.telling i (j + 1) leaves))
  | signals {pid i j : Nat} {leaves : Bool} {client : ClientInfo}
      (was : s.phase pid = .telling i j leaves) (found : s.table[j]? = some client)
      (valid : client.valid = true) :
      Leads s (.tells pid) ((s.kill client.pid).goes pid (.telling i (j + 1) leaves))
  | exits {pid i : Nat} (was : s.phase pid = .serving i) :
      Leads s (.exits pid) (s.goes pid (.telling i 0 true))
  | empties {pid i : Nat} (was : s.phase pid = .leaving i) :
      Leads s (.empties pid) (s.frees pid i)
  | hangsUp {pid i : Nat} (was : s.phase pid = .serving i) :
      Leads s (.hangsUp pid) (s.goes pid (.hungUp i))

/-- Every step is one of the ways through it. This is the only place where the step function is
taken apart. -/
theorem next_leads {s t : Logins} {step : LoginStep} (next : s.next step = some t) :
    s.Leads step t := by
  cases step <;> simp only [Logins.next] at next
  case forks pid userIp port =>
    split at next
    · rename_i possible
      cases next
      exact .forks possible.1 possible.2.1 possible.2.2
    · cases next
  case reads pid =>
    split at next
    · rename_i i was
      split at next
      · rename_i past
        cases next
        exact .turnsAway was past
      · rename_i client found
        cases valid : client.valid <;> simp only [valid, if_true, Bool.false_eq_true, if_false] at next
        · cases next
          exact .free ⟨was, client, found, valid⟩
        · cases next
          exact .taken was found valid
    · cases next
  case tells pid =>
    split at next
    · rename_i i j leaves was
      split at next
      · rename_i past
        cases next
        exact .told was past
      · rename_i client found
        cases valid : client.valid <;> simp only [valid, if_true, Bool.false_eq_true, if_false] at next
        · cases next
          exact .passes was found valid
        · cases next
          exact .signals was found valid
    · cases next
  all_goals
    split at next
    · rename_i i was
      cases next
      first
        | exact .claims was
        | exact .enters was
        | exact .begins was
        | exact .broadcasts was
        | exact .exits was
        | exact .empties was
        | exact .hangsUp was
    · cases next

/-- Who has which slot: a process that has an id has its slot marked, and to itself. This is
kept by every step but one that marks a slot which is marked already. -/
structure Owned (s : Logins) : Prop where
  held : ∀ p i, (s.phase p).slot = some i → ∃ client, s.table[i]? = some client ∧
    client.valid = true
  apart : s.IdsApart

/-- As long as no slot is read too early, moreover a slot that is about to be marked is not
marked, and one process is about to mark it. So marking one takes it from nobody. -/
structure Claims (s : Logins) : Prop extends Owned s where
  claimants : ∀ p q i, s.phase p = .claiming i → s.phase q = .claiming i → p = q
  free : ∀ p i, s.phase p = .claiming i → ∃ client, s.table[i]? = some client ∧
    client.valid = false

section Claims

variable {s t : Logins} {step : LoginStep} {pid : Nat}

@[simp] theorem goes_self (s : Logins) (pid : Nat) (phase : Phase) :
    (s.goes pid phase).phase pid = phase := Function.update_self ..

theorem goes_other (s : Logins) {pid p : Nat} (phase : Phase) (other : p ≠ pid) :
    (s.goes pid phase).phase p = s.phase p := Function.update_of_ne other ..

theorem marks_self (s : Logins) (pid i : Nat) : (s.marks pid i).phase pid = .entering i :=
  s.goes_self pid _

theorem marks_other (s : Logins) {pid p i : Nat} (other : p ≠ pid) :
    (s.marks pid i).phase p = s.phase p :=
  s.goes_other _ other

theorem frees_self (s : Logins) (pid i : Nat) : (s.frees pid i).phase pid = .gone :=
  s.goes_self pid _

theorem frees_other (s : Logins) {pid p i : Nat} (other : p ≠ pid) :
    (s.frees pid i).phase p = s.phase p :=
  s.goes_other _ other

@[simp] theorem slot_signalled (phase : Phase) (i : Nat)
    (slot : phase.signalled.slot = some i) : phase.slot = some i := by
  cases phase <;> first | exact slot | cases slot

theorem signalled_claiming {phase : Phase} {i : Nat} (claims : phase.signalled = .claiming i) :
    False := by
  cases phase <;> cases claims

/-- A slot with a mark has a client in the table. -/
theorem marked_iff {table : List ClientInfo} {i : Nat} {mark : Bool} :
    (∃ client, table[i]? = some client ∧ client.valid = mark) ↔
      (table[i]?).map ClientInfo.valid = some mark :=
  Option.map_eq_some_iff.symm

/-- Steps that mark and empty no slot, and by which no process gets one. -/
theorem Owned.fewer (owned : s.Owned)
    (marks : ∀ i : Nat, (t.table[i]?).map ClientInfo.valid = (s.table[i]?).map ClientInfo.valid)
    (slots : ∀ p i, (t.phase p).slot = some i → (s.phase p).slot = some i) : t.Owned := by
  constructor
  · intro p i has
    rw [marked_iff, marks]
    exact marked_iff.mp (owned.held p i (slots p i has))
  · exact fun p q i first second => owned.apart p q i (slots p i first) (slots q i second)

/-- One process goes on to a phase in which it has no other slot than before. -/
theorem Owned.goes (owned : s.Owned) {phase : Phase}
    (slots : ∀ i, phase.slot = some i → (s.phase pid).slot = some i) :
    (s.goes pid phase).Owned := by
  refine owned.fewer (fun _ => rfl) ?_
  intro p i has
  by_cases same : p = pid
  · subst same
    exact slots i (by simpa using has)
  · rwa [goes_other s phase same] at has

theorem Owned.kill (owned : s.Owned) (pid : Nat) : (s.kill pid).Owned := by
  refine owned.fewer (fun _ => rfl) ?_
  intro p i has
  simp only [Logins.kill] at has
  split at has
  · exact slot_signalled _ _ has
  · exact has

theorem valid_modify (table : List ClientInfo) (i j : Nat) (mark : Bool) :
    ((table.modify i (fun client => { client with valid := mark }))[j]?).map ClientInfo.valid =
      if i = j then (table[j]?).map (fun _ => mark) else (table[j]?).map ClientInfo.valid := by
  rw [List.getElem?_modify]
  by_cases same : i = j <;> simp [same, Function.comp_def]

theorem valid_marks (s : Logins) (pid i j : Nat) :
    ((s.marks pid i).table[j]?).map ClientInfo.valid =
      if i = j then (s.table[j]?).map (fun _ => true) else (s.table[j]?).map ClientInfo.valid :=
  valid_modify s.table i j true

theorem valid_frees (s : Logins) (pid i j : Nat) :
    ((s.frees pid i).table[j]?).map ClientInfo.valid =
      if i = j then (s.table[j]?).map (fun _ => false) else (s.table[j]?).map ClientInfo.valid :=
  valid_modify s.table i j false

/-- A process marks a slot that is free at that moment: nobody has it, since whoever has a
slot has it marked. -/
theorem Owned.marks (owned : s.Owned) {i : Nat}
    (free : ∃ client, s.table[i]? = some client ∧ client.valid = false) :
    (s.marks pid i).Owned := by
  obtain ⟨client, isClient, notValid⟩ := free
  have nobody (p : Nat) : (s.phase p).slot ≠ some i := by
    intro has
    obtain ⟨other, isOther, valid⟩ := owned.held p i has
    rw [isClient] at isOther
    cases isOther
    rw [notValid] at valid
    cases valid
  have slotOf (p : Nat) : ((s.marks pid i).phase p).slot =
      if p = pid then some i else (s.phase p).slot := by
    by_cases same : p = pid
    · rw [if_pos same, same, marks_self]
      rfl
    · rw [if_neg same, marks_other s same]
  constructor
  · intro p j has
    rw [marked_iff, valid_marks]
    rw [slotOf] at has
    split at has
    · cases has
      rw [if_pos rfl, isClient]
      rfl
    · have other : i ≠ j := fun same => nobody p (same ▸ has)
      rw [if_neg other]
      exact marked_iff.mp (owned.held p j has)
  · intro p q j first second
    rw [slotOf] at first second
    split at first <;> split at second
    · rename_i isPid alsoPid
      exact isPid.trans alsoPid.symm
    · cases first
      exact absurd second (nobody q)
    · cases second
      exact absurd first (nobody p)
    · exact owned.apart p q j first second

/-- A process empties its slot. -/
theorem Owned.frees (owned : s.Owned) {i : Nat} (was : s.phase pid = .leaving i) :
    (s.frees pid i).Owned := by
  have mine : (s.phase pid).slot = some i := by rw [was]; rfl
  have before {p j : Nat} (has : ((s.frees pid i).phase p).slot = some j) :
      p ≠ pid ∧ (s.phase p).slot = some j := by
    by_cases same : p = pid
    · rw [same, frees_self] at has
      cases has
    · exact ⟨same, by rwa [frees_other s same] at has⟩
  constructor
  · intro p j has
    obtain ⟨apart, had⟩ := before has
    have other : i ≠ j := fun same => apart (owned.apart p pid j had (same ▸ mine))
    rw [marked_iff, valid_frees, if_neg other]
    exact marked_iff.mp (owned.held p j had)
  · exact fun p q j first second => owned.apart p q j (before first).2 (before second).2

/-- The record is written into a slot that is marked already. -/
theorem Owned.valid_enters (owned : s.Owned) {i : Nat} (was : s.phase pid = .entering i)
    {client : ClientInfo} (valid : client.valid = true) (j : Nat) :
    ((s.table.set i client)[j]?).map ClientInfo.valid = (s.table[j]?).map ClientInfo.valid := by
  obtain ⟨old, isOld, marked⟩ := owned.held pid i (by rw [was]; rfl)
  obtain ⟨inside, rfl⟩ := List.getElem?_eq_some_iff.mp isOld
  by_cases same : i = j
  · subst same
    simp [inside, valid, marked]
  · simp [same]

/-- Every step keeps it, unless it marks a slot that another process has marked since it was
read. -/
theorem Owned.next (owned : s.Owned) (leads : s.Leads step t)
    (fresh : ∀ pid i, step = .claims pid → s.phase pid = .claiming i →
      ∃ client, s.table[i]? = some client ∧ client.valid = false) : t.Owned := by
  cases leads with
  | @forks pid =>
    have scanned : (s.goes pid (.scanning 0)).Owned := owned.goes (by simp [Phase.slot])
    exact scanned.fewer (fun _ => rfl) (fun _ _ has => has)
  | turnsAway | taken | free => exact owned.goes (by simp [Phase.slot])
  | claims was => exact owned.marks (fresh _ _ rfl was)
  | @enters pid i was =>
    have entered : (s.goes pid (.entered i)).Owned := owned.goes (by simp [was, Phase.slot])
    exact entered.fewer (fun j => owned.valid_enters was rfl j) (fun _ _ has => has)
  | begins was | broadcasts was | exits was | hangsUp was | passes was =>
    exact owned.goes (by simp [was, Phase.slot])
  | @told pid i j leaves was past =>
    exact owned.goes (by cases leaves <;> simp [was, Phase.slot])
  | @signals pid i j leaves client was found valid =>
    refine (owned.kill client.pid).goes ?_
    intro k has
    simp only [Logins.kill]
    split <;> (rw [was]; exact has)
  | empties was => exact owned.frees was

/-- Steps that mark and empty no slot, and after which nobody else is about to mark one. -/
theorem Claims.fewer (claims : s.Claims) (owned : t.Owned)
    (marks : ∀ i : Nat, (t.table[i]?).map ClientInfo.valid = (s.table[i]?).map ClientInfo.valid)
    (claiming : ∀ p i, t.phase p = .claiming i → s.phase p = .claiming i) : t.Claims := by
  refine ⟨owned, ?_, ?_⟩
  · exact fun p q i first second =>
      claims.claimants p q i (claiming p i first) (claiming q i second)
  · intro p i isClaiming
    rw [marked_iff, marks]
    exact marked_iff.mp (claims.free p i (claiming p i isClaiming))

/-- One process goes on, and is not about to mark a slot. -/
theorem Claims.goes (claims : s.Claims) {phase : Phase}
    (slots : ∀ i, phase.slot = some i → (s.phase pid).slot = some i)
    (claiming : ∀ i, phase ≠ .claiming i) : (s.goes pid phase).Claims := by
  refine claims.fewer (claims.toOwned.goes slots) (fun _ => rfl) ?_
  intro p i isClaiming
  by_cases same : p = pid
  · subst same
    exact absurd (by simpa using isClaiming) (claiming i)
  · rwa [goes_other s phase same] at isClaiming

theorem Claims.kill (claims : s.Claims) (pid : Nat) : (s.kill pid).Claims := by
  refine claims.fewer (claims.toOwned.kill pid) (fun _ => rfl) ?_
  intro p i isClaiming
  simp only [Logins.kill] at isClaiming
  split at isClaiming
  · exact (signalled_claiming isClaiming).elim
  · exact isClaiming

/-- A process marks the slot it has found. -/
theorem Claims.marks (claims : s.Claims) {i : Nat} (was : s.phase pid = .claiming i) :
    (s.marks pid i).Claims := by
  have notPid {p j : Nat} (isClaiming : (s.marks pid i).phase p = .claiming j) :
      p ≠ pid ∧ s.phase p = .claiming j := by
    by_cases same : p = pid
    · rw [same, marks_self] at isClaiming
      cases isClaiming
    · exact ⟨same, by rwa [marks_other s same] at isClaiming⟩
  refine ⟨claims.toOwned.marks (claims.free pid i was), ?_, ?_⟩
  · intro p q j first second
    exact claims.claimants p q j (notPid first).2 (notPid second).2
  · intro p j isClaiming
    obtain ⟨apart, had⟩ := notPid isClaiming
    rw [marked_iff, valid_marks]
    have other : i ≠ j := by
      rintro rfl
      exact apart (claims.claimants p pid i had was)
    rw [if_neg other]
    exact marked_iff.mp (claims.free p j had)

/-- A process empties its slot. -/
theorem Claims.frees (claims : s.Claims) {i : Nat} (was : s.phase pid = .leaving i) :
    (s.frees pid i).Claims := by
  have claiming {p j : Nat} (isClaiming : (s.frees pid i).phase p = .claiming j) :
      s.phase p = .claiming j := by
    by_cases same : p = pid
    · rw [same, frees_self] at isClaiming
      cases isClaiming
    · rwa [frees_other s same] at isClaiming
  refine ⟨claims.toOwned.frees was, ?_, ?_⟩
  · exact fun p q j first second => claims.claimants p q j (claiming first) (claiming second)
  · intro p j isClaiming
    have free := marked_iff.mp (claims.free p j (claiming isClaiming))
    rw [marked_iff, valid_frees]
    split
    · cases found : s.table[j]? with
      | none => simp [found] at free
      | some client => rfl
    · exact free

/-- A slot that is read as free, and that nobody else is about to mark. -/
theorem Claims.find (claims : s.Claims) {i : Nat} (finds : s.Finds pid i)
    (alone : ∀ q, s.phase q ≠ .claiming i) : (s.goes pid (.claiming i)).Claims := by
  have claimingOf {p j : Nat} (isClaiming : (s.goes pid (.claiming i)).phase p = .claiming j) :
      p = pid ∧ j = i ∨ p ≠ pid ∧ s.phase p = .claiming j := by
    by_cases same : p = pid
    · rw [same, goes_self] at isClaiming
      cases isClaiming
      exact .inl ⟨same, rfl⟩
    · exact .inr ⟨same, by rwa [goes_other s _ same] at isClaiming⟩
  refine ⟨claims.toOwned.goes (by simp [Phase.slot]), ?_, ?_⟩
  · intro p q j first second
    rcases claimingOf first with ⟨rfl, rfl⟩ | ⟨-, firstWas⟩ <;>
      rcases claimingOf second with ⟨rfl, same⟩ | ⟨-, secondWas⟩
    · rfl
    · exact absurd secondWas (alone q)
    · exact absurd (same ▸ firstWas) (alone p)
    · exact claims.claimants p q j firstWas secondWas
  · intro p j isClaiming
    rcases claimingOf isClaiming with ⟨rfl, rfl⟩ | ⟨-, was⟩
    · exact finds.2
    · exact claims.free p j was

/-- Every step keeps it, unless it reads a slot too early. -/
theorem Claims.next (claims : s.Claims) (leads : s.Leads step t) (spaced : s.Spaced step) :
    t.Claims := by
  have owned : t.Owned := claims.toOwned.next leads (fun p i _ => claims.free p i)
  cases leads with
  | @forks pid =>
    have scanned : (s.goes pid (.scanning 0)).Claims := claims.goes (by simp [Phase.slot]) (by simp)
    exact scanned.fewer owned (fun _ => rfl) (fun _ _ has => has)
  | turnsAway | taken => exact claims.goes (by simp [Phase.slot]) (by simp)
  | free finds => exact claims.find finds (spaced _ finds)
  | claims was => exact claims.marks was
  | @enters pid i was =>
    have entered : (s.goes pid (.entered i)).Claims :=
      claims.goes (by simp [was, Phase.slot]) (by simp)
    exact entered.fewer owned (fun j => claims.valid_enters was rfl j) (fun _ _ has => has)
  | begins was | broadcasts was | exits was | hangsUp was | passes was =>
    exact claims.goes (by simp [was, Phase.slot]) (by simp)
  | @told pid i j leaves was past =>
    refine claims.goes ?_ ?_ <;> cases leaves <;> simp [was, Phase.slot]
  | @signals pid i j leaves client was found valid =>
    refine (claims.kill client.pid).goes ?_ (by simp)
    intro k has
    simp only [Logins.kill]
    split <;> (rw [was]; exact has)
  | empties was => exact claims.frees was

end Claims

/-- Nobody has a slot before the first connection. -/
theorem owned_initial : Logins.initial.Owned := by
  constructor
  · intro p i has
    cases has
  · intro p q i has
    cases has

end Logins

theorem logins_claims {events : List LoginStep} {s : Logins}
    (run : Run logins Logins.Spaced events s) : s.Claims := by
  refine run.invariant Logins.Claims ?_ ?_
  · refine ⟨Logins.owned_initial, ?_, ?_⟩
    · intro p q i claiming
      cases claiming
    · intro p i claiming
      cases claiming
  · intro s step t claims offered spaced served
    exact claims.next (Logins.next_leads (Logins.next_of_served offered served)) spaced

section Ids

variable {events : List LoginStep} {s t : Logins}

/-- The step is a marking. -/
def LoginStep.IsClaim (step : LoginStep) : Prop := ∃ pid, step = .claims pid

theorem Logins.next_claims (s : Logins) {pid i : Nat} (was : s.phase pid = .claiming i) :
    s.next (.claims pid) = some (s.marks pid i) := by
  simp [Logins.next, was]


theorem logins_next {meets : Logins → LoginStep → Prop} {step : LoginStep}
    (run : Run logins meets events s) (met : meets s step) (next : s.next step = some t) :
    Run logins meets (events ++ [step]) t := by
  refine .next run (by simp [logins, next]) met ?_
  simp [logins, next]

/-- In every run of logins in which no slot was read too early so far: the next step reads none
too early if and only if all processes have different ids when those that are about to mark their
slot have done so, in whatever order.

A slot is looked for and marked in two steps. That the condition is needed is shown by going on
from a step that does not meet it: both processes mark the slot, and have one id then. -/
theorem ids_apart_iff (run : Run logins Logins.Spaced events s) {step : LoginStep}
    (offered : logins.offers s step) : s.Spaced step ↔
      ∀ more t, (∀ later ∈ more, later.IsClaim) →
        Run logins always (events ++ step :: more) t → t.IdsApart := by
  constructor
  · intro spaced more t claims longer
    have met : Along logins Logins.Spaced s (step :: more) := by
      refine ⟨spaced, fun after _ => ?_⟩
      refine along_of_kept (fun steps _ => ∀ later ∈ steps, later.IsClaim) ?_ ?_ claims
      · intro s step rest isClaim
        obtain ⟨pid, rfl⟩ := isClaim step List.mem_cons_self
        trivial
      · exact fun s step rest after isClaim _ later member =>
          isClaim later (List.mem_cons_of_mem step member)
    exact (logins_claims (run.meeting met longer)).apart
  · intro apart
    by_contra early
    cases step with
    | reads p =>
      obtain ⟨i, finds, q, claiming⟩ : ∃ i, s.Finds p i ∧ ∃ q, s.phase q = .claiming i := by
        simpa [Logins.Spaced] using early
      have different : q ≠ p := by
        rintro rfl
        cases claiming.symm.trans finds.1
      obtain ⟨client, isClient, notValid⟩ := finds.2
      have first : s.next (.reads p) = some (s.goes p (.claiming i)) := by
        simp [Logins.next, finds.1, isClient, notValid]
      have second := (s.goes p (.claiming i)).next_claims
        ((s.goes_other _ different).trans claiming)
      have stillClaiming : ((s.goes p (.claiming i)).marks q i).phase p = .claiming i :=
        (Logins.marks_other _ different.symm).trans (s.goes_self p _)
      have third := Logins.next_claims _ stillClaiming
      have anyRun : Run logins always events s := run.weaken (fun _ _ _ => trivial)
      have longer := logins_next (logins_next (logins_next anyRun trivial first) trivial second)
        trivial third
      refine different (apart [.claims q, .claims p] _ ?_ (by simpa using longer) q p i ?_ ?_)
      · intro later member
        rcases List.mem_cons.mp member with rfl | last
        · exact ⟨q, rfl⟩
        · exact ⟨p, List.mem_singleton.mp last⟩
      · rw [Logins.marks_other _ different, Logins.marks_self]
        rfl
      · rw [Logins.marks_self]
        rfl
    | _ => exact early trivial

end Ids

/-! ## Signals -/

namespace Logins

/-- The table and the processes, as long as moreover no signal is sent for a slot too early:
every process that has got to `ClientExec` has its number in its slot, and a number in a
slot that is of no such process is zero or of one that has ended. -/
structure Sound (s : Logins) : Prop where
  claims : s.Claims
  runs : s.serverRuns = true
  alive : ∀ p, s.phase p ≠ .terminated
  zero : s.phase 0 = .absent
  records : ∀ p i, (s.phase p).record = some i → ∃ client, s.table[i]? = some client ∧
    client.pid = p
  stale : ∀ (i : Nat) client, s.table[i]? = some client → client.pid = 0 ∨
    s.phase client.pid = .gone ∨ (s.phase client.pid).record = some i
  owned : ∀ (i : Nat) client, s.table[i]? = some client → client.valid = true →
    ∃ p, (s.phase p).slot = some i

/-- The signal of one pass of `Broadcast` gets to the client whose slot it is for, unless
that has hung up, and to nobody else, and ends no process. -/
structure Reaches (s : Logins) (pid : Nat) (t : Logins) : Prop where
  runs : t.serverRuns = true
  alive : ∀ p, t.phase p ≠ .terminated
  exactly : ∀ i j leaves, s.phase pid = .telling i j leaves → ∀ q, t.caught q =
    if (s.phase q).slot = some j ∧ s.phase q ≠ .hungUp j then s.caught q + 1 else s.caught q

section Sound

variable {s t : Logins} {step : LoginStep} {pid : Nat}

theorem slot_of_record {phase : Phase} {i : Nat} (record : phase.record = some i) :
    phase.slot = some i := by
  cases phase <;> first | exact record | cases record

/-- A process goes on without getting or losing a slot or a record. -/
theorem Sound.goes (sound : s.Sound) {phase : Phase} (claims : (s.goes pid phase).Claims)
    (positive : pid ≠ 0) (slot : phase.slot = (s.phase pid).slot)
    (record : phase.record = (s.phase pid).record) (notGone : s.phase pid ≠ .gone)
    (lives : phase ≠ .terminated) : (s.goes pid phase).Sound := by
  have recordOf (p : Nat) : ((s.goes pid phase).phase p).record = (s.phase p).record := by
    by_cases same : p = pid
    · rw [same, goes_self, record]
    · rw [goes_other s _ same]
  have slotOf (p : Nat) : ((s.goes pid phase).phase p).slot = (s.phase p).slot := by
    by_cases same : p = pid
    · rw [same, goes_self, slot]
    · rw [goes_other s _ same]
  constructor
  · exact claims
  · exact sound.runs
  · intro p
    by_cases same : p = pid
    · rw [same, goes_self]
      exact lives
    · rw [goes_other s _ same]
      exact sound.alive p
  · rw [goes_other s _ positive.symm]
    exact sound.zero
  · intro p i has
    exact sound.records p i (recordOf p ▸ has)
  · intro i client found
    rw [recordOf]
    rcases sound.stale i client found with zero | gone | has
    · exact .inl zero
    · have apart : client.pid ≠ pid := by
        intro same
        exact notGone (by rwa [same] at gone)
      exact .inr (.inl (by rwa [goes_other s _ apart]))
    · exact .inr (.inr has)
  · intro i client found valid
    obtain ⟨p, has⟩ := sound.owned i client found valid
    exact ⟨p, slotOf p ▸ has⟩

theorem Sound.positive (sound : s.Sound) (there : s.phase pid ≠ .absent) : pid ≠ 0 := by
  rintro rfl
  exact there sound.zero

/-- The number in a marked slot is that of the process that has the slot, if that has come to
`ClientExec`. -/
theorem Sound.target (sound : s.Sound) {j : Nat} {client : ClientInfo}
    (found : s.table[j]? = some client) (valid : client.valid = true)
    (quiet : ∀ q, s.phase q ≠ .entering j) :
    (s.phase client.pid).record = some j ∧ client.pid ≠ 0 := by
  obtain ⟨p, has⟩ := sound.owned j client found valid
  have record : (s.phase p).record = some j := by
    have notEntering := quiet p
    cases isPhase : s.phase p <;> simp_all [Phase.slot, Phase.record]
  obtain ⟨other, isOther, isPid⟩ := sound.records p j record
  rw [found] at isOther
  cases isOther
  rw [isPid]
  refine ⟨record, sound.positive ?_⟩
  intro absent
  rw [absent] at record
  cases record

/-- A signal to a process with a handler, or to one that has hung up, ends nobody. -/
theorem kill_handled (positive : pid ≠ 0) (handled : (s.phase pid).signalled = s.phase pid) :
    (s.kill pid).serverRuns = s.serverRuns ∧ (s.kill pid).phase = s.phase := by
  constructor
  · simp [kill, positive]
  · funext p
    simp only [kill, positive, false_or]
    split
    · rename_i same
      rw [same, handled]
    · rfl

/-- What a pass of `Broadcast` makes of the state, as long as all clients it signals have come to
`ClientExec`: the handler of the one that the slot is for has caught a signal, and nobody else
has. A slot of one that has hung up or gone has a number that nobody else has. -/
theorem Sound.tells (sound : s.Sound) (leads : s.Leads (.tells pid) t)
    (quiet : s.Quiet (.tells pid)) : t.Sound ∧ Reaches s pid t := by
  have claims := sound.claims.next leads trivial
  -- nobody has a slot that is not marked
  have nobody {j : Nat} (unmarked : ∀ client, s.table[j]? = some client → client.valid = false)
      (q : Nat) : (s.phase q).slot ≠ some j := by
    intro has
    obtain ⟨client, found, valid⟩ := sound.claims.held q j has
    rw [unmarked client found] at valid
    cases valid
  cases leads with
  | @told pid i j leaves was past =>
    have went : (s.goes pid (if leaves then .leaving i else .serving i)).Sound := by
      refine sound.goes claims (sound.positive (by simp [was])) ?_ ?_ (by simp [was]) ?_ <;>
        cases leaves <;> simp [was, Phase.slot, Phase.record]
    refine ⟨went, went.runs, went.alive, ?_⟩
    intro i' j' leaves' alsoWas q
    cases was.symm.trans alsoWas
    change s.caught q = _
    rw [if_neg (fun has => nobody (by simp [past]) q has.1)]
  | @passes pid i j leaves client was found notValid =>
    have went : (s.goes pid (.telling i (j + 1) leaves)).Sound :=
      sound.goes claims (sound.positive (by simp [was])) (by simp [was, Phase.slot])
        (by simp [was, Phase.record]) (by simp [was]) (by simp)
    refine ⟨went, went.runs, went.alive, ?_⟩
    intro i' j' leaves' alsoWas q
    cases was.symm.trans alsoWas
    change s.caught q = _
    rw [if_neg (fun has => nobody (by simp [found, notValid]) q has.1)]
  | @signals pid i j leaves client was found valid =>
    have ready (q : Nat) := quiet i j leaves was q
    obtain ⟨record, positive⟩ := sound.target found valid (fun q => (ready q).1)
    have notEntered := (ready client.pid).2
    have handled : (s.phase client.pid).signalled = s.phase client.pid := by
      cases isPhase : s.phase client.pid <;> simp_all [Phase.record, Phase.signalled]
    have handles : (s.phase client.pid).handles = true ↔ s.phase client.pid ≠ .hungUp j := by
      cases isPhase : s.phase client.pid <;> simp_all [Phase.record, Phase.handles]
    obtain ⟨serverRuns, phase⟩ := kill_handled positive handled
    have same : ∀ q, ((s.kill client.pid).goes pid (.telling i (j + 1) leaves)).phase q =
        (s.goes pid (.telling i (j + 1) leaves)).phase q := by
      intro q
      simp only [Logins.goes, phase]
    have went : (s.goes pid (.telling i (j + 1) leaves)).Sound := by
      refine sound.goes ?_ (sound.positive (by simp [was])) (by simp [was, Phase.slot])
        (by simp [was, Phase.record]) (by simp [was]) (by simp)
      exact sound.claims.goes (by simp [was, Phase.slot]) (by simp)
    have after : ((s.kill client.pid).goes pid (.telling i (j + 1) leaves)).Sound := by
      constructor
      · exact claims
      · exact serverRuns.trans sound.runs
      · exact fun q => same q ▸ went.alive q
      · exact (same 0).trans went.zero
      · exact fun q k has => went.records q k (same q ▸ has)
      · intro k other isOther
        rw [same]
        exact went.stale k other isOther
      · intro k other isOther marked
        obtain ⟨q, has⟩ := went.owned k other isOther marked
        exact ⟨q, (same q).symm ▸ has⟩
    refine ⟨after, after.runs, after.alive, ?_⟩
    intro i' j' leaves' alsoWas q
    cases was.symm.trans alsoWas
    have exactly : (client.pid = 0 ∨ q = client.pid) ∧ (s.phase q).handles = true ↔
        (s.phase q).slot = some j ∧ s.phase q ≠ .hungUp j := by
      constructor
      · rintro ⟨zero | rfl, caught⟩
        · exact absurd zero positive
        · exact ⟨slot_of_record record, handles.mp caught⟩
      · rintro ⟨has, stays⟩
        obtain rfl := sound.claims.apart q client.pid j has (slot_of_record record)
        exact ⟨.inr rfl, handles.mpr stays⟩
    change (if (client.pid = 0 ∨ q = client.pid) ∧ (s.phase q).handles = true then s.caught q + 1
      else s.caught q) = _
    simp only [exactly]

/-- A pass of `Broadcast` that signals too early does not reach its client: its process is ended,
or the signal goes to another process, or the number in the slot is still 0 and it goes to all. -/
theorem Sound.reaches_quiet (sound : s.Sound) (leads : s.Leads (.tells pid) t)
    (reaches : Reaches s pid t) : s.Quiet (.tells pid) := by
  intro i j leaves was q
  -- a process that has a slot but has not come to `ClientExec` is due a signal
  have due (has : (s.phase q).slot = some j) (stays : s.phase q ≠ .hungUp j) :
      ∃ client, s.table[j]? = some client ∧
        t = (s.kill client.pid).goes pid (.telling i (j + 1) leaves) ∧
          t.caught q = s.caught q + 1 := by
    have caught := reaches.exactly i j leaves was q
    rw [if_pos ⟨has, stays⟩] at caught
    obtain ⟨client, found, valid⟩ := sound.claims.held q j has
    cases leads with
    | told alsoWas past =>
      cases was.symm.trans alsoWas
      rw [found] at past
      cases past
    | passes alsoWas alsoFound notValid =>
      cases was.symm.trans alsoWas
      cases found.symm.trans alsoFound
      rw [valid] at notValid
      cases notValid
    | signals alsoWas alsoFound =>
      cases was.symm.trans alsoWas
      cases found.symm.trans alsoFound
      exact ⟨client, found, rfl, caught⟩
  constructor
  · intro entering
    obtain ⟨client, -, rfl, caught⟩ := due (by rw [entering]; rfl) (by rw [entering]; simp)
    have none : ((s.kill client.pid).goes pid (.telling i (j + 1) leaves)).caught q = s.caught q := by
      simp [Logins.goes, Logins.kill, entering, Phase.handles]
    omega
  · intro entered
    obtain ⟨client, found, rfl, -⟩ := due (by rw [entered]; rfl) (by rw [entered]; simp)
    obtain ⟨other, isOther, isPid⟩ := sound.records q j (by rw [entered]; rfl)
    rw [found] at isOther
    cases isOther
    have different : q ≠ pid := by
      rintro rfl
      cases was.symm.trans entered
    apply reaches.alive q
    rw [goes_other _ _ different]
    simp [Logins.kill, isPid, entered, Phase.signalled]

/-- Marking a slot, and emptying it, leave the numbers in the table as they are. -/
theorem pid_modify {table : List ClientInfo} {i j : Nat} {mark : Bool} {client : ClientInfo} :
    (table.modify i (fun client => { client with valid := mark }))[j]? = some client ↔
      ∃ old, table[j]? = some old ∧
        client = if i = j then { old with valid := mark } else old := by
  rw [List.getElem?_modify]
  cases table[j]? <;> by_cases same : i = j <;> simp [same, eq_comm]

/-- Marking a slot keeps the numbers in the table as they are; what the slot has from before is
the number of a process that has gone, or 0. -/
theorem Sound.marks (sound : s.Sound) {i : Nat} (was : s.phase pid = .claiming i) :
    (s.marks pid i).Sound := by
  have recordOf (p : Nat) : ((s.marks pid i).phase p).record = (s.phase p).record := by
    by_cases same : p = pid
    · rw [same, marks_self, was]
      rfl
    · rw [marks_other s same]
  constructor
  · exact sound.claims.marks was
  · exact sound.runs
  · intro p
    by_cases same : p = pid
    · rw [same, marks_self]
      simp
    · rw [marks_other s same]
      exact sound.alive p
  · rw [marks_other s (sound.positive (by simp [was])).symm]
    exact sound.zero
  · intro p j has
    obtain ⟨client, found, isPid⟩ := sound.records p j (recordOf p ▸ has)
    refine ⟨_, pid_modify.mpr ⟨client, found, rfl⟩, ?_⟩
    split <;> exact isPid
  · intro j client found
    obtain ⟨old, isOld, rfl⟩ := pid_modify.mp found
    have number : (if i = j then { old with valid := true } else old).pid = old.pid := by
      split <;> rfl
    rw [number, recordOf]
    rcases sound.stale j old isOld with zero | gone | has
    · exact .inl zero
    · have apart : old.pid ≠ pid := by
        intro same
        rw [same, was] at gone
        cases gone
      exact .inr (.inl (by rwa [marks_other s apart]))
    · exact .inr (.inr has)
  · intro j client found valid
    obtain ⟨old, isOld, rfl⟩ := pid_modify.mp found
    by_cases same : i = j
    · exact ⟨pid, by rw [marks_self, same]; rfl⟩
    · rw [if_neg same] at valid
      obtain ⟨p, has⟩ := sound.owned j old isOld valid
      have apart : p ≠ pid := by
        rintro rfl
        rw [was] at has
        cases has
      exact ⟨p, by rwa [marks_other s apart]⟩

/-- Giving a slot back leaves the number of the process in it, which is then one of a process that
is gone. -/
theorem Sound.frees (sound : s.Sound) {i : Nat} (was : s.phase pid = .leaving i) :
    (s.frees pid i).Sound := by
  have mine : (s.phase pid).slot = some i := by rw [was]; rfl
  constructor
  · exact sound.claims.frees was
  · exact sound.runs
  · intro p
    by_cases same : p = pid
    · rw [same, frees_self]
      simp
    · rw [frees_other s same]
      exact sound.alive p
  · rw [frees_other s (sound.positive (by simp [was])).symm]
    exact sound.zero
  · intro p j has
    have apart : p ≠ pid := by
      rintro rfl
      rw [frees_self] at has
      cases has
    rw [frees_other s apart] at has
    obtain ⟨client, found, isPid⟩ := sound.records p j has
    refine ⟨_, pid_modify.mpr ⟨client, found, rfl⟩, ?_⟩
    split <;> exact isPid
  · intro j client found
    obtain ⟨old, isOld, rfl⟩ := pid_modify.mp found
    have number : (if i = j then { old with valid := false } else old).pid = old.pid := by
      split <;> rfl
    rw [number]
    by_cases same : old.pid = pid
    · exact .inr (.inl (by rw [same, frees_self]))
    · rw [frees_other s same]
      exact sound.stale j old isOld
  · intro j client found valid
    obtain ⟨old, isOld, rfl⟩ := pid_modify.mp found
    by_cases same : i = j
    · simp [same] at valid
    · rw [if_neg same] at valid
      obtain ⟨p, has⟩ := sound.owned j old isOld valid
      have apart : p ≠ pid := by
        rintro rfl
        rw [mine] at has
        exact same (Option.some.inj has)
      exact ⟨p, by rwa [frees_other s apart]⟩

/-- `AddClient` writes the record, and with it the number of the process into its own slot. It was
in no slot before. -/
theorem Sound.enters (sound : s.Sound) {i : Nat} (was : s.phase pid = .entering i)
    (claims : t.Claims) (isNext : t = { s.goes pid (.entered i) with
      table := s.table.set i
        ⟨true, pid, i + 1, str "(no name)", (s.address pid).1, (s.address pid).2⟩ }) : t.Sound := by
  subst isNext
  have mine : (s.phase pid).slot = some i := by rw [was]; rfl
  obtain ⟨client, isClient, -⟩ := sound.claims.held pid i mine
  have inside := (List.getElem?_eq_some_iff.mp isClient).1
  -- the number of the process is in no slot yet
  have unwritten {j : Nat} {old : ClientInfo} (found : s.table[j]? = some old) : old.pid ≠ pid := by
    rintro rfl
    rcases sound.stale j old found with zero | gone | has
    · exact sound.positive (by simp [was]) zero
    · rw [was] at gone
      cases gone
    · rw [was] at has
      cases has
  constructor
  · exact claims
  · exact sound.runs
  · intro p
    by_cases same : p = pid
    · subst same
      change (s.goes p (.entered i)).phase p ≠ .terminated
      simp
    · change (s.goes pid (.entered i)).phase p ≠ .terminated
      rw [goes_other s _ same]
      exact sound.alive p
  · exact (goes_other s _ (sound.positive (by simp [was])).symm).trans sound.zero
  · intro p j has
    by_cases same : p = pid
    · subst same
      rw [goes_self] at has
      cases has
      exact ⟨_, List.getElem?_set_self inside, rfl⟩
    · rw [goes_other s _ same] at has
      have other : i ≠ j := by
        rintro rfl
        exact same (sound.claims.apart p pid i (slot_of_record has) mine)
      obtain ⟨old, found, isPid⟩ := sound.records p j has
      exact ⟨old, (List.getElem?_set_ne other).trans found, isPid⟩
  · intro j old found
    by_cases same : i = j
    · subst same
      cases (List.getElem?_set_self inside).symm.trans found
      exact .inr (.inr (by rw [goes_self]; rfl))
    · have isOld := (List.getElem?_set_ne same).symm.trans found
      rw [goes_other s _ (unwritten isOld)]
      exact sound.stale j old isOld
  · intro j old found valid
    by_cases same : i = j
    · exact ⟨pid, by rw [goes_self, same]; rfl⟩
    · have isOld := (List.getElem?_set_ne same).symm.trans found
      obtain ⟨p, has⟩ := sound.owned j old isOld valid
      have apart : p ≠ pid := by
        rintro rfl
        rw [mine] at has
        exact same (Option.some.inj has)
      exact ⟨p, by rwa [goes_other s _ apart]⟩

/-- Every step keeps it, unless it reads a slot or sends a signal too early. -/
theorem Sound.next (sound : s.Sound) (leads : s.Leads step t) (spaced : s.Spaced step)
    (quiet : s.Quiet step) : t.Sound := by
  have claims := sound.claims.next leads spaced
  cases leads with
  | forks runs positive absent =>
    have scanned : (s.goes _ (.scanning 0)).Sound :=
      sound.goes (sound.claims.goes (by simp [Phase.slot]) (by simp)) positive
        (by simp [absent, Phase.slot]) (by simp [absent, Phase.record]) (by simp [absent]) (by simp)
    exact ⟨claims, scanned.runs, scanned.alive, scanned.zero, scanned.records,
      scanned.stale, scanned.owned⟩
  | turnsAway was | taken was | begins was | broadcasts was | exits was | hangsUp was =>
    exact sound.goes claims (sound.positive (by simp [was])) (by simp [was, Phase.slot])
      (by simp [was, Phase.record]) (by simp [was]) (by simp)
  | free finds =>
    exact sound.goes claims (sound.positive (by simp [finds.1])) (by simp [finds.1, Phase.slot])
      (by simp [finds.1, Phase.record]) (by simp [finds.1]) (by simp)
  | claims was => exact sound.marks was
  | enters was => exact sound.enters was claims rfl
  | told was past => exact (sound.tells (.told was past) quiet).1
  | passes was found notValid => exact (sound.tells (.passes was found notValid) quiet).1
  | signals was found valid => exact (sound.tells (.signals was found valid) quiet).1
  | empties was => exact sound.frees was

end Sound

end Logins

theorem logins_sound {events : List LoginStep} {s : Logins}
    (run : Run logins (fun s step => s.Spaced step ∧ s.Quiet step) events s) : s.Sound := by
  refine run.invariant Logins.Sound ?_ ?_
  · constructor
    · exact logins_claims .start
    · rfl
    · intro p
      change Phase.absent ≠ _
      simp
    · rfl
    · intro p i has
      cases has
    · intro i client found
      obtain ⟨inside, rfl⟩ := List.getElem?_eq_some_iff.mp found
      simp [logins, Logins.initial, Server.initial]
    · intro i client found valid
      obtain ⟨inside, rfl⟩ := List.getElem?_eq_some_iff.mp found
      simp [logins, Logins.initial, Server.initial] at valid
  · intro s step t sound offered met served
    exact sound.next (Logins.next_leads (Logins.next_of_served offered served)) met.1 met.2

/-- In every run of logins in which no slot has been read and no signal sent too early, the server
runs and no process has been ended by a signal, and a pass of `Broadcast` reaches exactly the
client it is meant for if and only if the process of that client has come to `ClientExec`.

Before that there is no handler, and the signal ends the process; and before the server has stored
its child's number, the record of the slot has the number of somebody else, or none. -/
theorem signals_reach_their_clients {events : List LoginStep} {s : Logins}
    (run : Run logins (fun s step => s.Spaced step ∧ s.Quiet step) events s) :
    s.serverRuns = true ∧ (∀ p, s.phase p ≠ .terminated) ∧
      ∀ pid t, s.next (.tells pid) = some t → (s.Reaches pid t ↔ s.Quiet (.tells pid)) := by
  have sound := logins_sound run
  refine ⟨sound.runs, sound.alive, ?_⟩
  intro pid t next
  have leads := Logins.next_leads next
  exact ⟨sound.reaches_quiet leads, fun quiet => (sound.tells leads quiet).2⟩

/-! ## Connections that are closed -/

/-- A process that has come to the end of its input stays where it is. -/
theorem Logins.Leads.hungUp {s t : Logins} {step : LoginStep} {p i : Nat} (leads : s.Leads step t)
    (hung : s.phase p = .hungUp i) : t.phase p = .hungUp i := by
  have kept {pid : Nat} {phase : Phase} (was : s.phase pid ≠ .hungUp i) :
      (s.goes pid phase).phase p = .hungUp i := by
    have apart : p ≠ pid := by
      rintro rfl
      exact was hung
    rw [Logins.goes_other s _ apart, hung]
  cases leads with
  | forks _ _ was | turnsAway was | taken was | claims was | enters was | begins was
  | broadcasts was | told was | passes was | exits was | empties was =>
    exact kept (by simp [was])
  | free finds => exact kept (by simp [finds.1])
  | @hangsUp pid j was =>
    exact kept (by simp [was])
  | @signals pid k j leaves client was found valid =>
    have apart : p ≠ pid := by
      rintro rfl
      cases was.symm.trans hung
    rw [Logins.goes_other _ _ apart]
    simp only [Logins.kill, hung]
    split <;> rfl

/-- The process that a step forks, or that takes it. -/
def LoginStep.pid : LoginStep → Nat
  | .forks pid _ _ | .reads pid | .claims pid | .enters pid | .begins pid | .broadcasts pid
  | .tells pid | .exits pid | .empties pid | .hangsUp pid => pid

/-- No slot is read and no signal is sent too early, as far as some processes go. -/
def Logins.timely (pids : List Nat) (s : Logins) : LoginStep → Bool
  | .reads pid =>
    match s.phase pid with
    | .scanning i =>
      (s.table[i]?).all ClientInfo.valid || pids.all (fun q => s.phase q ≠ .claiming i)
    | _ => true
  | .tells pid =>
    match s.phase pid with
    | .telling _ j _ => pids.all (fun q => s.phase q ≠ .entering j && s.phase q ≠ .entered j)
    | _ => true
  | _ => true

/-- A step of one of these processes, not too early for the others. -/
def Logins.Among (pids : List Nat) (s : Logins) (step : LoginStep) : Prop :=
  step.pid ∈ pids ∧ s.timely pids step = true

instance (pids : List Nat) (s : Logins) (step : LoginStep) : Decidable (s.Among pids step) :=
  inferInstanceAs (Decidable (_ ∧ _))

section Among

variable {pids : List Nat} {s t : Logins} {step : LoginStep}

/-- Nobody but these processes has been forked. -/
theorem Logins.Leads.absent (leads : s.Leads step t) (isOne : step.pid ∈ pids)
    (others : ∀ q, q ∉ pids → s.phase q = .absent) :
    ∀ q, q ∉ pids → t.phase q = .absent := by
  intro q outside
  have kept {pid : Nat} {phase : Phase} {s : Logins} (isPid : pid ∈ pids)
      (was : s.phase q = .absent) : (s.goes pid phase).phase q = .absent := by
    have apart : q ≠ pid := by
      rintro rfl
      exact outside isPid
    rw [Logins.goes_other s _ apart, was]
  cases leads with
  | forks | turnsAway | taken | free | claims | enters | begins | broadcasts | told | passes | exits
  | empties | hangsUp => exact kept isOne (others q outside)
  | @signals pid i j leaves client =>
    refine kept isOne ?_
    simp only [Logins.kill, others q outside]
    split <;> rfl

/-- It is enough to look at the processes that have been forked: no other one has a phase that a
condition could ask about. This makes the conditions decidable in a run. -/
theorem run_among {events : List LoginStep} (run : Run logins (Logins.Among pids) events s) :
    Run logins (fun s step => s.Spaced step ∧ s.Quiet step) events s := by
  suffices both : Run logins (fun s step => s.Spaced step ∧ s.Quiet step) events s ∧
      ∀ q, q ∉ pids → s.phase q = .absent from both.1
  induction run with
  | start => exact ⟨.start, fun _ _ => rfl⟩
  | @next events s t step before offered met served ih =>
    obtain ⟨earlier, others⟩ := ih
    have leads := Logins.next_leads (Logins.next_of_served offered served)
    refine ⟨.next earlier offered ⟨?_, ?_⟩ served, leads.absent met.1 others⟩
    · cases step with
      | reads pid =>
        rintro i ⟨was, client, found, notValid⟩ q claiming
        have timely := met.2
        simp only [Logins.timely, was, found, Option.all_some, notValid, Bool.false_or,
          List.all_eq_true, decide_eq_true_eq] at timely
        by_cases inside : q ∈ pids
        · exact timely q inside claiming
        · rw [others q inside] at claiming
          cases claiming
      | _ => trivial
    · cases step with
      | tells pid =>
        intro i j leaves was q
        have timely := met.2
        simp only [Logins.timely, was, List.all_eq_true, Bool.and_eq_true, decide_eq_true_eq]
          at timely
        by_cases inside : q ∈ pids
        · exact timely q inside
        · simp [others q inside]
      | _ => trivial

end Among

/-! ## A login on its own -/

/-- The steps of a login that finds its slot at once. -/
def loginSteps (pid : Nat) (userIp : Str) (port slot : Nat) : List LoginStep :=
  .forks pid userIp port :: (List.replicate (slot + 1) (.reads pid) ++ [.claims pid, .enters pid])

section Alone

variable {s t : Logins}

theorem play_next {step : LoginStep} (next : s.next step = some t) (rest : List LoginStep) :
    play logins always s (step :: rest) = play logins always t rest := by
  have offered : logins.offers s step := by simp [logins, next]
  have served : logins.serve s step = .ok t := by simp [logins, next]
  rw [play, if_pos ⟨offered, trivial⟩, served]

theorem Logins.goes_goes (s : Logins) (pid : Nat) (first second : Phase) :
    (s.goes pid first).goes pid second = s.goes pid second := by
  simp [Logins.goes]

/-- The slots that are taken are passed over. -/
theorem play_reads {pid : Nat} (count j : Nat) (rest : List LoginStep)
    (taken : ∀ k, j ≤ k → k < j + count → ∃ client, s.table[k]? = some client ∧
      client.valid = true) :
    play logins always (s.goes pid (.scanning j)) (List.replicate count (.reads pid) ++ rest) =
      play logins always (s.goes pid (.scanning (j + count))) rest := by
  induction count generalizing j with
  | zero => rfl
  | succ count ih =>
    obtain ⟨client, found, valid⟩ := taken j (Nat.le_refl j) (by omega)
    have read : (s.goes pid (.scanning j)).next (.reads pid) =
        some (s.goes pid (.scanning (j + 1))) := by
      have inTable : (s.goes pid (.scanning j)).table[j]? = some client := found
      simp only [Logins.next, Logins.goes_self, inTable, valid, if_true, Logins.goes_goes]
    rw [List.replicate_succ, List.cons_append, play_next read,
      ih (j + 1) (fun k low high => taken k (by omega) (by omega)), Nat.add_right_comm, Nat.add_assoc]

/-- A login that nobody disturbs is the login of the system of lines: it takes the first slot that
is free, and leaves the same table. Its steps are a fork, a read of each slot up to the free one,
the marking and the record. -/
theorem login_alone {g : Server} (same : s.table = g.table) {pid : Nat} {userIp : Str} {port : Nat}
    (possible : logins.offers s (.forks pid userIp port)) {slot : Nat}
    (free : g.freeSlot = some slot) : ∃ t entered,
      play logins always s (loginSteps pid userIp port slot) = some t ∧
      g.login slot pid userIp port = .ok entered ∧ t.table = entered.table ∧
      t.phase = Function.update s.phase pid (.entered slot) := by
  obtain ⟨inside, isFree, before⟩ := List.findIdx?_eq_some_iff_getElem.mp free
  obtain ⟨runs, positive, absent⟩ : s.serverRuns = true ∧ pid ≠ 0 ∧ s.phase pid = .absent := by
    by_contra impossible
    simp [logins, Logins.next, impossible] at possible
  let base : Logins := { s with address := Function.update s.address pid (userIp, port) }
  let client : ClientInfo := ⟨true, pid, slot + 1, str "(no name)", userIp, port⟩
  have forked : s.next (.forks pid userIp port) = some (base.goes pid (.scanning 0)) := by
    simp only [Logins.next, if_pos (show s.serverRuns = true ∧ pid ≠ 0 ∧ s.phase pid = .absent from
      ⟨runs, positive, absent⟩)]
    rfl
  have taken : ∀ k, 0 ≤ k → k < 0 + slot → ∃ client, base.table[k]? = some client ∧
      client.valid = true := by
    intro k _ below
    have inRange : k < g.table.length := by omega
    refine ⟨g.table[k], ?_, by simpa using before k (by omega)⟩
    change s.table[k]? = _
    rw [same, List.getElem?_eq_getElem inRange]
  have found : (base.goes pid (.scanning slot)).next (.reads pid) =
      some (base.goes pid (.claiming slot)) := by
    have inTable : (base.goes pid (.scanning slot)).table[slot]? = some g.table[slot] := by
      change s.table[slot]? = _
      rw [same, List.getElem?_eq_getElem inside]
    have notValid : g.table[slot].valid = false := by simpa using isFree
    simp [Logins.next, inTable, notValid, Logins.goes_goes]
  have marked := (base.goes pid (.claiming slot)).next_claims (base.goes_self pid (.claiming slot))
  have entered := (Logins.marks_self (base.goes pid (.claiming slot)) pid slot)
  let last : Logins := { (base.goes pid (.entered slot)) with table := s.table.set slot client }
  have enters : ((base.goes pid (.claiming slot)).marks pid slot).next (.enters pid) = some last := by
    have twice : (s.table.modify slot (fun client => { client with valid := true })).set slot client =
        s.table.set slot client := by
      apply List.ext_getElem?
      intro k
      by_cases here : slot = k <;> simp [List.getElem?_set, here]
    simp only [Logins.next, entered]
    simp [Logins.marks, Logins.goes, last, base, client, twice]
  obtain ⟨left, isLogin, table⟩ : ∃ left, g.login slot pid userIp port = .ok left ∧
      left.table = g.table.set slot client := by
    rw [Server.login, Server.broadcast]
    split
    · exact ⟨_, rfl, rfl⟩
    · exact ⟨_, rfl, rfl⟩
  refine ⟨last, left, ?_, isLogin, ?_, rfl⟩
  · rw [loginSteps, List.replicate_succ', List.append_assoc, List.singleton_append, play_next forked,
      play_reads slot 0 _ taken, Nat.zero_add, play_next found, play_next marked, play_next enters]
    rfl
  · rw [table, ← same]

end Alone
/-! ## Logins that go wrong -/

/-- Two connections have been accepted, and the first process has found the first slot. -/
def twoConnections : List LoginStep :=
  [.forks 7 (str "127.0.0.1") 4001, .forks 8 (str "127.0.0.1") 4002, .reads 7]

/-- The second process can read the slot before it is marked, and both get the first id. -/
theorem ids_apart_iff_twoConnections : ∃ s more t, Run logins Logins.Spaced twoConnections s ∧
    Run logins always (twoConnections ++ .reads 8 :: more) t ∧ ¬ t.IdsApart := by
  have plays : ((play logins (Logins.Among [7, 8]) logins.start twoConnections).map (fun s =>
      decide (s.phase 7 = .claiming 0 ∧ s.phase 8 = .scanning 0 ∧
        (s.table[0]?).map ClientInfo.valid = some false))) = some true := by decide +kernel
  obtain ⟨s, played, facts⟩ := Option.map_eq_some_iff.mp plays
  obtain ⟨claiming, scanning, free⟩ := of_decide_eq_true facts
  obtain ⟨client, found, notValid⟩ := Option.map_eq_some_iff.mp free
  have run : Run logins Logins.Spaced twoConnections s :=
    (run_among (Run.played _ s played)).weaken (fun _ _ met => met.1)
  have offered : logins.offers s (.reads 8) := by simp [logins, Logins.next, scanning, found]
  have tooEarly : ¬ s.Spaced (.reads 8) :=
    fun spaced => spaced 0 ⟨scanning, client, found, notValid⟩ 7 claiming
  rw [ids_apart_iff run offered] at tooEarly
  push Not at tooEarly
  obtain ⟨more, t, -, longer, shared⟩ := tooEarly
  exact ⟨s, more, t, run, longer, shared⟩

/-- One client announces its login while the process of another has marked its slot. -/
def overlapping : List LoginStep :=
  [.forks 7 (str "127.0.0.1") 4001, .reads 7, .claims 7, .enters 7, .begins 7,
    .forks 8 (str "127.0.0.1") 4002, .reads 8, .reads 8, .claims 8, .tells 7]

/-- The next signal is for the number zero, and ends the server. -/
theorem signals_reach_their_clients_overlapping : ∃ s t,
    Run logins (fun s step => s.Spaced step ∧ s.Quiet step) overlapping s ∧
      s.next (.tells 7) = some t ∧ ¬ s.Reaches 7 t ∧ t.serverRuns = false := by
  have plays : ((play logins (Logins.Among [7, 8]) logins.start overlapping).map (fun s =>
      decide (s.phase 7 = .telling 0 1 false ∧ s.phase 8 = .entering 1 ∧
        (s.next (.tells 7)).map Logins.serverRuns = some false))) = some true := by decide +kernel
  obtain ⟨s, played, facts⟩ := Option.map_eq_some_iff.mp plays
  obtain ⟨telling, entering, ends⟩ := of_decide_eq_true facts
  obtain ⟨t, next, stopped⟩ := Option.map_eq_some_iff.mp ends
  have run := run_among (Run.played _ s played)
  refine ⟨s, t, run, next, ?_, stopped⟩
  rw [(signals_reach_their_clients run).2.2 7 t next]
  intro quiet
  exact (quiet 0 1 false telling 8).1 entering

/-- A client logs in and closes its connection. -/
def closedConnection : List LoginStep :=
  [.forks 7 (str "127.0.0.1") 4001, .reads 7, .claims 7, .enters 7, .begins 7] ++
    List.replicate 31 (.tells 7) ++ [.hangsUp 7]

end NetProg.MultiProc
