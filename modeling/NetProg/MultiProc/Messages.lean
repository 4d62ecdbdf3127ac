import NetProg.MultiProc.State
import NetProg.Library.Runs
import Mathlib.Logic.Function.Basic
import Mathlib.Data.List.Nodup

/-!
# The message cell

A client process that has something to tell the others writes it into the one
message in shared memory and sends a signal to each process it is meant for. The
handler of the signal prints the message that is there when it runs. A signal that
is pending already is not sent a second time.

Every message is delivered once and in order as long as a client writes only when
nobody has to print the message before: no signal for it is outstanding, and none
is left to be sent. A message written any earlier replaces one that is not printed
by everybody, and is printed in its place.

The clients do not change here, and a message is written and printed at once.
-/

namespace NetProg.MultiProc

open Runs

/-- The address of a client in a message. -/
def address (client : ClientInfo) : Str := client.userIp ++ str ":" ++ decimal client.port

/-- A client with its id in a message. -/
def named (client : ClientInfo) : Str :=
  client.userName ++ str " (#" ++ decimal client.id ++ str ")"

/-- `send_msg`, for the records of the caller and of the client the call names. -/
def sendMsg (curCli targetCli : ClientInfo) : Announcement → Str
  | .login => str "*** User '(no name)' entered from " ++ address curCli ++ str ". ***\n"
  | .logout => str "*** User '" ++ curCli.userName ++ str "' left. ***\n"
  | .name =>
    str "*** User from " ++ address curCli ++ str " is named '" ++ curCli.userName ++ str "'. ***\n"
  | .yell msg => str "*** " ++ curCli.userName ++ str " yelled ***: " ++ msg ++ str "\n"
  | .send msg _ => str "*** " ++ named curCli ++ str " just piped '" ++ msg ++ str "' to " ++
      named targetCli ++ str " ***\n"
  | .recv msg _ => str "*** " ++ named curCli ++ str " just received from " ++ named targetCli ++
      str " by '" ++ msg ++ str "' ***\n"
  | .tell msg _ => str "*** " ++ curCli.userName ++ str " told you ***: " ++ msg ++ str "\n"

/-- The ids of the processes a call sends the signal to, in its order: those of the
valid slots, or the one client that is told. -/
def recipients (table : List ClientInfo) (call : Announcement) : List Nat :=
  match call with
  | .tell _ targetId => [targetId]
  | _ => (List.range maxClientSize).filterMap (fun i =>
      (table[i]?).bind (fun client => if client.valid then some (i + 1) else none))

/-- The text in the cell, and the number of the call that wrote it. The number is not in the
source; it tells a text from an equal one that was written later. -/
structure Message where
  text : Str
  number : Nat
  deriving DecidableEq

/-- The cell; the signals each process has still to send in its call; the processes
with a signal pending; what each has printed. Every message written so far is kept
with the ids it was meant for. -/
structure Messaging where
  cell : Message
  sending : Nat → List Nat
  pending : Nat → Bool
  printed : Nat → List Message
  written : List (Message × List Nat)

/-- Before the first call. -/
def Messaging.initial : Messaging := ⟨⟨[], 0⟩, fun _ => [], fun _ => false, fun _ => [], []⟩

/-- What happens next: a client calls, writing the cell; a call sends its next
signal; a pending signal is handled. -/
inductive Step where
  | write (curId : Nat) (call : Announcement)
  | signal (curId : Nat)
  | handle (id : Nat)

/-- The message a call writes. The text is what `sprintf` copies. -/
def Messaging.message (table : List ClientInfo) (s : Messaging) (curId : Nat) (call : Announcement) :
    Option Message := do
  let curCli ← getClientByID table curId
  let targetCli ← getClientByID table (call.targetId.getD curId)
  return ⟨cstr (sendMsg curCli targetCli call), s.written.length + 1⟩

/-- The steps of `Broadcast`, `BroadcastOne` and `SigHandler`. -/
def Messaging.step (table : List ClientInfo) (s : Messaging) : Step → Messaging
  | .write curId call =>
    match s.message table curId call with
    | some message => { s with
        cell := message
        sending := Function.update s.sending curId (recipients table call)
        written := s.written ++ [(message, recipients table call)] }
    | none => s
  | .signal curId =>
    match s.sending curId with
    | id :: rest => { s with
        sending := Function.update s.sending curId rest
        pending := Function.update s.pending id true }
    | [] => s
  | .handle id => { s with
      pending := Function.update s.pending id false
      printed := Function.update s.printed id (s.printed id ++ [s.cell]) }

/-- A client calls when it has finished its last call, and names a client that is
there; signals are sent and handled when there are any. -/
def Messaging.Possible (table : List ClientInfo) (s : Messaging) : Step → Prop
  | .write curId call => s.sending curId = [] ∧ (s.message table curId call).isSome = true
  | .signal curId => s.sending curId ≠ []
  | .handle id => s.pending id = true

instance decidablePossible (table : List ClientInfo) (s : Messaging) :
    (step : Step) → Decidable (s.Possible table step)
  | .write curId call => inferInstanceAs (Decidable
      (s.sending curId = [] ∧ (s.message table curId call).isSome = true))
  | .signal curId => inferInstanceAs (Decidable (s.sending curId ≠ []))
  | .handle id => inferInstanceAs (Decidable (s.pending id = true))

/-- The processes of the logged-in clients with their handlers, in any order. Whether a client
writes while others still have a message to print is left to the run. -/
def messaging (table : List ClientInfo) : System Messaging Step Empty where
  start := .initial
  offers := Messaging.Possible table
  serve s step := .ok (s.step table step)

instance (table : List ClientInfo) (s : Messaging) (step : Step) :
    Decidable ((messaging table).offers s step) :=
  inferInstanceAs (Decidable (s.Possible table step))

/-- A process has a message to print: its signal is pending or is yet to be sent. -/
def Messaging.Owes (s : Messaging) (id : Nat) : Prop :=
  s.pending id = true ∨ ∃ curId, id ∈ s.sending curId

/-- The messages meant for a process, in the order they were written. -/
def Messaging.addressed (s : Messaging) (id : Nat) : List Message :=
  (s.written.filter (fun entry => entry.2.contains id)).map Prod.fst

/-- Each process has printed the messages meant for it, each once, in the order they
were written and no others; at most the last is still to be printed, and that one is
still in the cell. -/
def Messaging.Delivered (s : Messaging) : Prop :=
  ∀ id, (¬ s.Owes id → s.printed id = s.addressed id) ∧
    (s.Owes id → s.printed id ++ [s.cell] = s.addressed id)

/-- A client writes only when no process has a message to print. -/
def Messaging.Waits (s : Messaging) : Step → Prop
  | .write _ _ => ∀ id, ¬ s.Owes id
  | .signal _ => True
  | .handle _ => True

/-- No process gets two signals from one call. -/
theorem recipients_nodup (table : List ClientInfo) (call : Announcement) :
    (recipients table call).Nodup := by
  rw [recipients.eq_def]
  split
  · exact List.nodup_singleton _
  · apply List.Nodup.filterMap _ List.nodup_range
    intro i j id fromI fromJ
    obtain ⟨_, _, validI⟩ := Option.bind_eq_some_iff.mp fromI
    obtain ⟨_, _, validJ⟩ := Option.bind_eq_some_iff.mp fromJ
    have isI := (Option.ite_none_right_eq_some.mp validI).2
    have isJ := (Option.ite_none_right_eq_some.mp validJ).2
    simp only [Option.some.injEq] at isI isJ
    omega

/-- Deliveries are in order, each process has at most one signal coming, and the message in the
cell is not newer than the last one written. It holds as long as nobody writes too early. -/
structure Messaging.Orderly (s : Messaging) : Prop where
  delivered : s.Delivered
  notPending : ∀ curId id, id ∈ s.sending curId → s.pending id = false
  distinct : ∀ curId, (s.sending curId).Nodup
  oneSender : ∀ first second id, id ∈ s.sending first → id ∈ s.sending second → first = second
  written : s.cell.number ≤ s.written.length

section Write

variable {table : List ClientInfo} {s : Messaging} {curId : Nat} {call : Announcement}
  {message : Message}

theorem step_write (written : s.message table curId call = some message) :
    s.step table (.write curId call) = { s with
      cell := message
      sending := Function.update s.sending curId (recipients table call)
      written := s.written ++ [(message, recipients table call)] } := by
  rw [Messaging.step, written]

theorem message_number (written : s.message table curId call = some message) :
    message.number = s.written.length + 1 := by
  obtain ⟨_, -, rest⟩ := Option.bind_eq_some_iff.mp written
  obtain ⟨_, -, made⟩ := Option.bind_eq_some_iff.mp rest
  cases made
  rfl

/-- The next message is meant for its recipients. -/
theorem addressed_write (written : s.message table curId call = some message) (id : Nat) :
    (s.step table (.write curId call)).addressed id =
      s.addressed id ++ if id ∈ recipients table call then [message] else [] := by
  rw [step_write written, Messaging.addressed, Messaging.addressed, List.filter_append,
    List.map_append]
  by_cases meant : id ∈ recipients table call <;> simp [meant]

/-- A process has a message to print after a call if it had one before, or is among
the recipients. -/
theorem owes_write (idle : s.sending curId = [])
    (written : s.message table curId call = some message) (id : Nat) :
    (s.step table (.write curId call)).Owes id ↔ s.Owes id ∨ id ∈ recipients table call := by
  rw [step_write written]
  simp only [Messaging.Owes]
  constructor
  · rintro (pending | ⟨sender, toSend⟩)
    · exact .inl (.inl pending)
    · by_cases same : sender = curId
      · subst same
        rw [Function.update_self] at toSend
        exact .inr toSend
      · rw [Function.update_of_ne same] at toSend
        exact .inl (.inr ⟨sender, toSend⟩)
  · rintro ((pending | ⟨sender, toSend⟩) | meant)
    · exact .inl pending
    · have other : sender ≠ curId := by
        rintro rfl
        rw [idle] at toSend
        cases toSend
      exact .inr ⟨sender, by rw [Function.update_of_ne other]; exact toSend⟩
    · exact .inr ⟨curId, by rw [Function.update_self]; exact meant⟩

/-- A message written while another one is to be printed is delivered wrongly. -/
theorem write_spoils (orderly : s.Orderly) (idle : s.sending curId = [])
    (written : s.message table curId call = some message) {id : Nat} (owes : s.Owes id) :
    ¬ (s.step table (.write curId call)).Delivered := by
  intro delivered
  have before := (orderly.delivered id).2 owes
  have after := (delivered id).2 ((owes_write idle written id).mpr (.inl owes))
  rw [addressed_write written, ← before, step_write written] at after
  by_cases meant : id ∈ recipients table call
  · rw [if_pos meant] at after
    have lengths := congrArg List.length after
    simp at lengths
  · rw [if_neg meant, List.append_nil] at after
    have same : message = s.cell := by simpa using after
    have newer := message_number written
    have older := orderly.written
    rw [same] at newer
    omega

/-- A message written when none is to be printed is to be printed by its recipients, by each of
them once: nobody had a signal coming, and the call sends one to each. -/
theorem write_orderly (orderly : s.Orderly) (idle : s.sending curId = [])
    (written : s.message table curId call = some message) (quiet : ∀ id, ¬ s.Owes id) :
    (s.step table (.write curId call)).Orderly := by
  have nobody (sender id : Nat) : id ∉ s.sending sender := fun toSend =>
    quiet id (.inr ⟨sender, toSend⟩)
  have fromCaller {sender id : Nat}
      (toSend : id ∈ Function.update s.sending curId (recipients table call) sender) :
      sender = curId := by
    by_contra other
    rw [Function.update_of_ne other] at toSend
    exact nobody sender id toSend
  constructor
  · intro id
    have printed := (orderly.delivered id).1 (quiet id)
    have owes := owes_write idle written id
    rw [addressed_write written]
    rw [step_write written] at owes ⊢
    by_cases meant : id ∈ recipients table call
    · rw [if_pos meant, ← printed]
      exact ⟨fun done => absurd (owes.mpr (.inr meant)) done, fun _ => rfl⟩
    · rw [if_neg meant, List.append_nil]
      refine ⟨fun _ => printed, fun toPrint => ?_⟩
      rcases owes.mp toPrint with before | now
      · exact absurd before (quiet id)
      · exact absurd now meant
  · rw [step_write written]
    intro _ id _
    by_contra pending
    exact quiet id (.inl (by simpa using pending))
  · rw [step_write written]
    intro sender
    by_cases same : sender = curId
    · subst same
      simp only [Function.update_self]
      exact recipients_nodup table call
    · simp only [Function.update_of_ne same]
      exact orderly.distinct sender
  · rw [step_write written]
    intro first second id fromFirst fromSecond
    exact (fromCaller fromFirst).trans (fromCaller fromSecond).symm
  · rw [step_write written]
    simp [message_number written]

end Write

/-- Sending the next signal makes it pending, and changes nothing else: whoever it is sent to had
it coming before, and has it coming still. -/
theorem signal_orderly (table : List ClientInfo) {s : Messaging} (orderly : s.Orderly)
    (curId : Nat) : (s.step table (.signal curId)).Orderly := by
  cases toSend : s.sending curId with
  | nil =>
    rw [Messaging.step, toSend]
    exact orderly
  | cons next rest =>
    have split := orderly.distinct curId
    rw [toSend] at split
    have nextFirst : next ∉ rest := (List.nodup_cons.mp split).1
    have still {sender id : Nat} (later : id ∈ Function.update s.sending curId rest sender) :
        id ∈ s.sending sender ∧ id ≠ next := by
      by_cases same : sender = curId
      · subst same
        rw [Function.update_self] at later
        refine ⟨by rw [toSend]; exact List.mem_cons_of_mem next later, ?_⟩
        rintro rfl
        exact nextFirst later
      · rw [Function.update_of_ne same] at later
        refine ⟨later, ?_⟩
        rintro rfl
        exact same (orderly.oneSender sender curId id later
          (by rw [toSend]; exact List.mem_cons_self))
    have owes (id : Nat) : (s.step table (.signal curId)).Owes id ↔ s.Owes id := by
      rw [Messaging.step, toSend]
      simp only [Messaging.Owes]
      constructor
      · rintro (pending | ⟨sender, later⟩)
        · by_cases same : id = next
          · subst same
            exact .inr ⟨curId, by rw [toSend]; exact List.mem_cons_self⟩
          · exact .inl (by simpa [Function.update_of_ne same] using pending)
        · exact .inr ⟨sender, (still later).1⟩
      · rintro (pending | ⟨sender, later⟩)
        · by_cases same : id = next
          · exact .inl (by simp [same])
          · exact .inl (by simpa [Function.update_of_ne same] using pending)
        · by_cases same : id = next
          · exact .inl (by simp [same])
          · by_cases caller : sender = curId
            · subst caller
              rw [toSend] at later
              exact .inr ⟨sender, by simpa [same] using later⟩
            · exact .inr ⟨sender, by simpa [Function.update_of_ne caller] using later⟩
    have unchanged : (s.step table (.signal curId)).cell = s.cell ∧
        (s.step table (.signal curId)).printed = s.printed ∧
        (s.step table (.signal curId)).written = s.written := by
      rw [Messaging.step, toSend]
      exact ⟨rfl, rfl, rfl⟩
    obtain ⟨cell, printed, written⟩ := unchanged
    constructor
    · intro id
      rw [owes, cell, printed, Messaging.addressed, written]
      exact orderly.delivered id
    · rw [Messaging.step, toSend]
      intro sender id later
      obtain ⟨before, other⟩ := still later
      simp only [Function.update_of_ne other]
      exact orderly.notPending sender id before
    · rw [Messaging.step, toSend]
      intro sender
      by_cases same : sender = curId
      · subst same
        simp only [Function.update_self]
        exact (List.nodup_cons.mp split).2
      · simp only [Function.update_of_ne same]
        exact orderly.distinct sender
    · rw [Messaging.step, toSend]
      intro first second id fromFirst fromSecond
      exact orderly.oneSender first second id (still fromFirst).1 (still fromSecond).1
    · rw [cell, written]
      exact orderly.written

/-- Handling the signal prints the message that is left for the process. -/
theorem handle_orderly (table : List ClientInfo) {s : Messaging} (orderly : s.Orderly) {id : Nat}
    (pending : s.pending id = true) : (s.step table (.handle id)).Orderly := by
  have done : ¬ (s.step table (.handle id)).Owes id := by
    simp only [Messaging.step, Messaging.Owes, Function.update_self]
    rintro (again | ⟨sender, toSend⟩)
    · cases again
    · rw [orderly.notPending sender id toSend] at pending
      cases pending
  have others {other : Nat} (apart : other ≠ id) :
      (s.step table (.handle id)).Owes other ↔ s.Owes other := by
    simp only [Messaging.step, Messaging.Owes, Function.update_of_ne apart]
  constructor
  · intro other
    by_cases same : other = id
    · subst same
      have last := (orderly.delivered other).2 (.inl pending)
      refine ⟨fun _ => ?_, fun owes => absurd owes done⟩
      simp only [Messaging.step, Function.update_self]
      exact last
    · rw [others same]
      simp only [Messaging.step, Function.update_of_ne same]
      exact orderly.delivered other
  · intro sender other toSend
    have before := orderly.notPending sender other toSend
    by_cases same : other = id
    · subst same
      simp [Messaging.step]
    · simpa [Messaging.step, Function.update_of_ne same] using before
  · exact orderly.distinct
  · exact orderly.oneSender
  · exact orderly.written

/-- One step delivers in order exactly when it does not write over a message that is to be
printed. A write spoils what some process owes; sending a signal and handling one spoil nothing.
-/
theorem step_delivers {table : List ClientInfo} {s : Messaging} (orderly : s.Orderly)
    {step : Step} (possible : s.Possible table step) :
    ((s.step table step).Delivered ↔ s.Waits step) ∧
      (s.Waits step → (s.step table step).Orderly) := by
  cases step with
  | write curId call =>
    obtain ⟨idle, isSome⟩ := possible
    obtain ⟨message, written⟩ := Option.isSome_iff_exists.mp isSome
    have good := write_orderly orderly idle written
    refine ⟨⟨fun delivered id owes => ?_, fun quiet => (good quiet).delivered⟩, good⟩
    exact write_spoils orderly idle written owes delivered
  | signal curId =>
    have after := signal_orderly table orderly curId
    exact ⟨iff_of_true after.delivered trivial, fun _ => after⟩
  | handle id =>
    have after := handle_orderly table orderly possible
    exact ⟨iff_of_true after.delivered trivial, fun _ => after⟩

theorem initial_orderly : Messaging.initial.Orderly := by
  have nobody (id : Nat) : ¬ Messaging.initial.Owes id := by
    simp [Messaging.Owes, Messaging.initial]
  constructor
  · intro id
    exact ⟨fun _ => rfl, fun owes => absurd owes (nobody id)⟩
  · intro _ _ toSend
    cases toSend
  · intro _
    exact List.nodup_nil
  · intro _ _ _ toSend
    cases toSend
  · exact Nat.le_refl 0

/-- While clients wait for each other, deliveries are in order: the step lemma along the run. -/
theorem run_orderly {table : List ClientInfo} {steps : List Step} {s : Messaging}
    (run : Run (messaging table) Messaging.Waits steps s) : s.Orderly := by
  apply run.invariant Messaging.Orderly initial_orderly
  intro state step after orderly possible waits served
  cases served
  exact (step_delivers orderly possible).2 waits

/-- The runs in which every message is delivered, after every step, are those in which a client
writes only when no process has a message to print.

There is one message in the shared memory. A write while a handler is still to print the last one
replaces it, and a handler prints what it finds there. The step lemma says for each write, signal
and handler what it does to the messages that are on their way. -/
theorem messages_delivered_iff (table : List ClientInfo) (steps : List Step) (s : Messaging) :
    Run (messaging table) (fun s step => (s.step table step).Delivered) steps s ↔
      Run (messaging table) Messaging.Waits steps s := by
  constructor
  · intro run
    induction run with
    | start => exact .start
    | next before offered met served ih =>
      exact .next ih offered ((step_delivers (run_orderly ih) offered).1.mp met) served
  · intro run
    induction run with
    | start => exact .start
    | next before offered met served ih =>
      exact .next ih offered ((step_delivers (run_orderly before) offered).1.mpr met) served

/-- Three clients. -/
def threeClients : List ClientInfo :=
  [⟨true, 101, 1, str "ann", str "10.0.0.1", 4001⟩, ⟨true, 102, 2, str "bob", str "10.0.0.2", 4002⟩,
    ⟨true, 103, 3, str "eve", str "10.0.0.3", 4003⟩]

/-- Bob tells Ann something before Eve's process has printed what Ann yelled. -/
def overheard : List Step :=
  [.write 1 (.yell (str "hi")), .signal 1, .signal 1, .signal 1, .handle 1, .handle 2,
    .write 2 (.tell (str "psst") 1), .handle 3, .signal 2, .handle 1]

/-- Eve's process prints the private message and never the other one, and no signal is
left. -/
theorem private_message_is_overheard : ∃ s,
    Run (messaging threeClients) always overheard s ∧
    s.printed 3 = [⟨str "*** bob told you ***: psst\n", 2⟩] ∧
    s.addressed 3 = [⟨str "*** ann yelled ***: hi\n", 1⟩] ∧
    s.pending 3 = false ∧ s.sending 1 = [] ∧ s.sending 2 = [] ∧ s.sending 3 = [] := by
  have plays : ((play (messaging threeClients) always (messaging threeClients).start overheard).map
      (fun s => decide (s.printed 3 = [⟨str "*** bob told you ***: psst\n", 2⟩] ∧
        s.addressed 3 = [⟨str "*** ann yelled ***: hi\n", 1⟩] ∧ s.pending 3 = false ∧
        s.sending 1 = [] ∧ s.sending 2 = [] ∧ s.sending 3 = []))) = some true := by decide +kernel
  obtain ⟨s, played, result⟩ := Option.map_eq_some_iff.mp plays
  exact ⟨s, Run.played overheard s played, of_decide_eq_true result⟩

end NetProg.MultiProc
