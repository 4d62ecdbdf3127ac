import NetProg.Console.Request
import NetProg.Library.Runs

/-!
# The request buffer of the console

The console has one object for all its sessions, and this object has one array of eight
bytes. The handler of every session's connect writes its request there and sends it out
of there, and the reply is read into it. An operation may take bytes out of its buffer,
or store bytes in it, at any time until its handler runs. So what is transmitted for one
session is its own request as long as nobody else writes, while the request is on its
way, anything that differs from it.
-/

namespace NetProg.Console

open Socks Runs

/-- What is under way for a session. -/
inductive Stage where
  | unused
  | resolvingProxy
  | resolvingDst
  | connecting
  | sending
  | reading (got : Nat)
  | started
  | failed
  deriving DecidableEq

/-- The request is through. -/
def Stage.Sent : Stage → Prop
  | .reading _ | .started => True
  | _ => False

instance decidableSent : (stage : Stage) → Decidable stage.Sent
  | .reading _ | .started => isTrue trivial
  | .unused | .resolvingProxy | .resolvingDst | .connecting | .sending | .failed => isFalse id

/-- A session, and what its socket has transmitted. -/
structure Session where
  stage : Stage
  transmitted : Str

/-- `ShellServer`: the arrays that the sessions share, and the sessions by their index. The
requests of all of them are made in one array, and their replies are read into it. -/
structure ShellServer where
  socksMessage : Str
  dstIp : Str
  sessions : Fin 5 → Session

/-- What completes, or happens to the buffer of an operation that has not completed: a send may
look at its bytes, and a read may fill its own, at any time in between. -/
inductive Event where
  | proxyResolved (i : Fin 5) (found : Bool)
  | dstResolved (i : Fin 5) (found : Bool)
  | connected (i : Fin 5) (reached : Bool)
  | transmits (i : Fin 5) (n : Nat)
  | sent (i : Fin 5) (noError : Bool)
  | stores (i : Fin 5) (bytes : Str)
  | received (i : Fin 5) (noError : Bool)

namespace ShellServer

/-- One session becomes another. -/
def update (s : ShellServer) (i : Fin 5) (session : Session) : ShellServer :=
  { s with sessions := Function.update s.sessions i session }

/-- One session comes to a stage. -/
def withStage (s : ShellServer) (i : Fin 5) (stage : Stage) : ShellServer :=
  s.update i { s.sessions i with stage := stage }

/-- Bytes are written into the message from a position on. -/
def write (s : ShellServer) (position : Nat) (bytes : Str) : ShellServer :=
  { s with socksMessage := s.socksMessage.take position ++ bytes ++
      s.socksMessage.drop (position + bytes.length) }

@[simp] theorem update_self (s : ShellServer) (i : Fin 5) (session : Session) :
    (s.update i session).sessions i = session := Function.update_self ..

theorem update_other (s : ShellServer) {i j : Fin 5} (session : Session) (other : j ≠ i) :
    (s.update i session).sessions j = s.sessions j := Function.update_of_ne other ..

end ShellServer

section System

variable (library : AddressText) (hosts : Fin 5 → Option (Address × UInt16))

/-- `handle_connect` without an error: the request is written byte by byte, and sent. -/
def ShellServer.handleConnect (s : ShellServer) (i : Fin 5) (endpoint : Address × UInt16) :
    ShellServer :=
  { s with
    dstIp := Console.dstIp 4 (library.toText endpoint.1 ++ str ".")
    socksMessage := Console.socksMessage library endpoint.1 endpoint.2 }.withStage i .sending

/-- The handlers, and what the operations do to the message. -/
def ShellServer.serve (s : ShellServer) : Event → ShellServer
  | .proxyResolved i true => s.withStage i .resolvingDst
  | .dstResolved i true => s.withStage i .connecting
  | .connected i true =>
    match hosts i with
    | some endpoint => s.handleConnect library i endpoint
    | none => s
  | .transmits i n => s.update i { s.sessions i with
      transmitted := (s.sessions i).transmitted ++
        (s.socksMessage.drop (s.sessions i).transmitted.length).take n }
  | .sent i true => s.withStage i (.reading 0)
  | .stores i bytes =>
    match (s.sessions i).stage with
    | .reading got => (s.write got bytes).withStage i (.reading (got + bytes.length))
    | _ => s
  | .received i true => s.withStage i .started
  | .proxyResolved i false | .dstResolved i false | .connected i false | .sent i false
  | .received i false => s.withStage i .failed

/-- What can happen. An operation that completes without an error has moved at least one
byte. -/
def ShellServer.Possible (s : ShellServer) : Event → Prop
  | .proxyResolved i _ => (s.sessions i).stage = .resolvingProxy
  | .dstResolved i _ => (s.sessions i).stage = .resolvingDst
  | .connected i _ => (s.sessions i).stage = .connecting
  | .transmits i n =>
    (s.sessions i).stage = .sending ∧ 0 < n ∧ (s.sessions i).transmitted.length + n ≤ 8
  | .sent i noError =>
    (s.sessions i).stage = .sending ∧ (noError = true → (s.sessions i).transmitted ≠ [])
  | .stores i bytes =>
    ∃ got ≤ 8, (s.sessions i).stage = .reading got ∧ bytes ≠ [] ∧ got + bytes.length ≤ 8
  | .received i noError =>
    ∃ got ≤ 8, (s.sessions i).stage = .reading got ∧ (noError = true → 0 < got)

instance decidablePossible (s : ShellServer) : (event : Event) → Decidable (s.Possible event)
  | .proxyResolved i _ => decEq (s.sessions i).stage .resolvingProxy
  | .dstResolved i _ => decEq (s.sessions i).stage .resolvingDst
  | .connected i _ => decEq (s.sessions i).stage .connecting
  | .transmits _ _ => inferInstanceAs (Decidable (_ ∧ _ ∧ _))
  | .sent _ _ => inferInstanceAs (Decidable (_ ∧ _))
  | .stores _ _ | .received _ _ => Nat.decidableExistsLE _

/-- Every configured host has a session, for which the proxy is being resolved. The array holds
whatever is in the memory. The sessions go on in any order. -/
def shellServer (memory : Vector UInt8 8) : System ShellServer Event Empty where
  start := ⟨memory.toList, [], fun i =>
    ⟨if (hosts i).isSome then .resolvingProxy else .unused, []⟩⟩
  offers := ShellServer.Possible
  serve s event := .ok (s.serve library hosts event)

instance (memory : Vector UInt8 8) (s : ShellServer) (event : Event) :
    Decidable ((shellServer library hosts memory).offers s event) :=
  inferInstanceAs (Decidable (s.Possible event))

/-- The request of a host. -/
def request (endpoint : Address × UInt16) : Str :=
  Console.socksMessage library endpoint.1 endpoint.2

/-- What was transmitted for a session is its own request, and what is left of it to be sent is
still there. A session that is not sending has nothing left there. -/
structure Session.Own (session : Session) (message request : Str) : Prop where
  part : session.transmitted <+: request
  whole : session.stage.Sent → session.transmitted = request
  kept : session.stage = .sending →
    message.drop session.transmitted.length = request.drop session.transmitted.length

/-- This for every session. -/
def ShellServer.OwnRequests (s : ShellServer) : Prop :=
  ∀ i endpoint, hosts i = some endpoint →
    (s.sessions i).Own s.socksMessage (request library endpoint)

/-- Bytes written from a position on agree with what is still to be sent of a request. -/
def Agrees (bytes : Str) (position : Nat) (sent : Nat) (request : Str) : Prop :=
  ∀ k < bytes.length, sent ≤ position + k → bytes[k]? = request[position + k]?

/-- A write into the message agrees with the requests that are on their way, and a request
is not through before its eight bytes are. -/
def ShellServer.Spares (s : ShellServer) : Event → Prop
  | .connected i true => ∀ endpoint, hosts i = some endpoint →
    ∀ j other, hosts j = some other → (s.sessions j).stage = .sending →
      Agrees (request library endpoint) 0 (s.sessions j).transmitted.length
        (request library other)
  | .stores i bytes => ∀ got, (s.sessions i).stage = .reading got →
    ∀ j other, hosts j = some other → (s.sessions j).stage = .sending →
      Agrees bytes got (s.sessions j).transmitted.length (request library other)
  | .sent i true => (s.sessions i).transmitted.length = 8
  | _ => True

end System

/-- Bytes written into a message that holds the rest of a request keep it there if and only if
they agree with it. Compared byte by byte: those outside of what is written are as they were, and
those inside are what was written. -/
theorem drop_write_iff {message bytes request : Str} {position sent : Nat}
    (size : message.length = request.length) (fits : position + bytes.length ≤ message.length)
    (kept : message.drop sent = request.drop sent) :
    (message.take position ++ bytes ++ message.drop (position + bytes.length)).drop sent =
      request.drop sent ↔ Agrees bytes position sent request := by
  have outside (k : Nat) (later : sent ≤ k) : message[k]? = request[k]? := by
    have same := congrArg (fun rest => rest[k - sent]?) kept
    simpa only [List.getElem?_drop, Nat.add_sub_cancel' later] using same
  have start : (message.take position).length = position := by
    rw [List.length_take]
    omega
  constructor
  · intro same k inside later
    have entry := congrArg (fun rest => rest[position + k - sent]?) same
    simp only [List.getElem?_drop, Nat.add_sub_cancel' later] at entry
    rw [List.append_assoc, List.getElem?_append_right (by omega), start,
      List.getElem?_append_left (by omega), Nat.add_sub_cancel_left] at entry
    exact entry
  · intro agrees
    refine List.ext_getElem? (fun k => ?_)
    rw [List.getElem?_drop, List.getElem?_drop]
    rcases Nat.lt_or_ge (sent + k) position with before | after
    · rw [List.append_assoc, List.getElem?_append_left (by omega),
        List.getElem?_take_of_lt before]
      exact outside _ (Nat.le_add_right ..)
    · obtain ⟨offset, isOffset⟩ := Nat.exists_eq_add_of_le after
      rw [List.append_assoc, List.getElem?_append_right (by omega), start]
      rcases Nat.lt_or_ge offset bytes.length with inside | behind
      · rw [List.getElem?_append_left (by omega), isOffset, Nat.add_sub_cancel_left]
        exact agrees offset inside (by omega)
      · rw [List.getElem?_append_right (by omega), List.getElem?_drop]
        have place : position + bytes.length + (sent + k - position - bytes.length) = sent + k := by
          omega
        rw [place]
        exact outside _ (Nat.le_add_right ..)

section Own

variable {library : AddressText} {hosts : Fin 5 → Option (Address × UInt16)} {s : ShellServer}

theorem request_length (endpoint : Address × UInt16) : (request library endpoint).length = 8 := by
  rw [request, socksMessage_eq]
  rfl

/-- Whether another part of the message is written does not matter to a session that is
not sending. -/
theorem Session.Own.write_iff {session : Session} {message request : Str}
    (own : session.Own message request) (bytes : Str) (position : Nat)
    (size : message.length = request.length)
    (fits : position + bytes.length ≤ message.length) :
    session.Own (message.take position ++ bytes ++ message.drop (position + bytes.length))
      request ↔ (session.stage = .sending →
        Agrees bytes position session.transmitted.length request) := by
  constructor
  · intro after sending
    exact (drop_write_iff size fits (own.kept sending)).mp (after.kept sending)
  · intro agrees
    exact ⟨own.part, own.whole, fun sending =>
      (drop_write_iff size fits (own.kept sending)).mpr (agrees sending)⟩

/-- A part of the message is transmitted. -/
theorem Session.Own.transmit {session : Session} {message request : Str} {n : Nat}
    (own : session.Own message request) (sending : session.stage = .sending)
    (fits : session.transmitted.length + n ≤ request.length) :
    Session.Own { session with
      transmitted := session.transmitted ++
        (message.drop session.transmitted.length).take n } message request := by
  have kept := own.kept sending
  obtain ⟨rest, isRest⟩ := own.part
  have left : request.drop session.transmitted.length = rest := by
    rw [← isRest, List.drop_left]
  have few : n ≤ rest.length := by
    have lengths := congrArg List.length isRest
    rw [List.length_append] at lengths
    omega
  have next : session.transmitted ++ (message.drop session.transmitted.length).take n ++
      rest.drop n = request := by
    rw [kept, left, List.append_assoc, List.take_append_drop, isRest]
  refine ⟨⟨rest.drop n, next⟩, ?_, ?_⟩
  · intro isSent
    change session.stage.Sent at isSent
    rw [sending] at isSent
    exact isSent.elim
  · intro _
    have length : (session.transmitted ++ (message.drop session.transmitted.length).take n).length =
        session.transmitted.length + n := by
      rw [kept, left, List.length_append, List.length_take, Nat.min_eq_left few]
    change message.drop (_ ++ _ : Str).length = request.drop (_ ++ _ : Str).length
    rw [length, ← List.drop_drop, ← List.drop_drop, kept]

/-- One session is changed. -/
theorem ownRequests_update_iff {i : Fin 5} {session : Session} :
    (s.update i session).OwnRequests library hosts ↔
      (∀ endpoint, hosts i = some endpoint →
        session.Own s.socksMessage (request library endpoint)) ∧
      ∀ j other, j ≠ i → hosts j = some other →
        (s.sessions j).Own s.socksMessage (request library other) := by
  constructor
  · intro own
    refine ⟨fun endpoint host => ?_, fun j other different host => ?_⟩
    · have one := own i endpoint host
      rw [s.update_self] at one
      exact one
    · have one := own j other host
      rw [s.update_other session different] at one
      exact one
  · rintro ⟨self, others⟩ j endpoint host
    by_cases same : j = i
    · subst same
      rw [s.update_self]
      exact self endpoint host
    · rw [s.update_other session same]
      exact others j endpoint same host

/-- The array has eight bytes, only configured hosts have a session, and nothing is
transmitted before the request is written. -/
structure ShellServer.Started (hosts : Fin 5 → Option (Address × UInt16)) (s : ShellServer) :
    Prop where
  size : s.socksMessage.length = 8
  unused : ∀ i, hosts i = none → (s.sessions i).stage = .unused
  early : ∀ i, (s.sessions i).stage = .resolvingProxy ∨ (s.sessions i).stage = .resolvingDst ∨
    (s.sessions i).stage = .connecting → (s.sessions i).transmitted = []

/-- A session that is under way is one of a configured host. -/
theorem ShellServer.Started.host (started : s.Started hosts) {i : Fin 5}
    (used : (s.sessions i).stage ≠ .unused) : ∃ endpoint, hosts i = some endpoint := by
  cases host : hosts i with
  | none => exact absurd (started.unused i host) used
  | some endpoint => exact ⟨endpoint, rfl⟩

/-- A session that is under way goes on. -/
theorem ShellServer.Started.update (started : s.Started hosts) {i : Fin 5} {session : Session}
    (used : (s.sessions i).stage ≠ .unused)
    (early : session.stage = .resolvingProxy ∨ session.stage = .resolvingDst ∨
      session.stage = .connecting → session.transmitted = []) :
    (s.update i session).Started hosts := by
  refine ⟨started.size, fun j host => ?_, fun j isEarly => ?_⟩
  · by_cases same : j = i
    · subst same
      exact absurd (started.unused j host) used
    · rw [s.update_other session same]
      exact started.unused j host
  · by_cases same : j = i
    · subst same
      rw [s.update_self] at isEarly ⊢
      exact early isEarly
    · rw [s.update_other session same] at isEarly ⊢
      exact started.early j isEarly

/-- Another message of eight bytes. -/
theorem ShellServer.Started.withMessage (started : s.Started hosts) {message dstIp : Str}
    (size : message.length = 8) :
    ShellServer.Started hosts { s with socksMessage := message, dstIp := dstIp } :=
  ⟨size, started.unused, started.early⟩

/-- Every event keeps this. A session comes from one stage to the next in the order of its stages,
so nothing is transmitted before the request is written. -/
theorem serve_started (started : s.Started hosts) {event : Event} (possible : s.Possible event) :
    (s.serve library hosts event).Started hosts := by
  cases event with
  | proxyResolved i found =>
    have stage : (s.sessions i).stage = .resolvingProxy := possible
    have fresh := started.early i (.inl stage)
    cases found <;> exact started.update (by simp [stage]) (fun _ => fresh)
  | dstResolved i found =>
    have stage : (s.sessions i).stage = .resolvingDst := possible
    have fresh := started.early i (.inr (.inl stage))
    cases found <;> exact started.update (by simp [stage]) (fun _ => fresh)
  | connected i reached =>
    have stage : (s.sessions i).stage = .connecting := possible
    have fresh := started.early i (.inr (.inr stage))
    have used : (s.sessions i).stage ≠ .unused := by simp [stage]
    cases reached with
    | false => exact started.update used (fun _ => fresh)
    | true =>
      obtain ⟨endpoint, host⟩ := started.host used
      rw [ShellServer.serve, host]
      exact (started.withMessage (request_length endpoint)).update used (fun _ => fresh)
  | transmits i n =>
    have stage : (s.sessions i).stage = .sending := possible.1
    exact started.update (by simp [stage]) (fun isEarly => by simp [stage] at isEarly)
  | sent i noError =>
    have stage : (s.sessions i).stage = .sending := possible.1
    cases noError <;> exact started.update (by simp [stage]) (fun isEarly => by simp at isEarly)
  | stores i bytes =>
    obtain ⟨got, _, stage, -, fits⟩ := possible
    have written : (s.write got bytes).socksMessage.length = 8 := by
      have size := started.size
      simp only [ShellServer.write, List.length_append, List.length_take, List.length_drop]
      omega
    have used : (s.sessions i).stage ≠ .unused := by simp [stage]
    rw [ShellServer.serve, stage]
    exact (started.withMessage written).update used (fun isEarly => by simp at isEarly)
  | received i noError =>
    obtain ⟨got, -, stage, -⟩ := possible
    cases noError <;> exact started.update (by simp [stage]) (fun isEarly => by simp at isEarly)

/-- A session is given another stage that asks for nothing new. -/
theorem withStage_own (own : s.OwnRequests library hosts) {i : Fin 5} {stage : Stage}
    (notSending : stage ≠ .sending)
    (sent : ∀ endpoint, hosts i = some endpoint → stage.Sent →
      (s.sessions i).transmitted = request library endpoint) :
    (s.withStage i stage).OwnRequests library hosts := by
  refine ownRequests_update_iff.mpr ⟨fun endpoint host => ?_, fun j other _ => own j other⟩
  have before := own i endpoint host
  exact ⟨before.part, sent endpoint host, fun sending => absurd sending notSending⟩

/-- What a session that is not sending itself writes into the array leaves the others
their requests if and only if it agrees with what they have still to send. -/
theorem others_own_iff (own : s.OwnRequests library hosts) (size : s.socksMessage.length = 8)
    {i : Fin 5} (notSending : (s.sessions i).stage ≠ .sending) {bytes message : Str}
    {position : Nat} (fits : position + bytes.length ≤ 8)
    (written : message = s.socksMessage.take position ++ bytes ++
      s.socksMessage.drop (position + bytes.length)) :
    (∀ j other, j ≠ i → hosts j = some other →
      (s.sessions j).Own message (request library other)) ↔
    ∀ j other, hosts j = some other → (s.sessions j).stage = .sending →
      Agrees bytes position (s.sessions j).transmitted.length (request library other) := by
  subst written
  have write {j : Fin 5} {other : Address × UInt16} (host : hosts j = some other) :=
    (own j other host).write_iff bytes position (by rw [size, request_length]) (by rwa [size])
  constructor
  · intro others j other host sending
    have different : j ≠ i := by
      rintro rfl
      exact notSending sending
    exact (write host).mp (others j other different host) sending
  · intro agrees j other _ host
    exact (write host).mpr (agrees j other host)

/-- One event leaves every session its own request if and only if it spares the requests that are
on their way. By cases on the event; only writes into the array can do any harm. -/
theorem serve_own_iff (started : s.Started hosts) (own : s.OwnRequests library hosts)
    {event : Event} (possible : s.Possible event) :
    (s.serve library hosts event).OwnRequests library hosts ↔ s.Spares library hosts event := by
  cases event with
  | proxyResolved i found =>
    refine iff_of_true ?_ (by cases found <;> trivial)
    cases found <;> exact withStage_own own (by simp) (fun _ _ isSent => isSent.elim)
  | dstResolved i found =>
    refine iff_of_true ?_ (by cases found <;> trivial)
    cases found <;> exact withStage_own own (by simp) (fun _ _ isSent => isSent.elim)
  | connected i reached =>
    cases reached with
    | false =>
      exact iff_of_true (withStage_own own (by simp) (fun _ _ isSent => isSent.elim)) trivial
    | true =>
      have stage : (s.sessions i).stage = .connecting := possible
      have fresh := started.early i (.inr (.inr stage))
      obtain ⟨endpoint, host⟩ := started.host (i := i) (by simp [stage])
      have isWritten : request library endpoint = s.socksMessage.take 0 ++
          request library endpoint ++
            s.socksMessage.drop (0 + (request library endpoint).length) := by
        rw [request_length, List.drop_of_length_le (by rw [started.size])]
        simp
      have others := others_own_iff own started.size (i := i) (by simp [stage])
        (by rw [request_length]) isWritten
      rw [ShellServer.serve, host]
      change ((ShellServer.update _ i _).OwnRequests library hosts) ↔ _
      rw [ownRequests_update_iff]
      constructor
      · rintro ⟨-, kept⟩ endpoint' host'
        cases host.symm.trans host'
        exact others.mp kept
      · intro spares
        refine ⟨fun endpoint' host' => ?_, others.mpr (spares endpoint host)⟩
        cases host.symm.trans host'
        refine ⟨?_, fun isSent => isSent.elim, fun _ => rfl⟩
        change (s.sessions i).transmitted <+: _
        rw [fresh]
        exact List.nil_prefix
  | transmits i n =>
    refine iff_of_true ?_ trivial
    obtain ⟨sending, -, fits⟩ := possible
    refine ownRequests_update_iff.mpr ⟨fun endpoint host => ?_, fun j other _ => own j other⟩
    exact (own i endpoint host).transmit sending (by rw [request_length]; exact fits)
  | sent i noError =>
    cases noError with
    | false =>
      exact iff_of_true (withStage_own own (by simp) (fun _ _ isSent => isSent.elim)) trivial
    | true =>
      have sending : (s.sessions i).stage = .sending := possible.1
      obtain ⟨endpoint, host⟩ := started.host (i := i) (by simp [sending])
      constructor
      · intro after
        have whole := (after i endpoint host).whole
        simp only [ShellServer.serve, ShellServer.withStage, ShellServer.update_self] at whole
        change (s.sessions i).transmitted.length = 8
        rw [whole trivial, request_length]
      · intro all
        refine withStage_own own (by simp) (fun other otherHost _ => ?_)
        refine (own i other otherHost).part.eq_of_length ?_
        rw [request_length]
        exact all
  | stores i bytes =>
    obtain ⟨got, _, stage, -, fits⟩ := possible
    have others := others_own_iff own started.size (i := i) (by simp [stage]) fits rfl
    rw [ShellServer.serve, stage]
    change ((ShellServer.update _ i _).OwnRequests library hosts) ↔ _
    rw [ownRequests_update_iff]
    constructor
    · rintro ⟨-, kept⟩ got' stage'
      cases stage.symm.trans stage'
      exact others.mp kept
    · intro spares
      refine ⟨fun endpoint host => ?_, others.mpr (spares got stage)⟩
      have before := own i endpoint host
      exact ⟨before.part, fun _ => before.whole (by rw [stage]; trivial),
        fun sending => by cases sending⟩
  | received i noError =>
    obtain ⟨got, -, stage, -⟩ := possible
    refine iff_of_true ?_ (by cases noError <;> trivial)
    cases noError with
    | false => exact withStage_own own (by simp) (fun _ _ isSent => isSent.elim)
    | true =>
      exact withStage_own own (by simp)
        (fun endpoint host _ => (own i endpoint host).whole (by rw [stage]; trivial))

theorem start_started (memory : Vector UInt8 8) :
    ShellServer.Started hosts (shellServer library hosts memory).start := by
  refine ⟨memory.length_toList, fun i host => ?_, fun i _ => rfl⟩
  change (if (hosts i).isSome then Stage.resolvingProxy else .unused) = .unused
  rw [host]
  rfl

theorem start_own (memory : Vector UInt8 8) :
    ShellServer.OwnRequests library hosts (shellServer library hosts memory).start := by
  intro i endpoint host
  have stage : ((shellServer library hosts memory).start.sessions i).stage = .resolvingProxy := by
    change (if (hosts i).isSome then Stage.resolvingProxy else .unused) = .resolvingProxy
    rw [host]
    rfl
  refine ⟨List.nil_prefix, fun isSent => ?_, fun sending => ?_⟩
  · rw [stage] at isSent
    exact isSent.elim
  · rw [stage] at sending
    cases sending

theorem run_started {memory : Vector UInt8 8} {meets : ShellServer → Event → Prop}
    {events : List Event} (run : Run (shellServer library hosts memory) meets events s) :
    s.Started hosts := by
  refine run.invariant (ShellServer.Started hosts) (start_started memory) ?_
  intro before event after started possible _ served
  cases served
  exact serve_started started possible

/-- In a run whose events all spare the requests that are on their way. -/
theorem run_own {memory : Vector UInt8 8} {events : List Event}
    (run : Run (shellServer library hosts memory) (ShellServer.Spares library hosts) events s) :
    s.OwnRequests library hosts := by
  induction run with
  | start => exact start_own memory
  | next before possible spares served ih =>
    cases served
    exact (serve_own_iff (run_started before) ih possible).mpr spares

end Own

/-- For any configured hosts and any order of events: the sessions' requests are their own in
every state of a run if and only if each event spares the requests that are on their way, and they
are at the end of such a run.

All sessions write their request into one array, and a send that has not transmitted everything
goes on from there. So an event is judged by what it does to the requests of the others, and one
event from a state in which they are all their own keeps them so exactly when it spares them. -/
theorem requests_own_iff_spared (library : AddressText)
    (hosts : Fin 5 → Option (Address × UInt16)) (memory : Vector UInt8 8) (events : List Event)
    (s : ShellServer) :
    (Run (shellServer library hosts memory)
        (fun s event => (s.serve library hosts event).OwnRequests library hosts) events s ↔
      Run (shellServer library hosts memory) (ShellServer.Spares library hosts) events s) ∧
    (Run (shellServer library hosts memory) (ShellServer.Spares library hosts) events s →
      s.OwnRequests library hosts) := by
  refine ⟨⟨fun run => ?_, fun run => ?_⟩, run_own⟩
  · induction run with
    | start => exact .start
    | next before possible own served ih =>
      exact .next ih possible
        ((serve_own_iff (run_started before) (run_own ih) possible).mp own) served
  · induction run with
    | start => exact .start
    | next before possible spares served ih =>
      exact .next ih possible
        ((serve_own_iff (run_started before) (run_own before) possible).mpr spares) served

/-- Two hosts: 10.0.0.1, port 80, and 10.0.0.2, port 81. -/
def twoHosts : Fin 5 → Option (Address × UInt16)
  | 0 => some (⟨10, 0, 0, 1⟩, 80)
  | 1 => some (⟨10, 0, 0, 2⟩, 81)
  | _ => none

/-- Both sessions are connected before the first request is transmitted. -/
def bothConnected : List Event :=
  [.proxyResolved 0 true, .proxyResolved 1 true, .dstResolved 0 true, .dstResolved 1 true,
    .connected 0 true, .connected 1 true, .transmits 0 8]

/-- The request to the second host is transmitted to the proxy of the first. -/
theorem request_of_other_session : ∃ s,
    Run (shellServer addressText twoHosts (Vector.replicate 8 0)) always bothConnected s ∧
    (s.sessions 0).transmitted = request addressText (⟨10, 0, 0, 2⟩, 81) ∧
    ¬ s.OwnRequests addressText twoHosts := by
  have plays : ((play (shellServer addressText twoHosts (Vector.replicate 8 0)) always
      (shellServer addressText twoHosts (Vector.replicate 8 0)).start bothConnected).map
        (fun s => decide ((s.sessions 0).transmitted =
          request addressText (⟨10, 0, 0, 2⟩, 81)))) = some true := by decide +kernel
  obtain ⟨s, played, other⟩ := Option.map_eq_some_iff.mp plays
  have isOther := of_decide_eq_true other
  refine ⟨s, Run.played bothConnected s played, isOther, fun own => ?_⟩
  have part := (own 0 _ rfl).part
  rw [isOther] at part
  have same := part.eq_of_length (by rw [request_length, request_length])
  rw [request, request, socksMessage_eq, socksMessage_eq] at same
  exact absurd same (by decide)

end NetProg.Console
