import NetProg.Socks.Relay
import NetProg.Socks.Rules

/-!
# A session of the proxy

A session reads into its message buffer and decides on what the buffer holds after
every completed read, whatever its length. A rejected request leaves the bytes in
the buffer and the session reads again; a granted one hands the socket to a relay,
and everything read from then on is relayed.

The name is resolved, the peer is connected or accepted and the replies are sent
without an error here, and the relay's sends transmit all they are asked for: what
is left to go wrong is how the session takes the bytes of the client apart.
-/

namespace NetProg.Socks

open Outcomes

/-- `SocksSession`: the message buffer, the decisions in order, and the relay once
a request was granted. -/
structure Session where
  message : Str
  decisions : List Bool
  relay : Option (Mode × Relay)

/-- A session on a new connection. -/
def Session.start : Session := ⟨List.replicate 1024 0, [], none⟩

/-- The relay for a command; a granted request has one of the two. -/
def relayMode (cd : UInt8) : Mode := if cd = 1 then .connect else .bind

/-- The handler of `read_info`. -/
def readInfo (conf : Option Str) (s : Session) (chunk : Str) : Except Fault Session := do
  let message := chunk ++ s.message.drop chunk.length
  let isGranted ← decision conf message
  if isGranted then
    let mode := relayMode (message.getD 1 0)
    return ⟨message, s.decisions ++ [true], some (mode, (relaySystem mode).start)⟩
  else return ⟨message, s.decisions ++ [false], none⟩

/-- A read of the relay from the client, and the whole send that follows it. -/
def forward (mode : Mode) (r : Relay) (chunk : Str) : Relay :=
  complete mode (complete mode r (.reads .one chunk)) (.sends .one 0 chunk.length)

/-- A completed read from the client. -/
def receive (conf : Option Str) (s : Session) (chunk : Str) : Except Fault Session :=
  match s.relay with
  | none => readInfo conf s chunk
  | some (mode, r) => .ok { s with relay := some (mode, forward mode r chunk) }

/-- Completed reads in their order. -/
def receiveAll (conf : Option Str) (s : Session) (chunks : List Str) : Except Fault Session :=
  chunks.foldlM (receive conf) s

/-- The bytes transmitted to the peer so far. -/
def Session.forwarded (s : Session) : Str :=
  match s.relay with
  | none => []
  | some (_, r) => (r .one).sent

/-- The decision looks at the first eight bytes of the message only. -/
theorem decision_take (conf : Option Str) (message : Str) :
    decision conf message = decision conf (message.take 8) := by
  have destination : (message.drop 4).take 4 = ((message.take 8).drop 4).take 4 := by
    rw [List.drop_take, List.take_take]
    rfl
  have command : message.getD 1 0 = (message.take 8).getD 1 0 := by simp
  have version : message.getD 0 0 = (message.take 8).getD 0 0 := by simp
  have rounds : ruleRound message = ruleRound (message.take 8) := by
    funext file
    simp only [ruleRound, admits, destination, command]
    rfl
  have loops : ruleLoop message = ruleLoop (message.take 8) := by
    simp only [ruleLoop, rounds]
  cases conf with
  | none => rfl
  | some text => simp only [decision, loops, version]

/-- A relay that has caught up in direction 1: just its next read is outstanding there. -/
structure CaughtUp (r : Relay) : Prop where
  pending : (r .one).pending = [.read]

theorem caughtUp_start (mode : Mode) : CaughtUp (relaySystem mode).start := ⟨by cases mode <;> rfl⟩

/-- Forwarding a chunk transmits it, in both relays. -/
theorem forward_caughtUp (mode : Mode) {r : Relay} (caughtUp : CaughtUp r) (chunk : Str) :
    CaughtUp (forward mode r chunk) ∧
      (forward mode r chunk .one).sent = (r .one).sent ++ chunk := by
  have pending := caughtUp.pending
  have filled : complete mode r (.reads .one chunk) =
      r.on .one (fun c => (c.fill chunk).issue (.send chunk.length true)) := by
    simp only [complete, doWrite_number, on_on]
  have found : (complete mode r (.reads .one chunk) .one).pending[0]? =
      some (.send chunk.length true) := by
    rw [filled]
    simp [Channel.issue, Channel.fill, pending]
  have sent : forward mode r chunk =
      r.on .one (fun c => (((c.fill chunk).issue (.send chunk.length true)).transmit 0
        chunk.length).issue .read) := by
    have handled (t : Relay) : writeHandler mode .one chunk.length chunk.length t =
        t.on .one (·.issue .read) := by
      cases mode with
      | connect => exact doRead_number t .one
      | bind =>
        rw [← doRead_number]
        simp [writeHandler]
    rw [forward, complete_sends found, handled, filled, on_on, on_on]
  constructor
  · constructor
    rw [sent]
    simp [Channel.issue, Channel.transmit, Channel.fill, pending]
  · rw [sent]
    simp [Channel.issue, Channel.transmit, Channel.fill]

/-- A session that relays. -/
structure Session.Relaying (s : Session) : Prop where
  relay : ∃ mode r, s.relay = some (mode, r) ∧ CaughtUp r

/-- A session that relays takes no decision and forwards all it receives. -/
theorem receiveAll_relaying (conf : Option Str) {s : Session} (relaying : s.Relaying)
    (chunks : List Str) : ∃ after, receiveAll conf s chunks = .ok after ∧
      after.decisions = s.decisions ∧ after.forwarded = s.forwarded ++ chunks.flatten := by
  induction chunks generalizing s with
  | nil => exact ⟨s, rfl, rfl, by simp⟩
  | cons chunk rest ih =>
    obtain ⟨mode, r, isRelay, caughtUp⟩ := relaying.relay
    obtain ⟨still, sent⟩ := forward_caughtUp mode caughtUp chunk
    obtain ⟨after, received, decisions, forwarded⟩ :=
      ih (s := { s with relay := some (mode, forward mode r chunk) })
        ⟨mode, forward mode r chunk, rfl, still⟩
    have first : receive conf s chunk =
        .ok { s with relay := some (mode, forward mode r chunk) } := by
      simp only [receive, isRelay]
    refine ⟨after, ?_, decisions, ?_⟩
    · rw [receiveAll, List.foldlM_cons, first]
      exact received
    · rw [forwarded]
      simp only [Session.forwarded, isRelay, sent, List.flatten_cons, List.append_assoc]

/-- Every read that completes before a grant takes a decision. -/
theorem readInfo_decides {conf : Option Str} {s after : Session} {chunk : Str}
    (read : readInfo conf s chunk = .ok after) : ∃ isGranted,
    decision conf (chunk ++ s.message.drop chunk.length) = .ok isGranted ∧
      after.decisions = s.decisions ++ [isGranted] ∧
      (isGranted = true → after.Relaying ∧ after.forwarded = []) ∧
      (isGranted = false → after.relay = none) := by
  obtain ⟨isGranted, decided, returned⟩ := bind_eq_ok.mp read
  refine ⟨isGranted, decided, ?_⟩
  cases isGranted with
  | true =>
    cases returned
    refine ⟨rfl, fun _ => ⟨⟨_, _, rfl, caughtUp_start _⟩, ?_⟩, fun rejected => (by cases rejected)⟩
    simp only [Session.forwarded]
    cases relayMode ((chunk ++ s.message.drop chunk.length).getD 1 0) <;> rfl
  | false =>
    cases returned
    exact ⟨rfl, fun granted => (by cases granted), fun _ => rfl⟩

/-- A read fails only in the decision. -/
theorem readInfo_fails {conf : Option Str} {s : Session} {chunk : Str} {fault : Fault}
    (failed : readInfo conf s chunk = .error fault) :
    decision conf (chunk ++ s.message.drop chunk.length) = .error fault := by
  rcases bind_eq_error.mp failed with undecided | ⟨isGranted, -, returned⟩
  · exact undecided
  · cases isGranted with
    | true => cases returned
    | false => cases returned

/-- Decisions are never taken back. -/
theorem receiveAll_decisions {conf : Option Str} {s after : Session} {chunks : List Str}
    (received : receiveAll conf s chunks = .ok after) : s.decisions <+: after.decisions := by
  induction chunks generalizing s with
  | nil =>
    cases received
    exact List.prefix_refl _
  | cons chunk rest ih =>
    rw [receiveAll, List.foldlM_cons] at received
    obtain ⟨middle, first, later⟩ := bind_eq_ok.mp received
    refine List.IsPrefix.trans ?_ (ih later)
    cases isRelay : s.relay with
    | none =>
      simp only [receive, isRelay] at first
      obtain ⟨isGranted, -, decisions, -⟩ := readInfo_decides first
      exact ⟨[isGranted], decisions.symm⟩
    | some relay =>
      simp only [receive, isRelay] at first
      cases first
      exact List.prefix_refl _

end NetProg.Socks
