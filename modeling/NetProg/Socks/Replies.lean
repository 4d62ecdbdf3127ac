import NetProg.Socks.Connect
import NetProg.Socks.Firewall
import NetProg.Socks.Outstanding

/-!
# The reply to a CONNECT request

A request is decided at once. A refused one is answered and the session reads on. For a
granted one a name is resolved, the destination is connected, and then the request is
answered and the relay starts. Each of these steps completes with or without an error,
and the handlers of an error only print it: where the name is not resolved or the
destination not reached, nothing is sent and the sockets are given up.

The reply to a refused request lies in a local array of `send_reject`. The send takes
it while the array is there, or later, when the memory holds something else.
-/

namespace NetProg.Socks

open Runs Outcomes

/-- What is under way for a request that was decided. What a `BindMode` does with a
socket is not followed here. -/
inductive Stage where
  | rejecting
  | rejected
  | bound
  | resolving
  | connecting (endpoint : Address × UInt16)
  | replying
  | relaying (r : Relay)
  | dropped

/-- What was transmitted to the client: a reply, or bytes of the relay. -/
inductive Sent where
  | reply (bytes : Str)
  | relayed (bytes : Str)
  deriving DecidableEq

/-- A decided request, and what the client has got since, replies and relayed bytes in their
order. -/
structure Conversation where
  message : Str
  stage : Stage
  toClient : List Sent

/-- What completes. A reply is sent while its array is there, or later with bytes of
whatever is there then. -/
inductive Report where
  | resolves (found : Bool)
  | connects (reached : Bool)
  | replies (n : Nat)
  | repliesLate (bytes : Str)
  | replyFails
  | relays (completion : Completion)

/-- The eight bytes of a reply. -/
def reply (code : UInt8) (message : Str) : Str := [0, code] ++ (message.drop 2).take 6

theorem replyToBrowser_eq (message : Str) :
    replyToBrowser (connectMode message) = reply 90 message := by
  rw [replyToBrowser, reply]
  simp [connectMode, List.drop_take, List.take_take]

theorem reply_length {message : Str} (whole : 8 ≤ message.length) (code : UInt8) :
    (reply code message).length = 8 := by
  simp only [reply, List.length_append, List.length_cons, List.length_nil, List.length_take,
    List.length_drop]
  omega

namespace Conversation

/-- The decision in the handler of `read_info`: the request is refused, or handed to the
class for its command. -/
def readInfo (conf : Option Str) (message : Str) : Except Fault Conversation := do
  let isGranted ← decision conf message
  return ⟨message, if isGranted then if message.getD 1 0 = 1 then .resolving else .bound
    else .rejecting, []⟩

/-- The conversation comes to a stage. -/
def withStage (c : Conversation) (stage : Stage) : Conversation := { c with stage := stage }

/-- A send to the client has transmitted something. -/
def sent (c : Conversation) (stage : Stage) (sent : Sent) : Conversation :=
  { c with stage := stage, toClient := c.toClient ++ [sent] }

/-- The handler of `do_connect`, which gives the destination to `async_connect`.
`from_string` throws where there is no address. -/
def doConnect (library : AddressText) (c : Conversation) : Conversation :=
  match dstEndpoint library (connectMode c.message) with
  | some endpoint => c.withStage (.connecting endpoint)
  | none => c.withStage .dropped

/-- The bytes a completion of the relay has transmitted to the client. -/
def relayed (r after : Relay) : Str := (after .two).sent.drop (r .two).sent.length

/-- The handlers. -/
def handle (library : AddressText) (c : Conversation) (report : Report) : Conversation :=
  match report, c.stage with
  | .resolves true, _ => c.doConnect library
  | .resolves false, _ => c.withStage .dropped
  | .connects true, _ => c.withStage .replying
  | .connects false, _ => c.withStage .dropped
  | .replies n, .replying =>
    c.sent (.relaying (relaySystem .connect).start)
      (.reply ((replyToBrowser (connectMode c.message)).take n))
  | .replies n, _ => c.sent .rejected (.reply ((reply 91 c.message).take n))
  | .repliesLate bytes, _ => c.sent .rejected (.reply bytes)
  | .replyFails, .replying => c.withStage .dropped
  | .replyFails, _ => c.withStage .rejected
  | .relays completion, .relaying r =>
    c.sent (.relaying (complete .connect r completion))
      (.relayed (relayed r (complete .connect r completion)))
  | .relays _, _ => c

/-- What can complete. A send transmits at least one byte of the eight. -/
def Possible (c : Conversation) (report : Report) : Prop :=
  match report, c.stage with
  | .resolves _, .resolving => True
  | .connects _, .connecting _ => True
  | .replies n, .replying | .replies n, .rejecting => 0 < n ∧ n ≤ 8
  | .repliesLate bytes, .rejecting => bytes ≠ [] ∧ bytes.length ≤ 8
  | .replyFails, .replying | .replyFails, .rejecting => True
  | .relays completion, .relaying r => Socks.Possible .connect r completion
  | _, _ => False

/-- Nothing of the request is left to be done: it was refused and the session reads on,
the relay runs, or the sockets were given up. -/
def AtRest (c : Conversation) : Prop :=
  match c.stage with
  | .rejected | .relaying _ | .dropped => True
  | _ => False

/-- The client has got exactly one reply, these bytes, before anything of the relay. -/
def Answered (c : Conversation) (bytes : Str) : Prop :=
  ∃ later : List Str, c.toClient = .reply bytes :: later.map Sent.relayed

end Conversation

/-- A request from its decision on, as a system of completions: of the resolver, the connect and
the sends. Each may succeed or fail. -/
def conversation (library : AddressText) (start : Conversation) :
    System Conversation Report Empty where
  start := start
  offers := Conversation.Possible
  serve c report := .ok (c.handle library report)

/-- The client's connection is healthy: no reply fails to be sent. -/
def Report.Healthy : Report → Prop
  | .replyFails => False
  | _ => True

/-- The outbound connection has been established. -/
def Report.establishes : Report → Bool
  | .connects reached => reached
  | _ => false

/-- The reply a request is to be answered with: granted if the outbound connection was
established, and failed otherwise. -/
def expected (message : Str) (reports : List Report) : Str :=
  reply (if reports.any Report.establishes then 90 else 91) message

/-- Nothing has gone wrong on the way to a reply: the name was resolved, the
destination reached, and the send of the reply has transmitted all of it. -/
def Report.Favourable (message : Str) : Report → Prop
  | .resolves found => found = true
  | .connects reached => reached = true
  | .replies n => n = 8
  | .repliesLate bytes => bytes = reply 91 message
  | .replyFails => False
  | .relays _ => True

/-- What the completions so far have come to: one case for each stage, with the completions that
lead there and what the client has got. -/
inductive Progress (message : Str) (reports : List Report) (c : Conversation) : Prop
  | rejecting (stage : c.stage = .rejecting) (sent : c.toClient = []) (none : reports = [])
  | resolving (stage : c.stage = .resolving) (sent : c.toClient = []) (none : reports = [])
  | connecting {endpoint : Address × UInt16} (stage : c.stage = .connecting endpoint)
      (sent : c.toClient = []) (one : reports = [.resolves true])
  | replying (stage : c.stage = .replying) (sent : c.toClient = [])
      (two : reports = [.resolves true, .connects true])
  | dropped (stage : c.stage = .dropped) (sent : c.toClient = [])
      (failed : .resolves false ∈ reports ∨ .connects false ∈ reports)
  | rejected {bytes : Str} (stage : c.stage = .rejected) (sent : c.toClient = [.reply bytes])
      (how : (∃ n, 0 < n ∧ n ≤ 8 ∧ reports = [.replies n] ∧ bytes = (reply 91 message).take n) ∨
        reports = [.repliesLate bytes])
  | relaying {r : Relay} {n : Nat} {later : List Str} {more : List Completion}
      (stage : c.stage = .relaying r) (some_ : 0 < n) (few : n ≤ 8)
      (sent : c.toClient = .reply ((reply 90 message).take n) :: later.map Sent.relayed)
      (reports : reports = [.resolves true, .connects true, .replies n] ++ more.map Report.relays)

section Progress

variable {library : AddressText} {conf : Option Str} {message : Str} {reports : List Report}
  {start c : Conversation}

/-- The destination of a request is always an address. -/
theorem doConnect_stage (library : AddressText) (c : Conversation) : ∃ endpoint,
    c.doConnect library = c.withStage (.connecting endpoint) := by
  rw [Conversation.doConnect, dstEndpoint, connectMode, library.fromText_dotted]
  exact ⟨_, rfl⟩

/-- One completion. The cases are those of the progress made so far, each with the reports that
are possible there. -/
theorem Progress.next (progress : Progress message reports c) (same : c.message = message)
    {report : Report} (possible : c.Possible report) (healthy : report.Healthy) :
    Progress message (reports ++ [report]) (c.handle library report) := by
  obtain ⟨message', stage', toClient⟩ := c
  cases same
  cases progress with
  | rejecting stage sent none =>
    cases stage
    cases sent
    cases none
    cases report with
    | replies n => exact .rejected rfl rfl (.inl ⟨n, possible.1, possible.2, rfl, rfl⟩)
    | repliesLate bytes => exact .rejected rfl rfl (.inr rfl)
    | replyFails => exact healthy.elim
    | resolves | connects | relays => exact possible.elim
  | resolving stage sent none =>
    cases stage
    cases sent
    cases none
    cases report with
    | resolves found =>
      cases found with
      | true =>
        obtain ⟨endpoint, connects⟩ := doConnect_stage library ⟨message', .resolving, []⟩
        rw [Conversation.handle, connects]
        exact .connecting rfl rfl rfl
      | false => exact .dropped rfl rfl (.inl List.mem_cons_self)
    | replyFails => exact healthy.elim
    | connects | replies | repliesLate | relays => exact possible.elim
  | connecting stage sent one =>
    cases stage
    cases sent
    cases one
    cases report with
    | connects reached =>
      cases reached with
      | true => exact .replying rfl rfl rfl
      | false => exact .dropped rfl rfl (.inr (by simp))
    | replyFails => exact healthy.elim
    | resolves | replies | repliesLate | relays => exact possible.elim
  | replying stage sent two =>
    cases stage
    cases sent
    cases two
    cases report with
    | replies n =>
      refine @Progress.relaying _ _ _ _ _ [] [] rfl possible.1 possible.2 ?_ rfl
      change [Sent.reply ((replyToBrowser (connectMode message')).take n)] = _
      rw [replyToBrowser_eq]
      rfl
    | replyFails => exact healthy.elim
    | resolves | connects | repliesLate | relays => exact possible.elim
  | dropped stage sent failed =>
    cases stage
    cases report <;> exact possible.elim
  | rejected stage sent how =>
    cases stage
    cases report <;> exact possible.elim
  | @relaying r n later more stage some_ few sent isReports =>
    cases stage
    simp only at sent
    subst sent isReports
    cases report with
    | relays completion =>
      refine @Progress.relaying _ _ _ _ _
        (later ++ [Conversation.relayed r (complete .connect r completion)])
        (more ++ [completion]) rfl some_ few ?_ ?_
      · simp [Conversation.handle, Conversation.sent]
      · simp
    | replyFails => exact healthy.elim
    | resolves | connects | replies | repliesLate => exact possible.elim

/-- The message is kept. -/
theorem handle_message (library : AddressText) (c : Conversation) (report : Report) :
    (c.handle library report).message = c.message := by
  unfold Conversation.handle
  split
  · obtain ⟨endpoint, connects⟩ := doConnect_stage library c
    rw [connects]
    rfl
  all_goals rfl

/-- A CONNECT request is answered at once, or a name is resolved for it. -/
theorem readInfo_progress (decided : Conversation.readInfo conf message = .ok start)
    (command : message.getD 1 0 = 1) : start.message = message ∧ Progress message [] start := by
  obtain ⟨isGranted, -, returned⟩ := bind_eq_ok.mp decided
  cases returned
  cases isGranted with
  | true => exact ⟨rfl, .resolving (if_pos command) rfl rfl⟩
  | false => exact ⟨rfl, .rejecting rfl rfl rfl⟩

/-- In every run with a healthy client, by induction: from each stage there is one completion that
goes on, and one that gives up. -/
theorem run_progress (decided : Conversation.readInfo conf message = .ok start)
    (command : message.getD 1 0 = 1)
    (run : Run (conversation library start) (fun _ report => report.Healthy) reports c) :
    c.message = message ∧ Progress message reports c := by
  induction run with
  | start => exact readInfo_progress decided command
  | next before possible healthy served ih =>
    cases served
    exact ⟨(handle_message library _ _).trans ih.1, ih.2.next ih.1 possible healthy⟩

/-- A reply that was sent whole, and one that was not. -/
theorem take_reply_iff {code : UInt8} (whole : 8 ≤ message.length) {n : Nat} (few : n ≤ 8) :
    (reply code message).take n = reply code message ↔ n = 8 := by
  have length := reply_length whole code
  constructor
  · intro same
    have lengths := congrArg List.length same
    rw [List.length_take, length] at lengths
    omega
  · rintro rfl
    exact List.take_of_length_le (Nat.le_of_eq length)

/-- The first thing the client has got is the reply. -/
theorem answered_iff {bytes other : Str} (later : List Str)
    (sent : c.toClient = .reply other :: later.map Sent.relayed) :
    c.Answered bytes ↔ other = bytes := by
  rw [Conversation.Answered, sent]
  constructor
  · rintro ⟨more, same⟩
    exact Sent.reply.inj (List.cons.inj same).1
  · rintro rfl
    exact ⟨later, rfl⟩

/-- For every decided CONNECT request and every outcome of the steps that follow, with a healthy
client: once it has come to rest, the client has got exactly one reply, with the code that is due
and before anything relayed, if and only if the name was resolved, the destination was reached and
the send of the reply has transmitted all of it.

By the stage in which the conversation has come to rest. Without the name or the connection no
reply is ever sent, and a rejection that is sent in part is a reply that is not whole. -/
theorem replied_iff_favourable (decided : Conversation.readInfo conf message = .ok start)
    (command : message.getD 1 0 = 1) (whole : 8 ≤ message.length)
    (run : Run (conversation library start) (fun _ report => report.Healthy) reports c)
    (rest : c.AtRest) :
    c.Answered (expected message reports) ↔ ∀ report ∈ reports, report.Favourable message := by
  obtain ⟨same, progress⟩ := run_progress decided command run
  cases progress with
  | rejecting stage | resolving stage | connecting stage | replying stage =>
    rw [Conversation.AtRest, stage] at rest
    exact rest.elim
  | dropped stage sent failed =>
    refine iff_of_false ?_ ?_
    · rintro ⟨later, isReply⟩
      rw [sent] at isReply
      cases isReply
    · intro all
      rcases failed with resolves | connects
      · cases all _ resolves
      · cases all _ connects
  | @rejected bytes stage sent how =>
    rw [answered_iff [] sent]
    rcases how with ⟨n, some_, few, rfl, rfl⟩ | rfl
    · have code : expected message [.replies n] = reply 91 message := rfl
      rw [code, take_reply_iff whole few]
      simp [Report.Favourable]
    · have code : expected message [.repliesLate bytes] = reply 91 message := rfl
      rw [code]
      simp [Report.Favourable]
  | @relaying r n later more stage some_ few sent isReports =>
    have code : expected message reports = reply 90 message := by
      rw [isReports, expected]
      simp [Report.establishes]
    rw [answered_iff later sent, code, take_reply_iff whole few, isReports]
    simp [Report.Favourable]

end Progress

/-- A CONNECT request to 10.0.0.1, port 80, that the rules have granted. -/
def grantedConnect : Conversation := ⟨connectRequest, .resolving, []⟩

theorem grantedConnect_decided :
    Conversation.readInfo (some (confText shippedTexts)) connectRequest = .ok grantedConnect := by
  have granted : decision (some (confText shippedTexts)) connectRequest = .ok true := by
    decide +kernel
  rw [Conversation.readInfo, granted]
  rfl

/-- Reached, the destination is reported to the client with a whole reply. -/
theorem replied_iff_favourable_reached : ∃ c,
    Run (conversation addressText grantedConnect) (fun _ report => report.Healthy)
      [.resolves true, .connects true, .replies 8] c ∧
    c.Answered (reply 90 connectRequest) := by
  obtain ⟨endpoint, connects⟩ := doConnect_stage addressText grantedConnect
  have resolved : Run (conversation addressText grantedConnect) (fun _ report => report.Healthy)
      [.resolves true] (grantedConnect.withStage (.connecting endpoint)) :=
    .next .start trivial trivial (congrArg Except.ok connects)
  have connected : Run (conversation addressText grantedConnect)
      (fun _ report => report.Healthy) [.resolves true, .connects true]
      (grantedConnect.withStage .replying) :=
    .next resolved trivial trivial rfl
  have possible : (grantedConnect.withStage .replying).Possible (.replies 8) :=
    show 0 < 8 ∧ 8 ≤ 8 by decide
  have run : Run (conversation addressText grantedConnect) (fun _ report => report.Healthy)
      [.resolves true, .connects true, .replies 8]
      ((grantedConnect.withStage .replying).handle addressText (.replies 8)) :=
    .next connected possible trivial rfl
  refine ⟨_, run,
    (replied_iff_favourable grantedConnect_decided rfl (by decide) run trivial).mpr ?_⟩
  intro report member
  simp only [List.mem_cons, List.not_mem_nil, or_false] at member
  rcases member with rfl | rfl | rfl <;> rfl

/-- Where the destination cannot be reached, the sockets are given up without a reply. -/
theorem unreached_without_reply : ∃ c,
    Conversation.readInfo (some (confText shippedTexts)) connectRequest = .ok grantedConnect ∧
    Run (conversation addressText grantedConnect) (fun _ report => report.Healthy)
      [.resolves true, .connects false] c ∧ c.AtRest ∧ c.toClient = [] ∧
    ¬ c.Answered (expected connectRequest [.resolves true, .connects false]) := by
  obtain ⟨endpoint, connects⟩ := doConnect_stage addressText grantedConnect
  have resolved : Run (conversation addressText grantedConnect) (fun _ report => report.Healthy)
      [.resolves true] (grantedConnect.withStage (.connecting endpoint)) :=
    .next .start trivial trivial (congrArg Except.ok connects)
  refine ⟨grantedConnect.withStage .dropped, grantedConnect_decided,
    .next resolved trivial trivial rfl, trivial, rfl, ?_⟩
  rintro ⟨later, isReply⟩
  cases isReply

end NetProg.Socks
