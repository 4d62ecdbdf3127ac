import Mathlib.Data.List.Infix
import NetProg.Console.Conversation
import NetProg.Console.Request
import NetProg.Library.Refinements
import NetProg.Socks.Replies
import NetProg.Socks.Streams

/-!
# A console behind the proxy

The console of the proxied shells asks the proxy for its shell, reads the reply and starts its
session on the same socket. It does not look at the reply, and takes what one read brings for
all of it. What it left of the reply is then read by the session, as if the shell had written it.

Behind the reply the two relays stand between the console and the shell. Every party has got a
beginning of what the one before it has sent, and so the console and its shell do what they
would do without a proxy, in the same order. Only the end of the stream does not come through.
-/

namespace NetProg.Console

open Runs

/-- Where `handle_connect` of the console is: it awaits the reply, the read of it has failed, or
the session was made. -/
inductive Client where
  | asking
  | failed
  | running
  deriving DecidableEq

/-- The console, the session it has made or will make, and how many bytes it has taken for the
reply; the proxy; and the shell: what it has written and taken, whether it has left, and what it
and the console have written, one after the other. -/
structure Path where
  client : Client
  replied : Nat
  console : ShellSession
  proxy : Socks.Conversation
  written : Str
  taken : List Str
  isOpen : Bool
  log : List (Bool × UInt8)

/-- Something completes in the proxy; the read of the reply completes, with bytes or with an
error; or the session or the shell moves. -/
inductive Step where
  | proxy (report : Socks.Report)
  | reply (n : Nat)
  | replyFails
  | move (move : Move)

/-- What the proxy has sent to the console. -/
def sentBytes : Socks.Sent → Str
  | .reply bytes => bytes
  | .relayed bytes => bytes

/-- The relay, once the request was answered. -/
def relay (proxy : Socks.Conversation) : Option Socks.Relay :=
  match proxy.stage with
  | .relaying r => some r
  | _ => none

/-- A session of the console: its number, its command file and its buffer before the first read;
how its shell reads, and its greeting. -/
structure Setting where
  index : Nat
  file : Str
  data : Str
  reading : Reading
  greeting : Str

namespace Path

variable (p : Path)

/-- What the console has sent behind the request. -/
def commands : Str := p.console.sent.flatten

/-- What is on its way to the console, and to the shell. -/
def fromProxy : Str :=
  (p.proxy.toClient.flatMap sentBytes).drop (p.replied + p.console.received.length)

/-- What the proxy has passed on to the shell and the shell has not taken. -/
def toShell : Str :=
  match relay p.proxy with
  | some r => (r .one).sent.drop p.taken.flatten.length
  | none => []

/-- What the relay reads from. The console closes its socket when its session has read the end of
the stream. -/
def streams : Socks.Streams where
  source
    | .one => p.commands
    | .two => p.written
  Ended
    | .one => p.client = .failed ∨ p.console.reading = false
    | .two => p.isOpen = false

/-- The proxy has ended the stream to the console. -/
def Closed : Prop :=
  match p.proxy.stage with
  | .dropped => True
  | .relaying r => (r .two).shutdown = true
  | _ => False

section System

variable (setting : Setting) (library : Socks.AddressText)

/-- What can happen. -/
def Offers : Step → Prop
  | .proxy report => p.proxy.Possible report ∧
      match report, relay p.proxy with
      | .relays completion, some r => p.streams.Arrives r completion
      | _, _ => True
  | .reply n => p.client = .asking ∧ 0 < n ∧ n ≤ 8 ∧ n ≤ p.fromProxy.length
  | .replyFails => p.client = .asking ∧ p.fromProxy = [] ∧ p.Closed
  | .move (.reads n) => p.client = .running ∧ 0 < n ∧ n ≤ p.fromProxy.length ∧ n ≤ 4096 ∧
      p.console.reading = true
  | .move .ends => p.client = .running ∧ p.fromProxy = [] ∧ p.Closed ∧ p.console.reading = true
  | .move (.takes n _) => p.isOpen = true ∧ setting.reading.Takes p.toShell n
  | .move (.leaves n _) => p.isOpen = true ∧ setting.reading.Takes p.toShell n ∧
      setting.reading.line (p.toShell.take n) ≠ []

/-- A shell greets when it is connected to. -/
def greeted : Socks.Report → Path
  | .connects true => { p with
      written := setting.greeting ++ str "% "
      log := shown false (setting.greeting ++ str "% ") }
  | _ => p

/-- The handler of a read of the session. -/
def read (bytes : Str) : Path :=
  { p with
    console := readHandler setting.index p.console bytes
    log := p.log ++ if p.console.exit = false then
      shown true (sends setting.index p.console bytes).flatten else [] }

/-- The shell has taken bytes and written a text. -/
def answered (n : Nat) (text : Str) : Path :=
  { p with
    written := p.written ++ text
    taken := p.taken ++ [p.toShell.take n]
    log := p.log ++ shown false text }

/-- What a step does: one of the proxy, one of the client's send of its request, or one of the
console and of the shell as in a conversation, whose bytes go through the proxy here. -/
def serve : Step → Path
  | .proxy report => { p.greeted setting report with proxy := p.proxy.handle library report }
  | .reply n => { p with client := .running, replied := n }
  | .replyFails => { p with client := .failed }
  | .move (.reads n) => p.read setting (p.fromProxy.take n)
  | .move .ends => { p with console := handle setting.index p.console .eof }
  | .move (.takes n answer) =>
    p.answered n (setting.reading.written (setting.reading.line (p.toShell.take n)) answer)
  | .move (.leaves n answer) => { p.answered n answer with isOpen := false }

end System

end Path

/-- A console that has sent its request, on which the proxy has decided. Its events are those of
the proxy, of the console and of the shell, in any order in which there is something to do. -/
def path (setting : Setting) (library : Socks.AddressText) (proxy : Socks.Conversation) :
    System Path Step Empty where
  start := ⟨.asking, 0, (session setting.index setting.file setting.data).start, proxy, [], [],
    true, []⟩
  offers p event := p.Offers setting event
  serve p event := .ok (p.serve setting library event)

/-- What the proxy reads into its buffer first: the request and nothing behind it. -/
def requestBuffer (library : Socks.AddressText) (address : Socks.Address) (port : UInt16) : Str :=
  socksMessage library address port ++ List.replicate 1016 0

/-- Nothing goes wrong on the way: the name is resolved and the shell reached, no error is
reported, and every send transmits all it was asked for. -/
def Path.Smooth (p : Path) : Step → Prop
  | .proxy report => report.Favourable p.proxy.message ∧
      match report, relay p.proxy with
      | .relays completion, some r => completion.NoError ∧ Socks.WholeSend .connect r completion
      | _, _ => True
  | _ => True

/-- The same session without a proxy. What was left of the reply comes before the greeting. -/
def Setting.direct (setting : Setting) (leftover : Str) : System Conversation Move Empty :=
  conversation setting.reading setting.index setting.file setting.data
    (leftover ++ setting.greeting)

/-- What the session reads of the reply to a granted request. -/
def leftover (message : Str) (first : Nat) : Str := (Socks.reply 90 message).drop first

/-- What is seen of an event by the console and its shell. -/
def Step.seen : Step → List Move
  | .move made => [made]
  | _ => []

/-- The path as the console and its shell see it: everything between them is on its way. -/
def Path.view (setting : Setting) (first : Nat) (p : Path) : Conversation :=
  match relay p.proxy with
  | some _ => {
      console := p.console
      down := (leftover p.proxy.message first ++ p.written).drop p.console.received.length
      up := p.commands.drop p.taken.flatten.length
      taken := p.taken
      isOpen := p.isOpen
      log := shown false (leftover p.proxy.message first) ++ p.log }
  | none => (setting.direct (leftover p.proxy.message first)).start

/-- Nothing goes wrong, the console takes this much for the reply, and what the console and the
shell do meets a condition. Wrong are errors of the network and short sends of the proxy. -/
structure Path.Through (setting : Setting) (first : Nat) (allows : Conversation → Move → Prop)
    (p : Path) (event : Step) : Prop where
  smooth : p.Smooth event
  reply : ∀ n, event = .reply n → n = first
  allowed : ∀ move ∈ event.seen, allows (p.view setting first) move

/-! ## The stages of a path -/

/-- The relay runs: every party has got a beginning of what the one before it has sent. With the
direct conversation as the view, what is on its way includes what the relay has still to pass on.
-/
structure Flows (setting : Setting) (first : Nat) (p : Path) (r : Socks.Relay) : Prop where
  stage : p.proxy.stage = .relaying r
  sent : p.proxy.toClient.flatMap sentBytes = Socks.reply 90 p.proxy.message ++ (r .two).sent
  carried : p.streams.Carried r
  taken : p.taken.flatten <+: (r .one).sent
  received : p.console.received <+: leftover p.proxy.message first ++ (r .two).sent
  reading : p.console.reading = true
  client : p.client = .asking ∧ p.replied = 0 ∧
      p.console = (session setting.index setting.file setting.data).start ∨
    p.client = .running ∧ p.replied = first

/-- How far a granted request has come. -/
inductive Phase (setting : Setting) (library : Socks.AddressText) (first : Nat) (p : Path) : Prop
  | opening (stage : p.proxy.stage = .resolving ∨ ∃ endpoint, p.proxy.stage = .connecting endpoint ∧
        Socks.dstEndpoint library (Socks.connectMode p.proxy.message) = some endpoint)
      (nothing : p.proxy.toClient = []) (same : p = (path setting library p.proxy).start)
  | connected (stage : p.proxy.stage = .replying) (nothing : p.proxy.toClient = [])
      (same : p = (path setting library p.proxy).start.greeted setting (.connects true))
  | relaying {r : Socks.Relay} (flows : Flows setting first p r)

section Flows

variable {setting : Setting} {first : Nat} {p : Path} {r : Socks.Relay}

/-- Of a beginning and the whole, the same is first. -/
theorem take_of_beginning {a b : Str} (isPrefix : a <+: b) {n : Nat} (within : n ≤ a.length) :
    a.take n = b.take n := by
  obtain ⟨rest, rfl⟩ := isPrefix
  rw [List.take_append_of_le_length within]

/-- And some of what follows is more of it. -/
theorem prefix_take_drop {a b : Str} (isPrefix : a <+: b) (n : Nat) :
    a ++ (b.drop a.length).take n <+: b := by
  obtain ⟨rest, rfl⟩ := isPrefix
  rw [List.drop_left]
  exact (List.prefix_append_right_inj _).mpr (List.take_prefix _ _)

theorem takes_length {reading : Reading} {bytes : Str} {n : Nat} (takes : reading.Takes bytes n) :
    n ≤ bytes.length := by
  cases reading <;> exact takes.2.2

/-- What can be taken can be taken of more. -/
theorem takes_of_beginning {reading : Reading} {a b : Str} {n : Nat} (takes : reading.Takes a n)
    (isPrefix : a <+: b) : reading.Takes b n := by
  have within := (takes_length takes).trans isPrefix.length_le
  cases reading with
  | getline =>
    rw [Reading.Takes, ← take_of_beginning isPrefix takes.2.2]
    exact ⟨takes.1, takes.2.1, within⟩
  | recv => exact ⟨takes.1, takes.2.1, within⟩

theorem Flows.relay (flows : Flows setting first p r) : relay p.proxy = some r := by
  rw [Console.relay, flows.stage]

/-- Once the relay flows, what is on the way to the console is what its shell has written and it
has not received, whether that is in the relay or not, with the rest of the reply before it; and
so for the commands on their way to the shell. -/
theorem Flows.view (flows : Flows setting first p r) : p.view setting first =
    ⟨p.console, (leftover p.proxy.message first ++ p.written).drop p.console.received.length,
      p.commands.drop p.taken.flatten.length, p.taken, p.isOpen,
      shown false (leftover p.proxy.message first) ++ p.log⟩ := by
  rw [Path.view, flows.relay]

theorem Flows.toShell (flows : Flows setting first p r) :
    p.toShell = (r .one).sent.drop p.taken.flatten.length := by
  rw [Path.toShell, flows.relay]

/-- What is on its way to the console comes first in everything that is. -/
theorem Flows.fromProxy (flows : Flows setting first p r) (short : first ≤ 8)
    (whole : 8 ≤ p.proxy.message.length) (running : p.client = .running) :
    p.fromProxy = (leftover p.proxy.message first ++ (r .two).sent).drop
      p.console.received.length := by
  have length := Socks.reply_length whole 90
  obtain ⟨asking, -⟩ | ⟨-, replied⟩ := flows.client
  · cases asking.symm.trans running
  · rw [Path.fromProxy, flows.sent, replied, ← List.drop_drop, leftover,
      List.drop_append_of_le_length (by omega)]

/-- A completion in the relay. -/
theorem Flows.completes (flows : Flows setting first p r) (library : Socks.AddressText)
    {event : Socks.Completion} (possible : Socks.Possible .connect r event)
    (allowed : p.streams.Allows r event) :
    Flows setting first { p with proxy := p.proxy.handle library (.relays event) }
        (Socks.complete .connect r event) ∧
      Path.view setting first { p with proxy := p.proxy.handle library (.relays event) } =
        p.view setting first := by
  obtain ⟨carried, kept⟩ := Socks.complete_carried flows.carried possible allowed
  obtain ⟨more, isMore⟩ := kept .two
  have relayed : Socks.Conversation.relayed r (Socks.complete .connect r event) = more := by
    rw [Socks.Conversation.relayed, ← isMore, List.drop_left]
  have handled : p.proxy.handle library (.relays event) =
      p.proxy.sent (.relaying (Socks.complete .connect r event)) (.relayed more) := by
    simp only [Socks.Conversation.handle, flows.stage, relayed]
  rw [handled]
  have after : Flows setting first
      { p with proxy := p.proxy.sent (.relaying (Socks.complete .connect r event)) (.relayed more) }
      (Socks.complete .connect r event) := by
    refine ⟨rfl, ?_, carried, flows.taken.trans (kept .one), flows.received.trans ?_, flows.reading,
      flows.client⟩
    · change (p.proxy.toClient ++ [Socks.Sent.relayed more]).flatMap sentBytes = _
      rw [List.flatMap_append, flows.sent, ← isMore, List.append_assoc]
      simp [sentBytes, Socks.Conversation.sent]
    · exact (List.prefix_append_right_inj _).mpr (kept .two)
  exact ⟨after, by rw [after.view, flows.view]; rfl⟩

/-- The session begins. -/
theorem Flows.begins (flows : Flows setting first p r) (asking : p.client = .asking) :
    Flows setting first { p with client := .running, replied := first } r ∧
      Path.view setting first { p with client := .running, replied := first } =
        p.view setting first := by
  have after : Flows setting first { p with client := .running, replied := first } r := by
    refine ⟨flows.stage, flows.sent, ?_, flows.taken, flows.received, flows.reading,
      .inr ⟨rfl, rfl⟩⟩
    intro d
    refine (flows.carried d).grows List.prefix_rfl (fun ended => ⟨rfl, ?_⟩)
    cases d with
    | one => exact .inr (ended.resolve_left (by simp [asking]))
    | two => exact ended
  exact ⟨after, by rw [after.view, flows.view]; rfl⟩

/-- A read of the session is the same read without a proxy: the bytes that the proxy has passed on
are the first of those that are on their way to the console in the direct conversation. -/
theorem Flows.reads (flows : Flows setting first p r) (library : Socks.AddressText)
    (short : first ≤ 8) (whole : 8 ≤ p.proxy.message.length) {n : Nat}
    (offered : p.Offers setting (.move (.reads n))) :
    Flows setting first (p.serve setting library (.move (.reads n))) r ∧
      (p.view setting first).Offers setting.reading (.reads n) ∧
      (p.view setting first).serve setting.reading setting.index (.reads n) =
        (p.serve setting library (.move (.reads n))).view setting first := by
  obtain ⟨running, positive, within, few, isReading⟩ := offered
  rw [flows.fromProxy short whole running] at within
  have written : (r .two).sent <+: p.written := (flows.carried .two).sent
  have down : (leftover p.proxy.message first ++ (r .two).sent).drop p.console.received.length <+:
      (leftover p.proxy.message first ++ p.written).drop p.console.received.length :=
    ((List.prefix_append_right_inj _).mpr written).drop _
  have bytes : p.fromProxy.take n = (p.view setting first).down.take n := by
    rw [flows.fromProxy short whole running, flows.view]
    exact take_of_beginning down within
  have inTime : n ≤ (p.view setting first).down.length := by
    rw [flows.view]
    exact within.trans down.length_le
  have received : (p.read setting (p.fromProxy.take n)).console.received =
      p.console.received ++ p.fromProxy.take n := received_readHandler
  have sent : (p.read setting (p.fromProxy.take n)).console.sent = p.console.sent ++
      sends setting.index p.console (p.fromProxy.take n) := sent_readHandler
  have commands : (p.read setting (p.fromProxy.take n)).commands = p.commands ++
      (sends setting.index p.console (p.fromProxy.take n)).flatten := by
    rw [Path.commands, sent, List.flatten_append]
    rfl
  have after : Flows setting first (p.read setting (p.fromProxy.take n)) r := by
    refine ⟨flows.stage, flows.sent, ?_, flows.taken, ?_, ?_, .inr ⟨running, ?_⟩⟩
    · intro d
      cases d with
      | one =>
        refine (flows.carried .one).grows ⟨_, commands.symm⟩ (fun ended => ?_)
        rcases ended with failed | closed
        · cases failed.symm.trans running
        · cases closed.symm.trans isReading
      | two => exact flows.carried .two
    · rw [received, flows.fromProxy short whole running]
      exact prefix_take_drop flows.received n
    · exact reading_readHandler.trans isReading
    · exact (flows.client.resolve_left (fun asking => by cases asking.1.symm.trans running)).2
  refine ⟨after, ⟨positive, inTime, few, by rw [flows.view]; exact isReading⟩, ?_⟩
  have length : ((p.view setting first).down.take n).length = n := by
    rw [List.length_take, Nat.min_eq_left inTime]
  have behind : p.taken.flatten.length ≤ p.commands.length :=
    (flows.taken.trans (flows.carried .one).sent).length_le
  rw [Conversation.serve, Conversation.read, length, ← bytes, flows.view]
  refine Eq.trans ?_ after.view.symm
  congr 1
  · rw [received, List.length_append, bytes, length, List.drop_drop]
    rfl
  · rw [commands]
    exact (List.drop_append_of_le_length behind).symm
  · exact List.append_assoc _ _ _

/-- What the shell takes is the same, and so is what it writes. -/
theorem Flows.answers (flows : Flows setting first p r) (isOpen : p.isOpen = true) {n : Nat}
    (takes : setting.reading.Takes p.toShell n) (text : Str) :
    setting.reading.Takes (p.view setting first).up n ∧
      p.toShell.take n = (p.view setting first).up.take n ∧
      Flows setting first (p.answered n text) r ∧
      (p.view setting first).answered n text = (p.answered n text).view setting first := by
  have up : p.toShell <+: (p.view setting first).up := by
    rw [flows.toShell, flows.view]
    exact (flows.carried .one).sent.drop _
  have within := takes_length takes
  have same := take_of_beginning up within
  have received : p.console.received <+: leftover p.proxy.message first ++ p.written :=
    flows.received.trans ((List.prefix_append_right_inj _).mpr (flows.carried .two).sent)
  have after : Flows setting first (p.answered n text) r := by
    refine ⟨flows.stage, flows.sent, ?_, ?_, flows.received, flows.reading, flows.client⟩
    · intro d
      cases d with
      | one => exact flows.carried .one
      | two =>
        refine (flows.carried .two).grows (List.prefix_append _ _) (fun closed => ?_)
        cases isOpen.symm.trans closed
    · change (p.taken ++ [p.toShell.take n]).flatten <+: _
      rw [List.flatten_append, List.flatten_singleton, flows.toShell]
      exact prefix_take_drop flows.taken n
  refine ⟨takes_of_beginning takes up, same, after, ?_⟩
  have length : (p.toShell.take n).length = n := by
    rw [List.length_take, Nat.min_eq_left within]
  rw [Conversation.answered, ← same, flows.view]
  refine Eq.trans ?_ after.view.symm
  congr 1
  · change _ = (leftover p.proxy.message first ++ (p.written ++ text)).drop _
    rw [← List.append_assoc]
    exact (List.drop_append_of_le_length received.length_le).symm
  · change (p.commands.drop _).drop n =
      p.commands.drop (p.taken ++ [p.toShell.take n]).flatten.length
    rw [List.flatten_append, List.flatten_singleton, List.length_append, length, List.drop_drop]
  · exact List.append_assoc _ _ _

/-- The last line. -/
theorem Flows.leaves (flows : Flows setting first p r) :
    Flows setting first { p with isOpen := false } r := by
  refine ⟨flows.stage, flows.sent, ?_, flows.taken, flows.received, flows.reading, flows.client⟩
  intro d
  cases d with
  | one => exact flows.carried .one
  | two => exact (flows.carried .two).grows List.prefix_rfl (fun _ => ⟨rfl, rfl⟩)

/-- Nothing but the end of the stream is kept from the console and its shell. -/
theorem Flows.moves (flows : Flows setting first p r) (library : Socks.AddressText)
    (short : first ≤ 8) (whole : 8 ≤ p.proxy.message.length) {move : Move}
    (offered : p.Offers setting (.move move)) :
    move ≠ .ends ∧ Flows setting first (p.serve setting library (.move move)) r ∧
      (p.view setting first).Offers setting.reading move ∧
      (p.view setting first).serve setting.reading setting.index move =
        (p.serve setting library (.move move)).view setting first := by
  have isOpen (same : p.isOpen = true) : (p.view setting first).isOpen = true := by
    rw [flows.view]
    exact same
  cases move with
  | reads n => exact ⟨by simp, flows.reads library short whole offered⟩
  | ends =>
    obtain ⟨-, -, closed, -⟩ := offered
    rw [Path.Closed, flows.stage] at closed
    cases closed.symm.trans (flows.carried .two).shutdown
  | takes n answer =>
    obtain ⟨open_, takes⟩ := offered
    obtain ⟨can, same, after, view⟩ := flows.answers open_ takes
      (setting.reading.written (setting.reading.line (p.toShell.take n)) answer)
    refine ⟨by simp, after, ⟨isOpen open_, can⟩, ?_⟩
    rw [Conversation.serve, ← same]
    exact view
  | leaves n answer =>
    obtain ⟨open_, takes, some_⟩ := offered
    obtain ⟨can, same, after, view⟩ := flows.answers open_ takes answer
    refine ⟨by simp, after.leaves, ⟨isOpen open_, can, same ▸ some_⟩, ?_⟩
    rw [Conversation.serve, view, after.view]
    exact after.leaves.view.symm

end Flows

/-! ## The refinement -/

section Refined

variable {setting : Setting} {library : Socks.AddressText} {first : Nat} {p : Path}
  {allows : Conversation → Move → Prop} {event : Step}

/-- Before the relay there is nothing that the console or the shell can do. -/
theorem not_offers_move (asking : p.client = .asking) (none : relay p.proxy = none) (move : Move) :
    ¬ p.Offers setting (.move move) := by
  have nothing : p.toShell = [] := by rw [Path.toShell, none]
  intro offered
  cases move with
  | reads | ends => cases asking.symm.trans offered.1
  | takes n answer => exact not_takes_nil (nothing ▸ offered.2)
  | leaves n answer => exact not_takes_nil (nothing ▸ offered.2.1)

/-- Nor is there anything to be seen. -/
theorem view_before (none : relay p.proxy = none) : p.view setting first =
    (setting.direct (leftover p.proxy.message first)).start := by
  rw [Path.view, none]

/-- The proxy connects to the endpoint in the request. -/
theorem doConnect_endpoint (library : Socks.AddressText) (proxy : Socks.Conversation) :
    ∃ endpoint, Socks.dstEndpoint library (Socks.connectMode proxy.message) = some endpoint ∧
      proxy.doConnect library = proxy.withStage (.connecting endpoint) := by
  obtain ⟨endpoint, connects⟩ := Socks.doConnect_stage library proxy
  refine ⟨endpoint, ?_, connects⟩
  rw [Socks.Conversation.doConnect] at connects
  cases isEndpoint : Socks.dstEndpoint library (Socks.connectMode proxy.message) with
  | none =>
    rw [isEndpoint] at connects
    cases congrArg Socks.Conversation.stage connects
  | some other =>
    rw [isEndpoint] at connects
    cases congrArg Socks.Conversation.stage connects
    rfl

/-- Before the reply everything comes from the proxy. -/
theorem offers_before (asking : p.client = .asking) (none : relay p.proxy = none)
    (nothing : p.proxy.toClient = []) (goesOn : ¬ p.Closed) (offered : p.Offers setting event) :
    ∃ report, event = .proxy report ∧ p.proxy.Possible report := by
  cases event with
  | proxy report => exact ⟨report, rfl, offered.1⟩
  | reply n =>
    obtain ⟨-, positive, -, within⟩ := offered
    rw [Path.fromProxy, nothing] at within
    simp only [List.flatMap_nil, List.drop_nil, List.length_nil] at within
    omega
  | replyFails => exact absurd offered.2.2 goesOn
  | move made => exact absurd offered (not_offers_move asking none made)

/-- The proxy, with its reply sent and the relay started. -/
def granted (proxy : Socks.Conversation) : Socks.Conversation :=
  proxy.sent (.relaying (Socks.relaySystem .connect).start) (.reply (Socks.reply 90 proxy.message))

/-- The reply, and the relay behind it: with the send of the reply bytes begin to flow, and
nothing of either stream has been read yet. -/
theorem flows_start (nothing : p.proxy.toClient = [])
    (same : p = (path setting library p.proxy).start.greeted setting (.connects true)) :
    Flows setting first { p with proxy := granted p.proxy } (Socks.relaySystem .connect).start ∧
      Path.view setting first { p with proxy := granted p.proxy } =
        (setting.direct (leftover p.proxy.message first)).start := by
  have taken : p.taken = [] := congrArg Path.taken same
  have console : p.console = (session setting.index setting.file setting.data).start :=
    congrArg Path.console same
  have flows : Flows setting first { p with proxy := granted p.proxy }
      (Socks.relaySystem .connect).start := by
    refine ⟨rfl, ?_, ?_, ?_, ?_, congrArg ShellSession.reading console,
      .inl ⟨congrArg Path.client same, congrArg Path.replied same, console⟩⟩
    · change (p.proxy.toClient ++ [_]).flatMap sentBytes = _
      rw [nothing]
      rfl
    · intro d
      have start : (Socks.relaySystem .connect).start d =
          (Socks.Channel.initial .connect).issue .read := by
        cases d <;> rfl
      refine ⟨?_, ?_, .turning (Socks.turns_start .connect d)⟩
      · rw [start]
        exact List.nil_prefix
      · rw [start]
        rfl
    · change p.taken.flatten <+: _
      rw [taken]
      exact List.nil_prefix
    · change p.console.received <+: _
      rw [console]
      exact List.nil_prefix
  refine ⟨flows, ?_⟩
  have written : p.written = setting.greeting ++ str "% " := congrArg Path.written same
  have log : p.log = shown false (setting.greeting ++ str "% ") := congrArg Path.log same
  have isOpen : p.isOpen = true := congrArg Path.isOpen same
  have message : (granted p.proxy).message = p.proxy.message := rfl
  rw [flows.view, Path.commands]
  simp only [written, log, console, taken, isOpen, message]
  rw [← shown_append, ← List.append_assoc]
  rfl

/-- A step of a granted request, and what is seen of it. Before the relay runs only the proxy and
the read of the reply go on, which is nothing to the conversation; from then on every move is seen
as itself. -/
theorem Phase.next (stage : Phase setting library first p) (short : first ≤ 8)
    (whole : 8 ≤ p.proxy.message.length) (offered : p.Offers setting event)
    (through : p.Through setting first allows event) :
    Phase setting library first (p.serve setting library event) ∧
      Continues (setting.direct (leftover p.proxy.message first))
        (fun c move => move ≠ .ends ∧ allows c move) (p.view setting first) event.seen
        ((p.serve setting library event).view setting first) := by
  cases stage with
  | opening stage nothing same =>
    have asking : p.client = .asking := congrArg Path.client same
    have none : relay p.proxy = none := by
      rcases stage with isStage | ⟨endpoint, isStage, -⟩ <;> rw [relay, isStage]
    have goesOn : ¬ p.Closed := by
      rcases stage with isStage | ⟨endpoint, isStage, -⟩ <;>
      · rw [Path.Closed, isStage]
        exact id
    obtain ⟨report, rfl, possible⟩ := offers_before asking none nothing goesOn offered
    have favourable := through.smooth.1
    rcases stage with isStage | ⟨endpoint, isStage, -⟩
    · cases report with
      | resolves found =>
        obtain rfl : found = true := favourable
        obtain ⟨endpoint, isEndpoint, connects⟩ := doConnect_endpoint library p.proxy
        have served : p.serve setting library (.proxy (.resolves true)) =
            { p with proxy := p.proxy.withStage (.connecting endpoint) } := by
          rw [Path.serve, Socks.Conversation.handle, connects]
          rfl
        rw [served]
        refine ⟨.opening (.inr ⟨endpoint, rfl, isEndpoint⟩) nothing ?_, ?_⟩
        · exact congrArg (fun q : Path =>
            { q with proxy := p.proxy.withStage (.connecting endpoint) }) same
        · rw [view_before none, view_before rfl]
          exact Continues.nil _
      | _ => simp [Socks.Conversation.Possible, isStage] at possible
    · cases report with
      | connects reached =>
        obtain rfl : reached = true := favourable
        refine ⟨.connected rfl nothing ?_, ?_⟩
        · exact congrArg (fun q : Path =>
            { q.greeted setting (.connects true) with proxy := p.proxy.withStage .replying }) same
        · rw [view_before none, view_before rfl]
          exact Continues.nil _
      | _ => simp [Socks.Conversation.Possible, isStage] at possible
  | connected stage nothing same =>
    have asking : p.client = .asking := congrArg Path.client same
    have none : relay p.proxy = none := by rw [relay, stage]
    have goesOn : ¬ p.Closed := by
      rw [Path.Closed, stage]
      exact id
    obtain ⟨report, rfl, possible⟩ := offers_before asking none nothing goesOn offered
    have favourable := through.smooth.1
    cases report with
    | replies n =>
      obtain rfl : n = 8 := favourable
      have handled : p.proxy.handle library (.replies 8) = granted p.proxy := by
        have eight := (@Socks.take_reply_iff _ 90 whole 8 (Nat.le_refl 8)).mpr rfl
        simp only [Socks.Conversation.handle, stage, Socks.replyToBrowser_eq, eight, granted]
      rw [Path.serve, handled]
      obtain ⟨flows, view⟩ := @flows_start setting library first p nothing same
      refine ⟨.relaying flows, ?_⟩
      rw [view_before none]
      exact view ▸ Continues.nil _
    | replyFails => exact favourable.elim
    | _ => simp [Socks.Conversation.Possible, stage] at possible
  | @relaying r flows =>
    cases event with
    | proxy report =>
      obtain ⟨possible, arrives⟩ := offered
      obtain ⟨favourable, whole⟩ := through.smooth
      rw [flows.relay] at arrives whole
      cases report with
      | relays completion =>
        simp only [Socks.Conversation.Possible, flows.stage] at possible
        obtain ⟨after, view⟩ := flows.completes library possible
          ⟨arrives, whole.1, whole.2⟩
        exact ⟨.relaying after, view ▸ Continues.nil _⟩
      | _ => simp [Socks.Conversation.Possible, flows.stage] at possible
    | reply n =>
      obtain rfl := through.reply n rfl
      obtain ⟨after, view⟩ := flows.begins offered.1
      exact ⟨.relaying after, view ▸ Continues.nil _⟩
    | replyFails =>
      obtain ⟨-, -, closed⟩ := offered
      rw [Path.Closed, flows.stage] at closed
      cases closed.symm.trans (flows.carried .two).shutdown
    | move made =>
      obtain ⟨notEnd, after, can, view⟩ := flows.moves library short whole offered
      refine ⟨.relaying after, ?_⟩
      exact Continues.one can ⟨notEnd, through.allowed made List.mem_cons_self⟩
        (congrArg Except.ok view)

/-- What keeps through a run of a granted request: how far it has come, and the message, which
stays the one that was decided on. -/
structure Granted (setting : Setting) (library : Socks.AddressText) (first : Nat) (message : Str)
    (p : Path) : Prop where
  stage : Phase setting library first p
  message : p.proxy.message = message

/-- The path is a refinement of the session without a proxy: with the moves of the console and
the shell, and without the end of the stream. -/
def refinement (setting : Setting) (library : Socks.AddressText) {first : Nat} (short : first ≤ 8)
    (allows : Conversation → Move → Prop) {proxy : Socks.Conversation}
    (whole : 8 ≤ proxy.message.length) (resolving : proxy.stage = .resolving)
    (nothing : proxy.toClient = []) :
    Refinement (path setting library proxy) (Path.Through setting first allows)
      (setting.direct (leftover proxy.message first))
      (fun c move => move ≠ .ends ∧ allows c move) where
  holds := Granted setting library first proxy.message
  view := Path.view setting first
  seen _ event := event.seen
  initial := ⟨.opening (.inl resolving) nothing rfl, rfl⟩
  starts := view_before (by rw [relay, path, resolving])
  kept := by
    intro p event after held offered through served
    cases served
    have enough : 8 ≤ p.proxy.message.length := by rwa [held.message]
    refine ⟨(held.stage.next short enough offered through).1, Eq.trans ?_ held.message⟩
    cases event with
    | proxy report => exact Socks.handle_message library p.proxy report
    | reply | replyFails => rfl
    | move move => cases move <;> rfl
  follows := by
    intro p event after held offered through served
    cases served
    have enough : 8 ≤ p.proxy.message.length := by rwa [held.message]
    rw [← held.message]
    exact (held.stage.next short enough offered through).2

/-! ## Everything comes through -/

/-- All that was written has come through. -/
def Path.Quiet (p : Path) : Prop :=
  ∀ r, relay p.proxy = some r → ∀ d, (r d).Settled (p.streams.source d) (p.streams.Ended d)

/-- What is left to be done in the relay. -/
def Path.left (p : Path) : Nat :=
  match relay p.proxy with
  | some r => p.streams.left r
  | none => 0

/-- The session runs behind the relay: bytes flow, the console has made its session, and the
message is the one that was decided on. -/
structure Running (setting : Setting) (first : Nat) (message : Str) (p : Path) : Prop where
  flows : ∃ r, Flows setting first p r
  client : p.client = .running
  message : p.proxy.message = message

variable {message : Str}

/-- Until everything has come through, something completes in the relay. -/
theorem Running.goesOn (running : Running setting first message p) (library : Socks.AddressText)
    (allows : Conversation → Move → Prop) (unsettled : ¬ p.Quiet) : ∃ event, event.seen = [] ∧
      p.Offers setting event ∧ p.Through setting first allows event ∧
      Running setting first message (p.serve setting library event) ∧
      (p.serve setting library event).view setting first = p.view setting first ∧
      (p.serve setting library event).left < p.left := by
  obtain ⟨⟨r, flows⟩, client, message⟩ := running
  have isRelay := flows.relay
  rw [Path.Quiet] at unsettled
  push Not at unsettled
  obtain ⟨other, same, d, unsettled⟩ := unsettled
  obtain rfl : r = other := Option.some.inj (isRelay.symm.trans same)
  obtain ⟨event, possible, allowed, less⟩ :=
    Socks.exists_completes flows.carried (fun all => unsettled (all d))
  obtain ⟨after, sameView⟩ := flows.completes library possible allowed
  refine ⟨.proxy (.relays event), rfl, ⟨?_, ?_⟩, ⟨⟨trivial, ?_⟩, by simp, by simp [Step.seen]⟩,
    ⟨⟨_, after⟩, client, (Socks.handle_message library p.proxy _).trans message⟩, sameView, ?_⟩
  · simp only [Socks.Conversation.Possible, flows.stage]
    exact possible
  · rw [isRelay]
    exact allowed.arrives
  · rw [isRelay]
    exact ⟨allowed.noError, allowed.whole⟩
  · have here : p.left = p.streams.left r := by rw [Path.left, isRelay]
    have there : Path.left { p with proxy := p.proxy.handle library (.relays event) } =
        p.streams.left (Socks.complete .connect r event) := by
      rw [Path.left, after.relay]
      rfl
    rw [here]
    exact there.trans_lt less

/-- So the relay comes to rest, and nothing of it is seen. -/
theorem Running.quiet (running : Running setting first message p) (library : Socks.AddressText)
    (proxy : Socks.Conversation) (allows : Conversation → Move → Prop) : ∃ events after,
      (∀ event ∈ events, event.seen = []) ∧
      Continues (path setting library proxy) (Path.Through setting first allows) p events after ∧
      (Running setting first message after ∧ after.view setting first = p.view setting first) ∧
      after.Quiet := by
  refine exists_continues (fun q => Running setting first message q ∧
    q.view setting first = p.view setting first) Path.Quiet (fun event : Step => event.seen = [])
    Path.left ?_ ⟨running, rfl⟩
  rintro q ⟨still, view⟩ unsettled
  obtain ⟨event, unseen, offered, through, again, same, less⟩ :=
    still.goesOn library allows unsettled
  exact ⟨event, _, unseen, offered, through, rfl, ⟨again, same.trans view⟩, less⟩

/-- When everything has come through, all that is on its way is at its end of the way. -/
theorem Flows.arrived {r : Socks.Relay} (flows : Flows setting first p r) (short : first ≤ 8)
    (whole : 8 ≤ p.proxy.message.length) (client : p.client = .running) (quiet : p.Quiet) :
    p.fromProxy = (p.view setting first).down ∧ p.toShell = (p.view setting first).up := by
  have one : (r .one).sent = p.commands := (quiet r flows.relay .one).sent
  have two : (r .two).sent = p.written := (quiet r flows.relay .two).sent
  constructor
  · rw [flows.fromProxy short whole client, flows.view, two]
  · rw [flows.toShell, flows.view, one]

/-- Then the console and the shell can do what they could do without a proxy. -/
theorem Running.offers (running : Running setting first message p) (short : first ≤ 8)
    (whole : 8 ≤ message.length) (quiet : p.Quiet) {move : Move} (goesOn : move ≠ .ends)
    (offered : (p.view setting first).Offers setting.reading move) :
    p.Offers setting (.move move) := by
  obtain ⟨⟨r, flows⟩, client, rfl⟩ := running
  obtain ⟨down, up⟩ := flows.arrived short whole client quiet
  have isOpen : (p.view setting first).isOpen = p.isOpen := by rw [flows.view]
  have console : (p.view setting first).console = p.console := by rw [flows.view]
  cases move with
  | ends => exact absurd rfl goesOn
  | reads n =>
    rw [Conversation.Offers, ← down, console] at offered
    exact ⟨client, offered⟩
  | takes n answer | leaves n answer =>
    rw [Conversation.Offers, ← up, isOpen] at offered
    exact offered

/-- How many steps the session is away. -/
def Path.ahead (p : Path) : Nat :=
  match p.proxy.stage with
  | .resolving => 4
  | .connecting _ => 3
  | .replying => 2
  | _ => if p.client = .asking then 1 else 0

/-- Until the session is made, something brings it nearer: the name is resolved, the endpoint
connected, the reply sent and then read. Each of these is offered in its stage, and seen as
nothing. -/
theorem Granted.goesOn (granted : Granted setting library first message p) (short : first ≤ 8)
    (whole : 8 ≤ message.length) (some_ : 0 < first) (allows : Conversation → Move → Prop)
    (notYet : ¬ Running setting first message p) : ∃ event, event.seen = [] ∧
      p.Offers setting event ∧ p.Through setting first allows event ∧
      Granted setting library first message (p.serve setting library event) ∧
      (p.serve setting library event).ahead < p.ahead := by
  obtain ⟨stage, rfl⟩ := granted
  have step (event : Step) (unseen : event.seen = []) (offered : p.Offers setting event)
      (smooth : p.Smooth event) (reply : ∀ n, event = .reply n → n = first)
      (kept : (p.serve setting library event).proxy.message = p.proxy.message)
      (less : (p.serve setting library event).ahead < p.ahead) :
      ∃ event, event.seen = [] ∧ p.Offers setting event ∧ p.Through setting first allows event ∧
        Granted setting library first p.proxy.message (p.serve setting library event) ∧
        (p.serve setting library event).ahead < p.ahead := by
    have through : p.Through setting first allows event := ⟨smooth, reply, by simp [unseen]⟩
    have after := (stage.next short whole offered through).1
    exact ⟨event, unseen, offered, through, ⟨after, kept⟩, less⟩
  have handled (report : Socks.Report) :
      (p.serve setting library (.proxy report)).proxy.message = p.proxy.message :=
    Socks.handle_message library p.proxy report
  cases stage with
  | opening isStage nothing same =>
    rcases isStage with isStage | ⟨endpoint, isStage, -⟩
    · refine step (.proxy (.resolves true)) rfl ⟨?_, trivial⟩ ⟨rfl, trivial⟩ (by simp)
        (handled _) ?_
      · simp [Socks.Conversation.Possible, isStage]
      · obtain ⟨endpoint, -, connects⟩ := doConnect_endpoint library p.proxy
        rw [Path.serve, Socks.Conversation.handle, connects]
        simp [Path.ahead, isStage, Socks.Conversation.withStage]
    · refine step (.proxy (.connects true)) rfl ⟨?_, trivial⟩ ⟨rfl, trivial⟩ (by simp)
        (handled _) ?_
      · simp [Socks.Conversation.Possible, isStage]
      · simp [Path.ahead, isStage, Path.serve, Socks.Conversation.handle,
          Socks.Conversation.withStage]
  | connected isStage nothing same =>
    refine step (.proxy (.replies 8)) rfl ⟨?_, trivial⟩ ⟨rfl, trivial⟩ (by simp) (handled _) ?_
    · simp [Socks.Conversation.Possible, isStage]
    · have after : (p.serve setting library (.proxy (.replies 8))).ahead =
          if p.client = .asking then 1 else 0 := by
        simp [Path.ahead, isStage, Path.serve, Path.greeted, Socks.Conversation.handle,
          Socks.Conversation.sent]
      have before : p.ahead = 2 := by rw [Path.ahead, isStage]
      rw [after, before]
      split <;> omega
  | @relaying r flows =>
    obtain ⟨asking, replied, console⟩ | ⟨isRunning, -⟩ := flows.client
    · refine step (.reply first) rfl ⟨asking, some_, short, ?_⟩ trivial (by simp) rfl ?_
      · have length := Socks.reply_length whole 90
        rw [Path.fromProxy, flows.sent, replied, console]
        simp only [session, List.length_nil, Nat.add_zero, List.drop_zero, List.length_append,
          length]
        omega
      · simp [Path.ahead, flows.stage, Path.serve, asking]
    · exact absurd ⟨⟨r, flows⟩, isRunning, rfl⟩ notYet

/-- So the session is made, and nothing is seen of that. -/
theorem Granted.running (granted : Granted setting library first message p) (short : first ≤ 8)
    (whole : 8 ≤ message.length) (some_ : 0 < first) (proxy : Socks.Conversation)
    (allows : Conversation → Move → Prop) : ∃ events after,
      (∀ event ∈ events, event.seen = []) ∧
      Continues (path setting library proxy) (Path.Through setting first allows) p events after ∧
      Granted setting library first message after ∧ Running setting first message after := by
  refine exists_continues (Granted setting library first message)
    (Running setting first message) (fun event : Step => event.seen = []) Path.ahead ?_ granted
  intro q held notYet
  obtain ⟨event, unseen, offered, through, again, less⟩ :=
    held.goesOn short whole some_ allows notYet
  exact ⟨event, _, unseen, offered, through, rfl, again, less⟩

/-- A move of the console or the shell, as soon as everything before it has come through. -/
theorem Running.answers (running : Running setting first message p) (short : first ≤ 8)
    (whole : 8 ≤ message.length) (library : Socks.AddressText) (proxy : Socks.Conversation)
    {move : Move} (goesOn : move ≠ .ends)
    (offered : (p.view setting first).Offers setting.reading move)
    (allowed : allows (p.view setting first) move) : ∃ events after,
      Continues (path setting library proxy) (Path.Through setting first allows) p events after ∧
      Running setting first message after ∧
      after.view setting first =
        (p.view setting first).serve setting.reading setting.index move ∧
      events.flatMap Step.seen = [move] := by
  obtain ⟨events, q, unseen, continues, ⟨still, sameView⟩, quiet⟩ :=
    running.quiet library proxy allows
  rw [← sameView] at offered allowed ⊢
  have can := still.offers short whole quiet goesOn offered
  obtain ⟨⟨r, flows⟩, client, same⟩ := still
  obtain ⟨-, after, -, view⟩ := flows.moves library short (by rwa [same]) can
  have through : q.Through setting first allows (.move move) :=
    ⟨trivial, by simp, by simpa [Step.seen] using allowed⟩
  have one : Continues (path setting library proxy) (Path.Through setting first allows) q
      [.move move] (q.serve setting library (.move move)) := Continues.one can through rfl
  have kept : (q.serve setting library (.move move)).client = q.client ∧
      (q.serve setting library (.move move)).proxy = q.proxy := by
    cases move <;> exact ⟨rfl, rfl⟩
  refine ⟨events ++ [.move move], _, continues.trans one,
    ⟨⟨r, after⟩, kept.1.trans client, by rw [kept.2, same]⟩, view.symm, ?_⟩
  rw [List.flatMap_append, List.flatMap_eq_nil_iff.mpr unseen]
  rfl

end Refined

section Run

variable {setting : Setting} {library : Socks.AddressText} {first : Nat} {p : Path}
  {allows : Conversation → Move → Prop} {events : List Step} {conf : Option Str}
  {address : Socks.Address} {port : UInt16} {proxy : Socks.Conversation}

theorem requestBuffer_length (library : Socks.AddressText) (address : Socks.Address)
    (port : UInt16) : 8 ≤ (requestBuffer library address port).length := by
  rw [requestBuffer, socksMessage_eq, List.length_append]
  exact Nat.le_add_right _ _

/-- A request that the rules grant. -/
theorem readInfo_granted
    (decided : Socks.Conversation.readInfo conf (requestBuffer library address port) = .ok proxy) :
    proxy.message = requestBuffer library address port ∧ proxy.toClient = [] := by
  obtain ⟨isGranted, -, returned⟩ := Outcomes.bind_eq_ok.mp decided
  cases returned
  exact ⟨rfl, rfl⟩

/-- The endpoint in the request. -/
theorem requestBuffer_endpoint (library : Socks.AddressText) (address : Socks.Address)
    (port : UInt16) :
    Socks.dstEndpoint library (Socks.connectMode (requestBuffer library address port)) =
      some (address, port) := by
  have outAddr : (Socks.connectMode (requestBuffer library address port)).outAddr =
      Socks.dotted address := by
    rw [requestBuffer, socksMessage_eq]
    rfl
  have outPort : (Socks.connectMode (requestBuffer library address port)).outPort =
      decimal port.toNat := by
    rw [← port_bytes port, requestBuffer, socksMessage_eq]
    rfl
  have number : (atoi (decimal port.toNat) % 65536).toNat = port.toNat := by
    have small := port.toNat_lt
    rw [atoi_decimal]
    omega
  rw [Socks.dstEndpoint, outAddr, outPort, library.fromText_dotted, number]
  simp

/-- What is seen of a run: each event of the path is one move of the conversation or none. By
induction on the run, with what keeps through it as the invariant. -/
theorem run_seen (whole : 8 ≤ proxy.message.length) (resolving : proxy.stage = .resolving)
    (nothing : proxy.toClient = []) (short : first ≤ 8)
    (run : Run (path setting library proxy) (Path.Through setting first allows) events p) :
    Granted setting library first proxy.message p ∧
      Run (setting.direct (leftover proxy.message first))
        (fun c move => move ≠ .ends ∧ allows c move) (events.flatMap Step.seen)
        (p.view setting first) := by
  obtain ⟨held, seen⟩ := (refinement setting library short allows whole resolving nothing).run run
  exact ⟨held, run.gather_flatMap Step.seen ▸ seen⟩

/-- And what is done without a proxy is seen of some run. By induction on the moves: before each
of them the relay passes on what there is, until the bytes of the move are where they are needed.
-/
theorem run_answered (whole : 8 ≤ proxy.message.length) (resolving : proxy.stage = .resolving)
    (nothing : proxy.toClient = []) (some_ : 0 < first) (short : first ≤ 8) {moves : List Move}
    {c : Conversation} (run : Run (setting.direct (leftover proxy.message first))
      (fun c move => move ≠ .ends ∧ allows c move) moves c) :
    ∃ events p, Run (path setting library proxy) (Path.Through setting first allows) events p ∧
      events.flatMap Step.seen = moves ∧ p.view setting first = c := by
  have opened : ∃ events p,
      Run (path setting library proxy) (Path.Through setting first allows) events p ∧
      Running setting first proxy.message p ∧
      p.view setting first = (setting.direct (leftover proxy.message first)).start ∧
      (refinement setting library short allows whole resolving nothing).trace events = [] := by
    have start : Granted setting library first proxy.message (path setting library proxy).start :=
      (run_seen whole resolving nothing short
        (.start : Run _ (Path.Through setting first allows) _ _)).1
    obtain ⟨events, p, unseen, continues, -, running⟩ :=
      start.running short whole some_ proxy allows
    have sofar := continues [] .start
    have none : events.flatMap Step.seen = [] := List.flatMap_eq_nil_iff.mpr unseen
    rw [List.nil_append] at sofar
    have seen := (run_seen whole resolving nothing short sofar).2
    rw [none] at seen
    exact ⟨events, p, sofar, running, seen.unique (.start : Run _ always _ _),
      (sofar.gather_flatMap Step.seen).trans none⟩
  have answers (p : Path) (running : Running setting first proxy.message p) (move : Move)
      (t : Conversation) (offered : (p.view setting first).Offers setting.reading move)
      (met : move ≠ .ends ∧ allows (p.view setting first) move)
      (served : (setting.direct (leftover proxy.message first)).serve (p.view setting first) move =
        .ok t) : ∃ events after,
        Continues (path setting library proxy) (Path.Through setting first allows) p events after ∧
        Running setting first proxy.message after ∧ after.view setting first = t ∧
        ∀ before, Run (path setting library proxy) (Path.Through setting first allows) before p →
          (refinement setting library short allows whole resolving nothing).trace
              (before ++ events) =
            (refinement setting library short allows whole resolving nothing).trace before ++
              [move] := by
    cases served
    obtain ⟨events, after, continues, still, view, seen⟩ :=
      running.answers short whole library proxy met.1 offered met.2
    refine ⟨events, after, continues, still, view, fun before sofar => ?_⟩
    refine ((continues before sofar).gather_flatMap Step.seen).trans ?_
    rw [List.flatMap_append, seen]
    exact congrArg (· ++ [move]) (sofar.gather_flatMap Step.seen).symm
  obtain ⟨events, p, sofar, -, view, seen⟩ :=
    (refinement setting library short allows whole resolving nothing).answered _ opened answers run
  exact ⟨events, p, sofar, (sofar.gather_flatMap Step.seen).symm.trans seen, view⟩

/-- For every granted request, as long as nothing goes wrong on the way: the proxy connects to the
endpoint that the console means, and what the console and its shell do is what they do without a
proxy, but for the end of the stream, with what the console has left of the reply before the
greeting. Every run of the one is seen in a run of the other, move by move, and both come to the
same page, the same commands and the same lines.

From the path to the conversation this is a simulation: every event of the path is one move or
none. For the other direction the bytes that a move needs are first carried through the proxy. -/
theorem proxied_runs_iff
    (decided : Socks.Conversation.readInfo conf (requestBuffer library address port) = .ok proxy)
    (resolving : proxy.stage = .resolving) (some_ : 0 < first) (short : first ≤ 8)
    (allows : Conversation → Move → Prop) :
    (∀ events p, Run (path setting library proxy) (Path.Through setting first allows) events p →
      ∀ endpoint, p.proxy.stage = .connecting endpoint → endpoint = (address, port)) ∧
    ∀ moves c, (∃ events p,
        Run (path setting library proxy) (Path.Through setting first allows) events p ∧
          events.flatMap Step.seen = moves ∧ p.view setting first = c) ↔
      Run (setting.direct (leftover (requestBuffer library address port) first))
        (fun c move => move ≠ .ends ∧ allows c move) moves c := by
  obtain ⟨message, nothing⟩ := readInfo_granted decided
  have whole : 8 ≤ proxy.message.length := message ▸ requestBuffer_length library address port
  rw [← message]
  constructor
  · intro events p run endpoint connecting
    obtain ⟨stage, same⟩ := (run_seen whole resolving nothing short run).1
    cases stage with
    | opening isStage =>
      rcases isStage with isResolving | ⟨other, isConnecting, isEndpoint⟩
      · cases isResolving.symm.trans connecting
      · obtain rfl := Socks.Stage.connecting.inj (isConnecting.symm.trans connecting)
        rw [same, message] at isEndpoint
        exact Option.some.inj (isEndpoint.symm.trans (requestBuffer_endpoint library address port))
    | connected isStage => cases isStage.symm.trans connecting
    | relaying flows => cases flows.stage.symm.trans connecting
  · intro moves c
    constructor
    · rintro ⟨events, p, run, rfl, rfl⟩
      exact (run_seen whole resolving nothing short run).2
    · intro run
      exact run_answered whole resolving nothing some_ short run

/-- The proxy forwards port 80 of 10.0.0.1. -/
def forwarded : Socks.Conversation :=
  ⟨requestBuffer Socks.addressText ⟨10, 0, 0, 1⟩ 80, .resolving, []⟩

theorem forwarded_decided : Socks.Conversation.readInfo (some (Socks.confText Socks.shippedTexts))
    (requestBuffer Socks.addressText ⟨10, 0, 0, 1⟩ 80) = .ok forwarded := by
  have granted : Socks.decision (some (Socks.confText Socks.shippedTexts))
      (requestBuffer Socks.addressText ⟨10, 0, 0, 1⟩ 80) = .ok true := by
    rw [Socks.decision_take, requestBuffer, socksMessage_eq]
    decide +kernel
  rw [Socks.Conversation.readInfo, granted]
  rfl

/-- A command, its output, and the empty line after it. -/
def shortSession : Setting := ⟨0, str "ls\n\nexit\n", List.replicate 4096 0, .recv, []⟩

theorem leftover_forwarded :
    leftover (requestBuffer Socks.addressText ⟨10, 0, 0, 1⟩ 80) 8 = [] := by
  rw [requestBuffer, socksMessage_eq]
  decide +kernel

/-- The same run without the proxy. -/
theorem shortSession_direct : ∃ c, Run (shortSession.direct
    (leftover (requestBuffer Socks.addressText ⟨10, 0, 0, 1⟩ 80) 8))
    (fun c move => move ≠ .ends ∧ Conversation.Clean .recv c move) untilEmptyLine c ∧
    c.taken = [str "ls\n", str "\n"] := by
  have plays : ((play (conversation .recv 0 (str "ls\n\nexit\n") (List.replicate 4096 0) [])
      (Conversation.Clean .recv)
      (conversation .recv 0 (str "ls\n\nexit\n") (List.replicate 4096 0) []).start
      untilEmptyLine).map (fun s => decide (s.taken = [str "ls\n", str "\n"]))) = some true := by
    decide +kernel
  obtain ⟨c, played, taken⟩ := Option.map_eq_some_iff.mp plays
  rw [leftover_forwarded]
  exact ⟨c, (Run.played untilEmptyLine c played).only (· ≠ .ends) (by simp [untilEmptyLine]),
    of_decide_eq_true taken⟩

/-- Through the proxy the shell takes the same two lines. -/
theorem proxied_runs_iff_ls : ∃ events p, Run (path shortSession Socks.addressText forwarded)
    (Path.Through shortSession 8 (Conversation.Clean .recv)) events p ∧
    events.flatMap Step.seen = untilEmptyLine ∧
    (p.view shortSession 8).taken = [str "ls\n", str "\n"] := by
  obtain ⟨c, run, taken⟩ := shortSession_direct
  obtain ⟨events, p, sofar, seen, rfl⟩ := ((proxied_runs_iff forwarded_decided rfl (by decide)
    (by decide) (Conversation.Clean .recv)).2 _ _).mpr run
  exact ⟨events, p, sofar, seen, taken⟩

/-! ## The end -/

/-- As long as the console reads, what is left of a conversation without the end of the stream. -/
theorem InTurns.still_iff {reading : Reading} {index : Nat} {file : Str} {c : Conversation}
    (turns : InTurns reading index file c) (isReading : c.console.reading = true) :
    (∀ move, move ≠ .ends → ¬ c.Offers reading move) ↔
      (c.isOpen = false ∧ c.down = []) ∨ Rested reading c.taken := by
  have rests := turns.rests_iff
  constructor
  · intro still
    by_cases ends : c.Offers reading .ends
    · exact .inl ⟨ends.1, ends.2.1⟩
    · have none : ∀ move, ¬ c.Offers reading move := by
        intro move
        by_cases isEnd : move = .ends
        · exact isEnd ▸ ends
        · exact still move isEnd
      refine .inr ((rests.mp none).resolve_left (fun left => ?_))
      cases left.2.symm.trans isReading
  · rintro (⟨isClosed, nothing⟩ | rested) move goesOn offered
    · cases move with
      | reads n =>
        obtain ⟨positive, within, -, -⟩ := offered
        rw [nothing, List.length_nil] at within
        omega
      | ends => exact goesOn rfl
      | takes n answer | leaves n answer => cases isClosed.symm.trans offered.1
    · exact rests.mpr (.inr rested) move offered

/-- While the relay is at rest, what can happen is what the console or the shell can do. -/
theorem Running.rests_iff {message : Str} (running : Running setting first message p)
    (short : first ≤ 8) (whole : 8 ≤ message.length) (library : Socks.AddressText)
    (quiet : p.Quiet) :
    (∀ event, p.Offers setting event → ¬ p.Through setting first always event) ↔
      ∀ move, move ≠ .ends → ¬ (p.view setting first).Offers setting.reading move := by
  obtain ⟨r, flows⟩ := running.flows
  constructor
  · intro still move goesOn offered
    have can := running.offers short whole quiet goesOn offered
    exact still (.move move) can ⟨trivial, by simp, fun _ _ => trivial⟩
  · intro still event offered through
    cases event with
    | proxy report =>
      obtain ⟨possible, arrives⟩ := offered
      obtain ⟨-, smooth⟩ := through.smooth
      rw [flows.relay] at arrives smooth
      cases report with
      | relays completion =>
        simp only [Socks.Conversation.Possible, flows.stage] at possible
        exact Socks.settled_stops flows.carried (quiet r flows.relay) possible
          ⟨arrives, smooth.1, smooth.2⟩
      | _ => simp [Socks.Conversation.Possible, flows.stage] at possible
    | reply n => cases offered.1.symm.trans running.client
    | replyFails => cases offered.1.symm.trans running.client
    | move move =>
      obtain ⟨goesOn, -, can, -⟩ :=
        flows.moves library short (by rwa [running.message]) offered
      exact still move goesOn can

/-- A console whose shell is behind the proxy never comes to its end: in every run in which
nothing goes wrong it goes on reading. Nothing more can happen exactly when everything has come
through and either the shell has left and all it has written was read, or a server that reads with
`recv` has taken an empty line.

For the proxy passes on bytes and never the end of a stream while the other one is open. That
something can happen in every other state is shown stage by stage of the proxy. -/
theorem proxied_never_ends
    (decided : Socks.Conversation.readInfo conf (requestBuffer library address port) = .ok proxy)
    (resolving : proxy.stage = .resolving) (some_ : 0 < first) (short : first ≤ 8)
    (quiet : prompts (leftover (requestBuffer library address port) first ++ setting.greeting) = 0)
    (run : Run (path setting library proxy)
      (Path.Through setting first (Conversation.Clean setting.reading)) events p) :
    p.console.reading = true ∧
      ((∀ event, p.Offers setting event → ¬ p.Through setting first always event) ↔
        p.client = .running ∧ p.Quiet ∧ ((p.isOpen = false ∧ p.fromProxy = []) ∨
          ∃ i, p.taken.length = i + 1 ∧ Blank setting.reading setting.file i)) := by
  obtain ⟨message, nothing⟩ := readInfo_granted decided
  have whole : 8 ≤ proxy.message.length := message ▸ requestBuffer_length library address port
  obtain ⟨granted, seen⟩ := run_seen whole resolving nothing short run
  have turns : InTurns setting.reading setting.index setting.file (p.view setting first) := by
    rw [message] at seen
    exact run_inTurns quiet (seen.weaken (fun _ _ met => met.2))
  have reading : p.console.reading = true := by
    cases granted.stage with
    | opening _ _ same | connected _ _ same => exact congrArg (·.console.reading) same
    | relaying flows => exact flows.reading
  have ended {r : Socks.Relay} (flows : Flows setting first p r) (client : p.client = .running)
      (settled : p.Quiet) : (∀ event, p.Offers setting event →
        ¬ p.Through setting first always event) ↔ (p.isOpen = false ∧ p.fromProxy = []) ∨
          ∃ i, p.taken.length = i + 1 ∧ Blank setting.reading setting.file i := by
    have running : Running setting first proxy.message p := ⟨⟨r, flows⟩, client, granted.message⟩
    have down := (flows.arrived short (by rwa [granted.message]) client settled).1
    have view := flows.view
    have isReading : (p.view setting first).console.reading = true := by
      rw [view]
      exact reading
    rw [running.rests_iff short whole library settled, turns.still_iff isReading, turns.rested_iff,
      down]
    rw [view]
  refine ⟨reading, ?_⟩
  constructor
  · intro still
    have running : Running setting first proxy.message p := by
      by_contra notYet
      obtain ⟨event, -, offered, through, -⟩ := granted.goesOn short whole some_ always notYet
      exact still event offered through
    have settled : p.Quiet := by
      by_contra unsettled
      obtain ⟨event, -, offered, through, -⟩ := running.goesOn library always unsettled
      exact still event offered through
    obtain ⟨⟨r, flows⟩, client, -⟩ := running
    exact ⟨client, settled, (ended flows client settled).mp still⟩
  · rintro ⟨client, settled, isEnd⟩
    cases granted.stage with
    | opening _ _ same | connected _ _ same => cases (congrArg Path.client same).symm.trans client
    | relaying flows => exact (ended flows client settled).mpr isEnd

/-- The console reads on behind its empty line. -/
theorem proxied_never_ends_ls : ∃ events p, Run (path shortSession Socks.addressText forwarded)
    (Path.Through shortSession 8 (Conversation.Clean .recv)) events p ∧
    events.flatMap Step.seen = untilEmptyLine ∧ p.console.reading = true := by
  obtain ⟨c, run, -⟩ := shortSession_direct
  obtain ⟨events, p, sofar, seen, -⟩ :=
    @run_answered shortSession Socks.addressText 8 _ forwarded (requestBuffer_length _ _ _) rfl rfl
      (by decide) (by decide) _ _ run
  have quiet : prompts (leftover (requestBuffer Socks.addressText ⟨10, 0, 0, 1⟩ 80) 8 ++
      shortSession.greeting) = 0 := by
    rw [leftover_forwarded]
    rfl
  exact ⟨events, p, sofar, seen, (proxied_never_ends forwarded_decided rfl (by decide) (by decide)
    quiet sofar).1⟩

end Run

/-! ## A refused request -/

/-- The reads of the session keep prompts whole. -/
def Path.ReadsWhole (p : Path) : Step → Prop
  | .move (.reads n) => WholePrompt p.console (.bytes (p.fromProxy.take n))
  | _ => True

/-- The request is refused, and the session has nothing to read but the rest of the reply. The
proxy reads on for another request, which the console never sends. -/
structure Refused (setting : Setting) (first : Nat) (message : Str) (p : Path) : Prop where
  answer : p.proxy.stage = .rejecting ∧ p.proxy.toClient = [] ∧ p.client = .asking ∨
    p.proxy.stage = .rejected ∧ p.proxy.toClient = [.reply (Socks.reply 91 message)]
  client : p.client = .asking ∧ p.replied = 0 ∧ p.console.received = [] ∨
    p.client = .running ∧ p.replied = first
  same : p.proxy.message = message
  taken : p.taken = []
  inStep : InStep setting.file p.console
  displays : Displays setting.index p.console.page (shown false p.console.received)
  received : p.console.received <+: (Socks.reply 91 message).drop first
  reading : p.console.reading = true

section Refused

variable {setting : Setting} {library : Socks.AddressText} {first : Nat} {p : Path}
  {message : Str} {event : Step} {events : List Step} {conf : Option Str}
  {address : Socks.Address} {port : UInt16} {proxy : Socks.Conversation}

theorem Refused.unseen (refused : Refused setting first message p) :
    relay p.proxy = none ∧ ¬ p.Closed := by
  rcases refused.answer with ⟨stage, -⟩ | ⟨stage, -⟩ <;>
  · rw [relay, Path.Closed, stage]
    exact ⟨rfl, id⟩

/-- What the session can still read. -/
theorem Refused.fromProxy (refused : Refused setting first message p)
    (running : p.client = .running) :
    p.fromProxy = ((Socks.reply 91 message).drop first).drop p.console.received.length := by
  obtain ⟨asking, -⟩ | ⟨-, replied⟩ := refused.client
  · cases asking.symm.trans running
  · rcases refused.answer with ⟨-, -, asking⟩ | ⟨-, sent⟩
    · cases asking.symm.trans running
    · rw [Path.fromProxy, sent, replied, List.flatMap_singleton, List.drop_drop]
      rfl

/-- There is no prompt in a part of a text without one. -/
theorem prompts_of_beginning {a b : Str} (isPrefix : a <+: b) (none : prompts b = 0) :
    prompts a = 0 := by
  obtain ⟨rest, rfl⟩ := isPrefix
  have grown := prompts_le_append a rest
  omega

/-- One step of a refused console keeps all this: the bytes that can come are those of the reply,
and no beginning of it has a prompt. -/
theorem Refused.next (refused : Refused setting first message p)
    (quiet : prompts ((Socks.reply 91 message).drop first) = 0) (whole : 8 ≤ message.length)
    (offered : p.Offers setting event) (through : p.Through setting first always event)
    (reads : p.ReadsWhole event) :
    Refused setting first message (p.serve setting library event) := by
  obtain ⟨noRelay, goesOn⟩ := refused.unseen
  have nothing : p.toShell = [] := by rw [Path.toShell, noRelay]
  cases event with
  | proxy report =>
    obtain ⟨possible, -⟩ := offered
    have favourable := through.smooth.1
    rcases refused.answer with ⟨stage, sent, asking⟩ | ⟨stage, -⟩
    · have answered : p.serve setting library (.proxy report) =
          { p with proxy := p.proxy.sent .rejected (.reply (Socks.reply 91 message)) } := by
        rw [← refused.same]
        cases report with
        | replies n =>
          obtain rfl : n = 8 := favourable
          have eight :=
            (@Socks.take_reply_iff _ 91 (refused.same ▸ whole) 8 (Nat.le_refl 8)).mpr rfl
          simp only [Path.serve, Path.greeted, Socks.Conversation.handle, stage, eight]
        | repliesLate bytes =>
          obtain rfl : bytes = Socks.reply 91 p.proxy.message := favourable
          rfl
        | replyFails => exact favourable.elim
        | _ => simp [Socks.Conversation.Possible, stage] at possible
      rw [answered]
      exact ⟨.inr ⟨rfl, by simp [Socks.Conversation.sent, sent]⟩, refused.client, refused.same,
        refused.taken, refused.inStep, refused.displays, refused.received, refused.reading⟩
    · cases report <;> simp [Socks.Conversation.Possible, stage] at possible
  | reply n =>
    obtain rfl := through.reply n rfl
    have answered : p.proxy.stage = .rejected ∧
        p.proxy.toClient = [.reply (Socks.reply 91 message)] := by
      refine refused.answer.resolve_left (fun before => ?_)
      obtain ⟨-, positive, -, within⟩ := offered
      rw [Path.fromProxy, before.2.1] at within
      simp only [List.flatMap_nil, List.drop_nil, List.length_nil] at within
      omega
    exact ⟨.inr answered, .inr ⟨rfl, rfl⟩, refused.same, refused.taken, refused.inStep,
      refused.displays, refused.received, refused.reading⟩
  | replyFails => exact absurd offered.2.2 goesOn
  | move move =>
    cases move with
    | reads n =>
      obtain ⟨running, -, -, -, isReading⟩ := offered
      have isPart : p.console.received ++ p.fromProxy.take n <+:
          (Socks.reply 91 message).drop first := by
        rw [refused.fromProxy running]
        exact prefix_take_drop refused.received n
      have none : prompts (p.console.received ++ p.fromProxy.take n) = 0 :=
        prompts_of_beginning isPart quiet
      have counted := prompts_received reads
      have missing : ¬ containsPrompt (p.console.filled (p.fromProxy.take n)) = true := by
        intro found
        rw [if_pos found, none] at counted
        omega
      have received : (readHandler setting.index p.console (p.fromProxy.take n)).received =
          p.console.received ++ p.fromProxy.take n := received_readHandler
      have shows := refused.displays.read (p.fromProxy.take n)
      rw [sends_missing missing] at shows
      refine ⟨refused.answer, refused.client.imp (fun asking => ?_) id, refused.same, refused.taken,
        (read_inStep refused.inStep setting.index _).2 reads, ?_, ?_,
        reading_readHandler.trans isReading⟩
      · cases asking.1.symm.trans running
      · have sameText : shown false (readHandler setting.index p.console
            (p.fromProxy.take n)).received = shown false p.console.received ++
              shown false (p.fromProxy.take n) := by rw [received, shown_append]
        have nothingSent : (if p.console.exit = false then
            shown true ([] : List Str).flatten else []) = [] := ite_self _
        rw [nothingSent, List.append_nil, ← sameText] at shows
        exact shows
      · change (readHandler setting.index p.console (p.fromProxy.take n)).received <+: _
        rw [received]
        exact isPart
    | ends => exact absurd offered.2.2.1 goesOn
    | takes n answer => exact absurd (nothing ▸ offered.2) not_takes_nil
    | leaves n answer => exact absurd (nothing ▸ offered.2.1) not_takes_nil

/-- When the reply has been read, nothing more can happen. Before that the send of the reply, its
read or a read of what is left of it can, and none of them is wrong. -/
theorem Refused.rests_iff (refused : Refused setting first message p) (some_ : 0 < first)
    (short : first ≤ 8) (whole : 8 ≤ message.length) :
    (∀ event, p.Offers setting event → ¬ p.Through setting first always event) ↔
      p.client = .running ∧ p.console.received = (Socks.reply 91 message).drop first := by
  obtain ⟨noRelay, goesOn⟩ := refused.unseen
  have nothing : p.toShell = [] := by rw [Path.toShell, noRelay]
  have length := Socks.reply_length whole 91
  constructor
  · intro still
    have running : p.client = .running := by
      obtain ⟨asking, replied, received⟩ | ⟨running, -⟩ := refused.client
      · rcases refused.answer with ⟨stage, -⟩ | ⟨stage, sent⟩
        · have possible : p.proxy.Possible (.replies 8) := by
            simp [Socks.Conversation.Possible, stage]
          exact absurd ⟨⟨rfl, trivial⟩, by simp, fun _ _ => trivial⟩
            (still (.proxy (.replies 8)) ⟨possible, trivial⟩)
        · have within : first ≤ p.fromProxy.length := by
            rw [Path.fromProxy, sent, replied, received, List.flatMap_singleton]
            exact short.trans_eq length.symm
          exact absurd ⟨trivial, by simp, fun _ _ => trivial⟩
            (still (.reply first) ⟨asking, some_, short, within⟩)
      · exact running
    refine ⟨running, ?_⟩
    by_contra part
    have left := refused.fromProxy running
    obtain ⟨rest, isRest⟩ := refused.received
    rw [← isRest, List.drop_left] at left
    have more : rest ≠ [] := by
      rintro rfl
      exact part (by rw [← isRest, List.append_nil])
    have within : 1 ≤ p.fromProxy.length := by
      rw [left]
      exact List.length_pos_iff.mpr more
    exact absurd ⟨trivial, by simp, fun _ _ => trivial⟩
      (still (.move (.reads 1)) ⟨running, Nat.one_pos, within, by omega, refused.reading⟩)
  · rintro ⟨running, all⟩ event offered -
    cases event with
    | proxy report =>
      rcases refused.answer with ⟨-, -, asking⟩ | ⟨stage, -⟩
      · cases asking.symm.trans running
      · have possible := offered.1
        cases report <;> simp [Socks.Conversation.Possible, stage] at possible
    | reply n => cases offered.1.symm.trans running
    | replyFails => cases offered.1.symm.trans running
    | move move =>
      cases move with
      | reads n =>
        obtain ⟨-, positive, within, -⟩ := offered
        rw [refused.fromProxy running, all, List.drop_length, List.length_nil] at within
        omega
      | ends => exact goesOn offered.2.2.1
      | takes n answer => exact not_takes_nil (nothing ▸ offered.2)
      | leaves n answer => exact not_takes_nil (nothing ▸ offered.2.1)

/-- For every refused request, as long as nothing goes wrong on the way and the rest of the reply
has no prompt in it: the console does not take the reply for a refusal. It shows what is left of
the reply, never sends a command and goes on reading; once it has read the reply nothing more can
happen.

What the console has received is always a beginning of the reply, so there is no prompt in it. -/
theorem refused_console_waits
    (decided : Socks.Conversation.readInfo conf (requestBuffer library address port) = .ok proxy)
    (rejecting : proxy.stage = .rejecting) (some_ : 0 < first) (short : first ≤ 8)
    (quiet : prompts ((Socks.reply 91 (requestBuffer library address port)).drop first) = 0)
    (run : Run (path setting library proxy)
      (fun p event => p.Through setting first always event ∧ p.ReadsWhole event) events p) :
    p.console.sent = [] ∧ p.taken = [] ∧ p.console.reading = true ∧
      Displays setting.index p.console.page (shown false p.console.received) ∧
      ((∀ event, p.Offers setting event → ¬ p.Through setting first always event) ↔
        p.client = .running ∧
          p.console.received =
            (Socks.reply 91 (requestBuffer library address port)).drop first) := by
  obtain ⟨message, nothing⟩ := readInfo_granted decided
  have whole := requestBuffer_length library address port
  have refused : Refused setting first (requestBuffer library address port) p := by
    apply run.invariant (Refused setting first (requestBuffer library address port))
    · exact ⟨.inl ⟨rejecting, nothing, rfl⟩, .inl ⟨rfl, rfl, rfl⟩, message, rfl, ⟨rfl, rfl⟩,
        ⟨[], rfl, rfl⟩, List.nil_prefix, rfl⟩
    · intro p event after held offered met served
      cases served
      exact held.next quiet whole offered met.1 met.2
  have none : prompts p.console.received = 0 := prompts_of_beginning refused.received quiet
  have sent : p.console.sent = [] := by
    rw [refused.inStep.answered, none]
    rfl
  exact ⟨sent, refused.taken, refused.reading, refused.displays,
    refused.rests_iff some_ short whole⟩

/-- Without any rule every request is refused. -/
def refusal : Socks.Conversation :=
  ⟨requestBuffer Socks.addressText ⟨10, 0, 0, 1⟩ 80, .rejecting, []⟩

theorem refusal_decided : Socks.Conversation.readInfo (some [])
    (requestBuffer Socks.addressText ⟨10, 0, 0, 1⟩ 80) = .ok refusal := by
  have rejected : Socks.decision (some []) (requestBuffer Socks.addressText ⟨10, 0, 0, 1⟩ 80) =
      .ok false := by
    rw [Socks.decision_take, requestBuffer, socksMessage_eq]
    decide +kernel
  rw [Socks.Conversation.readInfo, rejected]
  rfl

/-- The reply is sent and read. -/
theorem refused_console_waits_read : ∃ p, Run (path shortSession Socks.addressText refusal)
    (fun p event => p.Through shortSession 8 always event ∧ p.ReadsWhole event)
    [.proxy (.replies 8), .reply 8] p ∧ p.console.sent = [] ∧ p.console.reading = true := by
  have length := Socks.reply_length (requestBuffer_length Socks.addressText ⟨10, 0, 0, 1⟩ 80) 91
  have replied : Run (path shortSession Socks.addressText refusal)
      (fun p event => p.Through shortSession 8 always event ∧ p.ReadsWhole event)
      [.proxy (.replies 8)] ((path shortSession Socks.addressText refusal).start.serve shortSession
        Socks.addressText (.proxy (.replies 8))) :=
    .next .start ⟨⟨by decide, by decide⟩, trivial⟩
      ⟨⟨⟨rfl, trivial⟩, by simp, fun _ _ => trivial⟩, trivial⟩ rfl
  have within : 8 ≤ ((path shortSession Socks.addressText refusal).start.serve shortSession
      Socks.addressText (.proxy (.replies 8))).fromProxy.length := by
    change 8 ≤ ([Socks.Sent.reply ((Socks.reply 91
      (requestBuffer Socks.addressText ⟨10, 0, 0, 1⟩ 80)).take 8)].flatMap sentBytes).length
    rw [List.flatMap_singleton, sentBytes, List.take_of_length_le length.le, length]
  have run := @Run.next _ _ _ _ _ _ _ _ (Step.reply 8) replied ⟨rfl, by decide, by decide, within⟩
    ⟨⟨trivial, by simp, fun _ _ => trivial⟩, trivial⟩ rfl
  obtain ⟨sent, -, reading, -⟩ := refused_console_waits refusal_decided rfl (by decide) (by decide)
    (by rw [List.drop_of_length_le length.le]; rfl) run
  exact ⟨_, run, sent, reading⟩

end Refused

end NetProg.Console
