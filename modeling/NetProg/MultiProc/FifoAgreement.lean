import NetProg.MultiProc.FifoRuns

/-!
# The table and the files between the lines

The server is at rest between two lines: every record is empty or of a pipe that is
pending, no handler and no child waits, and none is still to come. A login, an
orderly line and the end of a client lead from rest to rest.
-/

namespace NetProg.MultiProc

open Loops Outcomes Runs

namespace Server

/-- Nothing is on its way: no child is still to open a FIFO, no handler waits for one, and every
user pipe is either none or one that was sent and not received. -/
structure Rest (g : Server) : Prop where
  settled : ∀ s t, g.Settled s t
  reading : ∀ t, g.reading t = none
  signalled : ∀ t, g.signalled t = false
  writing : g.writing = []
  forked : g.forked = []
  numbered : g.Numbered

variable {g h : Server} {curId : Nat}

/-- Rest is about the links alone. -/
theorem Rest.same (rest : g.Rest) (fifo : h.fifo = g.fifo) (files : h.files = g.files)
    (reading : ∀ t, h.reading t = none) (signalled : ∀ t, h.signalled t = false)
    (writing : h.writing = g.writing) (forked : h.forked = g.forked) (numbered : h.Numbered) :
    h.Rest where
  settled s t := (rest.settled s t).same (congrFun (congrFun fifo s) t)
    (congrFun (congrFun files s) t)
  reading := reading
  signalled := signalled
  writing := writing.trans rest.writing
  forked := forked.trans rest.forked
  numbered := numbered

theorem Rest.links (rest : g.Rest) (links : h.links = g.links) : h.Rest :=
  rest.same (congrArg Links.fifo links) (congrArg Links.files links)
    (fun t => (congrFun (congrArg Links.reading links) t).trans (rest.reading t))
    (fun t => (congrFun (congrArg Links.signalled links) t).trans (rest.signalled t))
    (congrArg Links.writing links) (congrArg Links.forked links)
    (rest.numbered.same (congrArg Links.slots links))

/-- At rest nothing flies and nothing is taken, and the other way round. -/
theorem Rest.flow (rest : g.Rest) (curId : Nat) : g.Flow curId none (fun _ => False) where
  away := id
  flies t impossible := absurd impossible id
  takes s impossible := by cases impossible
  settled s t _ _ := rest.settled s t
  reading t _ := rest.reading t
  signalled := rest.signalled
  writing := rest.writing

theorem Flow.rest (flow : g.Flow curId none (fun _ => False)) (forked : g.forked = [])
    (numbered : g.Numbered) : g.Rest where
  settled s t := flow.settled s t (fun impossible => impossible.2)
    (fun impossible => by cases impossible.2)
  reading t := flow.reading t id
  signalled := flow.signalled
  writing := flow.writing
  forked := forked
  numbered := numbered

/-- Where the children have come, the server is at rest again. -/
theorem Between.rest (between : g.Between curId) : (g.resume (fun _ => true)).Rest := by
  obtain ⟨flow, forked, numbered⟩ := between.resume
  exact flow.rest forked numbered

/-- At rest a record has a write end exactly when its file is there and has not been
received. -/
theorem Rest.in_step (rest : g.Rest) (s t : Nat) :
    (g.fifo s t).inFd ≠ -1 ↔ g.files s t = true ∧ (g.fifo s t).isUsed = false := by
  rcases rest.settled s t with ⟨empty, none⟩ | pending
  · rw [empty, none]
    simp [Fifo.empty]
  · exact iff_of_true pending.inFd ⟨pending.file, pending.unused⟩

/-- The records to a client that left are emptied, and their files removed. -/
theorem Rest.clearFifo (rest : g.Rest) (s : Nat) : (g.clearFifo curId s).Rest := by
  rw [Server.clearFifo]
  split
  · rename_i isOpen
    have name : (g.fifo s curId).name = fifoPath s curId := by
      rcases rest.settled s curId with ⟨empty, -⟩ | pending
      · rw [empty] at isOpen
        exact absurd rfl isOpen
      · exact pending.name
    rw [unlink, if_pos name]
    refine ⟨fun u t => ?_, rest.reading, rest.signalled, rest.writing, rest.forked,
      rest.numbered.same rfl⟩
    by_cases own : u = s ∧ t = curId
    · exact Or.inl ⟨by simp [onFifo, own], by simp [onFifo, withFile, own]⟩
    · exact (rest.settled u t).same (if_neg own) (if_neg own)
  · exact rest

theorem Numbered.invalidate (numbered : g.Numbered) : (g.invalidate curId).Numbered := by
  constructor
  · have size := numbered.size
    simp only [Server.links, List.length_map, Server.invalidate, List.length_modify] at size ⊢
    exact size
  · intro i id slot
    refine numbered.number i id ?_
    simp only [Server.links, Server.invalidate, List.getElem?_map, List.getElem?_modify,
      Option.map_eq_some_iff, Option.map_eq_map] at slot ⊢
    obtain ⟨client, ⟨before, there, same⟩, both⟩ := slot
    refine ⟨before, there, ?_⟩
    split at same
    · rw [← same] at both
      cases both
    · rw [same]
      exact both

/-- After `exit` the server is at rest without the client. -/
theorem Rest.logout (rest : g.Rest) (curId : Nat) :
    ∃ left, g.logout curId = .ok left ∧ left.Rest := by
  obtain ⟨told, tells, links⟩ := broadcast_returns g curId .logout rfl
  have cleared (sources : List Nat) {h : Server} (rest : h.Rest) :
      (sources.foldl (Server.clearFifo curId) h).Rest := by
    induction sources generalizing h with
    | nil => exact rest
    | cons s sources ih => exact ih (rest.clearFifo s)
  have atRest := rest.links links
  have invalid : (told.invalidate curId).Rest :=
    atRest.same rfl rfl atRest.reading atRest.signalled rfl rfl atRest.numbered.invalidate
  refine ⟨_, by rw [Server.logout, tells]; rfl, ?_⟩
  have ended := cleared ids invalid
  exact ended.same rfl rfl ended.reading ended.signalled rfl rfl (ended.numbered.same rfl)

/-- A client is entered under the number of its slot. -/
theorem Numbered.enter (numbered : g.Numbered) {slot : Nat} {client : ClientInfo}
    (own : client.id = slot + 1) :
    Server.Numbered { g with table := g.table.set slot client } := by
  constructor
  · have size := numbered.size
    simp only [Server.links, List.length_map, List.length_set] at size ⊢
    exact size
  · intro i id entry
    simp only [Server.links, List.getElem?_map, List.getElem?_set] at entry
    split at entry
    · rename_i same
      split at entry
      · simp only [Option.map_some, Option.some.injEq, Prod.mk.injEq] at entry
        omega
      · cases entry
    · refine numbered.number i id ?_
      simpa only [Server.links, List.getElem?_map] using entry

theorem Rest.login (rest : g.Rest) (slot pid : Nat) (userIp : Str) (port : Nat) :
    ∃ entered, g.login slot pid userIp port = .ok entered ∧ entered.Rest := by
  let client : ClientInfo := ⟨true, pid, slot + 1, str "(no name)", userIp, port⟩
  let started := (({ g with table := g.table.set slot client : Server }.onShell (slot + 1)
    (fun _ => .initial)).withReading (slot + 1) none).withSignal (slot + 1) false
  have numbered : started.Numbered :=
    (show Server.Numbered { g with table := g.table.set slot client } from
      rest.numbered.enter rfl).same rfl
  have atRest : started.Rest := by
    refine rest.same rfl rfl (fun t => ?_) (fun t => ?_) rfl rfl numbered
    · simp [started, withSignal, withReading, onShell, rest.reading t]
    · simp [started, withSignal, withReading, onShell, rest.signalled t]
  obtain ⟨entered, enters, links⟩ := broadcast_returns started (slot + 1) .login rfl
  exact ⟨entered, enters, atRest.links links⟩

theorem Rest.fails (rest : g.Rest) (fault : Fault) : (g.fails curId fault).Rest :=
  rest.same rfl rfl rest.reading rest.signalled rfl rfl (rest.numbered.same rfl)

theorem initial_rest : Server.initial.Rest where
  settled _ _ := Or.inl ⟨rfl, rfl⟩
  reading _ := rfl
  signalled _ := rfl
  writing := rfl
  forked := rfl
  numbered := by
    constructor
    · rfl
    · intro i id slot
      simp only [Server.links, Server.initial, List.map_replicate, List.getElem?_replicate] at slot
      split at slot
      · cases slot
      · cases slot

/-- At rest a line begins with nothing accepted, so there is nothing that its rounds would have to
keep for a pipe on its way. -/
theorem Rest.held (rest : g.Rest) {job : Job}
    (own : (getClientByID g.table job.curId).isSome = true) (cmds : List Str) :
    Held job (Frame.initial g cmds) where
  recv := rfl
  send := rfl
  source impossible := absurd rfl impossible
  target impossible := absurd rfl impossible
  ready := by
    rintro (impossible | impossible)
    · exact absurd rfl impossible
    · exact absurd rfl impossible
  named := by
    rintro (impossible | impossible | impossible)
    · cases impossible
    · exact absurd rfl impossible
    · exact absurd rfl impossible
  children := by
    have forked : (Frame.initial g cmds).server.forked = [] := rest.forked
    constructor
    · rw [forked]
      intro w impossible
      cases impossible
    · rw [forked]
      exact List.nodup_nil
  apart := by
    rw [show (Frame.initial g cmds).server.forked = [] from rest.forked]
    intro w impossible
    cases impossible
  flow := by
    refine (rest.flow job.curId).flying (fun t => ?_)
    rw [Frame.Flying, show (Frame.initial g cmds).server.forked = [] from rest.forked]
    constructor
    · rintro (impossible | impossible)
      · cases impossible
      · have impossible : (t : Int) = -1 := impossible
        omega
    · exact fun impossible => absurd impossible id
  numbered := rest.numbered
  own := own

end Server

/-- An orderly line leads from rest to rest, and fails for no FIFO. After its commands only its
children have something to open, and they do so in whatever order the schedule has. -/
theorem execLine_rests {job : Job} {g : Server} (rest : g.Rest) (offered : offers g (.line job))
    (careful : Careful g (.line job)) : (execLine job g).1.Rest ∧
      ∀ fault, (execLine job g).2 = some fault → fault.ofFifo = false := by
  rw [execLine]
  split
  · exact ⟨rest, fun fault impossible => by cases impossible⟩
  have ends := execCmds_between (rest.held offered.1 (words job.line)) careful
  cases ran : execCmds job g (words job.line) with
  | error failure =>
    obtain ⟨fault, failed⟩ := failure
    obtain ⟨between, harmless⟩ := ends.raised ran
    refine ⟨between.rest.fails fault, fun raised same => ?_⟩
    cases same
    exact harmless
  | ok result =>
    obtain ⟨done, status⟩ := result
    have between : done.Between job.curId := ends.returned ran
    simp only
    split
    · obtain ⟨left, leaves, atRest⟩ := between.rest.logout job.curId
      rw [leaves]
      exact ⟨atRest, fun fault impossible => by cases impossible⟩
    · exact ⟨between.rest, fun fault impossible => by cases impossible⟩

/-- Every event that is careful leads from rest to rest. A login changes nothing about the pipes.
-/
theorem serve_rests {g after : Server} {event : Event} (rest : g.Rest) (offered : offers g event)
    (careful : Careful g event) (served : serve g event = .ok after) : after.Rest := by
  cases event with
  | login pid userIp port =>
    rw [serve] at served
    split at served
    · cases served
      exact rest
    · rename_i slot free
      obtain ⟨entered, enters, atRest⟩ := rest.login slot pid userIp port
      rw [enters] at served
      cases served
      exact atRest
  | line job =>
    rw [serve] at served
    cases served
    exact (execLine_rests rest offered careful).1

/-- In every run of orderly lines the record of a pipe has a write end exactly when its file is
there and has not been received, no handler waits, and a further orderly line fails neither in
`mkfifo` nor by waiting for ever.

Orderly lines open their FIFOs on both sides before the next one begins, whatever the schedule of
these opens is. Between lines the table is at rest, and a line from there comes to rest again. -/
theorem fifo_table_in_step {events : List Event} {g : Server} (run : Run system Careful events g) :
    (∀ s t, (g.fifo s t).inFd ≠ -1 ↔ g.files s t = true ∧ (g.fifo s t).isUsed = false) ∧
      (∀ t, g.reading t = none) ∧
      ∀ job, system.offers g (.line job) → Careful g (.line job) →
        ∀ fault, (execLine job g).2 = some fault → fault.ofFifo = false := by
  have rest : g.Rest := run.invariant Server.Rest Server.initial_rest
    (fun _ _ _ rest offered careful served => serve_rests rest offered careful served)
  exact ⟨rest.in_step, rest.reading, fun job offered careful =>
    (execLine_rests rest offered careful).2⟩

/-- A line whose children come to their `open` at its end. -/
def typed (curId : Nat) (line : Str) : Event := .line ⟨curId, line, .plain, fun _ _ => false⟩

/-- Two clients send each other pipes and take them; the first one leaves. -/
def exchange : List Event :=
  [.login 101 (str "10.0.0.1") 4001, .login 102 (str "10.0.0.2") 4002, typed 1 (str "ls >2"),
    typed 2 (str "cat <1 >1"), typed 1 (str "cat <2 |2 who"), typed 2 (str "ls >1 |1 cat"),
    typed 1 (str "exit"), typed 2 (str "ls |1 cat")]

/-- The pipe that was not taken went with the client that left. -/
theorem fifo_table_in_step_exchange : ∃ g, Run system Careful exchange g ∧
    ((g.fifo 2 1).inFd ≠ -1 ↔ g.files 2 1 = true ∧ (g.fifo 2 1).isUsed = false) ∧
    g.reading 1 = none ∧ g.files 2 1 = false := by
  have plays : ((play system Careful system.start exchange).map
      (fun g => g.files 2 1 == false)) = some true := by decide +kernel
  obtain ⟨g, played, result⟩ := Option.map_eq_some_iff.mp plays
  have run := Run.played exchange g played
  obtain ⟨table, waiting, -⟩ := fifo_table_in_step run
  exact ⟨g, run, table 2 1, waiting 1, by simpa using result⟩

/-- A built-in command is sent to a user pipe. -/
def neverOpened : List Event :=
  [.login 101 (str "10.0.0.1") 4001, .login 102 (str "10.0.0.2") 4002, typed 1 (str "who >2")]

/-- Nobody opens its file: it stays without a write end in the record, the receiver's
handler waits for ever, and the next pipe to the receiver fails in `mkfifo`. -/
theorem builtin_pipe_is_never_opened : ∃ g, Run system always neverOpened g ∧
    g.files 1 2 = true ∧ (g.fifo 1 2).isUsed = false ∧ (g.fifo 1 2).inFd = -1 ∧
    g.reading 2 = some 1 ∧ system.offers g (typed 1 (str "ls >2")) ∧
    (execLine ⟨1, str "ls >2", .plain, fun _ _ => false⟩ g).2 = some .mkfifoError := by
  have plays : ((play system always system.start neverOpened).map
      (fun g => decide (g.files 1 2 = true ∧ (g.fifo 1 2).isUsed = false ∧
        (g.fifo 1 2).inFd = -1 ∧ g.reading 2 = some 1 ∧
        system.offers g (typed 1 (str "ls >2")) ∧
        (execLine ⟨1, str "ls >2", .plain, fun _ _ => false⟩ g).2 = some .mkfifoError))) =
      some true := by decide +kernel
  obtain ⟨g, played, result⟩ := Option.map_eq_some_iff.mp plays
  exact ⟨g, Run.played neverOpened g played, of_decide_eq_true result⟩

end NetProg.MultiProc
