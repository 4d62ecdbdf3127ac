import NetProg.MultiProc.FifoTable
import Mathlib.Data.List.Nodup

/-!
# Lines that keep the table and the files in step

A line is orderly when every user pipe it makes is opened by a child and every one
it takes is removed. So a command that has accepted a `>t` is not a built-in one and
has no second one; the target is another client that runs, and none that an earlier
child of the line has still to open; and a command that has accepted a user pipe is
not given up, by a user-pipe error or by a crash.

In every run of orderly lines the record of a pipe has a write end exactly when its
file is there, no handler waits, and no line fails because of a FIFO.
-/

namespace NetProg.MultiProc

open Loops Outcomes Runs
open SingleProc (kind)

namespace Frame

/-- The command has accepted a user pipe. -/
def InPipe (f : Frame) : Prop := f.sourceId ≠ -1 ∨ f.targetId ≠ -1

instance (f : Frame) : Decidable f.InPipe := inferInstanceAs (Decidable (_ ∨ _))

/-- The source of the pipe the command has taken. -/
def taken (f : Frame) : Option Nat := if f.sourceId = -1 then none else some f.sourceId.toNat

/-- The pipe to a target is on its way: a child is to open it, or the command's child
will be. -/
def Flying (f : Frame) (t : Nat) : Prop :=
  t ∈ f.server.forked.map Writer.targetId ∨ (t : Int) = f.targetId

end Frame

/-- The branch of `>t` does not give up a pipe, and makes one that will be opened. -/
def OrderlyOut (job : Job) (f : Frame) (word : Str) : Prop :=
  match SingleProc.UserPipes.userNum word with
  | none => ¬ f.InPipe
  | some targetId =>
    if (getClientByID f.server.table targetId).isNone = true then ¬ f.InPipe
    else if (f.server.fifo job.curId targetId.toNat).inFd ≠ -1 then ¬ f.InPipe
    else f.targetId = -1 ∧ targetId ≠ job.curId ∧
      (f.server.shells targetId.toNat).status ≠ .exited ∧
      targetId.toNat ∉ f.server.forked.map Writer.targetId

instance decidableOrderlyOut (job : Job) (f : Frame) (word : Str) :
    Decidable (OrderlyOut job f word) := by
  unfold OrderlyOut
  exact match SingleProc.UserPipes.userNum word with
  | none => inferInstanceAs (Decidable (¬ _))
  | some _ => inferInstanceAs (Decidable (ite _ _ _))

/-- The branch of `<s` does not give up a pipe, and takes no second one. -/
def OrderlyIn (job : Job) (f : Frame) (word : Str) : Prop :=
  match SingleProc.UserPipes.userNum word with
  | none => ¬ f.InPipe
  | some sourceId =>
    if (getClientByID f.server.table sourceId).isNone = true then ¬ f.InPipe
    else if (f.server.fifo sourceId.toNat job.curId).outFd = -1 then ¬ f.InPipe
    else f.sourceId = -1 ∨ f.sourceId = sourceId

instance decidableOrderlyIn (job : Job) (f : Frame) (word : Str) :
    Decidable (OrderlyIn job f word) := by
  unfold OrderlyIn
  exact match SingleProc.UserPipes.userNum word with
  | none => inferInstanceAs (Decidable (¬ _))
  | some _ => inferInstanceAs (Decidable (ite _ _ _))

/-- A pipe operator can be read: its number fits, and there is a pipe to be had. -/
def pipes (job : Job) (f : Frame) (word : Str) (rest : List Str) : Bool :=
  match NumberedPipes.pipeNum word with
  | none => false
  | some pipeNum => (NumberedPipes.createPipe (job.world.pipes rest.length)
      (f.shell job.curId).process (f.shell job.curId).pipeVector pipeNum).isSome

/-- Reading the word does not give up a pipe. -/
def OrderlyWord (job : Job) (f : Frame) (word : Str) (rest : List Str) : Prop :=
  match kind word with
  | .pipe | .errorPipe => f.InPipe → pipes job f word rest = true
  | .redirectOut | .redirectIn => f.InPipe → rest ≠ []
  | .userOut => OrderlyOut job f word
  | .userIn => OrderlyIn job f word
  | .argument => True

instance decidableOrderlyWord (job : Job) (f : Frame) (word : Str) (rest : List Str) :
    Decidable (OrderlyWord job f word rest) := by
  unfold OrderlyWord
  exact match kind word with
  | .pipe | .errorPipe | .redirectOut | .redirectIn => inferInstanceAs (Decidable (_ → _))
  | .userOut => decidableOrderlyOut job f word
  | .userIn => decidableOrderlyIn job f word
  | .argument => isTrue trivial

/-- A built-in command. -/
def Frame.IsBuiltin (f : Frame) : Prop := builtins.contains (cstr (f.arguments.headD [])) = true

instance (f : Frame) : Decidable f.IsBuiltin := inferInstanceAs (Decidable (_ = true))

/-- A built-in command has the arguments it reads, and they are in their ranges. -/
def Furnished : List Str → Prop
  | [] => False
  | prog :: arguments =>
    if cstr prog ∈ [str "printenv", str "yell"] then arguments ≠ []
    else if cstr prog = str "setenv" then 2 ≤ arguments.length
    else if cstr prog = str "tell" then 2 ≤ arguments.length ∧
      ∃ targetId ∈ stoi (cstr (arguments.headD [])), 1 ≤ targetId ∧ targetId ≤ maxClientSize
    else if cstr prog = str "name" then
      arguments ≠ [] ∧ (cstr (arguments.headD [])).length < userNameSize
    else True

instance decidableFurnished : (arguments : List Str) → Decidable (Furnished arguments)
  | [] => isFalse id
  | prog :: arguments => by
    unfold Furnished
    infer_instance

/-- A built-in command has made no pipe, and has the arguments it reads if it has taken
one. -/
def OrderlyCall (f : Frame) : Prop :=
  f.IsBuiltin → f.targetId = -1 ∧ (f.sourceId ≠ -1 → Furnished f.arguments)

instance (f : Frame) : Decidable (OrderlyCall f) := inferInstanceAs (Decidable (_ → _ ∧ (_ → _)))

/-- The round neither gives up a user pipe nor makes one that will not be opened. A pipe is given
up by an error behind it in its command, or by another one in its place. -/
def Orderly (job : Job) (f : Frame) : Prop :=
  if f.isFinalArgv = true then OrderlyCall f
  else
    match f.cmds with
    | [] => True
    | word :: rest => f.isFirstArgv = true ∨ OrderlyWord job f.initFd word rest

instance decidableOrderly (job : Job) (f : Frame) : Decidable (Orderly job f) := by
  unfold Orderly
  exact match f.cmds with
  | [] => inferInstanceAs (Decidable (ite _ _ _))
  | word :: rest =>
    haveI : Decidable (OrderlyWord job f.initFd word rest) := decidableOrderlyWord _ _ _ _
    inferInstanceAs (Decidable (ite _ _ _))

/-- The frame of a round after the children have come that come by then. -/
def Frame.resumed (job : Job) (f : Frame) : Frame :=
  f.withServer (f.server.resume (job.comes f.cmds.length))

/-- Every round of a line is orderly. -/
def Careful (g : Server) : Event → Prop
  | .login _ _ _ => True
  | .line job => ∀ f ∈ frames job g (words job.line), Orderly job (f.resumed job)

instance decidableCareful (g : Server) : (event : Event) → Decidable (Careful g event)
  | .login _ _ _ => isTrue trivial
  | .line job => inferInstanceAs
      (Decidable (∀ f ∈ frames job g (words job.line), Orderly job (f.resumed job)))

/-- The table has its size, and a slot that is taken has its own number. All events keep it. -/
structure Server.Numbered (g : Server) : Prop where
  size : g.links.slots.length = maxClientSize
  number : ∀ i id, g.links.slots[i]? = some (id, true) → id = i + 1

/-- The children that have still to come to their `open` are one for each target. -/
structure Server.Children (g : Server) (curId : Nat) : Prop where
  own : ∀ w ∈ g.forked, w.sourceId = curId ∧ w.inFd ≠ -1
  distinct : (g.forked.map Writer.targetId).Nodup

/-- After the commands of a line: only the children are still to come. -/
structure Server.Between (g : Server) (curId : Nat) : Prop where
  children : g.Children curId
  flow : g.Flow curId none (fun t => t ∈ g.forked.map Writer.targetId)
  numbered : g.Numbered

/-- What a line keeps between its rounds: how far each pipe has come that is on its way, and that
nobody waits for one that is not. -/
structure Held (job : Job) (f : Frame) : Prop where
  recv : f.recvStrId = f.sourceId
  send : f.sendStrId = f.targetId
  source : f.sourceId ≠ -1 → 0 < f.sourceId ∧
    (getClientByID f.server.table f.sourceId).isSome = true
  target : f.targetId ≠ -1 → 0 < f.targetId ∧
    (getClientByID f.server.table f.targetId).isSome = true
  ready : f.InPipe → f.isFinalArgv = true ∨ f.cmds ≠ []
  named : f.isFirstArgv = false ∨ f.InPipe → f.arguments ≠ []
  children : f.server.Children job.curId
  apart : ∀ w ∈ f.server.forked, (w.targetId : Int) ≠ f.targetId
  flow : f.server.Flow job.curId f.taken f.Flying
  numbered : f.server.Numbered
  own : (getClientByID f.server.table job.curId).isSome = true

/-- A failure of a line that is none of a user pipe. -/
def Bad (curId : Nat) (failure : Fault × Server) : Prop :=
  failure.2.Between curId ∧ failure.1.ofFifo = false

/-- The flow does not look at what it does not depend on. -/
theorem Server.Flow.flying {g : Server} {curId : Nat} {taken : Option Nat}
    {flying same : Nat → Prop} (flow : g.Flow curId taken flying)
    (iff : ∀ t, same t ↔ flying t) : g.Flow curId taken same := by
  rwa [show same = flying from funext (fun t => propext (iff t))]

/-- Clients are the same where the links are. -/
theorem isSome_links {g h : Server} (slots : h.links.slots = g.links.slots) (id : Int) :
    (getClientByID h.table id).isSome = (getClientByID g.table id).isSome := by
  rw [getClientByID_isSome, getClientByID_isSome]
  exact congrArg (List.any · _) slots

/-- The id of a client that is found is one of the table. -/
theorem mem_ids {g : Server} (numbered : g.Numbered) {id : Int} {client : ClientInfo}
    (found : getClientByID g.table id = some client) : 0 < id ∧ id.toNat ∈ ids := by
  obtain ⟨i, inside, at_⟩ := List.getElem_of_mem (List.mem_of_find?_eq_some found)
  have both := List.find?_some found
  simp only [Bool.and_eq_true, decide_eq_true_eq] at both
  have slot : g.links.slots[i]? = some (client.id, true) := by
    simp [Server.links, List.getElem?_eq_getElem inside, at_, both.2]
  have number := numbered.number i client.id slot
  have size := numbered.size
  simp only [Server.links, List.length_map] at size
  have isId : id.toNat = i + 1 := by omega
  refine ⟨by omega, ?_⟩
  rw [isId]
  exact List.mem_map_of_mem (List.mem_range.mpr (size ▸ inside))

/-- Children, numbers and clients are about the links alone. -/
theorem Server.Children.same {g h : Server} {curId : Nat} (children : g.Children curId)
    (forked : h.forked = g.forked) : h.Children curId := by
  constructor
  · rw [forked]
    exact children.own
  · rw [forked]
    exact children.distinct

theorem Server.Numbered.same {g h : Server} (numbered : g.Numbered)
    (slots : h.links.slots = g.links.slots) : h.Numbered := by
  constructor
  · rw [slots]
    exact numbered.size
  · rw [slots]
    exact numbered.number

/-- A round that leaves the links and what the command has accepted. -/
theorem Held.next {job : Job} {f next : Frame} (held : Held job f)
    (links : next.server.links = f.server.links) (source : next.sourceId = f.sourceId)
    (target : next.targetId = f.targetId) (recv : next.recvStrId = f.recvStrId)
    (send : next.sendStrId = f.sendStrId)
    (ready : next.InPipe → next.isFinalArgv = true ∨ next.cmds ≠ [])
    (named : next.isFirstArgv = false ∨ next.InPipe → next.arguments ≠ []) : Held job next := by
  have forked : next.server.forked = f.server.forked := congrArg Links.forked links
  have slots : next.server.links.slots = f.server.links.slots := congrArg Links.slots links
  constructor
  · rw [recv, source]
    exact held.recv
  · rw [send, target]
    exact held.send
  · rw [source, isSome_links slots]
    exact held.source
  · rw [target, isSome_links slots]
    exact held.target
  · exact ready
  · exact named
  · exact held.children.same forked
  · rw [forked, target]
    exact held.apart
  · have same := held.flow.same links
    rw [Frame.taken, source, ← Frame.taken]
    refine same.flying (fun t => ?_)
    rw [Frame.Flying, Frame.Flying, forked, target]
  · exact held.numbered.same slots
  · exact (isSome_links slots _).trans held.own

/-- Without an accepted user pipe a round may also end the line. -/
theorem Held.between {job : Job} {f : Frame} (held : Held job f) (notIn : ¬ f.InPipe) {g : Server}
    (links : g.links = f.server.links) : g.Between job.curId := by
  simp only [Frame.InPipe, not_or, not_not] at notIn
  have forked : g.forked = f.server.forked := congrArg Links.forked links
  refine ⟨held.children.same forked, ?_, held.numbered.same (congrArg Links.slots links)⟩
  have flow := held.flow.same links
  rw [Frame.taken, if_pos notIn.1] at flow
  refine flow.flying (fun t => ?_)
  rw [Frame.Flying, forked, notIn.2]
  constructor
  · exact Or.inl
  · rintro (inside | impossible)
    · exact inside
    · omega

/-- Children that come to their `open` leave the others flying. -/
theorem Server.Flow.resume {g : Server} {curId : Nat} {taken : Option Nat} {flying : Nat → Prop}
    (flow : g.Flow curId taken flying) (children : g.Children curId)
    (fly : ∀ w ∈ g.forked, flying w.targetId) (now : Writer → Bool) :
    (g.resume now).Flow curId taken
      (fun t => flying t ∧ t ∉ (g.forked.filter now).map Writer.targetId) ∧
    (g.resume now).links.slots = g.links.slots ∧
    (g.resume now).forked = g.forked.filter (fun w => !now w) ∧
    (g.resume now).links.status = g.links.status := by
  have fewer : Server.Flow { g with forked := g.forked.filter (fun w => !now w) } curId taken
      flying := ⟨flow.away, flow.flies, flow.takes, fun s t notFlying notTaken =>
    (flow.settled s t notFlying notTaken).same rfl rfl, flow.reading, flow.signalled, flow.writing⟩
  have own : ∀ w ∈ g.forked.filter now, w.sourceId = curId ∧ w.inFd ≠ -1 ∧ flying w.targetId := by
    intro w member
    have inside := List.mem_of_mem_filter member
    exact ⟨(children.own w inside).1, (children.own w inside).2, fly w inside⟩
  have distinct : ((g.forked.filter now).map Writer.targetId).Nodup :=
    children.distinct.sublist ((List.filter_sublist).map Writer.targetId)
  exact fewer.children own distinct

/-- Those that are left are the others, since no two have one target. -/
theorem Server.Children.left {g : Server} {curId : Nat} (children : g.Children curId)
    (now : Writer → Bool) (t : Nat) : t ∈ (g.forked.filter (fun w => !now w)).map Writer.targetId ↔
      t ∈ g.forked.map Writer.targetId ∧ t ∉ (g.forked.filter now).map Writer.targetId := by
  constructor
  · intro member
    obtain ⟨w, inside, rfl⟩ := List.mem_map.mp member
    obtain ⟨forked, later⟩ := List.mem_filter.mp inside
    refine ⟨List.mem_map_of_mem forked, fun also => ?_⟩
    obtain ⟨v, inNow, same⟩ := List.mem_map.mp also
    obtain ⟨alsoForked, isNow⟩ := List.mem_filter.mp inNow
    have equal := List.inj_on_of_nodup_map children.distinct alsoForked forked same
    rw [equal] at isNow
    simp [isNow] at later
  · rintro ⟨member, notNow⟩
    obtain ⟨w, inside, rfl⟩ := List.mem_map.mp member
    refine List.mem_map_of_mem (List.mem_filter.mpr ⟨inside, ?_⟩)
    by_contra isNow
    exact notNow (List.mem_map_of_mem (List.mem_filter.mpr ⟨inside, by simpa using isNow⟩))

theorem Held.resumed {job : Job} {f : Frame} (held : Held job f) : Held job (f.resumed job) := by
  have fly : ∀ w ∈ f.server.forked, f.Flying w.targetId :=
    fun w member => Or.inl (List.mem_map_of_mem member)
  obtain ⟨flow, slots, forked, -⟩ := held.flow.resume held.children fly (job.comes f.cmds.length)
  have children := held.children
  constructor
  · exact held.recv
  · exact held.send
  · intro received
    have before := held.source received
    rwa [← isSome_links slots] at before
  · intro sent
    have before := held.target sent
    rwa [← isSome_links slots] at before
  · exact held.ready
  · exact held.named
  · constructor
    · intro w member
      rw [show (f.resumed job).server.forked = _ from forked] at member
      exact children.own w (List.mem_of_mem_filter member)
    · rw [show (f.resumed job).server.forked = _ from forked]
      exact children.distinct.sublist ((List.filter_sublist).map Writer.targetId)
  · intro w member
    rw [show (f.resumed job).server.forked = _ from forked] at member
    exact held.apart w (List.mem_of_mem_filter member)
  · refine flow.flying (fun t => ?_)
    rw [Frame.Flying, show (f.resumed job).server.forked = _ from forked, children.left]
    constructor
    · rintro (⟨inside, notNow⟩ | target)
      · exact ⟨Or.inl inside, notNow⟩
      · refine ⟨Or.inr target, fun also => ?_⟩
        obtain ⟨w, inNow, same⟩ := List.mem_map.mp also
        have apart := held.apart w (List.mem_of_mem_filter inNow)
        rw [same] at apart
        exact apart target
    · rintro ⟨inside | target, notNow⟩
      · exact Or.inl ⟨inside, notNow⟩
      · exact Or.inr target
  · exact held.numbered.same slots
  · exact (isSome_links slots _).trans held.own

/-- Where all children have come, nothing is on its way. -/
theorem Server.Between.resume {g : Server} {curId : Nat} (between : g.Between curId) :
    (g.resume (fun _ => true)).Flow curId none (fun _ => False) ∧
      (g.resume (fun _ => true)).forked = [] ∧ (g.resume (fun _ => true)).Numbered := by
  obtain ⟨flow, slots, forked, -⟩ := between.flow.resume between.children
    (fun w member => List.mem_map_of_mem member) (fun _ => true)
  refine ⟨flow.flying (fun t => ?_), ?_, between.numbered.same slots⟩
  · simp
  · rw [forked]
    simp

/-! ## Reading a word -/

section Reading

variable {job : Job} {f : Frame} {word : Str} {rest : List Str}

/-- What a round of a line has to end with. -/
abbrev EndsHeld (job : Job) (outcome : Outcome Pass) : Prop :=
  Ends outcome (Round.Holds (Held job) (fun result => result.1.Between job.curId)) (Bad job.curId)

/-- A failure before the command has accepted a user pipe. -/
theorem Held.fails (held : Held job f) (notIn : ¬ f.InPipe) {fault : Fault}
    (harmless : fault.ofFifo = false) : Bad job.curId (fault, f.server) :=
  ⟨held.between notIn rfl, harmless⟩

theorem Held.initFd (held : Held job f) : Held job f.initFd := by
  rw [Frame.initFd]
  split
  · exact held.next rfl rfl rfl rfl rfl held.ready held.named
  · exact held

theorem Held.readPipe (held : Held job f) {isError : Bool}
    (orderly : f.InPipe → pipes job f word rest = true) :
    EndsHeld job (readPipe job f isError word rest) := by
  rw [MultiProc.readPipe]
  split
  · rename_i long
    refine held.fails (fun inPipe => ?_) rfl
    have possible := orderly inPipe
    simp [pipes, long] at possible
  · rename_i pipeNum number
    split
    · rename_i refused
      refine held.fails (fun inPipe => ?_) rfl
      have possible := orderly inPipe
      simp [pipes, number, refused] at possible
    · refine held.next (links_onShell _ _ (fun _ => rfl)) rfl rfl rfl rfl (fun _ => Or.inl rfl) ?_
      rintro (later | inPipe)
      · cases later
      · exact held.named (Or.inr inPipe)

/-- A redirection keeps the name of a command that has begun. -/
theorem Held.named_endLine (held : Held job f) {next : Frame} (args : next.arguments = f.arguments)
    (first : next.isFirstArgv = f.isFirstArgv) (inPipe : next.InPipe → f.InPipe) :
    (next.endLine rest).isFirstArgv = false ∨ (next.endLine rest).InPipe →
      (next.endLine rest).arguments ≠ [] := by
  intro begun
  refine (show (next.endLine rest).arguments = f.arguments from args) ▸ held.named ?_
  rcases begun with later | piped
  · have both : f.isFirstArgv = false ∧ rest.isEmpty = false := by
      simpa [Frame.endLine, first] using later
    exact Or.inl both.1
  · exact Or.inr (inPipe piped)

/-- After a redirection or a user pipe the command is complete, or words are left. -/
theorem endLine_ready (f : Frame) (rest : List Str) :
    (f.endLine rest).isFinalArgv = true ∨ (f.endLine rest).cmds ≠ [] := by
  cases rest with
  | nil => exact Or.inl (by simp [Frame.endLine])
  | cons word rest => exact Or.inr (by simp [Frame.endLine])

theorem Held.readRedirectOut (held : Held job f) (orderly : f.InPipe → rest ≠ []) :
    EndsHeld job (readRedirectOut job f rest) := by
  cases rest with
  | nil => exact held.fails (fun inPipe => orderly inPipe rfl) rfl
  | cons file left =>
    exact held.next (links_onShell _ _ (fun _ => rfl)) rfl rfl rfl rfl (fun _ => endLine_ready _ left)
      (held.named_endLine rfl rfl id)

theorem Held.readRedirectIn (held : Held job f) (orderly : f.InPipe → rest ≠ []) :
    EndsHeld job (readRedirectIn job f rest) := by
  cases rest with
  | nil => exact held.fails (fun inPipe => orderly inPipe rfl) rfl
  | cons file left =>
    exact held.next (links_onShell _ _ (fun _ => rfl)) rfl rfl rfl rfl (fun _ => endLine_ready _ left)
      (held.named_endLine rfl rfl id)

/-- A user-pipe error before the command has accepted a user pipe. -/
theorem Held.refuse (held : Held job f) (notIn : ¬ f.InPipe) (text : Str) :
    EndsHeld job (refuse job f text) :=
  held.between notIn (links_write _ _ _)

/-- The branch of `<s`, for a word that is in order: the pipe that it takes is there, and becomes
the one pipe that the command has taken; or there is none, and nothing has changed. -/
theorem Held.readUserIn (held : Held job f) (later : f.isFirstArgv = false)
    (orderly : OrderlyIn job f word) :
    EndsHeld job (readUserIn job f word rest) := by
  rw [OrderlyIn] at orderly
  rw [MultiProc.readUserIn]
  split
  · rename_i long
    simp only [long] at orderly
    exact held.fails orderly rfl
  rename_i sourceId number
  simp only [number] at orderly
  split
  · rename_i missing
    simp only [missing, Option.isNone_none, if_true] at orderly
    exact held.refuse orderly _
  rename_i source isSource
  rw [isSource, if_neg (by simp)] at orderly
  split
  · rename_i absent
    rw [if_pos absent] at orderly
    exact held.refuse orderly _
  rename_i there
  rw [if_neg there] at orderly
  obtain ⟨positive, -⟩ := mem_ids held.numbered isSource
  have free : f.taken = none ∨ f.taken = some sourceId.toNat := by
    rw [Frame.taken]
    rcases orderly with none | same
    · exact Or.inl (if_pos none)
    · rw [same, if_neg (by omega)]
      exact Or.inr rfl
  obtain ⟨touches, flow⟩ := held.flow.getUserPipeFd free there
  constructor
  · rfl
  · exact held.send
  · intro _
    refine ⟨positive, ?_⟩
    exact (isSome_links touches.slots sourceId).trans (by rw [isSource]; rfl)
  · intro sent
    have before := held.target sent
    rwa [← isSome_links touches.slots] at before
  · exact fun _ => endLine_ready _ rest
  · exact fun _ => held.named (Or.inl later)
  · exact held.children.same touches.forked
  · exact held.apart
  · have isTaken : (f.receiveFrom sourceId (f.server.getUserPipeFd sourceId.toNat job.curId)
        rest).taken = some sourceId.toNat :=
          if_neg (by simp only [Frame.receiveFrom, Frame.endLine]; omega)
    rw [isTaken]
    exact flow
  · exact held.numbered.same touches.slots
  · exact (isSome_links touches.slots _).trans held.own

/-- The branch of `>t`, for a word that is in order: the pipe that it makes is on its way, with
the handler of the target waiting for it, and no other child is to open one to that target. -/
theorem Held.readUserOut (held : Held job f) (later : f.isFirstArgv = false)
    (orderly : OrderlyOut job f word) :
    EndsHeld job (readUserOut job f word rest) := by
  rw [OrderlyOut] at orderly
  rw [MultiProc.readUserOut]
  split
  · rename_i long
    simp only [long] at orderly
    exact held.fails orderly rfl
  rename_i targetId number
  simp only [number] at orderly
  split
  · rename_i missing
    simp only [missing, Option.isNone_none, if_true] at orderly
    exact held.refuse orderly _
  rename_i target isTarget
  rw [isTarget, if_neg (by simp)] at orderly
  split
  · rename_i pending
    rw [if_pos pending] at orderly
    exact held.refuse orderly _
  rename_i free
  rw [if_neg free] at orderly
  obtain ⟨noTarget, notSelf, runs, notForked⟩ := orderly
  obtain ⟨positive, -⟩ := mem_ids held.numbered isTarget
  have other : targetId.toNat ≠ job.curId := by omega
  have down : ¬ f.Flying targetId.toNat := by
    rintro (inside | same)
    · exact notForked inside
    · omega
  obtain ⟨own, isOwn⟩ := Option.isSome_iff_exists.mp held.own
  have inIds : job.curId ∈ ids := (mem_ids held.numbered isOwn).2
  obtain ⟨created, creates, touches, flow⟩ := held.flow.createUserPipe inIds other down runs
    (by simpa using free)
  rw [creates]
  constructor
  · exact held.recv
  · rfl
  · intro received
    have before := held.source received
    rwa [← isSome_links touches.slots] at before
  · intro _
    refine ⟨positive, ?_⟩
    exact (isSome_links touches.slots targetId).trans (by rw [isTarget]; rfl)
  · exact fun _ => endLine_ready _ rest
  · exact fun _ => held.named (Or.inl later)
  · exact held.children.same touches.forked
  · intro w member same
    rw [show (f.sendTo targetId created rest).server.forked = f.server.forked from touches.forked]
      at member
    have into : w.targetId = targetId.toNat := by
      have same : (w.targetId : Int) = targetId := same
      omega
    exact notForked (into ▸ List.mem_map_of_mem member)
  · refine flow.flying (fun t => ?_)
    have forked : (f.sendTo targetId created rest).server.forked = f.server.forked := touches.forked
    have isTarget : (f.sendTo targetId created rest).targetId = targetId := rfl
    rw [Frame.Flying, Frame.Flying, forked, isTarget, noTarget]
    constructor
    · rintro (inside | same)
      · exact Or.inl (Or.inl inside)
      · exact Or.inr (by omega)
    · rintro ((inside | same) | same)
      · exact Or.inl inside
      · omega
      · exact Or.inr (by omega)
  · exact held.numbered.same touches.slots
  · exact (isSome_links touches.slots _).trans held.own

/-- Reading a word that is in order, branch by branch. Only those of user pipes do anything to the
pipes; the others may not be where a line that has accepted one comes to an end. -/
theorem Held.readWord (held : Held job f)
    (orderly : f.isFirstArgv = true ∨ OrderlyWord job f.initFd word rest) :
    EndsHeld job (readWord job f word rest) := by
  have held := held.initFd
  unfold MultiProc.readWord
  simp only
  split
  · refine held.next rfl rfl rfl rfl rfl (fun _ => ?_) (fun _ => ?_)
    · simp only [Frame.readProg]
      split
      · exact Or.inl rfl
      · cases rest with
        | nil => exact Or.inl rfl
        | cons next rest => exact Or.inr (by simp)
    · simp only [Frame.readProg]
      split <;> simp
  · rename_i later
    have orderly : OrderlyWord job f.initFd word rest := by
      rcases orderly with first | orderly
      · rw [initFd_isFirstArgv] at later
        exact absurd first later
      · exact orderly
    rw [OrderlyWord] at orderly
    split
    · rename_i same
      rw [same] at orderly
      exact held.readPipe orderly
    · rename_i same
      rw [same] at orderly
      exact held.readPipe orderly
    · rename_i same
      rw [same] at orderly
      exact held.readRedirectOut orderly
    · rename_i same
      rw [same] at orderly
      exact held.readRedirectIn orderly
    · rename_i same
      rw [same] at orderly
      exact held.readUserOut (by simpa using later) orderly
    · rename_i same
      rw [same] at orderly
      exact held.readUserIn (by simpa using later) orderly
    · refine held.next rfl rfl rfl rfl rfl (fun _ => ?_) (fun _ => ?_)
      · cases rest with
        | nil => exact Or.inl rfl
        | cons next rest => exact Or.inr (by simp [Frame.readArgument])
      · simp [Frame.readArgument]

end Reading

/-! ## Executing a command -/

section Returning

variable {g : Server} {curId : Nat}

theorem arg_returns {arguments : List Str} {k : Nat} (there : k < arguments.length) :
    arg g arguments k = .ok (cstr arguments[k]) := by
  rw [arg, List.getElem?_eq_getElem there]

theorem message_returns {arguments : List Str} {k : Nat} (there : k < arguments.length) :
    ∃ msg, message g arguments k = .ok msg := by
  rw [message, List.drop_eq_getElem_cons there]
  exact ⟨_, rfl⟩

/-- `who` returns for a client of the table. -/
theorem who_returns (own : (getClientByID g.table curId).isSome = true) :
    ∃ printed, who g curId = .ok printed := by
  have lines (slots : List Nat) (h : Server) (same : (getClientByID h.table curId).isSome = true) :
      ∃ printed, slots.foldlM (whoLine curId) h = .ok printed := by
    induction slots generalizing h with
    | nil => exact ⟨h, rfl⟩
    | cons slot slots ih =>
      obtain ⟨client, isOwn⟩ := Option.isSome_iff_exists.mp same
      rw [List.foldlM_cons, whoLine, isOwn]
      split
      · exact ih h same
      · rename_i impossible
        cases impossible
      · exact ih _ same
  exact lines _ _ own

/-- A client whose slot is valid is found, so telling it something returns. -/
theorem tell_returns (numbered : g.Numbered) (curId : Nat) {targetId : Int} (low : 1 ≤ targetId)
    (high : targetId ≤ maxClientSize) (msg : Str) : ∃ told, tell g curId targetId msg = .ok told := by
  have size := numbered.size
  simp only [Server.links, List.length_map] at size
  have inside : targetId.toNat - 1 < g.table.length := by omega
  rw [tell, if_neg (by omega), List.getElem?_eq_getElem inside]
  simp only
  split
  · rename_i valid
    have slot : g.links.slots[targetId.toNat - 1]? =
        some ((g.table[targetId.toNat - 1]).id, true) := by
      simp [Server.links, List.getElem?_eq_getElem inside, valid]
    have number := numbered.number _ _ slot
    have found : (getClientByID g.table (targetId.toNat : Int)).isSome = true := by
      rw [getClientByID, List.find?_isSome]
      refine ⟨g.table[targetId.toNat - 1], List.getElem_mem inside, ?_⟩
      simp only [Bool.and_eq_true, decide_eq_true_eq]
      exact ⟨by omega, valid⟩
    obtain ⟨told, tells, -⟩ := broadcast_returns g curId (.tell msg targetId.toNat)
      (by simpa [Announcement.targetId] using found)
    exact ⟨told, tells⟩
  · exact ⟨_, rfl⟩

theorem name_returns (g : Server) (curId : Nat) {newName : Str}
    (fits : newName.length < userNameSize) : ∃ named, name g curId newName = .ok named := by
  rw [name]
  split
  · exact ⟨_, rfl⟩
  · obtain ⟨told, tells, -⟩ := broadcast_returns
      ({ g with table := rename g.table curId newName } : Server) curId .name rfl
    exact ⟨told, tells⟩

/-- A built-in command that has what it reads returns. All look-ups are of clients that are there:
the client of the line, and for a `tell` one whose slot is valid. -/
theorem builtin_returns (numbered : g.Numbered)
    (own : (getClientByID g.table curId).isSome = true) {arguments : List Str}
    (furnished : Furnished arguments) : ∃ result, builtin g curId arguments = .ok result := by
  cases arguments with
  | nil => exact absurd furnished id
  | cons prog arguments =>
    rw [builtin, show arg g (prog :: arguments) 0 = .ok (cstr prog) from rfl]
    simp only [bind, Except.bind]
    rw [Furnished] at furnished
    have more (some : arguments ≠ []) : 1 < (prog :: arguments).length := by
      simpa [List.length_pos_iff] using some
    split
    · rename_i same
      rw [same, if_pos (by decide)] at furnished
      simp only [arg_returns (more furnished)]
      exact ⟨_, rfl⟩
    split
    · rename_i same
      rw [same, if_neg (by decide), if_pos rfl] at furnished
      have three : 2 < (prog :: arguments).length := Nat.succ_lt_succ furnished
      simp only [arg_returns (Nat.lt_of_succ_lt three), arg_returns three]
      exact ⟨_, rfl⟩
    split
    · obtain ⟨printed, prints⟩ := who_returns own
      simp only [prints]
      exact ⟨_, rfl⟩
    split
    · rename_i same
      rw [same, if_pos (by decide)] at furnished
      obtain ⟨msg, reads⟩ := message_returns (g := g) (more furnished)
      obtain ⟨told, tells, -⟩ := broadcast_returns g curId (.yell msg) rfl
      simp only [reads, tells]
      exact ⟨_, rfl⟩
    split
    · rename_i same
      rw [same, if_neg (by decide), if_neg (by decide), if_pos rfl] at furnished
      obtain ⟨two, targetId, number, low, high⟩ := furnished
      have three : 2 < (prog :: arguments).length := Nat.succ_lt_succ two
      have inside := Nat.lt_of_succ_lt three
      have second : (prog :: arguments)[1] = arguments.headD [] := by
        cases arguments with
        | nil => simp at two
        | cons first rest => rfl
      obtain ⟨msg, reads⟩ := message_returns (g := g) three
      obtain ⟨told, tells⟩ := tell_returns numbered curId low high msg
      simp only [arg_returns inside, second, Option.mem_def.mp number, reads, tells]
      exact ⟨_, rfl⟩
    split
    · rename_i same
      rw [same, if_neg (by decide), if_neg (by decide), if_neg (by decide), if_pos rfl] at furnished
      obtain ⟨some, fits⟩ := furnished
      have inside := more some
      have second : (prog :: arguments)[1] = arguments.headD [] := by
        cases arguments with
        | nil => exact absurd rfl some
        | cons first rest => rfl
      obtain ⟨named, names⟩ := name_returns g curId fits
      simp only [arg_returns inside, second, names]
      exact ⟨_, rfl⟩
    · exact ⟨_, rfl⟩

end Returning

section Executing

variable {job : Job} {f : Frame}

/-- What the announcements and the numbered pipes of a command change is nothing of
what user pipes rest on. -/
structure Prepared (f next : Frame) : Prop where
  links : next.server.links = f.server.links
  source : next.sourceId = f.sourceId
  target : next.targetId = f.targetId
  recv : next.recvStrId = -1
  send : next.sendStrId = -1
  arguments : next.arguments = f.arguments
  isFirstArgv : next.isFirstArgv = f.isFirstArgv

theorem attach_links (job : Job) (f : Frame) : (attach job f).server.links = f.server.links := by
  rw [attach]
  split
  · exact links_onShell _ _ (fun _ => rfl)
  · rfl

theorem announceRecv_returns (job : Job) (f : Frame) (there : f.recvStrId ≠ -1 → 0 < f.sourceId ∧
    (getClientByID f.server.table f.sourceId).isSome = true) :
    ∃ g, announceRecv job f = .ok { f with server := g, recvStrId := -1 } ∧
      g.links = f.server.links := by
  rw [announceRecv]
  split
  · rename_i receives
    obtain ⟨positive, isSome⟩ := there receives
    have cast : ((f.sourceId.toNat : Nat) : Int) = f.sourceId := by omega
    obtain ⟨told, tells, links⟩ := broadcast_returns f.server job.curId
      (.recv (SingleProc.lineInput job.line) f.sourceId.toNat)
      (by simpa [Announcement.targetId, cast] using isSome)
    exact ⟨told, by rw [tells]; rfl, links⟩
  · rename_i nothing
    have nothing : f.recvStrId = -1 := by simpa using nothing
    exact ⟨f.server, by rw [← nothing], rfl⟩

theorem announceSend_returns (job : Job) (f : Frame) (there : f.sendStrId ≠ -1 → 0 < f.targetId ∧
    (getClientByID f.server.table f.targetId).isSome = true) :
    ∃ g, announceSend job f = .ok { f with server := g, sendStrId := -1 } ∧
      g.links = f.server.links := by
  rw [announceSend]
  split
  · rename_i sends
    obtain ⟨positive, isSome⟩ := there sends
    have cast : ((f.targetId.toNat : Nat) : Int) = f.targetId := by omega
    obtain ⟨told, tells, links⟩ := broadcast_returns f.server job.curId
      (.send (SingleProc.lineInput job.line) f.targetId.toNat)
      (by simpa [Announcement.targetId, cast] using isSome)
    exact ⟨told, by rw [tells]; rfl, links⟩
  · rename_i nothing
    have nothing : f.sendStrId = -1 := by simpa using nothing
    exact ⟨f.server, by rw [← nothing], rfl⟩

theorem attach_prepared (job : Job) (f : Frame) (recv : f.recvStrId = -1) (send : f.sendStrId = -1) :
    Prepared f (attach job f) := by
  rw [attach]
  split
  · exact ⟨links_onShell _ _ (fun _ => rfl), rfl, rfl, recv, send, rfl, rfl⟩
  · exact ⟨rfl, rfl, rfl, recv, send, rfl, rfl⟩

/-- The pipes a command has accepted can be announced. -/
theorem Held.prepare (held : Held job f) :
    ∃ received sent, announceRecv job f = .ok received ∧ announceSend job received = .ok sent ∧
      Prepared f (attach job sent) := by
  have received : f.recvStrId ≠ -1 → 0 < f.sourceId ∧
      (getClientByID f.server.table f.sourceId).isSome = true := by
    rw [held.recv]
    exact held.source
  obtain ⟨g, receives, gLinks⟩ := announceRecv_returns job f received
  have slots : g.links.slots = f.server.links.slots := congrArg Links.slots gLinks
  have sent : f.sendStrId ≠ -1 → 0 < f.targetId ∧
      (getClientByID g.table f.targetId).isSome = true := by
    rw [held.send, isSome_links slots]
    exact held.target
  obtain ⟨h, sends, hLinks⟩ :=
    announceSend_returns job { f with server := g, recvStrId := -1 } sent
  refine ⟨_, _, receives, sends, ?_⟩
  have prepared := attach_prepared job
    { f with server := h, recvStrId := -1, sendStrId := -1 } rfl rfl
  exact ⟨prepared.links.trans (hLinks.trans gLinks), prepared.source, prepared.target,
    prepared.recv, prepared.send, prepared.arguments, prepared.isFirstArgv⟩

/-- After the call and the closes of a command. -/
structure Called (job : Job) (f called : Frame) : Prop where
  source : called.sourceId = f.sourceId
  target : called.targetId = f.targetId
  recv : called.recvStrId = -1
  send : called.sendStrId = -1
  children : called.server.Children job.curId
  flow : called.server.Flow job.curId f.taken (fun t => t ∈ called.server.forked.map Writer.targetId)
  slots : called.server.links.slots = f.server.links.slots

theorem closeIn_arguments (job : Job) (f : Frame) : (closeIn job f).arguments = f.arguments := by
  rw [closeIn]
  split <;> rfl

theorem closeIn_isFirstArgv (job : Job) (f : Frame) :
    (closeIn job f).isFirstArgv = f.isFirstArgv := by
  rw [closeIn]
  split <;> rfl

/-- The closes after a call are about the process alone. -/
theorem Called.closes {called : Frame} (after : Called job f called) :
    Called job f (closeIn job (erase job called)) := by
  have erased : (erase job called).server.links = called.server.links :=
    links_onShell _ _ (fun _ => rfl)
  have closed : (closeIn job (erase job called)).server.links = called.server.links := by
    rw [closeIn]
    split
    · have shut : ((erase job called).server.onShell job.curId (fun s => s.withProcess
          (s.process.closeEnd (erase job called).inFd (erase job called).inPipe))).links =
            (erase job called).server.links := links_onShell _ _ (fun _ => rfl)
      exact shut.trans erased
    · exact erased
  have forked : (closeIn job (erase job called)).server.forked = called.server.forked :=
    congrArg Links.forked closed
  have rest : (closeIn job (erase job called)).sourceId = called.sourceId ∧
      (closeIn job (erase job called)).targetId = called.targetId ∧
      (closeIn job (erase job called)).recvStrId = called.recvStrId ∧
      (closeIn job (erase job called)).sendStrId = called.sendStrId := by
    rw [closeIn]
    split <;> exact ⟨rfl, rfl, rfl, rfl⟩
  constructor
  · exact rest.1.trans after.source
  · exact rest.2.1.trans after.target
  · exact rest.2.2.1.trans after.recv
  · exact rest.2.2.2.trans after.send
  · exact after.children.same forked
  · refine (after.flow.same closed).flying (fun t => ?_)
    rw [forked]
  · exact (congrArg Links.slots closed).trans after.slots

/-- The descriptor a child gets is a number. -/
theorem openFile_ne (p : Process) : p.openFile.1 ≠ -1 := by
  simp only [Process.openFile]
  omega

/-- The fork of a command that may have made a pipe: its child opens it, or will. Where the shell
waits for the child it has come to its `open` by then; otherwise it is one of the children still
to come. -/
theorem Held.fork (held : Held job f) {g : Server} (links : g.links = f.server.links)
    (waits : Bool) : ∃ h, fork g job.curId f.targetId waits = .ok h ∧ h.Children job.curId ∧
      h.Flow job.curId f.taken (fun t => t ∈ h.forked.map Writer.targetId) ∧
      h.links.slots = f.server.links.slots := by
  have forked : g.forked = f.server.forked := congrArg Links.forked links
  have slots : g.links.slots = f.server.links.slots := congrArg Links.slots links
  have flow := held.flow.same links
  have children := held.children.same forked
  rw [MultiProc.fork]
  by_cases sends : f.targetId = -1
  · rw [if_neg (by omega)]
    refine ⟨g, rfl, children, flow.flying (fun t => ?_), slots⟩
    rw [Frame.Flying, forked, sends]
    constructor
    · exact Or.inl
    · rintro (inside | impossible)
      · exact inside
      · omega
  obtain ⟨positive, -⟩ := held.target sends
  rw [if_pos positive]
  have into : (f.targetId.toNat : Int) = f.targetId := by omega
  have notForked : f.targetId.toNat ∉ g.forked.map Writer.targetId := by
    intro member
    obtain ⟨w, inside, same⟩ := List.mem_map.mp member
    rw [forked] at inside
    exact held.apart w inside (by omega)
  cases waits with
  | false =>
    refine ⟨_, rfl, ⟨?_, ?_⟩, ?_, slots⟩
    · intro w member
      rcases List.mem_append.mp member with old | new
      · exact children.own w old
      · rw [List.mem_singleton.mp new]
        exact ⟨rfl, openFile_ne _⟩
    · simp only [List.map_append, List.map_cons, List.map_nil]
      exact List.nodup_append.mpr ⟨children.distinct, by simp, by simpa using notForked⟩
    · refine Server.Flow.flying ⟨flow.away, flow.flies, flow.takes, fun s t notFlying notTaken =>
        (flow.settled s t notFlying notTaken).same rfl rfl, flow.reading, flow.signalled,
        flow.writing⟩ (fun t => ?_)
      rw [Frame.Flying, ← forked]
      simp only [List.map_append, List.map_cons, List.map_nil, List.mem_append, List.mem_singleton]
      exact or_congr_right (by omega)
  | true =>
    have flies : f.Flying f.targetId.toNat := Or.inr into
    obtain ⟨h, opens, touches, landed⟩ := flow.setUserPipeOut
      ⟨job.curId, f.targetId.toNat, (g.shells job.curId).process.openFile.1⟩ rfl flies
      (openFile_ne _)
    have sameForked : h.forked = g.forked := touches.forked
    refine ⟨h, by simp only [opens, if_true], children.same sameForked, ?_,
      touches.slots.trans slots⟩
    refine landed.flying (fun t => ?_)
    rw [Frame.Flying, sameForked, ← forked]
    constructor
    · intro inside
      refine ⟨Or.inl inside, fun same => notForked ?_⟩
      rwa [← show t = f.targetId.toNat from same]
    · rintro ⟨inside | same, other⟩
      · exact inside
      · exact absurd (show t = f.targetId.toNat by omega) other

/-- The call of a built-in command. -/
theorem execCmd_builtin {p : Frame} (arguments : p.arguments = f.arguments)
    (isBuiltin : f.IsBuiltin) (named : f.arguments ≠ []) : execCmd job p =
      builtin (p.server.onShell job.curId (·.logged (callOf job p))) job.curId f.arguments := by
  obtain ⟨prog, args, words⟩ := List.exists_cons_of_ne_nil named
  rw [Frame.IsBuiltin, words] at isBuiltin
  rw [execCmd, arguments, words]
  exact if_pos isBuiltin

/-- The call is logged, which is nothing to the links. -/
theorem Prepared.logged {p : Frame} (prepared : Prepared f p) (job : Job) :
    (p.server.onShell job.curId (·.logged (callOf job p))).links = f.server.links := by
  rw [← prepared.links]
  exact links_onShell _ _ (fun _ => rfl)

/-- A command that fails has accepted no user pipe, and leaves the links. -/
theorem Held.call_fails (held : Held job f) (orderly : OrderlyCall f) {p : Frame}
    (prepared : Prepared f p) {failure : Fault × Server} (ran : execCmd job p = .error failure) :
    ¬ f.InPipe ∧ Harmless f.server failure := by
  have logged := prepared.logged job
  have isBuiltin : f.IsBuiltin ∧ Harmless f.server failure ∨ f.arguments = [] ∧
      failure = (.argument, p.server.onShell job.curId (·.logged (callOf job p))) := by
    rw [execCmd, prepared.arguments] at ran
    split at ran
    · rename_i prog args words
      left
      split at ran
      · rename_i isBuiltin
        have kept := builtin_links (p.server.onShell job.curId (·.logged (callOf job p)))
          job.curId f.arguments
        refine ⟨by simpa [Frame.IsBuiltin, words] using isBuiltin, ?_⟩
        exact (kept.raised ran).trans logged
      · rw [prepared.target] at ran
        obtain ⟨h, forks, -⟩ := held.fork logged (p.lineEnds && !p.isUsingPipe)
        rw [forks] at ran
        cases ran
    · rename_i words
      cases ran
      exact Or.inr ⟨words, rfl⟩
  constructor
  · intro inPipe
    have named := held.named (Or.inr inPipe)
    rcases isBuiltin with ⟨isBuiltin, -⟩ | ⟨unnamed, -⟩
    · obtain ⟨noTarget, furnished⟩ := orderly isBuiltin
      rcases inPipe with received | sent
      · have slots := congrArg Links.slots logged
        obtain ⟨result, returns⟩ := builtin_returns (held.numbered.same slots)
          ((isSome_links slots _).trans held.own) (furnished received)
        rw [execCmd_builtin prepared.arguments isBuiltin named, returns] at ran
        cases ran
      · exact sent noTarget
    · exact named unnamed
  · rcases isBuiltin with ⟨-, harmless⟩ | ⟨-, rfl⟩
    · exact harmless
    · exact ⟨logged, rfl⟩

/-- After a command that returns its pipes are on their way to the children: the one it has made
will be opened by its child, and the one it has taken is taken. -/
theorem Held.call_returns (held : Held job f) (orderly : OrderlyCall f) {p : Frame}
    (prepared : Prepared f p) {g : Server} {status : Int}
    (ran : execCmd job p = .ok (g, status)) : g.Children job.curId ∧
      g.Flow job.curId f.taken (fun t => t ∈ g.forked.map Writer.targetId) ∧
      g.links.slots = f.server.links.slots := by
  have logged := prepared.logged job
  rw [execCmd, prepared.arguments] at ran
  split at ran
  · rename_i prog args words
    split at ran
    · rename_i isBuiltin
      have kept := builtin_links (p.server.onShell job.curId (·.logged (callOf job p)))
        job.curId f.arguments
      have links : g.links = f.server.links := (kept.returned ran).trans logged
      have forked : g.forked = f.server.forked := congrArg Links.forked links
      have noTarget : f.targetId = -1 :=
        (orderly (by simpa [Frame.IsBuiltin, words] using isBuiltin)).1
      refine ⟨held.children.same forked, (held.flow.same links).flying (fun t => ?_),
        congrArg Links.slots links⟩
      rw [Frame.Flying, forked, noTarget]
      constructor
      · exact Or.inl
      · rintro (inside | impossible)
        · exact inside
        · omega
    · rw [prepared.target] at ran
      obtain ⟨h, forks, after⟩ := held.fork logged (p.lineEnds && !p.isUsingPipe)
      rw [forks] at ran
      cases ran
      exact after
  · cases ran

/-- The call of a command. -/
theorem Held.call (held : Held job f) (orderly : OrderlyCall f) {p : Frame}
    (prepared : Prepared f p) :
    Ends (call job p) (Called job f) (Bad job.curId) := by
  cases ran : execCmd job p with
  | error failure =>
    obtain ⟨notIn, harmless⟩ := held.call_fails orderly prepared ran
    rw [MultiProc.call, ran]
    exact ⟨held.between notIn harmless.1, harmless.2⟩
  | ok result =>
    obtain ⟨g, status⟩ := result
    obtain ⟨children, flow, slots⟩ := held.call_returns orderly prepared ran
    rw [MultiProc.call, ran]
    exact ⟨prepared.source, prepared.target, prepared.recv, prepared.send, children, flow, slots⟩

/-- After a command nothing is accepted, and what was taken is removed: the record is empty again,
and its file is gone. -/
theorem Called.forget {called : Frame} (held : Held job f) (after : Called job f called)
    (named : called.isFirstArgv = false → called.arguments ≠ []) :
    Held job (forget job called) := by
  have noTarget : (if called.targetId > 0 then ({ called with targetId := -1 } : Frame) else called) =
      { called with targetId := -1 } := by
    split
    · rfl
    · rename_i absent
      by_cases sends : f.targetId = -1
      · rw [← sends, ← after.target]
      · have positive := (held.target sends).1
        rw [after.target] at absent
        exact absurd positive absent
  rw [MultiProc.forget, noTarget]
  simp only
  have bare (g : Server) (children : g.Children job.curId)
      (flow : g.Flow job.curId none (fun t => t ∈ g.forked.map Writer.targetId))
      (slots : g.links.slots = f.server.links.slots) :
      Held job { called with server := g, targetId := -1, sourceId := -1 } := by
    constructor
    · exact after.recv
    · exact after.send
    · exact fun impossible => absurd rfl impossible
    · exact fun impossible => absurd rfl impossible
    · rintro (impossible | impossible) <;> exact absurd rfl impossible
    · rintro (later | impossible | impossible)
      · exact named later
      · exact absurd rfl impossible
      · exact absurd rfl impossible
    · exact children
    · intro w _ impossible
      have impossible : (w.targetId : Int) = -1 := impossible
      omega
    · refine Server.Flow.flying flow (fun t => ?_)
      constructor
      · rintro (inside | impossible)
        · exact inside
        · have impossible : (t : Int) = -1 := impossible
          omega
      · exact Or.inl
    · exact held.numbered.same slots
    · exact (isSome_links slots _).trans held.own
  by_cases received : f.sourceId = -1
  · have noSource : called.sourceId = -1 := after.source.trans received
    rw [if_neg (by omega)]
    have flow := after.flow
    rw [Frame.taken, if_pos received] at flow
    have same : ({ called with targetId := -1 } : Frame) =
        { called with targetId := -1, sourceId := -1 } := by
      rw [Frame.mk.injEq]
      simp [noSource]
    rw [same]
    exact bare called.server after.children flow after.slots
  · have positive := (held.source received).1
    rw [after.source, if_pos positive]
    have flow := after.flow
    rw [Frame.taken, if_neg received] at flow
    obtain ⟨touches, erased⟩ := flow.eraseUserPipe
    refine bare _ (after.children.same touches.forked) (erased.flying (fun t => ?_))
      (touches.slots.trans after.slots)
    rw [touches.forked]

theorem Held.execute (held : Held job f) (orderly : OrderlyCall f) :
    EndsHeld job (execute job f) := by
  obtain ⟨received, sent, receives, sends, prepared⟩ := held.prepare
  rw [MultiProc.execute, receives]
  simp only [bind, Except.bind, sends]
  have called := held.call orderly prepared
  cases calls : MultiProc.call job (attach job sent) with
  | error failure => exact called.raised calls
  | ok next =>
    have after := called.returned calls
    refine after.closes.forget held (fun later => ?_)
    obtain ⟨g, status, -, rfl⟩ := call_eq_ok calls
    rw [closeIn_arguments]
    rw [closeIn_isFirstArgv] at later
    refine (show _ = f.arguments from prepared.arguments) ▸ held.named (Or.inl ?_)
    exact prepared.isFirstArgv.symm.trans later

end Executing

/-! ## A line -/

/-- One round of an orderly line, by the way its word is read and by what the execution does. -/
theorem Held.round {job : Job} {f : Frame} (held : Held job f)
    (orderly : Orderly job (f.resumed job)) : EndsHeld job (round job f) := by
  have held := held.resumed
  rw [MultiProc.round, ← Frame.resumed, advance]
  rw [Orderly] at orderly
  by_cases final : (f.resumed job).isFinalArgv = true
  · rw [if_pos final] at orderly ⊢
    exact held.execute orderly
  · rw [if_neg final] at orderly ⊢
    cases words : (f.resumed job).cmds with
    | nil =>
      refine held.between (fun inPipe => ?_) rfl
      rcases held.ready inPipe with isFinal | left
      · exact final isFinal
      · exact left words
    | cons word rest =>
      simp only [words] at orderly
      exact held.readWord orderly

/-- An orderly line leaves no pipe on its way but to its children, by the invariant rule of loops.
-/
theorem execCmds_between {job : Job} {g : Server} {cmds : List Str}
    (held : Held job (Frame.initial g cmds))
    (orderly : ∀ f ∈ frames job g cmds, Orderly job (f.resumed job)) :
    Ends (execCmds job g cmds) (fun result => result.1.Between job.curId) (Bad job.curId) :=
  (cmdLoop job).run_ends (Held job) (fun f => Orderly job (f.resumed job)) _ _
    (fun _ held orderly => held.round orderly) _ held orderly

end NetProg.MultiProc
