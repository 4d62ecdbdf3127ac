import NetProg.MultiProc.Links

/-!
# The table of the user pipes

Between lines a record of the table is empty and has no file, or it is pending: its
file is there, the sender's child and the receiver's handler have both opened it. In
the middle of a line of one client some more of its pipes are on their way. A flying
pipe has been made, and the receiver's handler waits for the child that is to open
it. A taken pipe has been received, and is removed when the command has run.

A `>t` makes a pipe fly and the child of its command lands it; a `<s` takes a pipe
and the end of its command removes it.
-/

namespace NetProg.MultiProc

open Loops Outcomes Runs

namespace Server

/-- A user pipe that has been sent and not been received. -/
structure Pending (g : Server) (sourceId targetId : Nat) : Prop where
  name : (g.fifo sourceId targetId).name = fifoPath sourceId targetId
  unused : (g.fifo sourceId targetId).isUsed = false
  inFd : (g.fifo sourceId targetId).inFd ≠ -1
  outFd : (g.fifo sourceId targetId).outFd ≠ -1
  file : g.files sourceId targetId = true

/-- There is no user pipe, or one that is pending. -/
def Settled (g : Server) (sourceId targetId : Nat) : Prop :=
  (g.fifo sourceId targetId = .empty ∧ g.files sourceId targetId = false) ∨
    g.Pending sourceId targetId

/-- In the middle of a line of one client: the pipe it has taken, and the targets of those on
their way. All other pipes are settled, whoever they are between. -/
structure Flow (g : Server) (curId : Nat) (taken : Option Nat) (flying : Nat → Prop) : Prop where
  away : ¬ flying curId
  flies : ∀ t, flying t → g.fifo curId t = ⟨fifoPath curId t, false, -1, -1⟩ ∧
    g.files curId t = true ∧ g.reading t = some curId
  takes : ∀ s, taken = some s → (g.fifo s curId).name = fifoPath s curId ∧
    (g.fifo s curId).isUsed = true ∧ (g.fifo s curId).inFd = -1 ∧ (g.fifo s curId).outFd ≠ -1 ∧
    g.files s curId = true
  settled : ∀ s t, ¬ (s = curId ∧ flying t) → ¬ (t = curId ∧ taken = some s) → g.Settled s t
  reading : ∀ t, ¬ flying t → g.reading t = none
  signalled : ∀ t, g.signalled t = false
  writing : g.writing = []

/-- A handler has nothing to do about a record. -/
def Idle (g : Server) (sourceId targetId : Nat) : Prop :=
  (g.fifo sourceId targetId).outFd ≠ -1 ∨ (g.fifo sourceId targetId).name = []

theorem Settled.idle {g : Server} {s t : Nat} (settled : g.Settled s t) : g.Idle s t := by
  rcases settled with ⟨empty, -⟩ | pending
  · right
    rw [empty]
    rfl
  · exact Or.inl pending.outFd

/-- A handler whose records are idle comes to its end. -/
theorem openFifos_idle {g : Server} {targetId : Nat} {sources : List Nat}
    (idle : ∀ s ∈ sources, g.Idle s targetId) :
    g.openFifos targetId sources = g.withReading targetId none := by
  induction sources with
  | nil => rfl
  | cons s sources ih =>
    have others := ih (fun later member => idle later (List.mem_cons_of_mem _ member))
    rw [openFifos, others, if_neg]
    rintro ⟨closed, named, -⟩
    rcases idle s List.mem_cons_self with isOpen | unnamed
    · exact isOpen closed
    · exact named unnamed

theorem handle_idle {g : Server} {targetId : Nat} {sources : List Nat}
    (idle : ∀ s ∈ sources, g.Idle s targetId) (quiet : g.signalled targetId = false) :
    g.handle targetId sources = g.withReading targetId none := by
  simp only [handle, openFifos_idle idle]
  rw [if_neg]
  rintro ⟨-, pending⟩
  simp [withReading, quiet] at pending

/-- A handler waits at the first FIFO that no child has come to. -/
theorem openFifos_waits {g : Server} {sourceId targetId : Nat} {sources : List Nat}
    (member : sourceId ∈ sources) (idle : ∀ s ∈ sources, s ≠ sourceId → g.Idle s targetId)
    (closed : (g.fifo sourceId targetId).outFd = -1) (named : (g.fifo sourceId targetId).name ≠ [])
    (file : g.files sourceId targetId = true) (writing : g.writing = []) :
    g.openFifos targetId sources = g.withReading targetId (some sourceId) := by
  induction sources with
  | nil => cases member
  | cons s sources ih =>
    by_cases same : s = sourceId
    · subst same
      rw [openFifos, if_pos ⟨closed, named, file⟩]
      simp [writing]
    · have later : sourceId ∈ sources := by
        rcases List.mem_cons.mp member with first | later
        · exact absurd first.symm same
        · exact later
      have others := ih later (fun u inside => idle u (List.mem_cons_of_mem _ inside))
      rw [openFifos, others, if_neg]
      rintro ⟨isClosed, isNamed, -⟩
      rcases idle s List.mem_cons_self same with isOpen | unnamed
      · exact isOpen isClosed
      · exact isNamed unnamed

/-- A record with its file decides whether it is settled. -/
theorem Settled.same {g h : Server} {s t : Nat} (settled : g.Settled s t)
    (fifo : h.fifo s t = g.fifo s t) (files : h.files s t = g.files s t) : h.Settled s t := by
  rcases settled with ⟨empty, none⟩ | ⟨name, unused, inFd, outFd, file⟩
  · exact Or.inl ⟨fifo.trans empty, files.trans none⟩
  · rw [← fifo] at name unused inFd outFd
    exact Or.inr ⟨name, unused, inFd, outFd, files.trans file⟩

/-- A step that is about one user pipe: its record and file, and its receiver. Whatever is known
of any other pipe is known after it. -/
structure Touches (g h : Server) (sourceId targetId : Nat) : Prop where
  fifo : ∀ s t, ¬ (s = sourceId ∧ t = targetId) → h.fifo s t = g.fifo s t
  files : ∀ s t, ¬ (s = sourceId ∧ t = targetId) → h.files s t = g.files s t
  reading : ∀ t, t ≠ targetId → h.reading t = g.reading t
  signalled : h.signalled = g.signalled
  writing : h.writing = g.writing
  slots : h.links.slots = g.links.slots
  forked : h.forked = g.forked
  status : h.links.status = g.links.status

variable {g h : Server} {curId : Nat} {taken : Option Nat} {flying : Nat → Prop}

/-- The flow is about the links alone. -/
theorem Flow.same (flow : g.Flow curId taken flying) (links : h.links = g.links) :
    h.Flow curId taken flying := by
  have fifo : h.fifo = g.fifo := congrArg Links.fifo links
  have files : h.files = g.files := congrArg Links.files links
  have reading : h.reading = g.reading := congrArg Links.reading links
  constructor
  · exact flow.away
  · rw [fifo, files, reading]
    exact flow.flies
  · rw [fifo, files]
    exact flow.takes
  · intro s t notFlying notTaken
    exact (flow.settled s t notFlying notTaken).same (by rw [fifo]) (by rw [files])
  · rw [reading]
    exact flow.reading
  · rw [show h.signalled = g.signalled from congrArg Links.signalled links]
    exact flow.signalled
  · rw [show h.writing = g.writing from congrArg Links.writing links]
    exact flow.writing

/-- A pipe is made, and its receiver waits. -/
theorem Flow.launch (flow : g.Flow curId taken flying) {targetId : Nat}
    (touches : Touches g h curId targetId) (other : targetId ≠ curId) (down : ¬ flying targetId)
    (record : h.fifo curId targetId = ⟨fifoPath curId targetId, false, -1, -1⟩)
    (file : h.files curId targetId = true) (waits : h.reading targetId = some curId) :
    h.Flow curId taken (fun t => flying t ∨ t = targetId) where
  away := by
    rintro (flies | same)
    · exact flow.away flies
    · exact other same.symm
  flies t flies := by
    rcases flies with already | same
    · have apart : t ≠ targetId := by
        rintro rfl
        exact down already
      rw [touches.fifo curId t (fun same => apart same.2),
        touches.files curId t (fun same => apart same.2),
        touches.reading t apart]
      exact flow.flies t already
    · subst same
      exact ⟨record, file, waits⟩
  takes s isTaken := by
    have apart : ¬ (s = curId ∧ curId = targetId) := fun same => other same.2.symm
    rw [touches.fifo s curId apart, touches.files s curId apart]
    exact flow.takes s isTaken
  settled s t notFlying notTaken := by
    have apart : ¬ (s = curId ∧ t = targetId) := fun same => notFlying ⟨same.1, Or.inr same.2⟩
    have before := flow.settled s t (fun flies => notFlying ⟨flies.1, Or.inl flies.2⟩) notTaken
    exact before.same (touches.fifo s t apart) (touches.files s t apart)
  reading t notFlying := by
    rw [touches.reading t (fun same => notFlying (Or.inr same))]
    exact flow.reading t (fun flies => notFlying (Or.inl flies))
  signalled := by
    rw [touches.signalled]
    exact flow.signalled
  writing := touches.writing.trans flow.writing

/-- Both sides of a pipe have been opened. -/
theorem Flow.land (flow : g.Flow curId taken flying) {targetId : Nat}
    (touches : Touches g h curId targetId) (flies : flying targetId)
    (pending : h.Pending curId targetId) (done : h.reading targetId = none) :
    h.Flow curId taken (fun t => flying t ∧ t ≠ targetId) where
  away still := flow.away still.1
  flies t still := by
    rw [touches.fifo curId t (fun same => still.2 same.2),
      touches.files curId t (fun same => still.2 same.2), touches.reading t still.2]
    exact flow.flies t still.1
  takes s isTaken := by
    have apart : ¬ (s = curId ∧ curId = targetId) := by
      rintro ⟨-, same⟩
      rw [← same] at flies
      exact flow.away flies
    rw [touches.fifo s curId apart, touches.files s curId apart]
    exact flow.takes s isTaken
  settled s t notFlying notTaken := by
    by_cases landed : s = curId ∧ t = targetId
    · obtain ⟨rfl, rfl⟩ := landed
      exact Or.inr pending
    · have before := flow.settled s t (fun still => notFlying ⟨still.1, still.2, fun same =>
        landed ⟨still.1, same⟩⟩) notTaken
      exact before.same (touches.fifo s t landed) (touches.files s t landed)
  reading t notFlying := by
    by_cases landed : t = targetId
    · subst landed
      exact done
    · rw [touches.reading t landed]
      exact flow.reading t (fun still => notFlying ⟨still, landed⟩)
  signalled := by
    rw [touches.signalled]
    exact flow.signalled
  writing := touches.writing.trans flow.writing

/-- A pending pipe is received. -/
theorem Flow.take (flow : g.Flow curId taken flying) {sourceId : Nat}
    (touches : Touches g h sourceId curId) (free : taken = none ∨ taken = some sourceId)
    (still : h.reading curId = g.reading curId)
    (record : (h.fifo sourceId curId).name = fifoPath sourceId curId ∧
      (h.fifo sourceId curId).isUsed = true ∧ (h.fifo sourceId curId).inFd = -1 ∧
      (h.fifo sourceId curId).outFd ≠ -1 ∧ h.files sourceId curId = true) :
    h.Flow curId (some sourceId) flying where
  away := flow.away
  flies t flies := by
    have apart : t ≠ curId := by
      rintro rfl
      exact flow.away flies
    rw [touches.fifo curId t (fun same => apart same.2),
      touches.files curId t (fun same => apart same.2),
      touches.reading t apart]
    exact flow.flies t flies
  takes s isTaken := by
    cases isTaken
    exact record
  settled s t notFlying notTaken := by
    have apart : ¬ (s = sourceId ∧ t = curId) := by
      rintro ⟨rfl, same⟩
      exact notTaken ⟨same, rfl⟩
    refine (flow.settled s t notFlying ?_).same (touches.fifo s t apart) (touches.files s t apart)
    rintro ⟨same, before⟩
    rcases free with none | some
    · rw [none] at before
      cases before
    · rw [some] at before
      exact apart ⟨(Option.some.inj before).symm, same⟩
  reading t notFlying := by
    by_cases own : t = curId
    · subst own
      exact still.trans (flow.reading t notFlying)
    · rw [touches.reading t own]
      exact flow.reading t notFlying
  signalled := by
    rw [touches.signalled]
    exact flow.signalled
  writing := touches.writing.trans flow.writing

/-- A pipe that was received is removed. -/
theorem Flow.remove {sourceId : Nat} (flow : g.Flow curId (some sourceId) flying)
    (touches : Touches g h sourceId curId) (still : h.reading curId = g.reading curId)
    (empty : h.fifo sourceId curId = .empty) (gone : h.files sourceId curId = false) :
    h.Flow curId none flying where
  away := flow.away
  flies t flies := by
    have apart : t ≠ curId := by
      rintro rfl
      exact flow.away flies
    rw [touches.fifo curId t (fun same => apart same.2),
      touches.files curId t (fun same => apart same.2),
      touches.reading t apart]
    exact flow.flies t flies
  takes s isTaken := by cases isTaken
  settled s t notFlying _ := by
    by_cases removed : s = sourceId ∧ t = curId
    · obtain ⟨rfl, rfl⟩ := removed
      exact Or.inl ⟨empty, gone⟩
    · refine (flow.settled s t notFlying ?_).same (touches.fifo s t removed)
        (touches.files s t removed)
      rintro ⟨same, before⟩
      exact removed ⟨(Option.some.inj before).symm, same⟩
  reading t notFlying := by
    by_cases own : t = curId
    · subst own
      exact still.trans (flow.reading t notFlying)
    · rw [touches.reading t own]
      exact flow.reading t notFlying
  signalled := by
    rw [touches.signalled]
    exact flow.signalled
  writing := touches.writing.trans flow.writing

/-- Making a pipe to a client that runs: the file is made, the record names it, and the handler of
the target comes to its `open` and waits there. It finds no other pipe to wait for, since all
others to this target are settled. -/
theorem Flow.createUserPipe (flow : g.Flow curId taken flying) {targetId : Nat}
    (inIds : curId ∈ ids) (other : targetId ≠ curId) (down : ¬ flying targetId)
    (runs : (g.shells targetId).status ≠ .exited) (free : (g.fifo curId targetId).inFd = -1) :
    ∃ h, g.createUserPipe curId targetId = .ok h ∧ Touches g h curId targetId ∧
      h.Flow curId taken (fun t => flying t ∨ t = targetId) := by
  have own := flow.settled curId targetId (fun same => down same.2) (fun same => other same.1)
  obtain ⟨empty, noFile⟩ : g.fifo curId targetId = .empty ∧ g.files curId targetId = false := by
    rcases own with nothing | pending
    · exact nothing
    · exact absurd free pending.inFd
  have waiting : g.reading targetId = none := flow.reading targetId down
  have quiet : g.reading curId = none := flow.reading curId flow.away
  let made := (g.withFile curId targetId true).onFifo curId targetId
    ({ · with name := fifoPath curId targetId })
  have record : made.fifo curId targetId = ⟨fifoPath curId targetId, false, -1, -1⟩ := by
    simp only [made, onFifo, withFile, empty, and_self, if_true, Fifo.empty]
  have idle : ∀ s ∈ ids, s ≠ curId → made.Idle s targetId := by
    intro s _ notOwn
    have settled := flow.settled s targetId (fun same => notOwn same.1) (fun same => other same.1)
    simpa [Idle, made, onFifo, withFile, notOwn] using settled.idle
  have opened : made.openFifos targetId ids = made.withReading targetId (some curId) := by
    refine openFifos_waits inIds idle (by rw [record]) ?_ ?_ flow.writing
    · rw [record]
      exact fifoPath_ne_nil curId targetId
    · simp [made, onFifo, withFile]
  have signalled : made.signalUser targetId = made.withReading targetId (some curId) := by
    have running : (made.shells targetId).status ≠ .exited := runs
    have free : made.reading targetId = none := waiting
    simp only [signalUser, if_neg running, free, handle, opened]
    simp [withReading]
  have touches : Touches g (made.withReading targetId (some curId)) curId targetId := by
    constructor
    · intro s t apart
      simp [made, onFifo, withFile, withReading, apart]
    · intro s t apart
      simp [made, onFifo, withFile, withReading, apart]
    · intro t apart
      simp [made, onFifo, withFile, withReading, apart]
    all_goals rfl
  refine ⟨made.withReading targetId (some curId), ?_, touches, ?_⟩
  · simp only [Server.createUserPipe, noFile, Bool.false_eq_true, if_false]
    rw [show (g.withFile curId targetId true).onFifo curId targetId
      ({ · with name := fifoPath curId targetId }) = made from rfl, signalled, if_neg]
    have still : (made.withReading targetId (some curId)).reading curId = none := by
      rw [touches.reading curId other.symm]
      exact quiet
    simp [still]
  · refine flow.launch touches other down record ?_ ?_
    · simp [made, onFifo, withFile, withReading]
    · simp [withReading]

/-- The child of a flying pipe comes to its `open`: the two ends meet, the handler gets its
descriptor and goes on with the other sources, where there is nothing for it to do. -/
theorem Flow.setUserPipeOut (flow : g.Flow curId taken flying) (writer : Writer)
    (source : writer.sourceId = curId) (flies : flying writer.targetId) (fd : writer.inFd ≠ -1) :
    ∃ h, g.setUserPipeOut writer = (true, h) ∧ Touches g h curId writer.targetId ∧
      h.Flow curId taken (fun t => flying t ∧ t ≠ writer.targetId) := by
  obtain ⟨sourceId, targetId, inFd⟩ := writer
  simp only at source flies fd
  subst source
  obtain ⟨record, file, waits⟩ := flow.flies targetId flies
  let opened := (g.opensToWrite ⟨sourceId, targetId, inFd⟩).opensToRead sourceId targetId
  have fifo (s t : Nat) : opened.fifo s t =
      if s = sourceId ∧ t = targetId then
        ⟨fifoPath sourceId targetId, false, inFd, (g.shells targetId).process.fds.lowest⟩
      else g.fifo s t := by
    by_cases same : s = sourceId ∧ t = targetId
    · simp [opened, opensToRead, opensToWrite, onFifo, onShell, record, same, Process.openFile]
    · simp [opened, opensToRead, opensToWrite, onFifo, onShell, same]
  have idle : ∀ s ∈ ids.filter (sourceId < ·), opened.Idle s targetId := by
    intro s member
    have later : sourceId < s := by simpa using (List.mem_filter.mp member).2
    have apart : ¬ (s = sourceId ∧ targetId = targetId) := fun same => by omega
    have away : targetId ≠ sourceId := by
      rintro rfl
      exact flow.away flies
    have settled := flow.settled s targetId (fun same => apart ⟨same.1, rfl⟩)
      (fun same => away same.1)
    rw [Idle, fifo s targetId, if_neg apart]
    exact settled.idle
  have handled : opened.handle targetId (ids.filter (sourceId < ·)) =
      opened.withReading targetId none := handle_idle idle (flow.signalled targetId)
  have touches : Touches g (opened.withReading targetId none) sourceId targetId := by
    constructor
    · intro s t apart
      exact (fifo s t).trans (if_neg apart)
    · intro s t apart
      rfl
    · intro t apart
      simp [opened, opensToRead, opensToWrite, onFifo, onShell, withReading, apart]
    · rfl
    · simp [opened, opensToRead, opensToWrite, onFifo, onShell, withReading, flow.writing]
    · rfl
    · rfl
    · have entered : (g.onShell targetId
          (·.withProcess (g.shells targetId).process.openFile.2)).links = g.links :=
        links_onShell g targetId (fun _ => rfl)
      have statuses := congrArg Links.status entered
      exact statuses
  have pending : (opened.withReading targetId none).Pending sourceId targetId := by
    have own : (opened.withReading targetId none).fifo sourceId targetId =
        ⟨fifoPath sourceId targetId, false, inFd, (g.shells targetId).process.fds.lowest⟩ :=
      (fifo sourceId targetId).trans (if_pos ⟨rfl, rfl⟩)
    constructor
    · rw [own]
    · rw [own]
    · rw [own]
      exact fd
    · rw [own]
      simp only
      omega
    · exact file
  refine ⟨opened.withReading targetId none, ?_, touches, ?_⟩
  · simp only [Server.setUserPipeOut, file, Bool.true_eq_false, if_false, waits, if_true]
    exact congrArg (Prod.mk true) handled
  · refine flow.land touches flies pending ?_
    simp [withReading]

/-- A pipe is received, once or again in the same command. -/
theorem Flow.getUserPipeFd (flow : g.Flow curId taken flying) {sourceId : Nat}
    (free : taken = none ∨ taken = some sourceId)
    (there : (g.fifo sourceId curId).outFd ≠ -1) :
    Touches g (g.getUserPipeFd sourceId curId).2 sourceId curId ∧
      (g.getUserPipeFd sourceId curId).2.Flow curId (some sourceId) flying := by
  have record : (g.fifo sourceId curId).name = fifoPath sourceId curId ∧
      g.files sourceId curId = true := by
    rcases free with none | same
    · have settled := flow.settled sourceId curId (fun same => flow.away same.2)
        (fun same => by rw [none] at same; cases same.2)
      rcases settled with ⟨empty, -⟩ | pending
      · rw [empty] at there
        exact absurd rfl there
      · exact ⟨pending.name, pending.file⟩
    · exact ⟨(flow.takes sourceId same).1, (flow.takes sourceId same).2.2.2.2⟩
  have touches : Touches g (g.getUserPipeFd sourceId curId).2 sourceId curId := by
    constructor
    · intro s t apart
      simp [Server.getUserPipeFd, onFifo, apart]
    all_goals intros
    all_goals rfl
  refine ⟨touches, flow.take touches free rfl ?_⟩
  simp [Server.getUserPipeFd, onFifo, record, there]

/-- The pipe that was received is removed. -/
theorem Flow.eraseUserPipe {sourceId : Nat} (flow : g.Flow curId (some sourceId) flying) :
    Touches g (g.eraseUserPipe sourceId curId) sourceId curId ∧
      (g.eraseUserPipe sourceId curId).Flow curId none flying := by
  obtain ⟨name, used, -, -, -⟩ := flow.takes sourceId rfl
  have erased : g.eraseUserPipe sourceId curId =
      (g.withFile sourceId curId false).onFifo sourceId curId (fun _ => .empty) := by
    rw [Server.eraseUserPipe, if_pos used, unlink, if_pos name]
  have touches : Touches g (g.eraseUserPipe sourceId curId) sourceId curId := by
    rw [erased]
    constructor
    · intro s t apart
      exact if_neg apart
    · intro s t apart
      exact if_neg apart
    all_goals intros
    all_goals rfl
  refine ⟨touches, flow.remove touches ?_ ?_ ?_⟩
  · rw [erased]
    rfl
  · rw [erased]
    simp [onFifo]
  · rw [erased]
    simp [onFifo, withFile]

/-- Some of the children come to their `open`, one after the other. -/
theorem Flow.children (flow : g.Flow curId taken flying) {writers : List Writer}
    (own : ∀ w ∈ writers, w.sourceId = curId ∧ w.inFd ≠ -1 ∧ flying w.targetId)
    (distinct : (writers.map Writer.targetId).Nodup) :
    let h := writers.foldl (fun h writer => (h.setUserPipeOut writer).2) g
    h.Flow curId taken (fun t => flying t ∧ t ∉ writers.map Writer.targetId) ∧
      h.links.slots = g.links.slots ∧ h.forked = g.forked ∧ h.links.status = g.links.status := by
  induction writers generalizing g flying with
  | nil =>
    refine ⟨?_, rfl, rfl, rfl⟩
    simpa using flow
  | cons writer writers ih =>
    obtain ⟨source, fd, flies⟩ := own writer List.mem_cons_self
    obtain ⟨h, opens, touches, landed⟩ := flow.setUserPipeOut writer source flies fd
    simp only [List.map_cons, List.nodup_cons] at distinct
    have others : ∀ w ∈ writers, w.sourceId = curId ∧ w.inFd ≠ -1 ∧
        (flying w.targetId ∧ w.targetId ≠ writer.targetId) := by
      intro w member
      obtain ⟨wSource, wFd, wFlies⟩ := own w (List.mem_cons_of_mem _ member)
      refine ⟨wSource, wFd, wFlies, fun same => distinct.1 ?_⟩
      rw [← same]
      exact List.mem_map_of_mem member
    obtain ⟨after, slots, forked, status⟩ := ih landed others distinct.2
    rw [List.foldl_cons, opens]
    refine ⟨?_, slots.trans touches.slots, forked.trans touches.forked, status.trans touches.status⟩
    convert after using 2
    simp only [List.map_cons, List.mem_cons, not_or, and_assoc]

end Server

end NetProg.MultiProc
