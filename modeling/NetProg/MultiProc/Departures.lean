import NetProg.MultiProc.Children

/-!
# Ids that are given again

When a client has left, its id goes to the next one that finds its slot. What is left of
its user pipes in the table then belongs to that one. `main` empties the records to the
client that leaves, where the client has opened them; it does not look at the records
from it.

A record that is not empty is one between two clients that are logged in, and so is
every file: no line makes a pipe to or from an id that is not taken. So the table has
nothing of a departed client exactly when the clean-up has left nothing.
-/

namespace NetProg.MultiProc

open Loops Outcomes Runs

/-- The id is one of a client. -/
def Server.Taken (g : Server) (id : Nat) : Prop := (getClientByID g.table id).isSome = true

instance (g : Server) (id : Nat) : Decidable (g.Taken id) := inferInstanceAs (Decidable (_ = _))

/-- Every file has its record. -/
def Server.Named (g : Server) : Prop :=
  ∀ s t, g.files s t = true → (g.fifo s t).name = fifoPath s t

/-- Every file has its record, and every pipe in the table has two clients. It says for whole
lines what is known between two of them. -/
structure Server.Backed (g : Server) : Prop where
  named : g.Named
  clients : ∀ s t, g.fifo s t ≠ .empty → g.Taken s ∧ g.Taken t

section Backed

variable {g h : Server}

theorem taken_links (links : h.links.slots = g.links.slots) (id : Nat) :
    h.Taken id ↔ g.Taken id := by
  rw [Server.Taken, Server.Taken, isSome_links links]

theorem unlink_fifo (g : Server) (s t : Nat) : (g.unlink s t).fifo = g.fifo := by
  rw [Server.unlink]
  split <;> rfl

theorem unlink_table (g : Server) (s t : Nat) : (g.unlink s t).table = g.table := by
  rw [Server.unlink]
  split <;> rfl

theorem taken_removed (g : Server) (s t id : Nat) :
    ((g.unlink s t).onFifo s t (fun _ => .empty)).Taken id ↔ g.Taken id := by
  rw [Server.Taken, Server.onFifo, unlink_table, Server.Taken]

/-- A file has a record that is not empty. -/
theorem Server.Named.record (named : g.Named) {s t : Nat} (file : g.files s t = true) :
    g.fifo s t ≠ .empty := by
  intro empty
  have name := named s t file
  rw [empty] at name
  exact fifoPath_ne_nil s t name.symm

theorem Server.Named.removed (named : g.Named) (s t : Nat) :
    ((g.unlink s t).onFifo s t (fun _ => .empty)).Named := by
  have files (u v : Nat) (file : (g.unlink s t).files u v = true) :
      g.files u v = true ∧ ¬ (u = s ∧ v = t) := by
    rw [Server.unlink] at file
    split at file
    · simp only [Server.withFile] at file
      split at file
      · cases file
      · rename_i other
        exact ⟨file, other⟩
    · rename_i unnamed
      refine ⟨file, ?_⟩
      rintro ⟨rfl, rfl⟩
      exact unnamed (named u v file)
  intro u v file
  obtain ⟨before, other⟩ := files u v file
  rw [Server.onFifo, unlink_fifo]
  exact (congrArg Fifo.name (if_neg other)).trans (named u v before)

namespace Server.Backed

theorem same (backed : g.Backed) (fifo : h.fifo = g.fifo) (files : h.files = g.files)
    (slots : h.links.slots = g.links.slots) : h.Backed := by
  constructor
  · rw [Named, fifo, files]
    exact backed.named
  · intro s t there
    rw [fifo] at there
    rw [taken_links slots, taken_links slots]
    exact backed.clients s t there

theorem record (backed : g.Backed) {s t : Nat} (file : g.files s t = true) :
    g.fifo s t ≠ .empty := backed.named.record file

/-- A change of a record that keeps its name, and does not make one of nothing. -/
theorem onFifo (backed : g.Backed) {s t : Nat} {change : Fifo → Fifo}
    (nothing : g.fifo s t = .empty → change .empty = .empty)
    (name : (change (g.fifo s t)).name = (g.fifo s t).name) : (g.onFifo s t change).Backed := by
  constructor
  · intro u v file
    rw [Server.onFifo]
    simp only
    split
    · rename_i same
      obtain ⟨rfl, rfl⟩ := same
      rw [name]
      exact backed.named u v file
    · exact backed.named u v file
  · intro u v there
    refine backed.clients u v (fun empty => there ?_)
    rw [Server.onFifo]
    simp only
    split
    · rename_i same
      obtain ⟨rfl, rfl⟩ := same
      rw [empty]
      exact nothing empty
    · exact empty

/-- A pipe that is removed. -/
theorem removed (backed : g.Backed) (s t : Nat) :
    ((g.unlink s t).onFifo s t (fun _ => .empty)).Backed := by
  refine ⟨backed.named.removed s t, fun u v there => ?_⟩
  rw [Server.onFifo, unlink_fifo] at there
  rw [taken_removed, taken_removed]
  refine backed.clients u v (fun empty => there ?_)
  simp only
  split
  · rfl
  · exact empty

/-- A pipe that is made between two clients. -/
theorem made (backed : g.Backed) {s t : Nat} (source : g.Taken s) (target : g.Taken t) :
    ((g.withFile s t true).onFifo s t ({ · with name := fifoPath s t })).Backed := by
  constructor
  · intro u v file
    by_cases own : u = s ∧ v = t
    · obtain ⟨rfl, rfl⟩ := own
      exact congrArg Fifo.name (if_pos ⟨rfl, rfl⟩)
    · have before : g.files u v = true := by simpa [Server.onFifo, Server.withFile, own] using file
      exact (congrArg Fifo.name (if_neg own)).trans (backed.named u v before)
  · intro u v there
    by_cases own : u = s ∧ v = t
    · obtain ⟨rfl, rfl⟩ := own
      exact ⟨source, target⟩
    · have same : ((g.withFile s t true).onFifo s t ({ · with name := fifoPath s t })).fifo u v =
          g.fifo u v := if_neg own
      rw [same] at there
      exact backed.clients u v there

end Server.Backed

/-- A line keeps the pipes between clients. A pipe is made for a client who is found, and by one
who is logged in as long as the line runs; what else is written is about a pipe that is there. -/
theorem backed_carries (job : Job) : Carries job (fun g => g.Backed ∧ g.Taken job.curId) where
  unseen links held := ⟨held.1.same (congrArg Links.fifo links) (congrArg Links.files links)
    (congrArg Links.slots links), (taken_links (congrArg Links.slots links) _).mpr held.2⟩
  waits _ _ _ _ _ held := ⟨held.1.same rfl rfl rfl, held.2⟩
  makes g targetId there held := by
    obtain ⟨client, found⟩ := Option.isSome_iff_exists.mp there
    have own := List.find?_some found
    simp only [Bool.and_eq_true, decide_eq_true_eq] at own
    have target : g.Taken targetId.toNat := by
      rw [Server.Taken, show ((targetId.toNat : Nat) : Int) = targetId by omega]
      exact there
    exact ⟨held.1.made held.2 target, held.2⟩
  reads g s t file held := by
    have opened : (g.onShell t (·.withProcess (g.shells t).process.openFile.2)).Backed :=
      held.1.same rfl rfl rfl
    have read : ((g.onShell t (·.withProcess (g.shells t).process.openFile.2)).onFifo s t
        ({ · with outFd := (g.shells t).process.openFile.1 })).Backed :=
      opened.onFifo (fun empty => absurd empty (held.1.record file)) rfl
    exact ⟨read, held.2⟩
  writes g writer file held := by
    have written : (g.onFifo writer.sourceId writer.targetId
        ({ · with inFd := writer.inFd })).Backed :=
      held.1.onFifo (fun empty => absurd empty (held.1.record file)) rfl
    exact ⟨written.same rfl rfl rfl, held.2⟩
  misses g s t _ held := ⟨held.1.onFifo (fun _ => rfl) rfl, held.2⟩
  takes g s there held := by
    have nonempty : g.fifo s job.curId ≠ .empty := by
      intro empty
      rw [empty] at there
      exact there rfl
    have taken : (g.onFifo s job.curId ({ · with inFd := -1, isUsed := true })).Backed :=
      held.1.onFifo (fun empty => absurd empty nonempty) rfl
    exact ⟨taken, held.2⟩
  erases g s held := by
    rw [Server.eraseUserPipe]
    split
    · exact ⟨held.1.removed s job.curId, (taken_removed g s job.curId job.curId).mpr held.2⟩
    · exact held

end Backed

/-! ## Departures -/

namespace Server

/-- Nothing of a pipe from or to the id is in the table, nor its file. -/
def Vacant (g : Server) (k : Nat) : Prop :=
  ∀ i ∈ ids, (g.fifo k i = .empty ∧ g.files k i = false) ∧
    (g.fifo i k = .empty ∧ g.files i k = false)

/-- The ids that are not taken are vacant. -/
def Vacated (g : Server) : Prop := ∀ k ∈ ids, ¬ g.Taken k → g.Vacant k

/-- What the clean-up after `k` finds: no pipe from `k` to another, and every pipe to `k` opened
by `k`. It empties only records to `k`, and only those with a descriptor. -/
def Cleared (g : Server) (k : Nat) : Prop :=
  (∀ i ∈ ids, i ≠ k → g.fifo k i = .empty) ∧
    ∀ s ∈ ids, g.fifo s k = .empty ∨ (g.fifo s k).outFd ≠ -1

variable {g h : Server} {k : Nat}

theorem Backed.vacated (backed : g.Backed) : g.Vacated := by
  have nothing {s t : Nat} (empty : g.fifo s t = .empty) :
      g.fifo s t = .empty ∧ g.files s t = false := by
    refine ⟨empty, ?_⟩
    by_contra there
    exact backed.record (by simpa using there) empty
  intro k _ left i _
  constructor
  · exact nothing (by_contra fun there => left (backed.clients k i there).1)
  · exact nothing (by_contra fun there => left (backed.clients i k there).2)

/-- A client has the slot of its number. -/
theorem Numbered.taken_iff (numbered : g.Numbered) (id : Nat) :
    g.Taken id ↔ g.links.slots[id - 1]? = some (id, true) := by
  constructor
  · exact slot_of_client numbered
  · intro slot
    rw [Taken, getClientByID_isSome]
    exact List.any_eq_true.mpr ⟨(id, true), List.mem_iff_getElem?.mpr ⟨_, slot⟩, by simp⟩

theorem Numbered.taken_mem (numbered : g.Numbered) {id : Nat} (taken : g.Taken id) :
    0 < id ∧ id ∈ ids := by
  obtain ⟨client, found⟩ := Option.isSome_iff_exists.mp taken
  have member := mem_ids numbered found
  exact ⟨by omega, by simpa using member.2⟩

/-- A slot that is given back is that of its own client alone. -/
theorem Numbered.taken_freed (numbered : g.Numbered) (taken : g.Taken k)
    (slots : h.links.slots = g.links.slots.modify (k - 1) (fun slot => (slot.1, false)))
    (id : Nat) : h.Taken id ↔ g.Taken id ∧ id ≠ k := by
  have own := numbered.taken_mem taken
  rw [(numbered.freed slots).taken_iff, slots, List.getElem?_modify, numbered.taken_iff]
  constructor
  · intro slot
    obtain ⟨⟨other, valid⟩, before, same⟩ := Option.map_eq_some_iff.mp slot
    split at same
    · cases same
    · rename_i apart
      cases same
      exact ⟨before, fun equal => apart (by rw [equal])⟩
  · rintro ⟨slot, other⟩
    have number := numbered.number _ _ slot
    have apart : ¬ k - 1 = id - 1 := by omega
    simp [slot, apart]

/-- The clean-up empties the records to `k` that `k` has opened. -/
theorem fifo_clearFifo (sources : List Nat) (h : Server) (u v : Nat) :
    (sources.foldl (clearFifo k) h).fifo u v =
      if v = k ∧ u ∈ sources ∧ (h.fifo u k).outFd ≠ -1 then .empty else h.fifo u v := by
  induction sources generalizing h with
  | nil => simp
  | cons s sources ih =>
    have one (v : Nat) : (h.clearFifo k s).fifo u v =
        if v = k ∧ u = s ∧ (h.fifo u k).outFd ≠ -1 then .empty else h.fifo u v := by
      rw [clearFifo]
      split
      · rename_i isOpen
        rw [onFifo, unlink_fifo]
        by_cases own : u = s ∧ v = k
        · obtain ⟨rfl, rfl⟩ := own
          simp [isOpen]
        · have other : ¬ (v = k ∧ u = s ∧ (h.fifo u k).outFd ≠ -1) :=
            fun cleared => own ⟨cleared.2.1, cleared.1⟩
          rw [if_neg other]
          exact if_neg own
      · rename_i closed
        rw [if_neg]
        rintro ⟨-, rfl, isOpen⟩
        exact closed isOpen
    rw [List.foldl_cons, ih, one v, one k]
    by_cases isOpen : (h.fifo u k).outFd = -1
    · simp [isOpen]
    · by_cases head : u = s
      · subst head
        simp [isOpen, Fifo.empty]
      · simp [isOpen, head]

theorem named_clearFifo (sources : List Nat) {h : Server} (named : h.Named) :
    (sources.foldl (clearFifo k) h).Named := by
  induction sources generalizing h with
  | nil => exact named
  | cons s sources ih =>
    refine ih ?_
    rw [clearFifo]
    split
    · exact named.removed s k
    · exact named

/-- What is left after `exit`. -/
theorem logout_leaves (numbered : g.Numbered) (taken : g.Taken k) (named : g.Named) :
    ∃ left, g.logout k = .ok left ∧ left.Numbered ∧ left.Named ∧
      (∀ id, left.Taken id ↔ g.Taken id ∧ id ≠ k) ∧
      ∀ u v, left.fifo u v =
        if v = k ∧ u ∈ ids ∧ (g.fifo u k).outFd ≠ -1 then .empty else g.fifo u v := by
  obtain ⟨left, leaves, slots, -⟩ := logout_slots g k
  obtain ⟨told, tells, links⟩ := broadcast_returns g k .logout rfl
  have after : left = (ids.foldl (Server.clearFifo k) (told.invalidate k)).onShell k
      ({ · with status := .exited }) := by
    rw [Server.logout, tells] at leaves
    exact (Except.ok.inj leaves).symm
  have numbers : left.Numbered := numbered.freed slots
  have fifo : told.fifo = g.fifo := congrArg Links.fifo links
  have invalid : (told.invalidate k).Named := by
    intro s t file
    have name := named s t ((congrFun (congrFun (congrArg Links.files links) s) t).symm.trans file)
    rw [← fifo] at name
    exact name
  refine ⟨left, leaves, numbers, ?_, fun id => ?_, fun u v => ?_⟩
  · rw [after]
    exact named_clearFifo ids invalid
  · exact numbered.taken_freed taken slots id
  · rw [after]
    have cleared := fifo_clearFifo (k := k) ids (told.invalidate k) u v
    rw [show (told.invalidate k).fifo = g.fifo from fifo] at cleared
    exact cleared

/-- The clean-up leaves nothing of `k` exactly when it found what it empties. -/
theorem Backed.logout (backed : g.Backed) (numbered : g.Numbered) (taken : g.Taken k) :
    ∃ left, g.logout k = .ok left ∧ left.Numbered ∧ (g.Cleared k → left.Backed) ∧
      (left.Vacated ↔ g.Cleared k) := by
  obtain ⟨left, leaves, numbers, named, clients, fifo⟩ :=
    logout_leaves numbered taken backed.named
  have cleared_backed (cleared : g.Cleared k) : left.Backed := by
    refine ⟨named, fun u v there => ?_⟩
    have before : g.fifo u v ≠ .empty := by
      intro empty
      rw [fifo, empty] at there
      simp at there
    obtain ⟨source, target⟩ := backed.clients u v before
    have inIds := (numbered.taken_mem source).2
    have other : v ≠ k := by
      rintro rfl
      rcases cleared.2 u inIds with empty | isOpen
      · exact before empty
      · rw [fifo, if_pos ⟨rfl, inIds, isOpen⟩] at there
        exact there rfl
    refine ⟨(clients u).mpr ⟨source, ?_⟩, (clients v).mpr ⟨target, other⟩⟩
    rintro rfl
    exact before (cleared.1 v (numbered.taken_mem target).2 other)
  refine ⟨left, leaves, numbers, cleared_backed, fun vacated => ?_,
    fun cleared => (cleared_backed cleared).vacated⟩
  have vacant := vacated k (numbered.taken_mem taken).2 (fun still => ((clients k).mp still).2 rfl)
  constructor
  · intro i member other
    have empty := (vacant i member).1.1
    rwa [fifo, if_neg (fun same => other same.1)] at empty
  · intro s member
    by_cases isOpen : (g.fifo s k).outFd ≠ -1
    · exact Or.inr isOpen
    · have empty := (vacant s member).2.1
      rw [fifo, if_neg (fun same => isOpen same.2.2)] at empty
      exact Or.inl empty

end Server

/-- The server that the clean-up of `main` finds, where the line ends with `exit`. -/
def leaving (job : Job) (g : Server) : Option Server :=
  if job.line = [] then none
  else
    match execCmds job g (words job.line) with
    | .error _ => none
    | .ok (done, status) => if status = -1 then some (done.resume (fun _ => true)) else none

/-- A client that leaves has sent no pipe that is still there, and has opened those sent
to it. -/
def LeavesClear (g : Server) : Event → Prop
  | .login _ _ _ => True
  | .line job => ∀ ended ∈ leaving job g, ended.Cleared job.curId

/-- A login makes one id more a client's. -/
theorem Server.Backed.login {g : Server} (backed : g.Backed) (numbered : g.Numbered) {slot : Nat}
    (free : g.freeSlot = some slot) (pid : Nat) (userIp : Str) (port : Nat) :
    ∃ entered, g.login slot pid userIp port = .ok entered ∧ entered.Numbered ∧ entered.Backed := by
  obtain ⟨entered, enters, numbers, fifo, files, slots⟩ :=
    login_slots numbered slot pid userIp port
  have stays (id : Nat) (taken : g.Taken id) : entered.Taken id := by
    have own := (numbered.taken_iff id).mp taken
    rw [numbers.taken_iff, slots, List.getElem?_set_ne, own]
    rintro rfl
    obtain ⟨inside, notValid, -⟩ := List.findIdx?_eq_some_iff_getElem.mp free
    simp only [Server.links, List.getElem?_map, List.getElem?_eq_getElem inside,
      Option.map_some, Option.some.injEq, Prod.mk.injEq] at own
    simp [own.2] at notValid
  refine ⟨entered, enters, numbers, ?_, fun s t there => ?_⟩
  · rw [Server.Named, fifo, files]
    exact backed.named
  · rw [fifo] at there
    obtain ⟨source, target⟩ := backed.clients s t there
    exact ⟨stays s source, stays t target⟩

/-- A line leaves nothing of departed clients exactly when the clean-up does that it sets off;
without an `exit` there is none. -/
theorem execLine_backed {g : Server} {job : Job} (backed : g.Backed) (numbered : g.Numbered)
    (taken : g.Taken job.curId) : (execLine job g).1.Numbered ∧
      (LeavesClear g (.line job) → (execLine job g).1.Backed) ∧
      ((execLine job g).1.Vacated ↔ LeavesClear g (.line job)) := by
  have carries := backed_carries job
  have census := census_carries job g.census
  have held := carries.execCmds (words job.line) ⟨backed, taken⟩
  have counted := census.execCmds (words job.line) rfl
  have calm {h : Server} (numbers : h.Numbered) (still : h.Backed)
      (stays : leaving job g = none) : h.Numbered ∧ (LeavesClear g (.line job) → h.Backed) ∧
        (h.Vacated ↔ LeavesClear g (.line job)) := by
    refine ⟨numbers, fun _ => still, iff_of_true still.vacated ?_⟩
    intro ended leaves
    rw [stays] at leaves
    cases leaves
  rw [execLine]
  split
  · rename_i nothing
    exact calm numbered backed (by rw [leaving, if_pos nothing])
  rename_i typed
  cases ran : execCmds job g (words job.line) with
  | error failure =>
    obtain ⟨fault, failed⟩ := failure
    have kept := carries.resume (fun _ => true) (held.raised ran)
    have same := census.resume (fun _ => true) (counted.raised ran)
    refine calm ((numbered.same (congrArg Prod.fst same)).same rfl) (kept.1.same rfl rfl rfl) ?_
    rw [leaving, if_neg typed, ran]
  | ok result =>
    obtain ⟨done, status⟩ := result
    have kept := carries.resume (fun _ => true) (held.returned ran)
    have same := census.resume (fun _ => true) (counted.returned ran)
    have numbers : (done.resume (fun _ => true)).Numbered := numbered.same (congrArg Prod.fst same)
    simp only
    split
    · rename_i exits
      have leaves : leaving job g = some (done.resume (fun _ => true)) := by
        rw [leaving, if_neg typed, ran]
        exact if_pos exits
      have clear : LeavesClear g (.line job) ↔
          (done.resume (fun _ => true)).Cleared job.curId := by
        rw [LeavesClear, leaves]
        exact ⟨fun all => all _ rfl, fun cleared ended same => Option.some.inj same ▸ cleared⟩
      obtain ⟨left, logs, freed, back, vacated⟩ := kept.1.logout numbers kept.2
      rw [logs, clear]
      exact ⟨freed, back, vacated⟩
    · rename_i stays
      refine calm numbers kept.1 ?_
      rw [leaving, if_neg typed, ran]
      exact if_neg stays

/-- What is known before every event: the slots have their numbers, and every pipe is one
between clients. -/
def Server.Backing (g : Server) : Prop := g.Numbered ∧ g.Backed

theorem serve_backed {g after : Server} {event : Event} (backing : g.Backing)
    (offered : offers g event) (served : serve g event = .ok after) : after.Numbered ∧
      (LeavesClear g event → after.Backed) ∧ (after.Vacated ↔ LeavesClear g event) := by
  obtain ⟨numbered, backed⟩ := backing
  cases event with
  | login pid userIp port =>
    have calm {h : Server} (numbers : h.Numbered) (still : h.Backed) : h.Numbered ∧
        (LeavesClear g (.login pid userIp port) → h.Backed) ∧
        (h.Vacated ↔ LeavesClear g (.login pid userIp port)) :=
      ⟨numbers, fun _ => still, iff_of_true still.vacated trivial⟩
    rw [serve] at served
    split at served
    · cases served
      exact calm numbered backed
    · rename_i slot free
      obtain ⟨entered, enters, numbers, still⟩ := backed.login numbered free pid userIp port
      rw [enters] at served
      cases served
      exact calm numbers still
  | line job =>
    cases served
    exact execLine_backed backed numbered offered.1

end NetProg.MultiProc
