import NetProg.MultiProc.FifoAgreement
import NetProg.MultiProc.Lines

/-!
# What a line does to slots and processes

A line does nothing to the slots of the table and to the processes of the clients, unless it
is an `exit`: then it empties the slot of its own client, and ends its process. `Server.census`
is what of the state says which slots are taken and which processes run, and every access a
line makes to the shared table leaves it as it is; so does the clean-up of `main`, but for
the slot it is about. A login in turn takes the slot that it was given, and nothing else.
-/

namespace NetProg.MultiProc

open Loops Outcomes Runs

/-- Which slots are taken, and which processes run. -/
def Server.census (g : Server) : List (Nat × Bool) × (Nat → Status) :=
  (g.links.slots, g.links.status)

section Census

variable {g h : Server}

theorem census_links (links : h.links = g.links) : h.census = g.census := by
  rw [Server.census, Server.census, links]

theorem census_eraseUserPipe (g : Server) (sourceId curId : Nat) :
    (g.eraseUserPipe sourceId curId).census = g.census := by
  rw [Server.eraseUserPipe]
  split
  · rw [Server.unlink]
    split <;> rfl
  · rfl

/-- A line leaves the census, up to what `exit` sets off. -/
theorem census_carries (job : Job) (census : List (Nat × Bool) × (Nat → Status)) :
    Carries job (fun g => g.census = census) where
  unseen links held := (census_links links).trans held
  waits _ _ _ _ _ held := held
  makes _ _ _ held := held
  reads g _ targetId _ held :=
    (census_links (links_withProcess g targetId (g.shells targetId).process.openFile.2)).trans held
  writes _ _ _ held := held
  misses _ _ _ _ held := held
  takes _ _ _ held := held
  erases g sourceId held := (census_eraseUserPipe g sourceId job.curId).trans held

/-- One slot of a census. -/
theorem slots_invalidate (g : Server) (curId : Nat) : (g.invalidate curId).links.slots =
    g.links.slots.modify (curId - 1) (fun slot => (slot.1, false)) := by
  simp only [Server.links, Server.invalidate]
  apply List.ext_getElem?
  intro i
  simp only [List.getElem?_map, List.getElem?_modify]
  cases g.table[i]? with
  | none => rfl
  | some client =>
    simp only [Option.map_some]
    split <;> rfl

theorem census_clearFifo (curId : Nat) (g : Server) (sourceId : Nat) :
    (g.clearFifo curId sourceId).census = g.census := by
  rw [Server.clearFifo]
  split
  · rw [Server.unlink]
    split <;> rfl
  · rfl

/-- After `exit` the slot is not valid any more. -/
theorem logout_slots (g : Server) (curId : Nat) : ∃ left, g.logout curId = .ok left ∧
    left.links.slots = g.links.slots.modify (curId - 1) (fun slot => (slot.1, false)) ∧
    (left.shells curId).status = .exited := by
  obtain ⟨told, tells, links⟩ := broadcast_returns g curId .logout rfl
  have cleared (sources : List Nat) (h : Server) :
      (sources.foldl (Server.clearFifo curId) h).census = h.census := by
    induction sources generalizing h with
    | nil => rfl
    | cons s sources ih => exact (ih _).trans (census_clearFifo curId h s)
  refine ⟨_, by rw [Server.logout, tells]; rfl, ?_, ?_⟩
  · have slots : ((ids.foldl (Server.clearFifo curId) (told.invalidate curId)).onShell curId
        ({ · with status := .exited })).links.slots = (told.invalidate curId).links.slots :=
      congrArg Prod.fst (cleared ids (told.invalidate curId))
    rw [slots, slots_invalidate, links]
  · exact congrArg Shell.status (shells_onShell _ curId _)

/-- What a line does to the slots and to the process of its client: nothing, unless it is an
`exit`; then its own slot is given back, and its process has ended. -/
inductive Leaves (job : Job) (g after : Server) : Prop
  | stays (slots : after.links.slots = g.links.slots)
      (status : (after.shells job.curId).status ≠ .exited)
  | exits (slots : after.links.slots =
      g.links.slots.modify (job.curId - 1) (fun slot => (slot.1, false)))
      (status : (after.shells job.curId).status = .exited)

theorem execLine_leaves {job : Job} {g : Server} (runs : (g.shells job.curId).status = .running)
    (fine : ∀ fault, (execLine job g).2 = some fault → fault = .blocked) :
    Leaves job g (execLine job g).1 := by
  have carries := census_carries job g.census
  have ends := carries.execCmds (words job.line) rfl
  rw [execLine] at fine ⊢
  split
  · exact .stays rfl (by rw [runs]; decide)
  rename_i typed
  rw [if_neg typed] at fine
  cases ran : execCmds job g (words job.line) with
  | error failure =>
    obtain ⟨fault, failed⟩ := failure
    rw [ran] at fine
    obtain rfl : fault = .blocked := fine fault rfl
    have kept : (failed.resume (fun _ => true)).census = g.census :=
      carries.resume _ (ends.raised ran)
    refine .stays (congrArg Prod.fst kept) ?_
    show ((Server.fails _ job.curId .blocked).shells job.curId).status ≠ .exited
    rw [Server.fails, shells_onShell]
    exact fun impossible => by cases impossible
  | ok result =>
    obtain ⟨done, status⟩ := result
    have kept : (done.resume (fun _ => true)).census = g.census :=
      carries.resume _ (ends.returned ran)
    simp only
    split
    · obtain ⟨left, leaves, slots, exited⟩ := logout_slots (done.resume (fun _ => true)) job.curId
      rw [leaves]
      refine .exits ?_ exited
      rw [slots]
      exact congrArg (List.modify · _ _) (congrArg Prod.fst kept)
    · refine .stays (congrArg Prod.fst kept) ?_
      have same : ((done.resume (fun _ => true)).shells job.curId).status =
          (g.shells job.curId).status := congrFun (congrArg Prod.snd kept) job.curId
      rw [same, runs]
      exact fun impossible => by cases impossible

end Census

/-- A login takes the slot it was given, and leaves the numbers and the user pipes. -/
theorem login_slots {g : Server} (numbered : g.Numbered) (slot pid : Nat) (userIp : Str)
    (port : Nat) : ∃ entered, g.login slot pid userIp port = .ok entered ∧ entered.Numbered ∧
      entered.fifo = g.fifo ∧ entered.files = g.files ∧
      entered.links.slots = g.links.slots.set slot (slot + 1, true) := by
  let client : ClientInfo := ⟨true, pid, slot + 1, str "(no name)", userIp, port⟩
  let started := (({ g with table := g.table.set slot client : Server }.onShell (slot + 1)
    (fun _ => .initial)).withReading (slot + 1) none).withSignal (slot + 1) false
  have begun : started.Numbered :=
    (show Server.Numbered { g with table := g.table.set slot client } from
      numbered.enter rfl).same rfl
  obtain ⟨entered, enters, links⟩ := broadcast_returns started (slot + 1) .login rfl
  refine ⟨entered, enters, begun.same (congrArg Links.slots links), congrArg Links.fifo links,
    congrArg Links.files links, (congrArg Links.slots links).trans ?_⟩
  exact List.map_set

/-- The slot of a client that is logged in. -/
theorem slot_of_client {g : Server} (numbered : g.Numbered) {id : Nat}
    (there : (getClientByID g.table id).isSome = true) :
    g.links.slots[id - 1]? = some (id, true) := by
  rw [getClientByID_isSome] at there
  obtain ⟨⟨other, valid⟩, member, both⟩ := List.any_eq_true.mp there
  simp only [Bool.and_eq_true, decide_eq_true_eq, Int.natCast_inj] at both
  obtain ⟨rfl, rfl⟩ := both
  obtain ⟨i, slot⟩ := List.mem_iff_getElem?.mp member
  have number := numbered.number i other slot
  rw [number, Nat.add_sub_cancel]
  rwa [number] at slot

/-- The slots keep their numbers when one is not valid any more. -/
theorem Server.Numbered.freed {g after : Server} {curId : Nat} (numbered : g.Numbered)
    (slots : after.links.slots =
      g.links.slots.modify (curId - 1) (fun slot => (slot.1, false))) : after.Numbered :=
  (@Server.Numbered.invalidate g curId numbered).same
    (slots.trans (slots_invalidate g curId).symm)

end NetProg.MultiProc
