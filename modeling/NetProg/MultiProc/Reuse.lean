import NetProg.Library.Refinements
import NetProg.MultiProc.CleanUps
import NetProg.MultiProc.Departures

/-!
# Ids that are given again, with lines and clean-ups side by side

A line and a clean-up, which the system of lines takes as one step each, are sequences of
accesses to the shared memory. Here every event of the system of lines is shown to be such a
sequence: a login marks a slot, a line writes cells between clients that are logged in, and
the clean-up goes through the records to the id that was given back. If a client that leaves has
sent no pipe that is still there and has opened those sent to it, all these accesses meet the
condition on accesses.

So the runs of the lines are among those of the accesses. In these nothing is left of a departed
client as long as the accesses meet the condition, however the processes take turns; and where
every line and every clean-up is done before the next event, the condition is the one on the
client that leaves, and it is exact.
-/

namespace NetProg.MultiProc

open Outcomes Runs

namespace Server

/-- A record with its file. -/
def cell (g : Server) (u v : Nat) : Cell := ⟨g.fifo u v, g.files u v⟩

/-- The server with another cell. -/
def withCell (g : Server) (u v : Nat) (c : Cell) : Server :=
  { g with
    fifo := fun a b => if a = u ∧ b = v then c.record else g.fifo a b
    files := fun a b => if a = u ∧ b = v then c.file else g.files a b }

/-- Some fields of a cell are written one after the other. -/
def writeAll (g : Server) (u v : Nat) (fields : List Field) : Server :=
  fields.foldl (fun g field => g.withCell u v (field.written (fifoPath u v) (g.cell u v))) g

theorem cell_withCell (g : Server) (u v : Nat) (c : Cell) (a b : Nat) :
    (g.withCell u v c).cell a b = if a = u ∧ b = v then c else g.cell a b := by
  by_cases own : a = u ∧ b = v
  · simp [cell, withCell, own]
  · simp [cell, withCell, own]

theorem writeAll_snoc (g : Server) (u v : Nat) (fields : List Field) (field : Field) :
    g.writeAll u v (fields ++ [field]) = (g.writeAll u v fields).withCell u v
      (field.written (fifoPath u v) ((g.writeAll u v fields).cell u v)) := by
  rw [writeAll, List.foldl_append]
  rfl

theorem writeAll_table (fields : List Field) (g : Server) (u v : Nat) :
    (g.writeAll u v fields).table = g.table := by
  induction fields generalizing g with
  | nil => rfl
  | cons field fields ih => exact ih (g.withCell u v _)

/-- The accesses to one cell add up, and leave the others. -/
theorem cell_writeAll (fields : List Field) (g : Server) (u v a b : Nat) :
    (g.writeAll u v fields).cell a b = if a = u ∧ b = v then
      fields.foldl (fun c field => field.written (fifoPath u v) c) (g.cell u v)
    else g.cell a b := by
  induction fields generalizing g with
  | nil =>
    by_cases own : a = u ∧ b = v
    · obtain ⟨rfl, rfl⟩ := own
      rw [if_pos ⟨rfl, rfl⟩]
      rfl
    · rw [if_neg own]
      rfl
  | cons field fields ih =>
    refine (ih (g.withCell u v (field.written (fifoPath u v) (g.cell u v)))).trans ?_
    by_cases own : a = u ∧ b = v
    · rw [if_pos own, if_pos own, cell_withCell, if_pos ⟨rfl, rfl⟩]
      rfl
    · rw [if_neg own, if_neg own, cell_withCell, if_neg own]

/-- A pipe that is removed has its fields emptied, the file with the name. -/
theorem cell_removed (g : Server) (u v : Nat) {fields : List Field}
    (same : fields.foldl (fun c field => field.written (fifoPath u v) c) (g.cell u v) =
      ⟨.empty, g.files u v && (g.fifo u v).name ≠ fifoPath u v⟩) (a b : Nat) :
    ((g.unlink u v).onFifo u v (fun _ => .empty)).cell a b = (g.writeAll u v fields).cell a b := by
  rw [cell_writeAll, same, cell, Server.onFifo]
  by_cases own : a = u ∧ b = v
  · obtain ⟨rfl, rfl⟩ := own
    rw [Server.unlink]
    by_cases named : (g.fifo a b).name = fifoPath a b <;> simp [named, Server.withFile]
  · rw [if_neg own, Server.unlink]
    split <;> simp only [Server.withFile, if_neg own, cell]

end Server

namespace SharedMemory

/-- One state leads to another by accesses that meet the condition. -/
def Reaches (s t : SharedMemory) : Prop :=
  ∃ accesses, Continues sharing SharedMemory.Tidy s accesses t

/-- The memory holds what the server shows of itself to all processes, and at most one clean-up
is under way. What is only counted, the turns, the server has nothing to say about. -/
structure Shows (s : SharedMemory) (g : Server) (sweep : Option Sweep) : Prop where
  valid : ∀ id, s.valid id = true ↔ g.Taken id
  cells : ∀ u v, s.cells u v = g.cell u v
  own : s.sweeps 0 = sweep
  others : ∀ pid, pid ≠ 0 → s.sweeps pid = none

/-- Accesses that meet the condition lead to a state that shows the server, with somebody to
answer for every record. It is what a line, seen from outside, and its accesses have in common. -/
def Leads (s : SharedMemory) (g : Server) (sweep : Option Sweep) : Prop :=
  ∃ t, s.Reaches t ∧ t.Kept ∧ t.Shows g sweep

variable {s t r : SharedMemory} {g h : Server} {sweep later : Option Sweep} {u v : Nat}

theorem Reaches.refl (s : SharedMemory) : s.Reaches s := ⟨[], .nil s⟩

theorem Reaches.trans (first : s.Reaches t) (second : t.Reaches r) : s.Reaches r := by
  obtain ⟨one, begins⟩ := first
  obtain ⟨two, ends⟩ := second
  exact ⟨one ++ two, begins.trans ends⟩

/-- One access more. -/
theorem Leads.access (access : Access) (reaches : s.Reaches t) (kept : t.Kept)
    (offered : t.Offers access) (tidy : t.Tidy access) (shows : (t.next access).Shows g sweep) :
    s.Leads g sweep :=
  ⟨t.next access, reaches.trans ⟨[access], .one offered tidy rfl⟩, kept.next offered tidy, shows⟩

theorem Shows.congr (shows : s.Shows g sweep) (taken : ∀ id, g.Taken id ↔ h.Taken id)
    (cells : ∀ a b, h.cell a b = g.cell a b) : s.Shows h sweep :=
  ⟨fun id => (shows.valid id).trans (taken id), fun a b => (shows.cells a b).trans (cells a b).symm,
    shows.own, shows.others⟩

theorem Leads.congr (leads : s.Leads g sweep) (taken : ∀ id, g.Taken id ↔ h.Taken id)
    (cells : ∀ a b, h.cell a b = g.cell a b) : s.Leads h sweep := by
  obtain ⟨t, reaches, kept, shows⟩ := leads
  exact ⟨t, reaches, kept, shows.congr taken cells⟩

theorem Leads.links (leads : s.Leads g sweep) (links : h.links = g.links) : s.Leads h sweep :=
  leads.congr (fun id => (taken_links (congrArg Links.slots links) id).symm) (fun a b =>
    congrArg₂ Cell.mk (congrFun (congrFun (congrArg Links.fifo links) a) b)
      (congrFun (congrFun (congrArg Links.files links) a) b))

theorem Shows.write (shows : t.Shows g sweep) (turns : Nat × Nat) (u v : Nat) (field : Field) :
    (t.write turns u v field).Shows
      (g.withCell u v (field.written (fifoPath u v) (g.cell u v))) sweep := by
  refine ⟨shows.valid, fun a b => ?_, shows.own, shows.others⟩
  rw [cells_write, Server.cell_withCell, shows.cells, shows.cells]

theorem Shows.withSweep (shows : t.Shows g sweep) (later : Option Sweep) :
    (t.withSweep 0 later).Shows g later :=
  ⟨shows.valid, shows.cells, sweeps_self t 0 later, fun pid other =>
    (sweeps_other t later other).trans (shows.others pid other)⟩

/-- While nobody is cleaning up, what is in a record is of a pipe between clients who are logged
in. -/
theorem Kept.here (kept : t.Kept) (shows : t.Shows g none) (there : ¬ (t.cells u v).Nothing) :
    t.Here u (t.turns u v).1 ∧ t.Here v (t.turns u v).2 := by
  have calm {id turn : Nat} : ¬ t.Swept id turn := by
    rintro ⟨pid, sweep, found, -⟩
    by_cases own : pid = 0
    · rw [own, shows.own] at found
      cases found
    · rw [shows.others pid own] at found
      cases found
  exact ⟨(kept.sources u v there).resolve_right calm,
    (kept.targets u v there).resolve_right (fun covered => calm covered.swept)⟩

/-- A field of a cell between two clients is written, for a pipe between them. -/
theorem Leads.write (leads : s.Leads g none) (source : g.Taken u) (target : g.Taken v)
    (field : Field) :
    s.Leads (g.withCell u v (field.written (fifoPath u v) (g.cell u v))) none := by
  obtain ⟨t, reaches, kept, shows⟩ := leads
  have tidy : t.Tidy (.writes (t.turn u, t.turn v) u v field) := by
    refine .inl ⟨⟨(shows.valid u).mpr source, rfl⟩, ⟨(shows.valid v).mpr target, rfl⟩, ?_⟩
    by_cases nothing : (t.cells u v).Nothing
    · exact .inl nothing
    · obtain ⟨sender, receiver⟩ := kept.here shows nothing
      exact .inr (Prod.ext sender.2.symm receiver.2.symm)
  exact .access (.writes (t.turn u, t.turn v) u v field) reaches kept trivial tidy
    (shows.write _ u v field)

/-- A field of a cell is emptied. -/
theorem Leads.empty (leads : s.Leads g none) (u v : Nat) {field : Field}
    (empties : field.empties = true) :
    s.Leads (g.withCell u v (field.written (fifoPath u v) (g.cell u v))) none := by
  obtain ⟨t, reaches, kept, shows⟩ := leads
  have tidy : t.Tidy (.writes (0, 0) u v field) := by
    refine .inr ⟨empties, fun _ => ?_⟩
    cases file : (t.cells u v).file with
    | false => exact .inr rfl
    | true =>
      refine .inl (kept.here shows (fun nothing => ?_)).2
      rw [nothing.2] at file
      cases file
  exact .access (.writes (0, 0) u v field) reaches kept trivial tidy (shows.write _ u v field)

/-- Fields of a cell between two clients are written one after the other. -/
theorem Leads.writes (leads : s.Leads g none) (source : g.Taken u) (target : g.Taken v)
    (fields : List Field) : s.Leads (g.writeAll u v fields) none := by
  induction fields generalizing g with
  | nil => exact leads
  | cons field fields ih => exact ih (leads.write source target field) source target

/-- Fields of a cell are emptied one after the other. -/
theorem Leads.empties (leads : s.Leads g none) (u v : Nat) (fields : List Field)
    (empties : ∀ field ∈ fields, field.empties = true) :
    s.Leads (g.writeAll u v fields) none := by
  induction fields generalizing g with
  | nil => exact leads
  | cons field fields ih =>
    refine ih (leads.empty u v (empties field List.mem_cons_self)) ?_
    exact fun other inRest => empties other (List.mem_cons_of_mem field inRest)

/-- One field of a record is written, as the server does it. -/
theorem Leads.onFifo (leads : s.Leads g none) (source : g.Taken u) (target : g.Taken v)
    {change : Fifo → Fifo} (field : Field) (same : (⟨change (g.fifo u v), g.files u v⟩ : Cell) =
      field.written (fifoPath u v) (g.cell u v)) : s.Leads (g.onFifo u v change) none := by
  refine (leads.write source target field).congr (fun id => Iff.rfl) (fun a b => ?_)
  rw [Server.cell_withCell, ← same]
  by_cases own : a = u ∧ b = v
  · simp [Server.cell, Server.onFifo, own]
  · simp [Server.cell, Server.onFifo, own]

end SharedMemory

/-! ## Lines -/

/-- What a line writes are cells between clients that are logged in, and it empties records to its
own client. So each change that a line is made of is a few accesses that meet the condition. -/
theorem accesses_carries (job : Job) (s : SharedMemory) :
    Carries job (fun g => (g.Backed ∧ g.Taken job.curId) ∧ s.Leads g none) where
  unseen links held := ⟨(backed_carries job).unseen links held.1, held.2.links links⟩
  waits g reading signalled forked writing held :=
    ⟨(backed_carries job).waits g reading signalled forked writing held.1,
      held.2.congr (fun id => Iff.rfl) (fun a b => rfl)⟩
  makes g targetId there held := by
    refine ⟨(backed_carries job).makes g targetId there held.1, ?_⟩
    have target : g.Taken targetId.toNat := by
      obtain ⟨client, found⟩ := Option.isSome_iff_exists.mp there
      have own := List.find?_some found
      simp only [Bool.and_eq_true, decide_eq_true_eq] at own
      rw [Server.Taken, show ((targetId.toNat : Nat) : Int) = targetId by omega]
      exact there
    have made := held.2.writes held.1.2 target [.file true, .name true]
    refine made.congr (fun id => by rw [Server.Taken, Server.writeAll_table]; rfl) (fun a b => ?_)
    rw [Server.cell_writeAll]
    by_cases own : a = job.curId ∧ b = targetId.toNat
    · simp [Server.cell, Server.onFifo, Server.withFile, Field.written, own]
    · simp [Server.cell, Server.onFifo, Server.withFile, own]
  reads g sourceId targetId file held := by
    refine ⟨(backed_carries job).reads g sourceId targetId file held.1, ?_⟩
    obtain ⟨source, target⟩ := held.1.1.clients sourceId targetId (held.1.1.record file)
    have links := links_withProcess g targetId (g.shells targetId).process.openFile.2
    have slots := congrArg Links.slots links
    have opened : s.Leads ((g.onShell targetId (·.withProcess
        (g.shells targetId).process.openFile.2)).onFifo sourceId targetId
          ({ · with outFd := (g.shells targetId).process.openFile.1 })) none :=
      (held.2.links links).onFifo ((taken_links slots sourceId).mpr source)
        ((taken_links slots targetId).mpr target) (.outFd (g.shells targetId).process.openFile.1)
        rfl
    exact opened
  writes g writer file held := by
    refine ⟨(backed_carries job).writes g writer file held.1, ?_⟩
    obtain ⟨source, target⟩ :=
      held.1.1.clients writer.sourceId writer.targetId (held.1.1.record file)
    have opened : s.Leads (g.onFifo writer.sourceId writer.targetId
        ({ · with inFd := writer.inFd })) none :=
      held.2.onFifo source target (.inFd writer.inFd) rfl
    exact opened.congr (fun id => Iff.rfl) (fun a b => rfl)
  misses g sourceId targetId file held := by
    refine ⟨(backed_carries job).misses g sourceId targetId file held.1, ?_⟩
    refine (held.2.empty sourceId targetId (show (Field.inFd (-1)).empties = true by decide)).congr
      (fun id => Iff.rfl) (fun a b => ?_)
    rw [Server.cell_withCell]
    by_cases own : a = sourceId ∧ b = targetId
    · simp [Server.cell, Server.onFifo, Field.written, own]
    · simp [Server.cell, Server.onFifo, own]
  takes g sourceId there held := by
    refine ⟨(backed_carries job).takes g sourceId there held.1, ?_⟩
    have isRecord : g.fifo sourceId job.curId ≠ .empty := by
      intro empty
      rw [empty] at there
      exact there rfl
    obtain ⟨source, target⟩ := held.1.1.clients sourceId job.curId isRecord
    have taken := held.2.writes source target [.inFd (-1), .isUsed true]
    refine taken.congr (fun id => by rw [Server.Taken, Server.writeAll_table]; rfl) (fun a b => ?_)
    rw [Server.cell_writeAll]
    by_cases own : a = sourceId ∧ b = job.curId
    · simp [Server.cell, Server.getUserPipeFd, Server.onFifo, Field.written, own]
    · simp [Server.cell, Server.getUserPipeFd, Server.onFifo, own]
  erases g sourceId held := by
    refine ⟨(backed_carries job).erases g sourceId held.1, ?_⟩
    rw [Server.eraseUserPipe]
    split
    · have erased := held.2.empties sourceId job.curId
        [.inFd (-1), .outFd (-1), .isUsed false, .file false, .name false] (by decide)
      refine erased.congr (fun id => ?_) (g.cell_removed sourceId job.curId rfl)
      rw [taken_removed, Server.Taken, Server.writeAll_table]
      rfl
    · exact held.2

/-! ## Clean-ups -/

namespace SharedMemory

variable {s : SharedMemory} {g h : Server} {k turn u : Nat} {sources : List Nat}

/-- When the name is emptied, the file is gone. -/
theorem wiped_file (named : h.Named) {n : Nat} (isName : wipes[n]? = some (.name false)) :
    ((h.writeAll u k (wipes.take n)).cell u k).file = false := by
  have last : n = 4 := by
    have few : n < 5 := (List.getElem?_eq_some_iff.mp isName).1
    match n, few with
    | 0, _ | 1, _ | 2, _ | 3, _ => cases isName
    | 4, _ => rfl
  subst last
  rw [Server.cell_writeAll, if_pos ⟨rfl, rfl⟩]
  cases file : h.files u k with
  | false => simp [wipes, Field.written, Server.cell, file]
  | true => simp [wipes, Field.written, Server.cell, named u k file]

/-- The fields of a record that was opened are emptied one by one. -/
theorem Leads.wipes (named : h.Named)
    (leads : s.Leads h (some ⟨k, turn, sources, some (u, 0)⟩)) (n : Nat) (few : n ≤ 5) :
    s.Leads (h.writeAll u k (wipes.take n)) (some ⟨k, turn, sources, some (u, n)⟩) := by
  induction n with
  | zero => exact leads
  | succ n ih =>
    have inside : n < MultiProc.wipes.length := by
      change n < 5
      omega
    have isNext := List.getElem?_eq_getElem inside
    obtain ⟨t, reaches, kept, shows⟩ := ih (by omega)
    have tidy : t.Tidy (.continues 0) := by
      intro sweep isSweep
      cases shows.own.symm.trans isSweep
      refine ⟨fun v m same isName => .inr ?_, fun none => (by cases none),
        fun none => (by cases none)⟩
      cases same
      rw [shows.cells]
      exact wiped_file named isName
    refine .access (.continues 0) reaches kept ?_ tidy ?_
    · rw [Offers, shows.own]
      rfl
    · have more : MultiProc.wipes.take (n + 1) =
          MultiProc.wipes.take n ++ [MultiProc.wipes[n]] := by
        rw [List.take_add_one, isNext]
        rfl
      rw [next, shows.own]
      simp only [Option.elim_some, goesOn, isNext, more, Server.writeAll_snoc]
      exact (shows.write _ u k _).withSweep _

/-- The clean-up looks at one record, and empties it if it was opened: one access for the look,
and then one for each field and for the file. -/
theorem Leads.clears (named : h.Named) (leads : s.Leads h (some ⟨k, turn, u :: sources, none⟩))
    (ready : h.fifo u k = .empty ∨ (h.fifo u k).outFd ≠ -1) :
    s.Leads (h.clearFifo k u) (some ⟨k, turn, sources, none⟩) := by
  obtain ⟨t, reaches, kept, shows⟩ := leads
  have isReady : t.Ready u k := by
    rw [Ready, shows.cells]
    rcases ready with empty | isOpen
    · refine .inl ⟨empty, ?_⟩
      by_contra there
      exact named.record (by simpa [Server.cell] using there) empty
    · exact .inr ⟨isOpen, named u k⟩
  have tidy : t.Tidy (.continues 0) := by
    intro sweep isSweep
    cases shows.own.symm.trans isSweep
    refine ⟨fun v m same => (by cases same), fun _ v rest same _ => ?_,
      fun _ none => (by cases none)⟩
    cases same
    exact isReady
  have looked : s.Leads h (some ⟨k, turn, sources,
      if (h.fifo u k).outFd ≠ -1 then some (u, 0) else none⟩) := by
    refine .access (.continues 0) reaches kept ?_ tidy ?_
    · rw [Offers, shows.own]
      rfl
    · rw [next, shows.own]
      simp only [Option.elim_some, goesOn, shows.cells]
      exact shows.withSweep _
  rw [Server.clearFifo]
  by_cases isOpen : (h.fifo u k).outFd ≠ -1
  · rw [if_pos isOpen] at looked
    rw [if_pos isOpen]
    obtain ⟨t, reaches, kept, shows⟩ := looked.wipes named 5 (Nat.le_refl 5)
    refine .access (.continues 0) reaches kept ?_ ?_ ?_
    · rw [Offers, shows.own]
      rfl
    · intro sweep isSweep
      cases shows.own.symm.trans isSweep
      refine ⟨fun v m same isName => ?_, fun none => (by cases none), fun none => (by cases none)⟩
      cases same
      cases isName
    · rw [next, shows.own]
      refine (shows.withSweep _).congr (fun id => ?_) (h.cell_removed u k rfl)
      rw [taken_removed, Server.Taken, Server.writeAll_table]
      rfl
  · rw [if_neg isOpen] at looked
    rwa [if_neg isOpen]

/-- The clean-up goes through the records. -/
theorem Leads.clearsAll (named : h.Named) (leads : s.Leads h (some ⟨k, turn, sources, none⟩))
    (ready : ∀ u ∈ sources, h.fifo u k = .empty ∨ (h.fifo u k).outFd ≠ -1) :
    s.Leads (sources.foldl (Server.clearFifo k) h) (some ⟨k, turn, [], none⟩) := by
  induction sources generalizing h with
  | nil => exact leads
  | cons u sources ih =>
    have cleared := leads.clears named (ready u List.mem_cons_self)
    refine ih (Server.named_clearFifo [u] named) cleared (fun v later => ?_)
    have fifo := Server.fifo_clearFifo (k := k) [u] h v k
    rw [show (h.clearFifo k u).fifo v k = _ from fifo]
    split
    · exact .inl rfl
    · exact ready v (List.mem_cons_of_mem u later)

/-- A clean-up that finds what it empties is a sequence of accesses that meet the condition: the
slot is given back, the records are gone through, and then nothing is left to or from the id. -/
theorem Leads.logout (leads : s.Leads g none) (backed : g.Backed) (numbered : g.Numbered)
    (taken : g.Taken k) (cleared : g.Cleared k) :
    ∃ left, g.logout k = .ok left ∧ s.Leads left none := by
  obtain ⟨told, tells, links⟩ := broadcast_returns g k .logout rfl
  refine ⟨_, by rw [Server.logout, tells]; rfl, ?_⟩
  have fifo : told.fifo = g.fifo := congrArg Links.fifo links
  have files : told.files = g.files := congrArg Links.files links
  have named : (told.invalidate k).Named := by
    intro s t file
    have name := backed.named s t (files ▸ file)
    rw [← fifo] at name
    exact name
  have slots : (told.invalidate k).links.slots =
      g.links.slots.modify (k - 1) (fun slot => (slot.1, false)) := by
    rw [slots_invalidate, links]
  obtain ⟨t, reaches, kept, shows⟩ := leads
  have leaves : s.Leads (told.invalidate k) (some ⟨k, t.turn k, ids, none⟩) := by
    refine .access (.leaves 0 k) reaches kept
      ⟨shows.own, (numbered.taken_mem taken).2⟩ trivial ⟨fun id => ?_, fun u v => ?_, ?_, ?_⟩
    · rw [numbered.taken_freed taken slots id]
      by_cases own : id = k
      · subst own
        exact iff_of_false (by simp [next]) (fun stays => stays.2 rfl)
      · refine Iff.trans ?_ (and_iff_left own).symm
        rw [← shows.valid id]
        exact iff_of_eq (congrArg (· = true) (Function.update_of_ne own ..))
    · refine (shows.cells u v).trans ?_
      change g.cell u v = ⟨told.fifo u v, told.files u v⟩
      rw [fifo, files]
      rfl
    · exact sweeps_self t 0 _
    · exact fun pid other => (sweeps_other t _ other).trans (shows.others pid other)
  have ready : ∀ u ∈ ids, (told.invalidate k).fifo u k = .empty ∨
      ((told.invalidate k).fifo u k).outFd ≠ -1 := by
    intro u member
    have found := cleared.2 u member
    rw [← fifo] at found
    exact found
  obtain ⟨r, went, keptLast, last⟩ := leaves.clearsAll named ready
  have stillNamed := Server.named_clearFifo (k := k) ids named
  have tidy : r.Tidy (.continues 0) := by
    intro sweep isSweep
    cases last.own.symm.trans isSweep
    refine ⟨fun v m same => (by cases same), fun _ v rest same => (by cases same), fun _ _ => ?_⟩
    refine .inr (fun v member _ => ?_)
    have empty : (ids.foldl (Server.clearFifo k) (told.invalidate k)).fifo k v = .empty := by
      rw [Server.fifo_clearFifo]
      split
      · rfl
      rename_i uncleared
      by_cases self : v = k
      · subst self
        exact (ready v member).resolve_right (fun isOpen => uncleared ⟨rfl, member, isOpen⟩)
      · exact (congrFun (congrFun fifo k) v).trans (cleared.1 v member self)
    rw [last.cells]
    refine ⟨empty, ?_⟩
    cases file : (ids.foldl (Server.clearFifo k) (told.invalidate k)).files k v with
    | false => exact file
    | true => exact absurd empty (stillNamed.record file)
  have ended : s.Leads (ids.foldl (Server.clearFifo k) (told.invalidate k)) none := by
    refine .access (.continues 0) went keptLast ?_ tidy ?_
    · rw [Offers, last.own]
      rfl
    · rw [next, last.own]
      exact last.withSweep _
  exact ended.congr (fun id => Iff.rfl) (fun a b => rfl)

end SharedMemory

/-! ## Events -/

section Events

variable {g after : Server}

/-- A login marks the slot that it finds, which is one access. Nothing was left to or from its id,
as no clean-up was under way. -/
theorem login_leads {s : SharedMemory} (leads : s.Leads g none) (numbered : g.Numbered)
    {slot : Nat} (free : g.freeSlot = some slot) (pid : Nat) (userIp : Str) (port : Nat) :
    ∃ entered, g.login slot pid userIp port = .ok entered ∧ s.Leads entered none := by
  obtain ⟨entered, enters, numbers, fifo, files, slots⟩ :=
    login_slots numbered slot pid userIp port
  obtain ⟨inside, notValid, -⟩ := List.findIdx?_eq_some_iff_getElem.mp free
  have bound : slot < g.links.slots.length := by
    rw [Server.links, List.length_map]
    exact inside
  have inIds : slot + 1 ∈ ids := by
    have size := numbered.size
    simp only [ids, List.mem_map, List.mem_range]
    exact ⟨slot, by omega, rfl⟩
  obtain ⟨t, reaches, kept, shows⟩ := leads
  refine ⟨entered, enters, .access (.marks (slot + 1)) reaches kept inIds trivial ?_⟩
  have isFree {id : Nat} (here : id - 1 = slot) : ¬ g.Taken id := by
    intro taken
    rw [numbered.taken_iff, here, Server.links, List.getElem?_map,
      List.getElem?_eq_getElem inside, Option.map_some, Option.some.injEq, Prod.mk.injEq] at taken
    rw [taken.2] at notValid
    cases notValid
  have entersTaken (id : Nat) : entered.Taken id ↔ g.Taken id ∨ id = slot + 1 := by
    by_cases here : id - 1 = slot
    · rw [or_iff_right (isFree here), numbers.taken_iff, slots, here,
        List.getElem?_set_self bound, Option.some.injEq, Prod.mk.injEq]
      constructor
      · exact fun same => same.1.symm
      · exact fun same => ⟨same.symm, rfl⟩
    · rw [numbers.taken_iff, numbered.taken_iff, slots, List.getElem?_set_ne (Ne.symm here)]
      refine (or_iff_left ?_).symm
      rintro rfl
      exact here rfl
  have cells (a b : Nat) : entered.cell a b = g.cell a b := by
    rw [Server.cell, fifo, files]
    rfl
  rw [SharedMemory.next]
  split
  · rename_i already
    exact absurd ((shows.valid (slot + 1)).mp already) (isFree rfl)
  · refine ⟨fun id => ?_, fun a b => (shows.cells a b).trans (cells a b).symm, shows.own,
      shows.others⟩
    rw [entersTaken, ← shows.valid id]
    by_cases own : id = slot + 1
    · subst own
      simp
    · simp [own]

/-- A line is a sequence of accesses, and so is the clean-up that it sets off. By the changes that
a line is made of: each of them is a few accesses, or none. -/
theorem execLine_leads {s : SharedMemory} {job : Job} (leads : s.Leads g none) (backed : g.Backed)
    (numbered : g.Numbered) (taken : g.Taken job.curId) (clear : LeavesClear g (.line job)) :
    s.Leads (execLine job g).1 none := by
  have carries := accesses_carries job s
  have census := census_carries job g.census
  have held := carries.execCmds (words job.line) ⟨⟨backed, taken⟩, leads⟩
  have counted := census.execCmds (words job.line) rfl
  rw [execLine]
  split
  · exact leads
  rename_i typed
  cases ran : execCmds job g (words job.line) with
  | error failure =>
    obtain ⟨fault, failed⟩ := failure
    have kept := (carries.resume (fun _ => true) (held.raised ran)).2
    exact kept.congr (fun id => Iff.rfl) (fun a b => rfl)
  | ok result =>
    obtain ⟨done, status⟩ := result
    have kept := carries.resume (fun _ => true) (held.returned ran)
    have same := census.resume (fun _ => true) (counted.returned ran)
    have numbers : (done.resume (fun _ => true)).Numbered := numbered.same (congrArg Prod.fst same)
    simp only
    split
    · rename_i exits
      have leaves : leaving job g = some (done.resume (fun _ => true)) := by
        rw [leaving, if_neg typed, ran]
        exact if_pos exits
      obtain ⟨left, logs, swept⟩ :=
        kept.2.logout kept.1.1 numbers kept.1.2 (clear _ leaves)
      rw [logs]
      exact swept
    · exact kept.2

/-- Every event of the server is a sequence of accesses that meet the condition, if no client
leaves pipes behind. A login is the access that marks its slot. -/
theorem serve_leads {s : SharedMemory} {event : Event} (leads : s.Leads g none)
    (backing : g.Backing) (offered : offers g event) (clear : LeavesClear g event)
    (served : serve g event = .ok after) : s.Leads after none := by
  obtain ⟨numbered, backed⟩ := backing
  cases event with
  | login pid userIp port =>
    rw [serve] at served
    split at served
    · cases served
      exact leads
    · rename_i slot free
      obtain ⟨entered, enters, marks⟩ := login_leads leads numbered free pid userIp port
      rw [enters] at served
      cases served
      exact marks
  | line job =>
    cases served
    exact execLine_leads leads backed numbered offered.1 clear

end Events

theorem initial_backing : Server.initial.Backing := by
  refine ⟨Server.initial_rest.numbered, ?_, ?_⟩
  · intro s t impossible
    cases impossible
  · intro s t impossible
    exact absurd rfl impossible

/-- Before the first client nothing is shared. -/
theorem initial_shows : SharedMemory.initial.Shows Server.initial none := by
  refine ⟨fun id => ?_, fun u v => rfl, rfl, fun pid other => rfl⟩
  rw [Server.Taken, getClientByID_isSome]
  simp [Server.initial, SharedMemory.initial]

/-- A run of lines in which no client leaves pipes behind is a run of accesses that meet the
condition. By induction on the events: from the state that shows the server, each goes on by its
accesses. -/
theorem lines_among_accesses {events : List Event} {g : Server}
    (run : Run system LeavesClear events g) :
    g.Backing ∧ sharing.start.Leads g none := by
  induction run with
  | start =>
    exact ⟨initial_backing, sharing.start, ⟨[], .nil _⟩, SharedMemory.initial_kept, initial_shows⟩
  | next before offered clear served ih =>
    obtain ⟨backing, leads⟩ := ih
    obtain ⟨numbered, back, -⟩ := serve_backed backing offered served
    exact ⟨⟨numbered, back clear⟩, serve_leads leads backing offered clear served⟩

/-- However the accesses of the processes take turns, nothing is left of a client that has left
and whose clean-up is done, as long as the accesses meet the condition: while nobody has the id,
there is nothing of a pipe from or to it in the table, nor a file, and when somebody has it,
nothing of a pipe of an earlier one. Runs in which lines and clean-ups are done before the next
event are among these, and show the same, if every client that leaves has sent no pipe that is
still there and has opened those sent to it; and there this is also necessary: nothing is left
after every step exactly when it is so. The first part is an invariant of the single accesses;
for the second every line and every clean-up is taken apart into them. -/
theorem departed_ids_vacant_iff (accesses : List Access) (s : SharedMemory) (events : List Event)
    (g : Server) :
    (Run sharing SharedMemory.Tidy accesses s → s.Vacated) ∧
    (Run system LeavesClear events g →
      ∃ accesses t, Run sharing SharedMemory.Tidy accesses t ∧ t.Shows g none) ∧
    (Run system (fun g event => ∀ after, serve g event = .ok after → after.Vacated) events g ↔
      Run system LeavesClear events g) := by
  refine ⟨fun run => (sharing_kept run).vacated, fun run => ?_, ?_⟩
  · obtain ⟨t, ⟨accesses, continues⟩, -, shows⟩ := (lines_among_accesses run).2
    exact ⟨accesses, t, continues [] .start, shows⟩
  refine run_congr Server.Backing initial_backing
    (fun g event backing offered => ?_) (fun g event after backing offered vacated served => ?_)
    events g
  · cases served : serve g event with
    | error impossible => cases impossible
    | ok after =>
      have agree := (serve_backed backing offered served).2.2
      refine ⟨fun vacated => agree.mp (vacated after rfl), fun clear other same => ?_⟩
      cases same
      exact agree.mpr clear
  · obtain ⟨numbered, backed, agree⟩ := serve_backed backing offered served
    exact ⟨numbered, backed (agree.mp (vacated after served))⟩

/-- A client sends a pipe and leaves before it is received. -/
def sendsAndLeaves : List Event :=
  [.login 101 (str "10.0.0.1") 4001, .login 102 (str "10.0.0.2") 4002, typed 1 (str "ls >2"),
    typed 1 (str "exit")]

/-- The pipe stays, and the next client that gets the id is refused its own. -/
theorem departed_pipe_stays : ∃ g, Run system always sendsAndLeaves g ∧ ¬ g.Taken 1 ∧
    (g.fifo 1 2).inFd ≠ -1 ∧ g.files 1 2 = true ∧ ¬ g.Vacated ∧
    ∃ later, Run system always
        (sendsAndLeaves ++ [.login 103 (str "10.0.0.3") 4003, typed 1 (str "ls >2")]) later ∧
      (later.shells 1).output = [str "*** Error: the pipe #1->#2 already exists. ***\n"] := by
  have plays : ((play system always system.start sendsAndLeaves).map
      (fun g => decide (¬ g.Taken 1 ∧ (g.fifo 1 2).inFd ≠ -1 ∧ g.files 1 2 = true))) =
      some true := by decide +kernel
  obtain ⟨g, played, result⟩ := Option.map_eq_some_iff.mp plays
  obtain ⟨gone, isOpen, file⟩ := of_decide_eq_true result
  have refused : ((play system always system.start (sendsAndLeaves ++
      [.login 103 (str "10.0.0.3") 4003, typed 1 (str "ls >2")])).map
      (fun g => (g.shells 1).output)) =
        some [str "*** Error: the pipe #1->#2 already exists. ***\n"] := by decide +kernel
  obtain ⟨later, laterPlayed, output⟩ := Option.map_eq_some_iff.mp refused
  refine ⟨g, Run.played _ g played, gone, isOpen, file, fun vacated => ?_, later,
    Run.played _ later laterPlayed, output⟩
  have vacant := (vacated 1 (by decide) gone 2 (by decide)).1.2
  rw [file] at vacant
  cases vacant

end NetProg.MultiProc
