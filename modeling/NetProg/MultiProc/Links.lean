import NetProg.MultiProc.Main
import NetProg.Library.Outcomes

/-!
# What user pipes rest on

Most of what a line does is not about user pipes. The links of a server are the part
that is: which slots are taken, the records and files of the pipes, who waits for
them, and which processes run. Printing, numbered pipes, the environment and the
built-in commands leave them as they are.
-/

namespace NetProg.MultiProc

open Outcomes

/-- The part of the server that user pipes rest on: the slots, the records, the files and who
waits. -/
structure Links where
  slots : List (Nat × Bool)
  fifo : Nat → Nat → Fifo
  files : Nat → Nat → Bool
  reading : Nat → Option Nat
  signalled : Nat → Bool
  forked : List Writer
  writing : List Writer
  status : Nat → Status

/-- The links of a server. -/
def Server.links (g : Server) : Links where
  slots := g.table.map (fun client => (client.id, client.valid))
  fifo := g.fifo
  files := g.files
  reading := g.reading
  signalled := g.signalled
  forked := g.forked
  writing := g.writing
  status id := (g.shells id).status

theorem shells_onShell (g : Server) (id : Nat) (change : Shell → Shell) :
    (g.onShell id change).shells id = change (g.shells id) := if_pos rfl

theorem links_onShell (g : Server) (id : Nat) {change : Shell → Shell}
    (keeps : ∀ s, (change s).status = s.status) : (g.onShell id change).links = g.links := by
  have statuses :
      (fun other => (if other = id then change (g.shells id) else g.shells other).status) =
      fun other => (g.shells other).status := by
    funext other
    split
    · rename_i same
      rw [keeps, same]
    · rfl
  simp only [Server.links, Server.onShell, statuses]

theorem links_write (g : Server) (id : Nat) (text : Str) : (g.write id text).links = g.links :=
  links_onShell g id (fun _ => rfl)

/-- Two servers with the same links have the same clients. -/
theorem getClientByID_isSome (table : List ClientInfo) (id : Int) :
    (getClientByID table id).isSome =
      (table.map (fun client => (client.id, client.valid)) : List (Nat × Bool)).any
        (fun slot => (slot.1 : Int) = id && slot.2) := by
  rw [getClientByID, List.isSome_find?, List.any_map]
  rfl

/-- The failures of a user pipe: `mkfifo` fails, or a process waits for ever. -/
def Fault.ofFifo : Fault → Bool
  | .mkfifoError | .blocked => true
  | _ => false

/-- A change of a shell that is about its environment and its logs alone. -/
structure Shell.Logs (change : Shell → Shell) : Prop where
  process : ∀ s, (change s).process = s.process
  pipeVector : ∀ s, (change s).pipeVector = s.pipeVector
  status : ∀ s, (change s).status = s.status

/-- A part of the server that has nothing of the environments and logs, of the messages
and of the names. -/
structure Unseen {α : Type} (view : Server → α) : Prop where
  logs : ∀ g id {change : Shell → Shell}, Shell.Logs change → view (g.onShell id change) = view g
  told : ∀ (g : Server) announced, view { g with announced := announced } = view g
  named : ∀ g curId newName, view { g with table := rename g.table curId newName } = view g

section Builtins

variable {α : Type} {view : Server → α}

/-- The view is left, whether it returns or fails, and no failure is one of a user pipe. -/
def Keeps {β : Type} (view : Server → α) (g : Server) (outcome : Outcome β)
    (server : β → Server) : Prop :=
  Ends outcome (fun value => view (server value) = view g)
    (fun failure => view failure.2 = view g ∧ failure.1.ofFifo = false)

theorem arg_ends {g : Server} {arguments : List Str} {k : Nat} :
    Ends (arg g arguments k) (fun _ => True)
      (fun failure => view failure.2 = view g ∧ failure.1.ofFifo = false) := by
  rw [arg]
  split
  · trivial
  · exact ⟨rfl, rfl⟩

theorem message_ends {g : Server} {arguments : List Str} {k : Nat} :
    Ends (message g arguments k) (fun _ => True)
      (fun failure => view failure.2 = view g ∧ failure.1.ofFifo = false) := by
  rw [message]
  split
  · exact ⟨rfl, rfl⟩
  · trivial

theorem Unseen.write (unseen : Unseen view) (g : Server) (id : Nat) (text : Str) :
    view (g.write id text) = view g :=
  unseen.logs g id ⟨fun _ => rfl, fun _ => rfl, fun _ => rfl⟩

/-- Telling the others. -/
theorem Unseen.broadcast (unseen : Unseen view) (g : Server) (curId : Nat)
    (announcement : Announcement) : Keeps view g (g.broadcast curId announcement) id := by
  rw [Server.broadcast]
  split
  · exact unseen.write g curId _
  · split
    · exact unseen.told g _
    · exact ⟨rfl, rfl⟩

theorem Unseen.who (unseen : Unseen view) (g : Server) (curId : Nat) :
    Keeps view g (who g curId) id := by
  have lines (slots : List Nat) {h : Server} (same : view h = view g) :
      Keeps view g (slots.foldlM (whoLine curId) h) id := by
    induction slots generalizing h with
    | nil => exact same
    | cons slot slots ih =>
      rw [List.foldlM_cons]
      refine Ends.bind (fun printed => view printed = view g) ?_ (fun printed kept => ih kept)
      rw [whoLine]
      split
      · exact same
      · exact ⟨same, rfl⟩
      · exact (unseen.write h curId _).trans same
  exact lines _ (unseen.write g curId _)

theorem Unseen.tell (unseen : Unseen view) (g : Server) (curId : Nat) (targetId : Int)
    (msg : Str) : Keeps view g (tell g curId targetId msg) id := by
  rw [MultiProc.tell]
  split
  · exact ⟨rfl, rfl⟩
  split
  · exact ⟨rfl, rfl⟩
  split
  · exact unseen.broadcast g curId _
  · exact unseen.write g curId _

theorem Unseen.name (unseen : Unseen view) (g : Server) (curId : Nat) (newName : Str) :
    Keeps view g (name g curId newName) id := by
  rw [MultiProc.name]
  split
  · exact unseen.write g curId _
  split
  · refine (unseen.broadcast _ curId .name).mono (fun told same => ?_) (fun failure same => ?_)
    · exact same.trans (unseen.named g curId newName)
    · exact ⟨same.1.trans (unseen.named g curId newName), same.2⟩
  · exact ⟨rfl, rfl⟩

/-- The built-in commands. -/
theorem Unseen.builtin (unseen : Unseen view) (g : Server) (curId : Nat) (arguments : List Str) :
    Keeps view g (builtin g curId arguments) Prod.fst := by
  have printEnv (var : Str) : Shell.Logs (·.printEnv var) := by
    constructor <;> intro s <;> simp only [Shell.printEnv] <;> split <;> rfl
  have setEnv (var val : Str) : Shell.Logs (·.setEnv var val) :=
    ⟨fun _ => rfl, fun _ => rfl, fun _ => rfl⟩
  refine Ends.bind _ arg_ends (fun prog _ => ?_)
  split
  · exact Ends.bind _ arg_ends (fun var _ => unseen.logs _ _ (printEnv var))
  split
  · exact Ends.bind _ arg_ends (fun var _ => Ends.bind _ arg_ends (fun val _ =>
      unseen.logs _ _ (setEnv var val)))
  split
  · exact Ends.bind _ (unseen.who g curId) (fun printed same => same)
  split
  · refine Ends.bind _ message_ends (fun msg _ => ?_)
    exact Ends.bind _ (unseen.broadcast g curId _) (fun told same => same)
  split
  · refine Ends.bind _ arg_ends (fun number _ => ?_)
    split
    · exact ⟨rfl, rfl⟩
    · refine Ends.bind _ message_ends (fun msg _ => ?_)
      exact Ends.bind _ (unseen.tell g curId _ msg) (fun told same => same)
  split
  · refine Ends.bind _ arg_ends (fun newName _ => ?_)
    exact Ends.bind _ (unseen.name g curId newName) (fun named same => same)
  · exact rfl

end Builtins

/-- The links are such a part: a new name leaves the id of a slot and whether it is
valid. -/
theorem links_unseen : Unseen Server.links where
  logs g id _ logs := links_onShell g id logs.status
  told _ _ := rfl
  named g curId newName := by
    have slots : (rename g.table curId newName).map (fun client => (client.id, client.valid)) =
        g.table.map (fun client => (client.id, client.valid)) := by
      rw [rename]
      apply List.ext_getElem?
      intro i
      simp only [List.getElem?_map, List.getElem?_modify]
      cases g.table[i]? with
      | none => rfl
      | some client =>
        simp only [Option.map_some]
        split <;> rfl
    simp only [Server.links, slots]

/-- A failure that is none of a user pipe, and leaves the links. -/
def Harmless (g : Server) (failure : Fault × Server) : Prop :=
  failure.2.links = g.links ∧ failure.1.ofFifo = false

theorem Harmless.trans {g h : Server} {failure : Fault × Server} (harmless : Harmless h failure)
    (same : h.links = g.links) : Harmless g failure :=
  ⟨harmless.1.trans same, harmless.2⟩

theorem broadcast_returns (g : Server) (curId : Nat) (announcement : Announcement)
    (there : announcement.targetId.all (fun id : Nat => (getClientByID g.table id).isSome) = true) :
    ∃ told, g.broadcast curId announcement = .ok told ∧ told.links = g.links := by
  rw [Server.broadcast]
  split
  · exact ⟨_, rfl, links_write g curId _⟩
  · rw [if_pos there]
    exact ⟨_, rfl, rfl⟩

theorem builtin_links (g : Server) (curId : Nat) (arguments : List Str) :
    Ends (builtin g curId arguments) (fun result => result.1.links = g.links) (Harmless g) :=
  links_unseen.builtin g curId arguments

end NetProg.MultiProc
