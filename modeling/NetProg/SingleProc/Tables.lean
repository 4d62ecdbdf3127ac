import NetProg.SingleProc.Main

/-!
# Ids, descriptors and pipes alone

The tables without what clients are called, what they have set and what was
printed: for each client its descriptor, its id and its pipes. A server that
only prints, logs a call, renames a client or changes an environment keeps its
tables, so the laws about ids and descriptors are stated on the tables and hold
across all of that.

`Agree` is the consistency of ids: every id in use belongs to exactly one
record, and every watched descriptor to some record. `entries` are the numbers
the tables rely on, for an account of the process.
-/

namespace NetProg.SingleProc

open Outcomes

/-- A client's record without its name, address and environment. -/
structure Holder where
  fd : Int
  id : Int
  made : Nat
  pipeVector : List PipeFd
  userpipeVector : List UserPipeFd

/-- What a record says of these: the socket, the id, the serial number and the pipes. -/
def ClientInfo.holder (c : ClientInfo) : Holder :=
  ⟨c.fd, c.id, c.made, c.pipeVector, c.userpipeVector⟩

/-- The process and the tables of ids and descriptors: what the invariants of the numbers are
about. Names, variables and texts are not in it, so whatever changes those alone keeps them. -/
structure Tables where
  process : Process
  msock : Int
  afds : List Int
  idTable : List Int
  holders : List Holder

/-- The numbered pipes behind an iterator change, and the process. -/
def Tables.withPipes (t : Tables) (iter : Nat) (pipeVector : List PipeFd) (p : Process) : Tables :=
  { t with process := p, holders := t.holders.modify iter ({ · with pipeVector := pipeVector }) }

/-- The user pipes behind an iterator change, and the process. -/
def Tables.withUserPipes (t : Tables) (iter : Nat) (userpipeVector : List UserPipeFd)
    (p : Process) : Tables :=
  { t with
    process := p
    holders := t.holders.modify iter ({ · with userpipeVector := userpipeVector }) }

/-- The tables in the state of the server. -/
def Server.tables (s : Server) : Tables :=
  ⟨s.process, s.msock, s.afds, s.idTable, s.clientTable.map ClientInfo.holder⟩

/-- Changing what lies behind an index and mapping afterwards. -/
theorem map_modify {α β : Type} (l : List α) (i : Nat) (change : α → α) (shift : β → β)
    (f : α → β) (commutes : ∀ a, l[i]? = some a → f (change a) = shift (f a)) :
    (l.modify i change).map f = (l.map f).modify i shift := by
  induction l generalizing i with
  | nil => simp
  | cons a rest ih =>
    cases i with
    | zero => simp [commutes a rfl]
    | succ i => simp [ih i (fun b found => commutes b (by simpa using found))]

/-- A list around an index, before and after a change there. -/
theorem modify_split {α : Type} {l : List α} {i : Nat} {a : α} (found : l[i]? = some a) :
    ∃ before after, l = before ++ a :: after ∧
      ∀ change : α → α, l.modify i change = before ++ change a :: after := by
  induction l generalizing i with
  | nil => simp at found
  | cons first rest ih =>
    cases i with
    | zero =>
      have same : first = a := by simpa using found
      subst same
      exact ⟨[], rest, rfl, fun _ => by simp⟩
    | succ i =>
      obtain ⟨before, after, whole, changed⟩ := ih (by simpa using found)
      exact ⟨first :: before, after, by simp [whole], fun change => by simp [changed]⟩

/-- After a change behind an index, every element is the changed one or an old one. -/
theorem mem_modify {α : Type} {l : List α} {i : Nat} {a b : α} {change : α → α}
    (found : l[i]? = some a) (member : b ∈ l.modify i change) : b = change a ∨ b ∈ l := by
  obtain ⟨before, after, whole, changed⟩ := modify_split found
  rw [changed] at member
  rw [whole]
  rcases List.mem_append.mp member with early | late
  · exact .inr (List.mem_append_left _ early)
  · rcases List.mem_cons.mp late with same | later
    · exact .inl same
    · exact .inr (List.mem_append_right _ (List.mem_cons_of_mem _ later))

theorem mem_modify_self {α : Type} {l : List α} {i : Nat} {a : α} {change : α → α}
    (found : l[i]? = some a) : change a ∈ l.modify i change := by
  obtain ⟨before, after, -, changed⟩ := modify_split found
  rw [changed]
  exact List.mem_append_right _ List.mem_cons_self

/-- Two changes behind an index that show alike in what is collected. -/
theorem flatMap_modify_modify {α β : Type} {l : List α} {i : Nat} {first second : α → α}
    {f : α → List β} (same : ∀ a, l[i]? = some a → f (first a) = f (second a)) :
    (l.modify i first).flatMap f = (l.modify i second).flatMap f := by
  cases found : l[i]? with
  | none =>
    have past : l.length ≤ i := List.getElem?_eq_none_iff.mp found
    rw [List.modify_eq_self past, List.modify_eq_self past]
  | some a =>
    obtain ⟨before, after, whole, changed⟩ := modify_split found
    rw [changed, changed]
    simp only [List.flatMap_append, List.flatMap_cons, same a found]

/-- A change behind an index that does not show in what is collected. -/
theorem flatMap_modify {α β : Type} {l : List α} {i : Nat} {change : α → α} {f : α → List β}
    (same : ∀ a, l[i]? = some a → f (change a) = f a) :
    (l.modify i change).flatMap f = l.flatMap f := by
  have kept := (flatMap_modify_modify same : _ = (l.modify i (fun a => a)).flatMap f)
  rwa [show l.modify i (fun a => a) = l from List.modify_id i l] at kept

section Keep

variable (s : Server)

@[simp] theorem tables_logged (call : Call) : (s.logged call).tables = s.tables := rfl

@[simp] theorem tables_withProcess (p : Process) :
    (s.withProcess p).tables = { s.tables with process := p } := rfl

/-- Changes that concern neither ids nor descriptors keep the tables. -/
theorem tables_update_other (iter : Nat) (change : ClientInfo → ClientInfo)
    (keeps : ∀ c, (change c).holder = c.holder) : (s.update iter change).tables = s.tables := by
  have same : (s.clientTable.modify iter change).map ClientInfo.holder =
      (s.clientTable.map ClientInfo.holder).modify iter id := map_modify _ _ _ _ _ (fun c _ => keeps c)
  simp [Server.tables, Server.update, same]

/-- A change of a record, on the tables. -/
theorem tables_update (iter : Nat) (change : ClientInfo → ClientInfo) (shift : Holder → Holder)
    (commutes : ∀ c, (change c).holder = shift c.holder) :
    (s.update iter change).tables =
      { s.tables with holders := s.tables.holders.modify iter shift } := by
  simp only [Server.tables, Server.update]
  rw [map_modify _ _ _ _ _ (fun c _ => commutes c)]

/-- New numbered pipes for one client. -/
theorem tables_pipeVector (iter : Nat) (pipeVector : List PipeFd) (p : Process) :
    ((s.update iter ({ · with pipeVector := pipeVector })).withProcess p).tables =
      s.tables.withPipes iter pipeVector p := by
  rw [tables_withProcess,
    tables_update s iter _ ({ · with pipeVector := pipeVector }) (fun _ => rfl)]
  rfl

/-- New user pipes for one client. -/
theorem tables_userpipeVector (iter : Nat) (userpipeVector : List UserPipeFd) (p : Process) :
    ((s.update iter ({ · with userpipeVector := userpipeVector })).withProcess p).tables =
      s.tables.withUserPipes iter userpipeVector p := by
  rw [tables_withProcess,
    tables_update s iter _ ({ · with userpipeVector := userpipeVector }) (fun _ => rfl)]
  rfl

end Keep

section Words

variable (f : Frame) (iter : Nat) (rest : List Str)

theorem pipeTo_tables (isError : Bool) (created : Int × List PipeFd × Process) :
    (f.pipeTo iter isError created rest).server.tables =
      f.server.tables.withPipes iter created.2.1 created.2.2 := tables_pipeVector _ _ _ _

theorem sendTo_tables (targetId : Int) (created : Int × List UserPipeFd × Process) :
    (f.sendTo iter targetId created rest).server.tables =
      f.server.tables.withUserPipes iter created.2.1 created.2.2 := tables_userpipeVector _ _ _ _

/-- What a `<s` does to the tables: the pipe is marked, and its write end closed. -/
theorem receiveFrom_tables (sourceId : Int) (taken : UserPipeFd × List UserPipeFd) :
    (f.receiveFrom iter sourceId taken rest).server.tables =
      f.server.tables.withUserPipes iter taken.2
        (f.server.process.closeEnd taken.1.inFd (some (.writeEnd taken.1.made))) :=
  tables_userpipeVector _ _ _ _

end Words

theorem holders_getElem {s : Server} {iter : Nat} {c : ClientInfo}
    (found : s.clientTable[iter]? = some c) : s.tables.holders[iter]? = some c.holder := by
  simp [Server.tables, found]

theorem holder_found {s : Server} {iter : Nat} {h : Holder}
    (found : s.tables.holders[iter]? = some h) :
    ∃ c, s.clientTable[iter]? = some c ∧ c.holder = h := by
  simpa [Server.tables] using found

/-- A broadcast only prints, and fails without having printed. -/
theorem broadCast_ends (s : Server) (action : Action) (msg : Str) (cur : ClientInfo)
    (targetId : Int) :
    Ends (broadCast s action msg cur targetId) (fun after => ∃ output, after = { s with output })
      (fun failure => failure = (.endIterator, s)) := by
  have text : Ends (broadcastText s action msg cur targetId) (fun _ => True)
      (fun failure => failure = (.endIterator, s)) := by
    have looked : Ends (s.client (s.getClientByID targetId)) (fun _ => True)
        (fun failure => failure = (.endIterator, s)) := by
      rw [Server.client]
      split <;> simp
    cases action with
    | send | recv => exact Ends.bind _ looked (fun _ _ => by simp)
    | login | logout | name | yell => simp [broadcastText]
  rw [broadCast]
  split
  · exact ⟨s.output, rfl⟩
  · exact Ends.bind _ text (fun _ _ => ⟨_, rfl⟩)

/-- A part of the server that has nothing of what is printed. -/
structure Unprinted {α : Type} (view : Server → α) : Prop where
  printed : ∀ (s : Server) output, view { s with output := output } = view s

/-- A part of the server that has nothing of what is printed and of what clients are
called. -/
structure Unseen {α : Type} (view : Server → α) : Prop where
  printed : ∀ (s : Server) output, view { s with output := output } = view s
  renamed : ∀ s iter newName, view (s.update iter (ClientInfo.rename newName)) = view s

/-- The part of a command leaves a view as it is, also when it fails. -/
def Keeps {α β : Type} (view : Server → α) (s : Server) (server : β → Server) (x : Outcome β) :
    Prop :=
  Ends x (fun b => view (server b) = view s) (fun failure => view failure.2 = view s)

section Lookups

variable (s : Server)

theorem client_ends (iter : Nat) :
    Ends (s.client iter) (fun _ => True) (fun failure => failure.2 = s) := by
  rw [Server.client]
  split <;> simp

theorem idAt_ends (index : Int) :
    Ends (s.idAt index) (fun _ => True) (fun failure => failure.2 = s) := by
  rw [Server.idAt]
  repeat' split
  all_goals simp

theorem arg_ends (arguments : List Str) (k : Nat) :
    Ends (arg s arguments k) (fun _ => True) (fun failure => failure.2 = s) := by
  rw [arg]
  split <;> simp

theorem message_ends (arguments : List Str) (k : Nat) :
    Ends (message s arguments k) (fun _ => True) (fun failure => failure.2 = s) := by
  rw [message]
  split <;> simp

end Lookups

section Views

variable {α : Type} {view : Server → α}

/-- A look-up that changes nothing, and then something that keeps the view. -/
theorem Keeps.looks {s t : Server} {β γ : Type} {x : Outcome β} {f : β → Outcome γ}
    {server : γ → Server} (fails : Ends x (fun _ => True) (fun failure => failure.2 = t))
    (same : view t = view s) (next : ∀ b, Keeps view s server (f b)) :
    Keeps view s server (x >>= f) := by
  refine Ends.bind (fun _ => True) (fails.mono (fun _ _ => trivial) ?_)
    (fun b _ => next b)
  intro failure there
  rw [there]
  exact same

/-- A fold of parts that keep a view keeps it. -/
theorem foldlM_keeps {s : Server} {β : Type} (part : Server → β → Outcome Server)
    (keeps : ∀ t b, view t = view s → Keeps view s id (part t b)) (items : List β) (t : Server)
    (same : view t = view s) : Keeps view s id (items.foldlM part t) := by
  induction items generalizing t with
  | nil => exact same
  | cons b rest ih =>
    rw [List.foldlM_cons]
    exact Ends.bind _ (keeps t b same) (fun after kept => ih after kept)

theorem Unprinted.write (unprinted : Unprinted view) (s : Server) (fd : Int) (text : Str) :
    view (s.write fd text) = view s :=
  unprinted.printed s _

/-- A broadcast keeps such a view. -/
theorem Unprinted.broadCast (unprinted : Unprinted view) {s t : Server} (same : view t = view s)
    (action : Action) (msg : Str) (cur : ClientInfo) (targetId : Int) :
    Keeps view s id (broadCast t action msg cur targetId) := by
  refine (broadCast_ends t action msg cur targetId).mono ?_ ?_
  · rintro after ⟨output, rfl⟩
    exact (unprinted.printed t output).trans same
  · rintro failure rfl
    exact same

theorem Unprinted.whoLine (unprinted : Unprinted view) {s t : Server} (same : view t = view s)
    (cli : ClientInfo) (k : Nat) : Keeps view s id (whoLine t cli k) := by
  rw [SingleProc.whoLine]
  refine Keeps.looks (idAt_ends t k) same (fun mark => ?_)
  split
  · exact Keeps.looks (client_ends t _) same (fun _ => (unprinted.write t _ _).trans same)
  · exact same

theorem Unprinted.who (unprinted : Unprinted view) (s : Server) (cli : ClientInfo) :
    Keeps view s id (who s cli) :=
  foldlM_keeps (SingleProc.whoLine · cli) (fun _ k same => unprinted.whoLine same cli k) _ _
    (unprinted.write s _ _)

theorem Unprinted.tell (unprinted : Unprinted view) (s : Server) (cli : ClientInfo)
    (targetId : Int) (msg : Str) : Keeps view s id (tell s cli targetId msg) := by
  rw [SingleProc.tell]
  refine Keeps.looks (idAt_ends s _) rfl (fun mark => ?_)
  split
  · exact Keeps.looks (client_ends s _) rfl (fun _ => unprinted.write s _ _)
  · exact unprinted.write s _ _

theorem Unprinted.printEnv (unprinted : Unprinted view) (s : Server) (cli : ClientInfo)
    (var : Str) : view (printEnv s cli var) = view s := by
  rw [SingleProc.printEnv]
  split
  · exact unprinted.write s _ _
  · rfl

/-- The branch for `name`. -/
theorem builtin_name (s : Server) (iter : Nat) (cli : ClientInfo) {arguments : List Str}
    (first : arguments[0]? = some (str "name")) : builtin s iter cli arguments = do
      let newName ← arg s arguments 1
      return (← name s iter cli newName, 0) := by
  have found : arg s arguments 0 = .ok (str "name") := by simp only [arg, first]
  rw [builtin, found]
  rfl

/-- A built-in command other than `setenv` and `name` keeps such a view, whether it
succeeds or fails. -/
theorem Unprinted.builtin (unprinted : Unprinted view) (s : Server) (iter : Nat)
    (cli : ClientInfo) {arguments : List Str} (notSetenv : arguments[0]? ≠ some (str "setenv"))
    (notName : arguments[0]? ≠ some (str "name")) :
    Keeps view s Prod.fst (builtin s iter cli arguments) := by
  have paired (x : Outcome Server) (status : Int) (keeps : Keeps view s id x) :
      Keeps view s Prod.fst (do return (← x, status)) :=
    Ends.bind _ keeps (fun _ kept => kept)
  cases first : arguments[0]? with
  | none =>
    have missing : arg s arguments 0 = .error (.argument, s) := by simp only [arg, first]
    rw [SingleProc.builtin, missing]
    exact rfl
  | some prog =>
    have found : arg s arguments 0 = .ok prog := by simp only [arg, first]
    have otherThanSetenv : prog ≠ str "setenv" := fun same => notSetenv (same ▸ first)
    have otherThanName : prog ≠ str "name" := fun same => notName (same ▸ first)
    rw [SingleProc.builtin, found]
    change Keeps view s Prod.fst (ite _ _ _)
    split
    · exact Keeps.looks (arg_ends s arguments 1) rfl (fun var => unprinted.printEnv s cli var)
    split
    · exact paired _ 0 (unprinted.who s cli)
    split
    · refine Keeps.looks (message_ends s arguments 1) rfl (fun msg => ?_)
      exact paired _ 0 (unprinted.broadCast rfl _ _ _ _)
    split
    · refine Keeps.looks (arg_ends s arguments 1) rfl (fun number => ?_)
      split
      · exact rfl
      · refine Keeps.looks (message_ends s arguments 2) rfl (fun msg => ?_)
        exact paired _ 0 (unprinted.tell s cli _ msg)
    split <;> exact rfl

/-- So do the broadcasts before an execution. -/
theorem Unprinted.announce (unprinted : Unprinted view) (job : Job) (f : Frame) :
    Keeps view f.server id (announce job f) := by
  have one (t : Server) (same : view t = view f.server) (action : Action) (cli : ClientInfo)
      (strId : Int) : Keeps view f.server id (announceOne job t action cli strId) := by
    rw [announceOne]
    split
    · exact unprinted.broadCast same _ _ _ _
    · exact same
  rw [SingleProc.announce]
  refine Keeps.looks (client_ends f.server job.cli) rfl (fun cli => ?_)
  exact Ends.bind _ (one f.server rfl .recv cli _) (fun received kept => one received kept .send cli _)

theorem Unseen.unprinted (unseen : Unseen view) : Unprinted view := ⟨unseen.printed⟩

theorem Unseen.name (unseen : Unseen view) (s : Server) (iter : Nat) (cli : ClientInfo)
    (newName : Str) : Keeps view s id (name s iter cli newName) := by
  rw [SingleProc.name]
  split
  · exact unseen.unprinted.write s _ _
  · exact unseen.unprinted.broadCast (unseen.renamed s iter newName) _ _ _ _

/-- A built-in command other than `setenv` keeps a view without names, whether it succeeds
or fails. -/
theorem Unseen.builtin (unseen : Unseen view) (s : Server) (iter : Nat) (cli : ClientInfo)
    {arguments : List Str} (other : arguments[0]? ≠ some (str "setenv")) :
    Keeps view s Prod.fst (builtin s iter cli arguments) := by
  by_cases first : arguments[0]? = some (str "name")
  · rw [builtin_name s iter cli first]
    refine Keeps.looks (arg_ends s arguments 1) rfl (fun newName => ?_)
    exact Ends.bind _ (unseen.name s iter cli newName) (fun _ kept => kept)
  · exact unseen.unprinted.builtin s iter cli other first

end Views

/-- `setenv` replaces an entry of the client's environment and sets it in the process. -/
theorem builtin_setenv (s : Server) (iter : Nat) (cli : ClientInfo) {arguments : List Str}
    (first : arguments[0]? = some (str "setenv")) : builtin s iter cli arguments = do
      let var ← arg s arguments 1
      let val ← arg (s.update iter (ClientInfo.forget var)) arguments 2
      return (((s.update iter (ClientInfo.forget var)).update iter
        (ClientInfo.remember var val)).withEnvironment (s.environment.setEnv var val), 0) := by
  have found : arg s arguments 0 = .ok (str "setenv") := by simp only [arg, first]
  rw [builtin, found]
  rfl

/-- The tables are a view of this kind. -/
theorem tables_unseen : Unseen Server.tables where
  printed _ _ := rfl
  renamed s iter _ := tables_update_other s iter _ (fun _ => rfl)

/-- A built-in command keeps the tables, whether it succeeds or fails. -/
theorem builtin_keeps (s : Server) (iter : Nat) (cli : ClientInfo) (arguments : List Str) :
    Keeps Server.tables s Prod.fst (builtin s iter cli arguments) := by
  by_cases first : arguments[0]? = some (str "setenv")
  · have erased (var : Str) :
        (s.update iter (ClientInfo.forget var)).tables = s.tables :=
      tables_update_other s iter _ (fun _ => rfl)
    rw [builtin_setenv s iter cli first]
    refine Keeps.looks (arg_ends s arguments 1) rfl (fun var => ?_)
    refine Keeps.looks (arg_ends _ arguments 2) (erased var) (fun val => ?_)
    have stored := tables_update_other (s.update iter (ClientInfo.forget var)) iter
      (ClientInfo.remember var val) (fun _ => rfl)
    exact stored.trans (erased var)
  · exact tables_unseen.builtin s iter cli first

theorem announce_keeps (job : Job) (f : Frame) :
    Keeps Server.tables f.server id (announce job f) :=
  tables_unseen.unprinted.announce job f

end NetProg.SingleProc
