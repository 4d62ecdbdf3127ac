import NetProg.SingleProc.Ids

/-!
# What clients are called

A client is "(no name)" until it names itself. `Name` looks through all records for the
new name before it takes it, so no two clients ever have one, apart from the one they
all start with. And nobody can go back to that one: a name is a word of a line, and the
initial name has a blank in it.
-/

namespace NetProg.SingleProc

open Outcomes Runs

/-- What a client is called at first. -/
def noName : Str := str "(no name)"

/-- Which client a record belongs to, and what it is called. -/
structure Nametag where
  made : Nat
  userName : Str
  deriving DecidableEq

/-- The client of a record with its name. -/
def ClientInfo.nametag (c : ClientInfo) : Nametag := ⟨c.made, c.userName⟩

/-- The same client under another name. -/
def Nametag.rename (newName : Str) (tag : Nametag) : Nametag := { tag with userName := newName }

/-- Who is called what. -/
def Server.nametags (s : Server) : List Nametag := s.clientTable.map ClientInfo.nametag

/-- Only the initial name occurs twice: two clients with one name both have that. -/
def UniqueNames (tags : List Nametag) : Prop :=
  tags.Pairwise (fun tag other => tag.userName = other.userName → tag.userName = noName)

/-- A word has no white space in it. -/
def Solid (word : Str) : Prop := ∀ c ∈ word, isspace c = false

theorem Solid.ne_noName {word : Str} (solid : Solid word) : word ≠ noName := by
  rintro rfl
  exact absurd (solid 32 (by decide)) (by decide)

/-- The words of a line are solid. -/
theorem words_solid {line word : Str} (member : word ∈ words line) : Solid word := by
  rw [words, List.mem_filter] at member
  obtain ⟨part, -⟩ := member
  induction line generalizing word with
  | nil =>
    rw [List.splitOnP_nil, List.mem_singleton] at part
    subst part
    exact fun c member => absurd member List.not_mem_nil
  | cons c rest ih =>
    rw [List.splitOnP_cons_eq_if_modifyHead] at part
    split at part
    · rcases List.mem_cons.mp part with rfl | later
      · exact fun c member => absurd member List.not_mem_nil
      · exact ih later
    · rename_i solid
      cases parts : rest.splitOnP isspace with
      | nil => exact absurd parts (List.splitOnP_ne_nil _ _)
      | cons first others =>
        rw [parts, List.modifyHead_cons] at part
        rcases List.mem_cons.mp part with rfl | later
        · intro d member
          rcases List.mem_cons.mp member with rfl | further
          · simpa using solid
          · exact ih (parts ▸ List.mem_cons_self) d further
        · exact ih (parts ▸ List.mem_cons_of_mem _ later)

/-- What one command can do to the names: nothing, or its client takes one that is a word and
nobody has. The initial name is not a word, as it has a space in it. -/
inductive Renaming (iter : Nat) (tags : List Nametag) : List Nametag → Prop
  | none : Renaming iter tags tags
  | fresh {newName : Str} (solid : Solid newName)
      (free : ∀ tag ∈ tags, tag.userName ≠ newName) :
      Renaming iter tags (tags.modify iter (Nametag.rename newName))

/-- A name that is taken stays the only one of its kind. -/
theorem Renaming.unique {iter : Nat} {tags later : List Nametag}
    (renamed : Renaming iter tags later) (unique : UniqueNames tags) : UniqueNames later := by
  cases renamed with
  | none => exact unique
  | @fresh newName solid free =>
    cases found : tags[iter]? with
    | none => rwa [List.modify_eq_self (List.getElem?_eq_none_iff.mp found)]
    | some tag =>
      obtain ⟨before, after, whole, changed⟩ := modify_split found
      rw [changed]
      rw [UniqueNames, whole, List.pairwise_append, List.pairwise_cons] at unique
      obtain ⟨first, ⟨-, second⟩, across⟩ := unique
      rw [UniqueNames, List.pairwise_append, List.pairwise_cons]
      refine ⟨first, ⟨fun other member same => ?_, second⟩, fun one member other later same => ?_⟩
      · exact absurd same.symm (free other (by simp [whole, member]))
      · rcases List.mem_cons.mp later with rfl | further
        · exact absurd same (free one (by simp [whole, member]))
        · exact across one member other (List.mem_cons_of_mem _ further) same

/-- Whoever has the initial name after a command had it before. -/
theorem Renaming.noName_mem {iter : Nat} {tags later : List Nametag}
    (renamed : Renaming iter tags later) {tag : Nametag} (member : tag ∈ later)
    (initial : tag.userName = noName) : tag ∈ tags := by
  cases renamed with
  | none => exact member
  | @fresh newName solid free =>
    cases found : tags[iter]? with
    | none => rwa [List.modify_eq_self (List.getElem?_eq_none_iff.mp found)] at member
    | some old =>
      rcases mem_modify found member with rfl | there
      · exact absurd initial solid.ne_noName
      · exact there

section Commands

variable {s : Server}

theorem nametags_unprinted : Unprinted Server.nametags := ⟨fun _ _ => rfl⟩

/-- Changes of a record that leave its name. -/
theorem nametags_update_other (s : Server) (iter : Nat) (change : ClientInfo → ClientInfo)
    (keeps : ∀ c, (change c).nametag = c.nametag) :
    (s.update iter change).nametags = s.nametags := by
  have same : (s.clientTable.modify iter change).map ClientInfo.nametag =
      (s.clientTable.map ClientInfo.nametag).modify iter id :=
    map_modify _ _ _ _ _ (fun c _ => keeps c)
  simp [Server.nametags, Server.update, same]

theorem nametags_rename (s : Server) (iter : Nat) (newName : Str) :
    (s.update iter (ClientInfo.rename newName)).nametags =
      s.nametags.modify iter (Nametag.rename newName) :=
  map_modify _ _ _ _ _ (fun _ _ => rfl)

/-- `Name` refuses a name that somebody has, and changes no record then. -/
theorem name_refused {after : Server} {iter : Nat} {cli : ClientInfo} {newName : Str}
    (named : name s iter cli newName = .ok after)
    (taken : ∃ c ∈ s.clientTable, c.userName = newName) :
    after.clientTable = s.clientTable := by
  have found : s.clientTable.any (·.userName = newName) = true := by simpa using taken
  rw [name, if_pos found] at named
  cases named
  rfl

/-- `Name` with a word. -/
theorem name_renaming {after : Server} {iter : Nat} {cli : ClientInfo} {newName : Str}
    (named : name s iter cli newName = .ok after) (solid : Solid newName) :
    Renaming iter s.nametags after.nametags := by
  by_cases taken : s.clientTable.any (·.userName = newName) = true
  · rw [Server.nametags, Server.nametags, name_refused named (by simpa using taken)]
    exact .none
  · rw [name, if_neg taken] at named
    have told : after.nametags = (s.update iter (ClientInfo.rename newName)).nametags :=
      (nametags_unprinted.broadCast rfl _ _ _ _).returned named
    rw [told, nametags_rename]
    refine .fresh solid (fun tag member same => taken ?_)
    obtain ⟨c, inTable, rfl⟩ := List.mem_map.mp member
    exact List.any_eq_true.mpr ⟨c, inTable, decide_eq_true same⟩

/-- A built-in command whose arguments are words. -/
theorem builtin_renaming {ran : Server} {iter : Nat} {cli : ClientInfo} {arguments : List Str}
    {status : Int} (built : builtin s iter cli arguments = .ok (ran, status))
    (solid : ∀ word ∈ arguments, Solid word) : Renaming iter s.nametags ran.nametags := by
  by_cases isName : arguments[0]? = some (str "name")
  · rw [builtin_name s iter cli isName] at built
    obtain ⟨newName, isArg, built⟩ := bind_eq_ok.mp built
    obtain ⟨after, named, built⟩ := bind_eq_ok.mp built
    cases built
    have member : newName ∈ arguments := by
      rw [arg] at isArg
      split at isArg
      · rename_i found
        cases isArg
        exact List.mem_of_getElem? found
      · cases isArg
    exact name_renaming named (solid newName member)
  by_cases isSetenv : arguments[0]? = some (str "setenv")
  · rw [builtin_setenv s iter cli isSetenv] at built
    obtain ⟨var, -, built⟩ := bind_eq_ok.mp built
    obtain ⟨val, -, built⟩ := bind_eq_ok.mp built
    cases built
    have once := nametags_update_other s iter (ClientInfo.forget var) (fun _ => rfl)
    have twice := nametags_update_other (s.update iter (ClientInfo.forget var)) iter
      (ClientInfo.remember var val) (fun _ => rfl)
    change Renaming iter s.nametags
      ((s.update iter (ClientInfo.forget var)).update iter (ClientInfo.remember var val)).nametags
    rw [twice, once]
    exact .none
  · have kept : ran.nametags = s.nametags :=
      (nametags_unprinted.builtin s iter cli isSetenv isName).returned built
    rw [kept]
    exact .none

end Commands

section Rounds

variable {job : Job} {f : Frame}

/-- What is left of a line, and what was read of its command, are words. -/
def Spoken (f : Frame) : Prop := ∀ word, word ∈ f.cmds ∨ word ∈ f.arguments → Solid word

/-- Reading a word leaves the names. -/
theorem Reads.nametags {word : Str} {rest : List Str} {step : Step}
    (reads : Reads job f word rest step) : (stepServer step).nametags = f.server.nametags := by
  have kept (iter : Nat) (change : ClientInfo → ClientInfo) (p : Process)
      (keeps : ∀ c, (change c).nametag = c.nametag) :
      ((f.server.update iter change).withProcess p).nametags = f.server.nametags :=
    nametags_update_other f.server iter change keeps
  cases reads with
  | prog | argument | redirectOut | redirectIn | missing | exists_ | absent => rfl
  | pipe | userOut | userIn => exact kept _ _ _ (fun _ => rfl)

/-- And what is left are words again. -/
theorem Reads.spoken {word : Str} {rest : List Str} {next : Frame}
    (reads : Reads job f word rest (.again next)) (solid : ∀ other ∈ word :: rest, Solid other)
    (arguments : ∀ other ∈ f.arguments, Solid other) : Spoken next := by
  have left : ∀ other ∈ rest, Solid other := fun other member =>
    solid other (List.mem_cons_of_mem _ member)
  have fewer {file : Str} {others : List Str} (follows : rest = file :: others) :
      ∀ other ∈ others, Solid other := fun other member =>
    left other (by rw [follows]; exact List.mem_cons_of_mem _ member)
  cases reads with
  | prog first =>
    intro other member
    by_cases swallows : word = str "tell" ∨ word = str "yell"
    · simp only [Frame.readProg, if_pos swallows, List.not_mem_nil, false_or] at member
      exact solid other member
    · simp only [Frame.readProg, if_neg swallows, List.mem_singleton] at member
      rcases member with later | rfl
      · exact left other later
      · exact solid other List.mem_cons_self
  | argument later same =>
    rintro other (member | member)
    · exact left other member
    · rcases List.mem_append.mp member with before | here
      · exact arguments other before
      · rw [List.mem_singleton.mp here]
        exact solid word List.mem_cons_self
  | redirectOut later same follows | redirectIn later same follows =>
    rintro other (member | member)
    · exact fewer follows other member
    · exact arguments other member
  | pipe | userOut | userIn =>
    rintro other (member | member)
    · exact left other member
    · exact arguments other member

/-- An execution renames its client, or nobody. -/
theorem Executes.renaming {next : Frame} (executes : Executes job f next) (spoken : Spoken f) :
    Renaming job.cli f.server.nametags next.server.nametags := by
  obtain ⟨announced, cli, needClosePipe, inFd, inPipe, p, ran, status, detached, erased, announces,
    -, -, built, detaches, erases, rfl⟩ := executes.steps
  have told : announced.nametags = f.server.nametags :=
    (nametags_unprinted.announce job f).returned announces
  have named := builtin_renaming built (fun word member => spoken word (.inr member))
  have apart : detached.nametags = ran.nametags := by
    obtain ⟨_, -, rfl⟩ := detach_eq_ok detaches
    exact nametags_update_other ran job.cli _ (fun _ => rfl)
  have kept : erased.nametags = ran.nametags :=
    eraseUsed_induction (fun t => t.nametags = ran.nametags) apart
      (fun s candidate iter same _ => (nametags_update_other s iter ({ · with userpipeVector :=
        (UserPipes.eraseUserPipeVector candidate.userpipeVector s.process).1 })
          (fun _ => rfl)).trans same) erases
  rw [← told]
  change Renaming job.cli announced.nametags erased.nametags
  rw [kept]
  exact named

/-- So does a round. -/
theorem round_renaming {step : Step} (ran : round job f = .ok step) (spoken : Spoken f) :
    Renaming job.cli f.server.nametags (stepServer step).nametags ∧
      ∀ next, step = .again next → Spoken next := by
  rw [round] at ran
  split at ran
  · obtain ⟨next, rfl, executes⟩ := execute_executes ran
    refine ⟨executes.renaming spoken, ?_⟩
    rintro _ ⟨⟩
    obtain ⟨_, _, _, _, _, _, _, _, _, _, -, -, -, -, -, -, rfl⟩ := executes.steps
    exact spoken
  · split at ran
    · cases ran
      exact ⟨.none, fun next again => by cases again⟩
    · rename_i word rest left
      have reads := readWord_reads ran
      have same := reads.nametags
      rw [initFd_server] at same
      rw [same]
      refine ⟨.none, ?_⟩
      rintro next rfl
      have arguments : (f.initFd job.sockfd).arguments = f.arguments := by
        rw [Frame.initFd]
        split <;> rfl
      refine reads.spoken (fun other member => spoken other (.inl ?_))
        (fun other member => spoken other (.inr ?_))
      · rw [left]
        exact member
      · rw [← arguments]
        exact member

end Rounds

/-- The names a line can lead to from its start: still apart if they were, and with no new bearer
of the initial name. -/
structure NamesSince (tags later : List Nametag) : Prop where
  unique : UniqueNames tags → UniqueNames later
  initial : ∀ tag ∈ later, tag.userName = noName → tag ∈ tags

theorem NamesSince.refl (tags : List Nametag) : NamesSince tags tags :=
  ⟨id, fun _ member _ => member⟩

theorem NamesSince.next {iter : Nat} {tags later last : List Nametag}
    (since : NamesSince tags later) (renamed : Renaming iter later last) :
    NamesSince tags last where
  unique := fun unique => renamed.unique (since.unique unique)
  initial := fun tag member initial =>
    since.initial tag (renamed.noName_mem member initial) initial

/-- A line, by induction on its rounds: each of them is a renaming. -/
theorem clientExec_names {world : World} {s ended : Server} {iter : Nat} {cliMsg : Str}
    {status : Int} (ran : clientExec world s iter cliMsg = .ok (ended, status)) :
    NamesSince s.nametags ended.nametags := by
  rw [clientExec] at ran
  obtain ⟨cli, -, ran⟩ := bind_eq_ok.mp ran
  simp only at ran
  split at ran
  · cases ran
    exact .refl _
  · obtain ⟨⟨done, _⟩, looped, ran⟩ := bind_eq_ok.mp ran
    cases ran
    exact (cmdLoop ⟨iter, cli.fd, cliMsg, world⟩).run_keeps
      (fun f => NamesSince s.nametags f.server.nametags ∧ Spoken f)
      (fun result => NamesSince s.nametags result.1.nametags)
      (fun f next held again =>
        have renamed := round_renaming again held.2
        ⟨held.1.next renamed.1, renamed.2 next rfl⟩)
      (fun f value held leave => held.1.next (round_renaming leave held.2).1)
      ⟨.refl _, fun word member => by
        rcases member with queued | none
        · exact words_solid queued
        · exact absurd none List.not_mem_nil⟩ looped

section Events

variable {s after : Server}

/-- `EraseClientVector` removes records, and leaves the names of the others. -/
theorem eraseClientVector_nametags (id : Int) (clients : List ClientInfo) (p : Process) :
    ((eraseClientVector id clients p).1.map ClientInfo.nametag).Sublist
      (clients.map ClientInfo.nametag) := by
  induction clients generalizing p with
  | nil => exact .slnil
  | cons c rest ih =>
    by_cases leaves : c.id = id
    · simp only [eraseClientVector, leaves, if_true, List.map_cons]
      exact (ih _).cons _
    · simp only [eraseClientVector, leaves, if_false, List.map_cons]
      exact (ih _).cons_cons _

/-- So does a departure of either kind. -/
theorem logout_nametags {cli : ClientInfo} {erased fd : Int}
    (left : logout s cli erased fd = .ok after) : after.nametags.Sublist s.nametags := by
  rw [logout] at left
  obtain ⟨told, tells, left⟩ := bind_eq_ok.mp left
  obtain ⟨freed, frees, left⟩ := bind_eq_ok.mp left
  cases left
  have same : told.nametags = s.nametags :=
    (nametags_unprinted.broadCast rfl _ _ _ _).returned tells
  have kept : freed.nametags = told.nametags := by
    rw [Server.clearId] at frees
    split at frees
    · cases frees
      rfl
    · cases frees
  rw [← same, ← kept]
  exact eraseClientVector_nametags _ _ _

/-- A login adds the initial name, or nothing when there is no free id. -/
theorem acceptClient_nametags {userIp : Str} {port : Nat}
    (accepted : acceptClient s userIp port = .ok after) :
    after.nametags = s.nametags ∨ after.nametags = s.nametags ++ [⟨s.process.made, noName⟩] := by
  rw [acceptClient] at accepted
  simp only at accepted
  split at accepted
  · cases accepted
    exact .inl rfl
  · obtain ⟨told, tells, accepted⟩ := bind_eq_ok.mp accepted
    cases accepted
    right
    have same := (nametags_unprinted.broadCast rfl _ _ _ _).returned tells
    change told.nametags = _
    rw [show told.nametags = _ from same]
    simp [Server.nametags, Server.write, newClient, ClientInfo.nametag, noName]

theorem UniqueNames.sublist {tags later : List Nametag} (unique : UniqueNames tags)
    (fewer : later.Sublist tags) : UniqueNames later :=
  List.Pairwise.sublist fewer unique

/-- A line, and a departure by `exit`. -/
theorem clientLine_names {world : World} {fd : Int} {chunk : Str}
    (served : clientLine world s fd chunk = .ok after) :
    NamesSince s.nametags after.nametags := by
  obtain ⟨ended, status, execed, ⟨-, rfl⟩ | ⟨cli, left, -, -, -, out, rfl⟩⟩ :=
    clientLine_cases served
  · exact clientExec_names execed
  · have since := clientExec_names execed
    have fewer : left.nametags.Sublist ended.nametags := logout_nametags out
    exact ⟨fun unique => (since.unique unique).sublist fewer,
      fun tag member => since.initial tag (fewer.subset member)⟩

theorem UniqueNames.initial : UniqueNames Server.initial.nametags := .nil

/-- Every event keeps the names apart. A login enters the initial name, a line is a sequence of
renamings, and a departure takes a name away. -/
theorem serve_unique {event : Event} (unique : UniqueNames s.nametags)
    (served : serve s event = .ok after) : UniqueNames after.nametags := by
  cases event with
  | accept userIp port =>
    rcases acceptClient_nametags served with same | added
    · rwa [same]
    · rw [added, UniqueNames, List.pairwise_append]
      refine ⟨unique, List.pairwise_singleton _ _, fun tag _ other last same => ?_⟩
      rw [List.mem_singleton.mp last] at same
      exact same
  | line fd chunk world => exact (clientLine_names served).unique unique
  | closed fd =>
    obtain ⟨cli, -, left⟩ := bind_eq_ok.mp served
    exact unique.sublist (logout_nametags left)

end Events

/-- In every state of a run, with departures of either kind: two records have the same name only
if it is the initial one; a line gives nobody the initial name who did not have it; and a `name`
command that is refused changes no record.

The names are seen together with the clients that have them, and nothing else of the state is in
the invariant: only `name` and the logins and departures change that. -/
theorem nicknames_unique {events : List Event} {s : Server} (run : Run system always events s) :
    s.clientTable.Pairwise (fun c d => c.userName = d.userName → c.userName = noName) ∧
    (∀ fd chunk world after, serve s (.line fd chunk world) = .ok after →
      ∀ c ∈ after.clientTable, c.userName = noName →
        ∃ d ∈ s.clientTable, d.made = c.made ∧ d.userName = noName) ∧
    ∀ (t after : Server) iter cli arguments newName status,
      builtin t iter cli arguments = .ok (after, status) → arguments[0]? = some (str "name") →
      arguments[1]? = some newName → (∃ c ∈ t.clientTable, c.userName = newName) →
      after.clientTable = t.clientTable := by
  refine ⟨?_, ?_, ?_⟩
  · have unique : UniqueNames s.nametags :=
      run.invariant (fun s => UniqueNames s.nametags) UniqueNames.initial
        (fun _ _ _ unique _ _ served => serve_unique unique served)
    exact List.pairwise_map.mp unique
  · intro fd chunk world after served c member initial
    have before := (clientLine_names served).initial c.nametag (List.mem_map_of_mem member) initial
    obtain ⟨d, inTable, same⟩ := List.mem_map.mp before
    exact ⟨d, inTable, congrArg Nametag.made same,
      (congrArg Nametag.userName same).trans initial⟩
  · intro t after iter cli arguments newName status built first second taken
    rw [builtin_name t iter cli first] at built
    obtain ⟨word, isArg, built⟩ := bind_eq_ok.mp built
    rw [arg, second] at isArg
    cases isArg
    obtain ⟨named, names, built⟩ := bind_eq_ok.mp built
    cases built
    exact name_refused names taken

/-- Two clients want the same name, and the one who has got it closes its connection. Its
descriptor is the id of the fourth client, whose record is erased. -/
def sameNameTwice : List Event :=
  [.accept (str "127.0.0.1") 4001, .accept (str "127.0.0.1") 4002,
    .accept (str "127.0.0.1") 4003, .accept (str "127.0.0.1") 4004,
    .line 4 (str "name ada\n") World.plain, .line 5 (str "name ada\n") World.plain, .closed 4]

/-- The names are still apart. -/
theorem nicknames_unique_sameNameTwice : ∃ s, Run system always sameNameTwice s ∧
    s.clientTable.map ClientInfo.userName = [str "ada", noName, noName] ∧
    s.clientTable.Pairwise (fun c d => c.userName = d.userName → c.userName = noName) := by
  have plays : ((play system always system.start sameNameTwice).map (fun s =>
      decide (s.clientTable.map ClientInfo.userName = [str "ada", noName, noName]))) = some true := by
    decide +kernel
  obtain ⟨s, played, names⟩ := Option.map_eq_some_iff.mp plays
  have run := Run.played sameNameTwice s played
  exact ⟨s, run, of_decide_eq_true names, (nicknames_unique run).1⟩

end NetProg.SingleProc
