import NetProg.SingleProc.Ids

/-!
# Who user pipes are between

A user pipe lies in the record of its source and names its target by id. Ids
are handed out again after a departure, so a pipe that outlived one of its two
clients would come to belong to somebody else. It does not: creation checks
that the target is logged in and has no pipe from this source yet, marking
changes neither id, and a departure takes all pipes to its id along with the
record that holds the pipes from it.
-/

namespace NetProg.SingleProc

open Loops Outcomes Runs

/-- Every pipe has the id of its record for a source and the id of some record for a target, and
no record has two pipes to one target. So the ids of a pipe tell who it is between. -/
structure Named (holders : List Holder) : Prop where
  source : ∀ h ∈ holders, ∀ u ∈ h.userpipeVector, u.sourceId = h.id
  target : ∀ h ∈ holders, ∀ u ∈ h.userpipeVector, u.targetId ∈ holders.map Holder.id
  single : ∀ h ∈ holders, (h.userpipeVector.map UserPipeFd.targetId).Nodup

namespace Named

/-- A record may get another vector that names its pipes as well. -/
theorem revise {holders : List Holder} (named : Named holders) {i : Nat} {h : Holder}
    (found : holders[i]? = some h) (vector : List UserPipeFd)
    (source : ∀ u ∈ vector, u.sourceId = h.id)
    (target : ∀ u ∈ vector, u.targetId ∈ holders.map Holder.id)
    (single : (vector.map UserPipeFd.targetId).Nodup) :
    Named (holders.modify i ({ · with userpipeVector := vector })) := by
  have ids : (holders.modify i ({ · with userpipeVector := vector })).map Holder.id =
      holders.map Holder.id :=
    (map_modify holders i ({ · with userpipeVector := vector }) (fun id => id) Holder.id
      (fun _ _ => rfl)).trans (List.modify_id i _)
  constructor
  · intro g member
    rcases mem_modify found member with rfl | old
    · exact source
    · exact named.source g old
  · intro g member
    rw [ids]
    rcases mem_modify found member with rfl | old
    · exact target
    · exact named.target g old
  · intro g member
    rcases mem_modify found member with rfl | old
    · exact single
    · exact named.single g old

/-- Some pipes of a record may go. -/
theorem remove {holders : List Holder} (named : Named holders) {i : Nat} {h : Holder}
    (found : holders[i]? = some h) (keep : UserPipeFd → Bool) :
    Named (holders.modify i ({ · with userpipeVector := h.userpipeVector.filter keep })) := by
  have member : h ∈ holders := List.mem_of_getElem? found
  refine named.revise found _ ?_ ?_ ?_
  · intro u inside
    exact named.source h member u (List.mem_of_mem_filter inside)
  · intro u inside
    exact named.target h member u (List.mem_of_mem_filter inside)
  · exact (named.single h member).sublist (List.filter_sublist.map _)

/-- Only ids and user pipes matter. -/
theorem congr {holders others : List Holder} (named : Named holders)
    (same : others.map (fun h => (h.id, h.userpipeVector)) =
      holders.map (fun h => (h.id, h.userpipeVector))) : Named others := by
  have ids : others.map Holder.id = holders.map Holder.id := by
    simpa [Function.comp_def] using congrArg (List.map Prod.fst) same
  have original {g : Holder} (member : g ∈ others) :
      ∃ h ∈ holders, h.id = g.id ∧ h.userpipeVector = g.userpipeVector := by
    have paired : (g.id, g.userpipeVector) ∈ holders.map (fun h => (h.id, h.userpipeVector)) :=
      same ▸ List.mem_map_of_mem member
    obtain ⟨h, old, equal⟩ := List.mem_map.mp paired
    exact ⟨h, old, (Prod.mk.inj equal).1, (Prod.mk.inj equal).2⟩
  constructor
  · intro g member
    obtain ⟨h, old, sameId, sameVector⟩ := original member
    rw [← sameId, ← sameVector]
    exact named.source h old
  · intro g member
    obtain ⟨h, old, -, sameVector⟩ := original member
    rw [ids, ← sameVector]
    exact named.target h old
  · intro g member
    obtain ⟨h, old, -, sameVector⟩ := original member
    rw [← sameVector]
    exact named.single h old

/-- Only numbered pipes change. -/
theorem renumber {holders : List Holder} (named : Named holders) (i : Nat)
    (pipeVector : List PipeFd) :
    Named (holders.modify i ({ · with pipeVector := pipeVector })) := by
  apply named.congr
  exact (map_modify holders i ({ · with pipeVector := pipeVector }) (fun route => route)
    (fun h => (h.id, h.userpipeVector)) (fun _ _ => rfl)).trans (List.modify_id i _)

/-- A client enters without pipes, under an id nobody has. -/
theorem enter {t : Tables} (named : Named t.holders) (fd id : Int) :
    Named (t.enter fd id).holders := by
  constructor
  · intro h member
    rcases List.mem_append.mp member with old | new
    · exact named.source h old
    · rw [List.mem_singleton.mp new]
      simp
  · intro h member u inside
    rcases List.mem_append.mp member with old | new
    · rw [Tables.enter, List.map_append]
      exact List.mem_append_left _ (named.target h old u inside)
    · rw [List.mem_singleton.mp new] at inside
      simp at inside
  · intro h member
    rcases List.mem_append.mp member with old | new
    · exact named.single h old
    · rw [List.mem_singleton.mp new]
      simp

/-- A client leaves, and no pipe to it stays. -/
theorem depart {t : Tables} (named : Named t.holders) (id fd : Int) (p : Process) :
    Named (t.depart id fd p).holders := by
  have original {g : Holder} (member : g ∈ (t.depart id fd p).holders) :
      ∃ h ∈ t.holders, h.id ≠ id ∧ g = h.without id := by
    obtain ⟨h, inside, rfl⟩ := List.mem_map.mp member
    obtain ⟨old, other⟩ := List.mem_filter.mp inside
    exact ⟨h, old, by simpa using other, rfl⟩
  constructor
  · intro g member u inside
    obtain ⟨h, old, -, rfl⟩ := original member
    exact named.source h old u (List.mem_of_mem_filter inside)
  · intro g member u inside
    obtain ⟨h, old, -, rfl⟩ := original member
    obtain ⟨pending, other⟩ := List.mem_filter.mp inside
    have distinct : u.targetId ≠ id := by simpa using other
    obtain ⟨f, holds, isTarget⟩ := List.mem_map.mp (named.target h old u pending)
    simp only [Tables.depart, map_id_without]
    refine List.mem_map.mpr ⟨f, List.mem_filter.mpr ⟨holds, ?_⟩, isTarget⟩
    simpa [isTarget] using distinct
  · intro g member
    obtain ⟨h, old, -, rfl⟩ := original member
    exact (named.single h old).sublist (List.filter_sublist.map _)

end Named

/-- Reading a word keeps the pipes named. A pipe that is created is named after its client and a
target to which none was pending, and a pipe that is taken keeps its names. -/
theorem Reads.named {job : Job} {f : Frame} {word : Str} {rest : List Str} {step : Step}
    (reads : Reads job f word rest step) (agree : Agree f.server.tables)
    (named : Named f.server.tables.holders) : Named (stepServer step).tables.holders := by
  cases reads with
  | prog | argument | missing | exists_ | absent | redirectOut | redirectIn => exact named
  | pipe =>
    simp only [stepServer, Frame.pipeTo, tables_pipeVector]
    exact named.renumber _ _
  | @userOut targetId mark cli later same number looked marked isCli fresh =>
    have found := holders_getElem isCli
    have member : cli.holder ∈ f.server.tables.holders := List.mem_of_getElem? found
    simp only [stepServer, Frame.sendTo, Frame.endLine, tables_userpipeVector]
    refine named.revise found _ ?_ ?_ ?_
    · intro u inside
      rcases List.mem_append.mp inside with old | new
      · exact named.source _ member u old
      · rw [List.mem_singleton.mp new]
        rfl
    · intro u inside
      rcases List.mem_append.mp inside with old | new
      · exact named.target _ member u old
      · rw [List.mem_singleton.mp new]
        exact agree.marked looked marked
    · simp only [UserPipes.createUserPipe, List.map_append, List.map_cons, List.map_nil]
      refine List.nodup_append.mpr ⟨named.single _ member, by simp, ?_⟩
      intro id pending other isTarget
      obtain ⟨u, inside, rfl⟩ := List.mem_map.mp pending
      rw [List.mem_singleton.mp isTarget]
      exact fresh u inside
  | @userIn sourceId mark sourceCli cli taken later same number looked marked isSource isCli takes =>
    have found := holders_getElem isSource
    have member : sourceCli.holder ∈ f.server.tables.holders := List.mem_of_getElem? found
    obtain ⟨before, after, whole, result, -⟩ := UserPipes.markUserPipe_split takes
    have original {u : UserPipeFd} (inside : u ∈ taken.2) :
        ∃ v ∈ sourceCli.userpipeVector, v.sourceId = u.sourceId ∧ v.targetId = u.targetId := by
      rw [result] at inside
      rw [whole]
      rcases List.mem_append.mp inside with early | late
      · exact ⟨u, List.mem_append_left _ early, rfl, rfl⟩
      · rcases List.mem_cons.mp late with rfl | later
        · exact ⟨_, List.mem_append_right _ List.mem_cons_self, rfl, rfl⟩
        · exact ⟨u, List.mem_append_right _ (List.mem_cons_of_mem _ later), rfl, rfl⟩
    simp only [stepServer, Frame.receiveFrom, Frame.endLine, tables_userpipeVector]
    refine named.revise found _ ?_ ?_ ?_
    · intro u inside
      obtain ⟨v, old, sameSource, -⟩ := original inside
      rw [← sameSource]
      exact named.source _ member v old
    · intro u inside
      obtain ⟨v, old, -, sameTarget⟩ := original inside
      rw [← sameTarget]
      exact named.target _ member v old
    · have targets : taken.2.map UserPipeFd.targetId =
          sourceCli.userpipeVector.map UserPipeFd.targetId := by
        rw [result, whole]
        simp
      rw [targets]
      exact named.single _ member

/-- Erasing used pipes keeps the others named. -/
theorem eraseUsed_named {ids : List Int} {server after : Server}
    (named : Named server.tables.holders) (erased : ids.foldlM eraseUsed server = .ok after) :
    Named after.tables.holders := by
  induction ids generalizing server with
  | nil =>
    cases erased
    exact named
  | cons id rest ih =>
    rw [List.foldlM_cons] at erased
    obtain ⟨one, first, others⟩ := bind_eq_ok.mp erased
    obtain ⟨candidate, found, rfl⟩ := eraseUsed_eq_ok first
    refine ih ?_ others
    rw [tables_userpipeVector, UserPipes.eraseUserPipeVector_fst]
    exact named.remove (holders_getElem found) _

/-- An execution keeps the pipes named. -/
theorem Executes.named {job : Job} {f next : Frame} (executes : Executes job f next)
    (named : Named f.server.tables.holders) : Named next.server.tables.holders := by
  obtain ⟨announced, cli, needClosePipe, inFd, inPipe, p, ran, status, detached, erased, announces,
    -, -, built, detaches, erases, rfl⟩ := executes.steps
  have told : announced.tables = f.server.tables := (announce_keeps job f).returned announces
  have kept := (builtin_keeps _ _ _ _).returned built
  obtain ⟨_, -, rfl⟩ := detach_eq_ok detaches
  refine eraseUsed_named ?_ erases
  rw [tables_pipeVector, kept, tables_logged, tables_withProcess, told]
  exact named.renumber _ _

/-- One round keeps the pipes named: a `>t` makes one only for somebody who is logged in and to
whom there is none yet. -/
theorem round_named {job : Job} {f : Frame} {step : Step} (agree : Agree f.server.tables)
    (named : Named f.server.tables.holders) (ran : round job f = .ok step) :
    Named (stepServer step).tables.holders := by
  rw [round] at ran
  split at ran
  · obtain ⟨next, rfl, executes⟩ := execute_executes ran
    exact executes.named named
  · split at ran
    · cases ran
      exact named
    · rw [← initFd_server f job.sockfd] at agree named
      exact (readWord_reads ran).named agree named

/-- A line keeps the pipes named. -/
theorem clientExec_named {world : World} {s ended : Server} {iter : Nat} {cliMsg : Str}
    {status : Int} (agree : Agree s.tables) (named : Named s.tables.holders)
    (ran : clientExec world s iter cliMsg = .ok (ended, status)) : Named ended.tables.holders := by
  rw [clientExec] at ran
  obtain ⟨cli, -, ran⟩ := bind_eq_ok.mp ran
  simp only at ran
  split at ran
  · cases ran
    exact named
  · obtain ⟨⟨done, _⟩, looped, ran⟩ := bind_eq_ok.mp ran
    cases ran
    have both := rounds_keep (fun s => Agree s.tables ∧ Named s.tables.holders)
      (fun f step held one => ⟨held.1.same (round_registry one), round_named held.1 held.2 one⟩)
      ⟨agree.same (.process _ _), named⟩ looped
    exact both.2

/-- Every move keeps the pipes named. -/
theorem Named.moves {s : Server} {event : Event} {u : Tables} (named : Named s.tables.holders)
    (agree : Agree s.tables) (moves : Moves s event u) : Named u.holders := by
  cases moves with
  | refused => exact named
  | enters => exact named.enter _ _
  | stays execed => exact clientExec_named agree named execed
  | exits execed => exact (clientExec_named agree named execed).depart _ _ _
  | closes => exact named.depart _ _ _

/-- A client that has just entered has no pipes and an id nobody else has. -/
theorem Moves.entered {s after : Server} {userIp : Str} {port : Nat} {new : ClientInfo}
    (moves : Moves s (.accept userIp port) after.tables) (agree : Agree after.tables)
    (extended : after.clientTable = s.clientTable ++ [new]) :
    new.userpipeVector = [] ∧ new.id ∉ s.tables.holders.map Holder.id := by
  have holders : after.tables.holders = s.tables.holders ++ [new.holder] := by
    simp [Server.tables, extended]
  constructor
  · generalize tables : after.tables = u at moves holders
    cases moves with
    | refused =>
      have shorter := congrArg List.length holders
      simp at shorter
    | enters =>
      have same := List.append_cancel_left (holders.symm.trans rfl)
      exact congrArg Holder.userpipeVector (List.cons.inj same).1
  · have distinct := agree.distinct
    rw [holders, List.map_append] at distinct
    intro old
    exact (List.nodup_append.mp distinct).2.2 _ old _ (List.mem_singleton.mpr rfl) rfl

/-- In every run of logins, lines and departures by `exit`, pipes are named: the pipes to a client
are erased when it leaves, and its own go with its record. -/
theorem run_named {events : List Event} {s : Server} (run : Run system ByExit events s) :
    Agree s.tables ∧ Named s.tables.holders := by
  refine run.invariant (fun s => Agree s.tables ∧ Named s.tables.holders) ?_ ?_
  · refine ⟨Agree.initial, ?_⟩
    constructor <;> simp [system, Server.tables, Server.initial]
  · intro state event after held _ byExit served
    have moves := serve_moves held.1 byExit.closesOwnId served
    exact ⟨held.1.moves moves, held.2.moves held.1 moves⟩

/-- Between lines every user pipe is from the client that holds it to a client that is logged in,
at most one for each target. So a client that logs in next, under whatever id, has no pipe to it
or from it.

The runs are those with departures by `exit`, in which the pipes to the departing client go with
it. Every round of a line keeps the invariant, and it is one of the tables alone. -/
theorem user_pipes_follow_ids {events : List Event} {s : Server}
    (run : Run system ByExit events s) :
    (∀ c ∈ s.clientTable, (∀ u ∈ c.userpipeVector, u.sourceId = c.id) ∧
      (c.userpipeVector.map UserPipeFd.targetId).Nodup ∧
      ∀ u ∈ c.userpipeVector, ∃ d ∈ s.clientTable, d.id = u.targetId) ∧
    ∀ userIp port, ∃ after, serve s (.accept userIp port) = .ok after ∧
      ∀ new ∈ after.clientTable.drop s.clientTable.length,
        ∀ c ∈ after.clientTable, ∀ u ∈ c.userpipeVector,
          u.sourceId ≠ new.id ∧ u.targetId ≠ new.id := by
  obtain ⟨agree, named⟩ := run_named run
  constructor
  · intro c member
    have holder : c.holder ∈ s.tables.holders := List.mem_map_of_mem member
    refine ⟨named.source _ holder, named.single _ holder, ?_⟩
    intro u inside
    obtain ⟨h, holds, isTarget⟩ := List.mem_map.mp (named.target _ holder u inside)
    obtain ⟨d, logged, rfl⟩ := List.mem_map.mp holds
    exact ⟨d, logged, isTarget⟩
  · intro userIp port
    obtain ⟨after, served, entered⟩ := acceptClient_enters s userIp port
    refine ⟨after, served, ?_⟩
    have moves : Moves s (.accept userIp port) after.tables := serve_moves agree trivial served
    rcases entered with ⟨-, same, -⟩ | ⟨-, -, -, -, new, extended⟩
    · simp [same]
    · obtain ⟨empty, unused⟩ := moves.entered (agree.moves moves) extended
      intro last isLast c member u inside
      rw [extended, List.drop_left, List.mem_singleton] at isLast
      subst isLast
      rw [extended] at member
      rcases List.mem_append.mp member with old | isNew
      · have holder : c.holder ∈ s.tables.holders := List.mem_map_of_mem old
        constructor
        · intro same
          rw [named.source _ holder u inside] at same
          exact unused (same ▸ List.mem_map_of_mem holder)
        · intro same
          exact unused (same ▸ named.target _ holder u inside)
      · rw [List.mem_singleton.mp isNew, empty] at inside
        cases inside

/-- Two clients log in, the first sends the second a user pipe and the second
leaves. -/
def pipeToLeaver : List Event :=
  [.accept (str "127.0.0.1") 4001, .accept (str "127.0.0.1") 4002,
    .line 4 (str "ls >2\n") World.plain, .line 5 (str "exit\n") World.plain]

/-- The client that gets id 2 next does not inherit the pipe. -/
theorem user_pipes_follow_ids_after_exit : ∃ s, Run system ByExit pipeToLeaver s ∧
    ∃ after, serve s (.accept (str "127.0.0.1") 4003) = .ok after ∧
      ∀ new ∈ after.clientTable.drop s.clientTable.length,
        ∀ c ∈ after.clientTable, ∀ u ∈ c.userpipeVector, u.targetId ≠ new.id := by
  have plays : (play system ByExit system.start pipeToLeaver).isSome = true := by decide +kernel
  obtain ⟨s, played⟩ := Option.isSome_iff_exists.mp plays
  have run := Run.played pipeToLeaver s played
  obtain ⟨after, served, fresh⟩ := (user_pipes_follow_ids run).2 (str "127.0.0.1") 4003
  exact ⟨s, run, after, served, fun new isNew c member u inside =>
    (fresh new isNew c member u inside).2⟩

end NetProg.SingleProc
