import NetProg.SingleProc.KeepsClear

/-!
# The descriptors of the server

Between events every record relies on its socket and its pipes, nothing else
relies on them, and nothing is marked. Lines that keep clear, logins and
departures keep it so, and as long as they do, every close of a pipe end hits
that very end or a number that is not open.
-/

namespace NetProg.SingleProc

open Loops Outcomes Runs

variable {honest : Prop} {live dying : List (Int × Object)}

/-- The frames of a line keep clear of spoiling words. -/
def Careful (strict : Bool) (s : Server) : Event → Prop
  | .line fd chunk world =>
    ∀ v ∈ visited world s (s.getClientByFd fd) (cliMsg chunk), KeepsClear strict v.1 v.2
  | _ => True

instance decidableCareful (strict : Bool) (s : Server) :
    (event : Event) → Decidable (Careful strict s event)
  | .line fd chunk world =>
    inferInstanceAs (Decidable (∀ v ∈ visited world s (s.getClientByFd fd) (cliMsg chunk),
      KeepsClear strict v.1 v.2))
  | .accept _ _ => inferInstanceAs (Decidable True)
  | .closed _ => inferInstanceAs (Decidable True)

/-- The next word of a line takes no pipe again whose number has been handed out. -/
def SparesNext (job : Job) (f : Frame) : Prop :=
  f.isFinalArgv = false → f.isFirstArgv = false → ∀ word ∈ f.cmds.head?, Spares job f word

instance (job : Job) (f : Frame) : Decidable (SparesNext job f) := by
  rw [SparesNext]
  infer_instance

/-- Every pipe to a client that is marked has the number of its write end still free. -/
def SparesLeaver (s : Server) (id : Int) : Prop :=
  ∀ c ∈ s.clientTable, ∀ u ∈ c.userpipeVector, u.targetId = id → u.isUsed = true →
    s.process.object u.inFd = none

instance (s : Server) (id : Int) : Decidable (SparesLeaver s id) := by
  rw [SparesLeaver]
  infer_instance

/-- The server at the start of a line. -/
theorem Relied.begun {s : Server} (relied : Relied honest s.tables) (cli : ClientInfo) :
    Relied honest (beginLine s cli).tables where
  agree := relied.agree.same (.process _ _)
  account := (relied.account.dup2 cli.fd 1 (by decide) (by decide)).dup2 cli.fd 2 (by decide)
    (by decide)

/-- The variables at the start of a line rely on nothing. -/
theorem Relied.owns {s : Server} (relied : Relied honest s.tables) {iter : Nat}
    {cli : ClientInfo} (found : s.clientTable[iter]? = some cli) (sockfd : Int)
    (cmds : List Str) : Owns honest iter (Frame.initial s sockfd cmds) where
  agree := relied.agree
  present := ⟨cli, found⟩
  account := ⟨[], relied.account, fun closing => by simp [Frame.initial] at closing⟩
  taking closing := by simp [Frame.initial] at closing

/-- A line that takes no number that has been handed out keeps what the tables rely on, by the
rule for a line with what a line owns as the invariant. -/
theorem Relied.clientExec {world : World} {s : Server} {iter : Nat} {cliMsg : Str}
    (relied : Relied False s.tables)
    (spares : ∀ v ∈ visited world s iter cliMsg, SparesNext v.1 v.2) :
    Ends (clientExec world s iter cliMsg) (fun result => Relied False result.1.tables)
      (fun _ => True) := by
  refine clientExec_ends (fun job f => Owns False job.cli f) SparesNext
    (fun s => Relied False s.tables) (fun _ => True) ?_ ?_ ?_ ?_ spares
  · exact fun _ => trivial
  · exact fun cli found => ⟨relied.begun cli, (relied.begun cli).owns found cli.fd _⟩
  · intro job f _ owns clear
    exact (owns.round (fun impossible => impossible.elim) clear).mono (fun _ kept => kept)
      (fun _ _ => trivial)
  · intro ended fd text kept
    exact kept

theorem Settled.relied {t : Tables} (settled : Settled honest t) : Relied honest t :=
  ⟨settled.agree, settled.account⟩

/-- A line that is careful leaves the tables settled, and if it fails then with every close so far
proper where that is asked for. -/
theorem Settled.clientExec {strict : Bool} {world : World} {s : Server} {iter : Nat} {cliMsg : Str}
    (settled : Settled (strict = true) s.tables)
    (careful : ∀ v ∈ visited world s iter cliMsg, KeepsClear strict v.1 v.2) :
    Ends (clientExec world s iter cliMsg)
      (fun result => Settled (strict = true) result.1.tables) (FailsSound (strict = true)) := by
  refine clientExec_ends (fun job f => Owns (strict = true) job.cli f ∧ Tidy f) (KeepsClear strict)
    (fun s => Settled (strict = true) s.tables) (FailsSound (strict = true)) ?_ ?_ ?_ ?_ careful
  · intro _
    exact settled.account.proper
  · intro cli found
    have begun := settled.relied.begun cli
    have unmarked : (beginLine s cli).tables.marks = [] := settled.unmarked
    refine ⟨⟨begun.agree, begun.account, unmarked⟩, begun.owns found cli.fd _, fun m member => ?_,
      fun taken => by simp [Frame.initial] at taken⟩
    simp only [Frame.initial, unmarked] at member
    cases member
  · intro job f _ held clear
    exact held.1.round_settled held.2 clear
  · intro ended fd text kept
    exact kept

/-- What stays of a record when the client with an id departs, and what goes. -/
def Holder.stays (id : Int) (h : Holder) : List (Int × Object) :=
  if h.id = id then [] else (h.without id).entries

/-- The entries that go when the client with an id leaves: all of its own, and of another client
the user pipes that were for it. -/
def Holder.goes (id : Int) (h : Holder) : List (Int × Object) :=
  if h.id = id then h.entries else UserPipes.ends (h.userpipeVector.filter (·.targetId = id))

theorem entries_stays_goes (id : Int) (h : Holder) :
    h.entries.Perm (h.stays id ++ h.goes id) := by
  by_cases leaving : h.id = id
  · simp [Holder.stays, Holder.goes, leaving]
  · have apart : (h.userpipeVector.filter (·.targetId ≠ id) ++
        h.userpipeVector.filter (·.targetId = id)).Perm h.userpipeVector := by
      have both := List.filter_append_perm (fun u : UserPipeFd => decide (u.targetId ≠ id))
        h.userpipeVector
      simpa using both
    have ends : (UserPipes.ends h.userpipeVector).Perm
        (UserPipes.ends (h.userpipeVector.filter (·.targetId ≠ id)) ++
          UserPipes.ends (h.userpipeVector.filter (·.targetId = id))) :=
      (apart.symm.flatMap_right _).trans (by simp [UserPipes.ends])
    simp only [Holder.stays, Holder.goes, leaving, if_false, Holder.entries, Holder.without,
      List.cons_append, List.append_assoc]
    exact List.Perm.cons _ (ends.append_left _)

theorem depart_entries (t : Tables) (id fd : Int) (p : Process) :
    (t.depart id fd p).entries = (t.msock, .listener) :: t.holders.flatMap (Holder.stays id) := by
  apply congrArg (List.cons (t.msock, Object.listener))
  simp only [Tables.depart]
  induction t.holders with
  | nil => rfl
  | cons h rest ih =>
    by_cases leaving : h.id = id
    · rw [List.filter_cons_of_neg (by simpa using leaving), ih, List.flatMap_cons]
      simp [Holder.stays, leaving]
    · rw [List.filter_cons_of_pos (by simpa using leaving), List.map_cons, List.flatMap_cons, ih,
        List.flatMap_cons]
      simp [Holder.stays, leaving]

/-- What a departing client relied on is given up, and every pipe to it. -/
theorem depart_account {t : Tables} (id fd : Int) (p : Process)
    (account : Account honest t.process t.entries []) :
    Account honest t.process (t.depart id fd p).entries (t.holders.flatMap (Holder.goes id)) := by
  have each : (t.holders.flatMap Holder.entries).Perm
      (t.holders.flatMap (fun h => h.stays id ++ h.goes id)) :=
    List.Perm.flatMap_left _ (fun h _ => entries_stays_goes id h)
  have apart := List.flatMap_append_perm t.holders (Holder.stays id) (Holder.goes id)
  have whole : t.entries.Perm
      ((t.depart id fd p).entries ++ t.holders.flatMap (Holder.goes id)) := by
    rw [depart_entries, List.cons_append]
    exact List.Perm.cons _ (each.trans apart.symm)
  apply account.weaken
  · intro e member
    exact whole.symm.subset (List.mem_append_left _ member)
  · simpa using whole.symm.subperm

/-- `EraseClientVector` closes pipes to the departing client, given up before. -/
theorem eraseClientVector_account (id : Int) (clients : List ClientInfo) {p : Process}
    (account : Account honest p live dying)
    (given : ∀ c ∈ clients, ∀ u ∈ c.userpipeVector, u.targetId = id →
      ((u.inFd, .writeEnd u.made) ∈ dying ∨ p.object u.inFd = none) ∧
        (u.outFd, .readEnd u.made) ∈ dying) :
    Account honest (eraseClientVector id clients p).2 live dying := by
  induction clients generalizing p with
  | nil => exact account
  | cons c rest ih =>
    refine ih (UserPipes.eraseTarget_account account (given c List.mem_cons_self))
      (fun other member u inside isTarget => ?_)
    obtain ⟨written, read⟩ := given other (List.mem_cons_of_mem c member) u inside isTarget
    exact ⟨written.imp_right (UserPipes.shuts_eraseTarget id c.userpipeVector p).absent, read⟩

/-- A departure that hits no number that has been handed out. -/
theorem Relied.depart {s : Server} {cli : ClientInfo} {iter : Nat} {fd : Int}
    (relied : Relied honest s.tables) (found : s.clientTable[iter]? = some cli)
    (isFd : cli.fd = fd) (spares : SparesLeaver s cli.id) : Relied honest (s.tables.depart cli.id fd
      ((eraseClientVector cli.id s.clientTable s.process).2.close fd)) := by
  subst isFd
  have member : cli.holder ∈ s.tables.holders := List.mem_of_getElem? (holders_getElem found)
  have given := depart_account cli.id cli.fd
    ((eraseClientVector cli.id s.clientTable s.process).2.close cli.fd) relied.account
  have closed := eraseClientVector_account cli.id s.clientTable given ?_
  · refine ⟨relied.agree.depart member _, (closed.close (o := .socket cli.made) ?_).forget⟩
    refine List.mem_flatMap.mpr ⟨cli.holder, member, ?_⟩
    simp [Holder.goes, Holder.entries, ClientInfo.holder]
  · intro c inTable u inside isTarget
    have holder : c.holder ∈ s.tables.holders := List.mem_map_of_mem inTable
    have goes : ∀ e ∈ u.ends, e ∈ s.tables.holders.flatMap (Holder.goes cli.id) := by
      intro e isEnd
      refine List.mem_flatMap.mpr ⟨c.holder, holder, ?_⟩
      rw [Holder.goes]
      split
      · exact List.mem_cons_of_mem _ (List.mem_append_right _ (UserPipes.mem_ends inside isEnd))
      · exact UserPipes.mem_ends (List.mem_filter.mpr ⟨inside, by simpa using isTarget⟩) isEnd
    cases used : u.isUsed with
    | true =>
      exact ⟨Or.inr (spares c inTable u inside isTarget used),
        goes _ (by simp [UserPipeFd.ends, used])⟩
    | false =>
      exact ⟨Or.inl (goes _ (by simp [UserPipeFd.ends, used])),
        goes _ (by simp [UserPipeFd.ends, used])⟩

/-- Where nothing is marked, every departure is such a one. -/
theorem Settled.spares {s : Server} (settled : Settled honest s.tables) (id : Int) :
    SparesLeaver s id := by
  intro c inTable u inside _ used
  have marked : (c.id, u) ∈ s.tables.marks :=
    mem_marks.mpr ⟨c.holder, List.mem_map_of_mem inTable, rfl, inside, used⟩
  rw [settled.unmarked] at marked
  cases marked

/-- A departure marks nothing. -/
theorem marks_depart {t : Tables} {id fd : Int} {p : Process} {m : Int × UserPipeFd}
    (marked : m ∈ (t.depart id fd p).marks) : m ∈ t.marks := by
  obtain ⟨g, holds, sameId, inside, used⟩ := mem_marks.mp marked
  obtain ⟨h, kept, rfl⟩ := List.mem_map.mp holds
  exact mem_marks.mpr ⟨h, List.mem_of_mem_filter kept, sameId, List.mem_of_mem_filter inside, used⟩

/-- The tables are settled again after a departure. -/
theorem Settled.depart {s : Server} {cli : ClientInfo} {iter : Nat} {fd : Int}
    (settled : Settled honest s.tables) (found : s.clientTable[iter]? = some cli)
    (isFd : cli.fd = fd) : Settled honest (s.tables.depart cli.id fd
      ((eraseClientVector cli.id s.clientTable s.process).2.close fd)) := by
  have departed := settled.relied.depart found isFd (settled.spares cli.id)
  refine ⟨departed.agree, departed.account, List.eq_nil_iff_forall_not_mem.mpr (fun m marked => ?_)⟩
  have old := marks_depart marked
  rw [settled.unmarked] at old
  cases old

/-- After an `exit` the standard descriptors are copies of descriptor 0. -/
theorem restore_account {p : Process} (account : Account honest p live dying) :
    Account honest (restore p) live dying := by
  have input : ((p.close 1).close 2).object 0 ≠ none := by
    rw [Process.object_close, Process.object_close]
    exact account.standard 0 (by decide) (by decide)
  have output : (((p.close 1).close 2).dup2 0 1).object 0 ≠ none := by
    rwa [Process.object_dup2 _ _ _ _ (by decide)]
  rw [restore]
  apply account.standardOnly
  · intro n high
    rw [Process.object_dup2 _ _ _ _ (by omega), Process.object_dup2 _ _ _ _ (by omega),
      Process.object_close, Process.object_close, if_neg (by omega), if_neg (by omega)]
  · intro n nonneg below
    by_cases last : n = 2
    · subst last
      exact Process.object_dup2_open _ _ _ (by decide) (.inl output)
    · rw [Process.object_dup2 _ _ _ _ last]
      by_cases middle : n = 1
      · subst middle
        exact Process.object_dup2_open _ _ _ (by decide) (.inl input)
      · have first : n = 0 := by omega
        subst first
        rwa [Process.object_dup2 _ _ _ _ (by decide)]
  · simp
  · simp

/-- A connection that finds no free id leaves a descriptor nothing relies on. -/
theorem Relied.refused {s : Server} (relied : Relied honest s.tables) :
    Account honest s.process.accept.2 s.tables.entries [] := by
  apply relied.account.accept.weaken
  · intro e member
    exact List.mem_cons_of_mem _ member
  · rw [List.append_nil, List.append_nil]
    exact (List.sublist_cons_self _ s.tables.entries).subperm

/-- A client that enters relies on its socket. -/
theorem Relied.enter {s : Server} (relied : Relied honest s.tables) (id : Int) :
    Account honest s.process.accept.2 (s.tables.enter s.process.accept.1 id).entries [] := by
  apply relied.account.accept.perm
  simp only [Tables.enter, Tables.entries, List.flatMap_append, List.flatMap_cons,
    List.flatMap_nil, Holder.entries, NumberedPipes.ends_nil, UserPipes.ends_nil,
    List.append_nil, ← List.cons_append]
  exact List.perm_append_comm

theorem marks_enter (t : Tables) (fd id : Int) : (t.enter fd id).marks = t.marks := by
  simp only [Tables.marks, Tables.enter, List.flatMap_append]
  exact List.append_nil _

/-- The line that ends with `exit`, and who leaves. -/
def leaver (world : World) (s : Server) (fd : Int) (chunk : Str) : Option (Server × ClientInfo) :=
  match clientExec world s (s.getClientByFd fd) (cliMsg chunk) with
  | .error _ => none
  | .ok (ended, status) =>
    if status = -1 then (ended.clientTable[s.getClientByFd fd]?).map (ended, ·) else none

/-- An event that hits no number that has been handed out: no word takes a pipe again
whose number has been, and a client that leaves has no marked pipe whose number has been. -/
def Sparing (s : Server) : Event → Prop
  | .accept _ _ => True
  | .line fd chunk world =>
    (∀ v ∈ visited world s (s.getClientByFd fd) (cliMsg chunk), SparesNext v.1 v.2) ∧
      ∀ left ∈ leaver world s fd chunk, SparesLeaver left.1 left.2.id
  | .closed fd => ∀ cli ∈ s.clientTable[s.getClientByFd fd]?, SparesLeaver s cli.id

instance decidableSparing (s : Server) : (event : Event) → Decidable (Sparing s event)
  | .accept _ _ => isTrue trivial
  | .line _ _ _ => inferInstanceAs (Decidable ((∀ v ∈ _, _) ∧ ∀ left ∈ _, _))
  | .closed _ => inferInstanceAs (Decidable (∀ cli ∈ _, _))

/-- Logins, lines and departures that hit no number that has been handed out keep what
the tables rely on. -/
theorem Relied.moves {s : Server} {event : Event} {u : Tables} (relied : Relied False s.tables)
    (sparing : Sparing s event) (moves : Moves s event u) : Relied False u := by
  have agree := relied.agree.moves moves
  cases moves with
  | refused => exact ⟨agree, relied.refused⟩
  | enters => exact ⟨agree, relied.enter _⟩
  | stays execed => exact (relied.clientExec sparing.1).returned execed
  | @exits fd chunk world ended cli execed found isFd =>
    have kept : Relied False ended.tables := (relied.clientExec sparing.1).returned execed
    have leaves : leaver world s fd chunk = some (ended, cli) := by
      simp [leaver, execed, found]
    have departed := kept.depart found isFd (sparing.2 _ leaves)
    exact ⟨agree, restore_account departed.account⟩
  | closes found isFd => exact relied.depart found isFd (sparing _ found)

/-- Logins, careful lines and departures keep the tables settled. -/
theorem Settled.moves {strict : Bool} {s : Server} {event : Event} {u : Tables}
    (settled : Settled (strict = true) s.tables) (careful : Careful strict s event)
    (moves : Moves s event u) : Settled (strict = true) u := by
  have agree := settled.agree.moves moves
  cases moves with
  | refused => exact ⟨agree, settled.relied.refused, settled.unmarked⟩
  | enters => exact ⟨agree, settled.relied.enter _, (marks_enter _ _ _).trans settled.unmarked⟩
  | stays execed => exact (settled.clientExec careful).returned execed
  | exits execed found isFd =>
    have ended : Settled (strict = true) _ := (settled.clientExec careful).returned execed
    have departed := ended.depart found isFd
    exact ⟨agree, restore_account departed.account, departed.unmarked⟩
  | closes found isFd => exact settled.depart found isFd

/-- The listening socket is the only thing anybody relies on at the start. -/
theorem Settled.initial : Settled honest Server.initial.tables where
  agree := Agree.initial
  unmarked := rfl
  account := by
    have entries : Server.initial.tables.entries = [(3, .listener)] := by decide
    rw [entries]
    constructor
    · intro e member
      rw [List.mem_singleton.mp member]
      decide
    · intro e member
      cases member
    · decide
    · intro e member
      have same : e = (3, .listener) := by simpa using member
      subst same
      exact trivial
    · intro e member
      have same : e = (3, .listener) := by simpa using member
      subst same
      decide
    · intro n nonneg below
      have among : n = 0 ∨ n = 1 ∨ n = 2 := by omega
      rcases among with rfl | rfl | rfl <;> decide
    · intro _ c member
      cases member

/-- In every run of careful lines, the tables are settled: what settled tables have to do with
each of the moves is said once, and this is the induction. -/
theorem run_settled {strict : Bool} {events : List Event} {s : Server}
    (run : Run system (fun s e => ClosesOwnId s e ∧ Careful strict s e) events s) :
    Settled (strict = true) s.tables := by
  apply run.invariant (fun s => Settled (strict = true) s.tables) Settled.initial
  intro state event after settled _ met served
  exact settled.moves met.2 (serve_moves settled.agree met.1 served)

/-- Every close up to a failure was proper as well. -/
theorem Settled.fails {strict : Bool} {s : Server} {event : Event} {failure : Fault × Server}
    (settled : Settled (strict = true) s.tables) (byExit : ByExit s event)
    (careful : Careful strict s event) (failed : serve s event = .error failure) :
    FailsSound (strict = true) failure := by
  cases event with
  | accept userIp port =>
    obtain ⟨after, served, -⟩ := acceptClient_enters s userIp port
    cases served.symm.trans failed
  | line fd chunk world =>
    rcases bind_eq_error.mp failed with execFailed | ⟨⟨ended, status⟩, execed, leaveFailed⟩
    · exact (settled.clientExec careful).raised execFailed
    · have kept : Settled (strict = true) ended.tables :=
        (settled.clientExec careful).returned execed
      simp only at leaveFailed
      split at leaveFailed
      · rcases bind_eq_error.mp leaveFailed with missing | ⟨cli, isCli, outFailed⟩
        · rw [FailsSound, (client_eq_error.mp missing).2.2]
          exact kept.account.proper
        · have range := kept.agree.range (client_eq_ok.mp isCli)
          obtain ⟨left, out, -⟩ := logout_departs fd range.1 range.2
          rw [out] at outFailed
          cases outFailed
      · cases leaveFailed
  | closed fd => exact byExit.elim

/-- The runs of logins, lines and departures by `exit` whose lines keep clear of
words that spoil a closed number. -/
def KeepsNumbers (s : Server) (event : Event) : Prop := ByExit s event ∧ Careful true s event

instance (s : Server) (event : Event) : Decidable (KeepsNumbers s event) :=
  inferInstanceAs (Decidable (_ ∧ _))

/-- In every such run, every close of a pipe end hits the end it was meant for or a number that is
not open; so does every close before the failure of a next event.

Ends are told apart by serial numbers, and a close knows which end it was meant for. The tables
are settled between events, which says that all they list is open for the one that has it, and a
line that keeps its numbers closes nothing else. -/
theorem closes_hit_their_own_ends {events : List Event} {s : Server}
    (run : Run system KeepsNumbers events s) :
    (∀ c ∈ s.process.closes, c.Proper) ∧
    ∀ event failure, offers s event → KeepsNumbers s event →
      serve s event = .error failure → ∀ c ∈ failure.2.process.closes, c.Proper := by
  have settled : Settled (true = true) s.tables :=
    run_settled (run.weaken (fun _ _ met => ⟨met.1.closesOwnId, met.2⟩))
  constructor
  · exact settled.account.proper rfl
  · intro event failure _ met failed
    exact settled.fails met.1 met.2 failed rfl

/-- Two clients exchange two user pipes, one of them self-addressed, over
numbered pipes and redirections, and leave. -/
def exchange : List Event :=
  [.accept (str "127.0.0.1") 4001, .accept (str "127.0.0.1") 4002,
    .line 4 (str "ls | cat >2\n") World.plain,
    .line 5 (str "cat <1 | number |2 cat >2\n") World.plain,
    .line 5 (str "cat <2 > file\n") World.plain,
    .line 4 (str "exit\n") World.plain]

/-- Ends are closed in it, some of them twice. -/
theorem closes_hit_their_own_ends_in_exchange : ∃ s, Run system KeepsNumbers exchange s ∧
    s.process.closes ≠ [] ∧ ∀ c ∈ s.process.closes, c.Proper := by
  have plays : ((play system KeepsNumbers system.start exchange).map
      (fun s => decide (s.process.closes ≠ []))) = some true := by decide +kernel
  obtain ⟨s, played, closed⟩ := Option.map_eq_some_iff.mp plays
  have run := Run.played exchange s played
  exact ⟨s, run, of_decide_eq_true closed, (closes_hit_their_own_ends run).1⟩

/-- The second client takes a pipe in a line that ends in a user-pipe error; the
third connection gets the number of the closed write end. -/
def brokenOff : List Event :=
  [.accept (str "127.0.0.1") 4001, .accept (str "127.0.0.1") 4002,
    .line 4 (str "ls >2\n") World.plain,
    .line 5 (str "cat <1 >9\n") World.plain,
    .accept (str "127.0.0.1") 4003,
    .line 5 (str "cat <1\n") World.plain]

/-- Taking the pipe again closes the socket of the third client. -/
theorem broken_off_line_closes_a_socket : ∃ s, Run system ByExit brokenOff s ∧
    ∃ c ∈ s.process.closes, ∃ serial, c.found = some (.socket serial) ∧ ¬ c.Proper := by
  have plays : ((play system ByExit system.start brokenOff).map (fun s =>
      decide ((⟨7, some (.writeEnd 2), some (.socket 3)⟩ : Close) ∈ s.process.closes))) =
      some true := by decide +kernel
  obtain ⟨s, played, closed⟩ := Option.map_eq_some_iff.mp plays
  refine ⟨s, Run.played brokenOff s played, _, of_decide_eq_true closed, 3, rfl, by decide⟩

end NetProg.SingleProc
