import NetProg.SingleProc.Ownership

/-!
# The three tables of the server

`id_table`, `client_table` and the watched descriptors say who is logged in,
each in its own way. They agree as long as a departure finds the record it is
meant for, and as long as no two clients come to have one descriptor. The
first needs `EraseClientVector` to be called with an id, which it is after
`exit` and is not after a closed connection; the second is a matter of
descriptors not being closed under somebody else's feet.
-/

namespace NetProg.SingleProc

open Loops Outcomes Runs

/-- The tables of the server tell the same story: an id is marked if and only if exactly one
record has it, no two records have one descriptor, and the watched descriptors are those of the
records and the listening socket. -/
structure TablesAgree (s : Server) : Prop where
  idTable : ∀ i : Nat, 1 ≤ i → i ≤ maxClientSize →
    ((∃ mark, s.idTable[i - 1]? = some mark ∧ mark ≠ 0) ↔
      s.clientTable.countP (fun c => c.id = (i : Int)) = 1)
  inRange : ∀ c ∈ s.clientTable, 1 ≤ c.id ∧ c.id ≤ maxClientSize
  fds : (s.clientTable.map ClientInfo.fd).Nodup
  watched : ∀ fd, (fd ∈ s.afds ∧ fd ≠ s.msock) ↔ fd ∈ s.clientTable.map ClientInfo.fd

/-- Who is logged in: descriptors and ids, in the order of the table. -/
def Server.members (s : Server) : List (Int × Int) := s.clientTable.map (fun c => (c.fd, c.id))

/-- Every record's descriptor is watched. -/
def Covered (t : Tables) : Prop := ∀ h ∈ t.holders, h.fd ∈ t.afds

/-- With an account, no two records have one descriptor, and none has that of the
listening socket. -/
theorem account_fds {honest : Prop} {t : Tables} (account : Account honest t.process t.entries []) :
    (t.msock :: t.holders.map Holder.fd).Nodup := by
  have heads : (t.holders.map (fun h => (h.fd, Object.socket h.made))).Sublist
      (t.holders.flatMap Holder.entries) := by
    induction t.holders with
    | nil => exact List.Sublist.refl _
    | cons h rest ih =>
      rw [List.map_cons, List.flatMap_cons]
      exact (ih.trans (List.sublist_append_right _ _)).cons_cons _
  have sockets := heads.cons_cons (t.msock, Object.listener)
  have objects : (((t.msock, Object.listener) ::
      t.holders.map (fun h => (h.fd, Object.socket h.made))).map Prod.snd).Nodup := by
    have distinct := account.apart
    rw [List.append_nil] at distinct
    exact distinct.sublist (sockets.map Prod.snd)
  have numbers : ((t.msock :: t.holders.map Holder.fd).map t.process.object) =
      (((t.msock, Object.listener) ::
        t.holders.map (fun h => (h.fd, Object.socket h.made))).map Prod.snd).map some := by
    have each : ∀ e ∈ (t.msock, Object.listener) ::
        t.holders.map (fun h => (h.fd, Object.socket h.made)), t.process.object e.1 = some e.2 :=
      fun e member => account.stands e (sockets.subset member)
    have mapped := List.map_congr_left each
    simpa [Function.comp_def] using mapped
  apply List.Nodup.of_map t.process.object
  rw [numbers]
  exact objects.map (fun _ _ => Option.some.inj)

theorem mem_fdSet {afds : List Int} {fd other : Int} :
    other ∈ fdSet afds fd ↔ other ∈ afds ∨ other = fd := by
  rw [fdSet]
  split
  · rename_i present
    constructor
    · exact Or.inl
    · rintro (old | rfl)
      · exact old
      · exact present
  · simp

/-- A departure keeps the other descriptors watched. -/
theorem Covered.depart {t : Tables} (covered : Covered t) {h : Holder} (member : h ∈ t.holders)
    (fds : (t.holders.map Holder.fd).Nodup) (p : Process) : Covered (t.depart h.id h.fd p) := by
  intro g inside
  obtain ⟨old, kept, rfl⟩ := List.mem_map.mp inside
  obtain ⟨holds, other⟩ := List.mem_filter.mp kept
  refine List.mem_filter.mpr ⟨covered old holds, ?_⟩
  have apart : old.fd ≠ h.fd := by
    intro same
    have equal : old = h := List.inj_on_of_nodup_map fds holds member same
    simp [equal] at other
  simpa [Holder.without] using apart

theorem Covered.same {t u : Tables} (covered : Covered t) (same : SameRegistry t u) :
    Covered u := by
  intro h member
  have fd : h.fd ∈ t.holders.map Holder.fd := same.fds ▸ List.mem_map_of_mem member
  obtain ⟨g, holds, equal⟩ := List.mem_map.mp fd
  rw [same.afds, ← equal]
  exact covered g holds

/-- Every move keeps the descriptors of the records watched. -/
theorem Covered.moves {strict : Bool} {s : Server} {event : Event} {u : Tables}
    (covered : Covered s.tables) (settled : Settled (strict = true) s.tables)
    (careful : Careful strict s event) (moves : Moves s event u) : Covered u := by
  cases moves with
  | refused => exact covered
  | enters =>
    intro h member
    apply mem_fdSet.mpr
    rcases List.mem_append.mp member with old | new
    · exact .inl (covered h old)
    · rw [List.mem_singleton.mp new]
      exact .inr rfl
  | stays execed => exact covered.same (clientExec_registry execed)
  | exits execed found isFd =>
    subst isFd
    have ended : Settled (strict = true) _ := (settled.clientExec careful).returned execed
    exact (covered.same (clientExec_registry execed)).depart
      (List.mem_of_getElem? (holders_getElem found)) (account_fds ended.account).of_cons _
  | closes found isFd =>
    subst isFd
    exact covered.depart (List.mem_of_getElem? (holders_getElem found))
      (account_fds settled.account).of_cons _

/-- Settled tables whose descriptors are all watched agree: an id is marked as in use exactly when
one client has it, the ids are in range, and the descriptors are distinct and are those that are
watched besides the listening socket. -/
theorem tablesAgree {honest : Prop} {s : Server} (settled : Settled honest s.tables)
    (covered : Covered s.tables) : TablesAgree s := by
  have agree := settled.agree
  have ids : s.tables.holders.map Holder.id = s.clientTable.map ClientInfo.id := by
    simp [Server.tables, Function.comp_def, ClientInfo.holder]
  have fds : s.tables.holders.map Holder.fd = s.clientTable.map ClientInfo.fd := by
    simp [Server.tables, Function.comp_def, ClientInfo.holder]
  have numbers := account_fds settled.account
  rw [fds] at numbers
  have size : s.idTable.length = maxClientSize := agree.size
  constructor
  · intro i positive bounded
    have counted : s.clientTable.countP (fun c => c.id = (i : Int)) =
        (s.clientTable.map ClientInfo.id).count (i : Int) := by
      rw [List.count, List.countP_map]
      rfl
    have distinct : (s.clientTable.map ClientInfo.id).Nodup := ids ▸ agree.distinct
    have used := agree.inUse (i : Int)
    rw [ids, show ((i : Int) - 1).toNat = i - 1 by omega] at used
    have marked : (∃ mark, s.idTable[i - 1]? = some mark ∧ mark ≠ 0) ↔
        s.idTable[i - 1]? ≠ some 0 := by
      have inside : i - 1 < s.idTable.length := by omega
      rw [List.getElem?_eq_getElem inside]
      simp
    rw [counted, marked]
    constructor
    · intro nonzero
      have range : (1 : Int) ≤ i ∧ (i : Int) ≤ maxClientSize := by omega
      exact List.count_eq_one_of_mem distinct (used.mpr ⟨range, nonzero⟩)
    · intro once
      have member : (i : Int) ∈ s.clientTable.map ClientInfo.id := by
        apply List.count_pos_iff.mp
        omega
      exact (used.mp member).2
  · intro c member
    have inside : c.id ∈ s.tables.holders.map Holder.id := by
      rw [ids]
      exact List.mem_map_of_mem member
    exact ((agree.inUse c.id).mp inside).1
  · exact numbers.of_cons
  · intro fd
    constructor
    · rintro ⟨isWatched, other⟩
      rw [← fds]
      exact agree.watched fd isWatched other
    · intro member
      constructor
      · rw [← fds] at member
        obtain ⟨h, holds, rfl⟩ := List.mem_map.mp member
        exact covered h holds
      · rintro rfl
        exact (List.nodup_cons.mp numbers).1 member

/-- A departure removes the record with the descriptor, and only that one. -/
theorem members_depart {s after : Server} {cli : ClientInfo} {iter : Nat} {p : Process}
    (distinct : (s.tables.holders.map Holder.id).Nodup)
    (fds : (s.tables.holders.map Holder.fd).Nodup)
    (found : s.clientTable[iter]? = some cli)
    (departed : after.tables = s.tables.depart cli.id cli.fd p) :
    after.members = s.members.filter (·.1 ≠ cli.fd) := by
  have ofTables (t : Server) : t.members = t.tables.holders.map (fun h => (h.fd, h.id)) := by
    simp [Server.members, Server.tables, Function.comp_def, ClientInfo.holder]
  have member : cli.holder ∈ s.tables.holders := List.mem_of_getElem? (holders_getElem found)
  rw [ofTables, ofTables, departed, Tables.depart, List.map_map, List.filter_map]
  have same : s.tables.holders.filter (·.id ≠ cli.id) =
      s.tables.holders.filter ((fun e : Int × Int => decide (e.1 ≠ cli.fd)) ∘
        fun h => (h.fd, h.id)) := by
    apply List.filter_congr
    intro h holds
    have either : h.id = cli.id ↔ h.fd = cli.fd := by
      constructor
      · intro equal
        exact congrArg Holder.fd (List.inj_on_of_nodup_map distinct holds member equal)
      · intro equal
        exact congrArg Holder.id (List.inj_on_of_nodup_map fds holds member equal)
    simp [either]
  rw [same]
  rfl

/-- The runs whose closed connections have their descriptor for an id, and whose
lines do not leave a marked user pipe behind. -/
def Orderly (s : Server) (event : Event) : Prop := ClosesOwnId s event ∧ Careful false s event

instance (s : Server) (event : Event) : Decidable (Orderly s event) :=
  inferInstanceAs (Decidable (_ ∧ _))

theorem run_covered {events : List Event} {s : Server} (run : Run system Orderly events s) :
    Settled (false = true) s.tables ∧ Covered s.tables := by
  refine run.invariant (fun s => Settled (false = true) s.tables ∧ Covered s.tables) ?_ ?_
  · constructor
    · exact Settled.initial
    · intro h member
      cases member
  · intro state event after held _ met served
    have moves := serve_moves held.1.agree met.1 served
    exact ⟨held.1.moves met.2 moves, held.2.moves held.1 met.2 moves⟩

/-- What an event may do to the records: a closed connection takes the record with
its descriptor away, and so does a line that ends with `exit`; no other line
takes any. -/
def DepartsAlone (s : Server) (event : Event) (after : Server) : Prop :=
  match event with
  | .accept _ _ => s.members <+: after.members
  | .closed fd => after.members = s.members.filter (·.1 ≠ fd)
  | .line fd chunk world => ∃ ended status,
      clientExec world s (s.getClientByFd fd) (cliMsg chunk) = .ok (ended, status) ∧
      after.members = if status = -1 then s.members.filter (·.1 ≠ fd) else s.members

theorem members_same {s t : Server} (same : SameRegistry s.tables t.tables) :
    t.members = s.members := by
  have zipped (u : Server) : u.members =
      (u.tables.holders.map Holder.fd).zip (u.tables.holders.map Holder.id) := by
    simp only [Server.members, Server.tables, List.map_map]
    exact List.zip_map'.symm
  rw [zipped, zipped, same.fds, same.ids]

theorem departs_alone {s after : Server} {event : Event}
    (settled : Settled (false = true) s.tables) (met : Orderly s event)
    (served : serve s event = .ok after) : DepartsAlone s event after := by
  have fds := (account_fds settled.account).of_cons
  cases event with
  | accept userIp port =>
    obtain ⟨_, same, entered⟩ := acceptClient_enters s userIp port
    cases same.symm.trans served
    rcases entered with ⟨-, kept, -⟩ | ⟨-, -, -, -, new, extended⟩
    · simp [DepartsAlone, Server.members, kept]
    · simp [DepartsAlone, Server.members, extended]
  | line fd chunk world =>
    obtain ⟨ended, status, execed, ⟨stays, rfl⟩ | ⟨cli, left, rfl, found, isFd, out, rfl⟩⟩ :=
      clientLine_cases served
    · refine ⟨_, status, execed, ?_⟩
      rw [if_neg stays, members_same (clientExec_registry execed)]
    · refine ⟨ended, -1, execed, ?_⟩
      have kept : Settled (false = true) ended.tables :=
        (settled.clientExec met.2).returned execed
      have range := kept.agree.range found
      obtain ⟨_, same, departed⟩ := logout_departs fd range.1 range.2
      cases same.symm.trans out
      subst isFd
      rw [if_pos rfl, ← members_same (clientExec_registry execed)]
      have process : (left.withProcess (restore left.process)).members = left.members := rfl
      rw [process]
      exact members_depart kept.agree.distinct (account_fds kept.account).of_cons found departed
  | closed fd =>
    obtain ⟨cli, isCli, out⟩ := bind_eq_ok.mp served
    have found := client_eq_ok.mp isCli
    have isFd : cli.fd = fd := getClientByFd_fd found
    have ownId : cli.id = cli.fd :=
      (met.1 cli (List.mem_of_getElem? found) isFd).trans isFd.symm
    have range := settled.agree.range found
    obtain ⟨_, same, departed⟩ := logout_departs fd range.1 range.2
    rw [← ownId, same] at out
    cases out
    subst isFd
    exact members_depart settled.agree.distinct fds found departed

/-- In every orderly run the tables agree, and every departure removes the record of the departing
client alone.

The id table, the client table and the watched descriptors are changed in different places, and
the departures look a client up by its id or by its socket. The invariant ties the three together
and says that no descriptor stands for another client than the one that has it. -/
theorem tables_agree_in_orderly_runs {events : List Event} {s : Server}
    (run : Run system Orderly events s) :
    TablesAgree s ∧ ∀ event after, offers s event → Orderly s event →
      serve s event = .ok after → DepartsAlone s event after := by
  obtain ⟨settled, covered⟩ := run_covered run
  refine ⟨tablesAgree settled covered, ?_⟩
  intro event after _ met served
  exact departs_alone settled met served

/-- Three clients log in and one takes a user pipe and leaves. -/
def threeClients : List Event :=
  [.accept (str "127.0.0.1") 4001, .accept (str "127.0.0.1") 4002,
    .accept (str "127.0.0.1") 4003, .line 4 (str "ls >2\n") World.plain,
    .line 5 (str "cat <1\n") World.plain]

/-- When the second of them exits, the first and the third stay. -/
theorem tables_agree_for_three_clients : ∃ s after, Run system Orderly threeClients s ∧
    serve s (.line 5 (str "exit\n") World.plain) = .ok after ∧ TablesAgree s ∧
    DepartsAlone s (.line 5 (str "exit\n") World.plain) after := by
  have plays : ((play system Orderly system.start threeClients).map (fun s =>
      decide (offers s (.line 5 (str "exit\n") World.plain) ∧
        Orderly s (.line 5 (str "exit\n") World.plain)) &&
      (serve s (.line 5 (str "exit\n") World.plain)).isOk)) = some true := by decide +kernel
  obtain ⟨s, played, fits⟩ := Option.map_eq_some_iff.mp plays
  obtain ⟨met, returns⟩ := Bool.and_eq_true_iff.mp fits
  have run := Run.played threeClients s played
  cases served : serve s (.line 5 (str "exit\n") World.plain) with
  | error failure =>
    rw [served] at returns
    cases returns
  | ok after =>
    obtain ⟨offered, orderly⟩ := of_decide_eq_true met
    obtain ⟨agree, departs⟩ := tables_agree_in_orderly_runs run
    exact ⟨s, after, run, served, agree, departs _ _ offered orderly served⟩

/-- A client logs in, which gives it descriptor 4 and id 1, and hangs up. -/
def hangUp : List Event := [.accept (str "127.0.0.1") 4001, .closed 4]

/-- Its record stays, with its id marked free and its descriptor not watched. -/
theorem hang_up_leaves_the_record : ∃ s, Run system always hangUp s ∧ ¬ TablesAgree s := by
  have plays : ((play system always system.start hangUp).map (fun s =>
      decide (s.members = [(4, 1)] ∧ s.afds = [s.msock]))) = some true := by decide +kernel
  obtain ⟨s, played, left⟩ := Option.map_eq_some_iff.mp plays
  obtain ⟨members, afds⟩ := of_decide_eq_true left
  refine ⟨s, Run.played hangUp s played, ?_⟩
  intro agree
  have fds : s.clientTable.map ClientInfo.fd = [4] := by
    have first := congrArg (List.map Prod.fst) members
    simpa [Server.members, Function.comp_def] using first
  have watched := (agree.watched 4).mpr (by simp [fds])
  rw [afds] at watched
  exact watched.2 (by simpa using watched.1)

end NetProg.SingleProc
