import NetProg.Common.Reference

/-!
# Pipes and files behind the reference shell

What a shell has for a state of the reference shell: the pipes of its table in the
same order, with the same counts, each known by the serial number that belongs to the
number in the reference shell; and the same calls up to these numbers. The numbers
of descriptors are accounted for, so a pipe end that is called with is the one the
reference shell means.

The counts in the table are pairwise distinct. So one pipe at most is due, and it does
not matter whether a shell looks for the first one or for the last.
-/

namespace NetProg.Common

open NumberedPipes

/-- The process, the pipe table and the calls of a shell behind a state of the reference shell;
`live` are its other numbers. The serial numbers of the reference become those of the shell by
`f`, which is needed because a shell may have made other things before. -/
structure Tracks (f : Nat → Nat) (p : Process) (pipeVector : List PipeFd)
    (live : List (Int × Object)) (s : State) (issues : List Issue) : Prop where
  account : Account False p (live ++ ends pipeVector) []
  pipes : pipeVector.map (fun r => (r.count, r.made)) = s.pipes.map (fun e => (e.1, f e.2))
  below : ∀ e ∈ s.pipes, e.2 < s.made
  distinct : (s.pipes.map Prod.fst).Nodup
  ordered : ∀ i j, i < j → j < s.made → f i < f j
  known : ∀ i < s.made, f i < p.made
  occurs : ∀ n ∈ s.issues.flatMap Issue.serials, n < s.made
  same : issues = s.issues.map (Issue.relabel f)

/-- The default of a shell is a standard descriptor or a socket it relies on. -/
def IsDefault (live : List (Int × Object)) (default : Int) : Prop :=
  (0 ≤ default ∧ default < 3) ∨ ∃ serial, (default, .socket serial) ∈ live

/-- A descriptor leads where the reference shell has it lead, before a call. -/
def Leads (f : Nat → Nat) (pipeVector : List PipeFd) (live : List (Int × Object)) (made : Nat)
    (default fd : Int) : Port → Prop
  | .standard => fd = default
  | .failed => fd = -1
  | .object (.file k) => k < made ∧ (fd, .file (f k)) ∈ live
  | .object (.writeEnd k) => k < made ∧ ∃ r ∈ pipeVector, r.inFd = fd ∧ r.made = f k
  | _ => False

/-- Where a descriptor leads has been made. -/
theorem Leads.below {f : Nat → Nat} {pipeVector : List PipeFd} {live : List (Int × Object)}
    {made : Nat} {default fd : Int} {goal : Port}
    (leads : Leads f pipeVector live made default fd goal) : ∀ n ∈ goal.serials, n < made := by
  intro n occurs
  match goal, leads with
  | .standard, _ | .failed, _ => cases occurs
  | .object (.file k), ⟨below, _⟩ | .object (.writeEnd k), ⟨below, _⟩ =>
    rw [List.mem_singleton.mp occurs]
    exact below

/-- More numbers do not matter. -/
theorem Leads.mono {f : Nat → Nat} {pipeVector : List PipeFd} {live more : List (Int × Object)}
    {made : Nat} {default fd : Int} {goal : Port} (sub : live ⊆ more)
    (leads : Leads f pipeVector live made default fd goal) :
    Leads f pipeVector more made default fd goal := by
  match goal, leads with
  | .standard, leads => exact leads
  | .failed, leads => exact leads
  | .object (.file k), ⟨below, member⟩ => exact ⟨below, sub member⟩
  | .object (.writeEnd k), leads => exact leads

theorem IsDefault.mono {live more : List (Int × Object)} (sub : live ⊆ more) {default : Int}
    (isDefault : IsDefault live default) : IsDefault more default :=
  isDefault.imp id (fun ⟨serial, socket⟩ => ⟨serial, sub socket⟩)

section Tracks

variable {f : Nat → Nat} {p : Process} {pipeVector : List PipeFd} {live : List (Int × Object)}
  {s : State} {issues : List Issue}

/-- At the start of a session. -/
theorem Tracks.initial (account : Account False p live []) :
    Tracks id p [] live .initial [] where
  account := by
    rw [ends_nil, List.append_nil]
    exact account
  pipes := rfl
  below e member := by cases member
  distinct := List.nodup_nil
  ordered i j less below := less
  known i below := absurd below (Nat.not_lt_zero i)
  occurs n member := by cases member
  same := rfl

/-- Another file the shell does not call with. -/
theorem Tracks.besides (tracks : Tracks f p pipeVector live s issues) :
    Tracks f p.openFile.2 pipeVector ((p.openFile.1, .file p.made) :: live) s issues where
  account := tracks.account.openFile
  pipes := tracks.pipes
  below := tracks.below
  distinct := tracks.distinct
  ordered := tracks.ordered
  known i below := Nat.lt_succ_of_lt (tracks.known i below)
  occurs := tracks.occurs
  same := tracks.same

section Make

/-- The serial number of what is made next. -/
def extend (f : Nat → Nat) (s : State) (p : Process) : Nat → Nat := Function.update f s.made p.made

theorem extend_made : extend f s p s.made = p.made := Function.update_self _ _ _

theorem extend_below {k : Nat} (below : k < s.made) : extend f s p k = f k :=
  Function.update_of_ne (by omega) _ _

theorem Tracks.extend_ordered (tracks : Tracks f p pipeVector live s issues) (i j : Nat)
    (less : i < j) (below : j < s.made + 1) : extend f s p i < extend f s p j := by
  rcases Nat.lt_succ_iff_lt_or_eq.mp below with earlier | rfl
  · rw [extend_below earlier, extend_below (by omega)]
    exact tracks.ordered i j less earlier
  · rw [extend_made, extend_below less]
    exact tracks.known i less

theorem Tracks.extend_known (tracks : Tracks f p pipeVector live s issues) (i : Nat)
    (below : i < s.made + 1) : extend f s p i < p.made + 1 := by
  rcases Nat.lt_succ_iff_lt_or_eq.mp below with earlier | rfl
  · rw [extend_below earlier]
    exact Nat.lt_succ_of_lt (tracks.known i earlier)
  · rw [extend_made]
    exact Nat.lt_succ_self _

theorem Tracks.extend_same (tracks : Tracks f p pipeVector live s issues) :
    issues = s.issues.map (Issue.relabel (extend f s p)) := by
  rw [tracks.same]
  refine List.map_congr_left (fun issue member => Issue.relabel_congr (fun n occurs => ?_))
  exact (extend_below (tracks.occurs n (List.mem_flatMap.mpr ⟨issue, member, occurs⟩))).symm

theorem Tracks.extend_pipes (tracks : Tracks f p pipeVector live s issues) :
    pipeVector.map (fun r => (r.count, r.made)) =
      s.pipes.map (fun e => (e.1, extend f s p e.2)) := by
  rw [tracks.pipes]
  exact List.map_congr_left (fun e member => by rw [extend_below (tracks.below e member)])

end Make

/-- The counts are those of the reference shell. -/
theorem Tracks.counts (tracks : Tracks f p pipeVector live s issues) :
    pipeVector.map PipeFd.count = s.pipes.map Prod.fst := by
  have counts := congrArg (List.map Prod.fst) tracks.pipes
  rw [List.map_map, List.map_map] at counts
  exact counts

/-- The record of the last pipe with a count, if there is one. -/
theorem Tracks.withCount (tracks : Tracks f p pipeVector live s issues) (count : Int) :
    ((pipeVector.filter (·.count = count)).getLast?).map (fun r => (r.count, r.made)) =
      ((s.pipes.filter (·.1 = count)).getLast?).map (fun e => (e.1, f e.2)) := by
  have filtered := congrArg (List.filter (fun e : Int × Nat => e.1 = count)) tracks.pipes
  rw [List.filter_map, List.filter_map] at filtered
  rw [← List.getLast?_map, ← List.getLast?_map]
  exact congrArg List.getLast? filtered

/-- A pipe operator leads to the same pipe, and the shell stays tracked. Where the table has a
record with this count both join it; otherwise both make a pipe, and the renaming of serial
numbers is extended by the new one, which is above all others on both sides. -/
theorem Tracks.pipeTo (tracks : Tracks f p pipeVector live s issues) {canPipe : Bool} {count : Int}
    {created : Int × List PipeFd × Process}
    (creates : createPipe canPipe p pipeVector count = some created) :
    ∃ k after g, s.pipeTo canPipe count = some (k, after) ∧
      Tracks g created.2.2 created.2.1 live after issues ∧ k < after.made ∧
      ∃ r ∈ created.2.1, r.inFd = created.1 ∧ r.made = g k := by
  have last := tracks.withCount count
  rw [createPipe] at creates
  split at creates
  · rename_i record found
    cases creates
    rw [found] at last
    obtain ⟨e, isLast, same⟩ := Option.map_eq_some_iff.mp last.symm
    have isMade : f e.2 = record.made := congrArg Prod.snd same
    have member : e ∈ s.pipes := (List.mem_filter.mp (List.mem_of_getLast? isLast)).1
    refine ⟨e.2, s, f, ?_, tracks, tracks.below e member, record, ?_, rfl, isMade.symm⟩
    · rw [State.pipeTo, isLast]
    · exact (List.mem_filter.mp (List.mem_of_getLast? found)).1
  · rename_i missing
    split at creates
    · rename_i can
      cases creates
      rw [missing] at last
      have none : (s.pipes.filter (·.1 = count)).getLast? = none :=
        Option.map_eq_none_iff.mp last.symm
      refine ⟨s.made, _, extend f s p, by rw [State.pipeTo, none, if_pos can], ?_,
        Nat.lt_succ_self _, _, List.mem_append_right _ List.mem_cons_self, rfl, extend_made.symm⟩
      have others : ∀ e ∈ s.pipes, e.1 ≠ count := by simpa using none
      refine ⟨?_, ?_, ?_, ?_, tracks.extend_ordered, tracks.extend_known, ?_, tracks.extend_same⟩
      · change Account False p.pipe.2.2
          (live ++ ends (pipeVector ++ [⟨p.pipe.2.1, p.pipe.1, count, p.made⟩])) []
        apply tracks.account.pipe.perm
        apply List.perm_iff_count.mpr
        intro e
        simp only [ends_append, ends_cons, ends_nil, PipeFd.ends, List.count_append,
          List.count_cons, List.count_nil, List.append_nil]
        omega
      · rw [List.map_append, List.map_append, tracks.extend_pipes]
        simp only [List.map_cons, List.map_nil, extend_made]
      · intro e member
        rcases List.mem_append.mp member with old | new
        · exact Nat.lt_succ_of_lt (tracks.below e old)
        · rw [List.mem_singleton.mp new]
          exact Nat.lt_succ_self _
      · rw [List.map_append]
        refine List.nodup_append.mpr ⟨tracks.distinct, by simp, ?_⟩
        rintro _ old _ new rfl
        obtain ⟨e, member, isCount⟩ := List.mem_map.mp old
        exact others e member (isCount.trans (by simpa using new))
      · exact fun n occurs => Nat.lt_succ_of_lt (tracks.occurs n occurs)
    · cases creates

/-- Where no pipe can be made, the reference shell makes none. -/
theorem Tracks.pipeTo_refused (tracks : Tracks f p pipeVector live s issues) {canPipe : Bool}
    {count : Int} (refused : createPipe canPipe p pipeVector count = none) :
    s.pipeTo canPipe count = none := by
  have last := tracks.withCount count
  rw [createPipe] at refused
  split at refused
  · cases refused
  · rename_i missing
    rw [missing] at last
    have none : (s.pipes.filter (·.1 = count)).getLast? = none :=
      Option.map_eq_none_iff.mp last.symm
    split at refused
    · cases refused
    · rename_i cannot
      rw [State.pipeTo, none, if_neg cannot]

/-- A file is opened or not. -/
theorem Tracks.openFile (tracks : Tracks f p pipeVector live s issues) (opens : Bool)
    (default : Int) : ∃ files g,
      Tracks g (openAs opens p).2 pipeVector (files ++ live) (s.openFile opens).2 issues ∧
      Leads g pipeVector (files ++ live) (s.openFile opens).2.made default (openAs opens p).1
        (s.openFile opens).1 := by
  cases opens with
  | false => exact ⟨[], f, tracks, rfl⟩
  | true =>
    refine ⟨[(p.openFile.1, .file p.made)], extend f s p, ?_, ?_⟩
    · exact ⟨tracks.account.openFile, tracks.extend_pipes,
        fun e member => Nat.lt_succ_of_lt (tracks.below e member), tracks.distinct,
        tracks.extend_ordered, tracks.extend_known,
        fun n occurs => Nat.lt_succ_of_lt (tracks.occurs n occurs), tracks.extend_same⟩
    · refine ⟨Nat.lt_succ_self _, ?_⟩
      rw [extend_made]
      exact List.mem_cons_self

/-- The same pipe is due in both, or none. -/
theorem Tracks.due (tracks : Tracks f p pipeVector live s issues) :
    s.due.map f = (pipeVector.find? (·.count = 0)).map PipeFd.made := by
  have found := congrArg (List.find? (fun e : Int × Nat => e.1 = 0)) tracks.pipes
  rw [List.find?_map, List.find?_map] at found
  have serials := congrArg (Option.map Prod.snd) found
  rw [Option.map_map, Option.map_map] at serials
  rw [State.due, Option.map_map]
  exact serials.symm

/-- An entry of a pipe or a file has another number than the default. -/
theorem Tracks.apart (tracks : Tracks f p pipeVector live s issues) {default : Int}
    (isDefault : IsDefault live default) {e : Int × Object} (member : e ∈ live ++ ends pipeVector)
    (notSocket : ∀ serial, e.2 ≠ .socket serial) : e.1 ≠ default ∧ ¬ e.1 < 0 := by
  have above : 3 ≤ e.1 := tracks.account.above e (by simpa using member)
  refine ⟨?_, by omega⟩
  rintro rfl
  rcases isDefault with ⟨_, below⟩ | ⟨serial, socket⟩
  · omega
  · have first := tracks.account.stands _ (List.mem_append_left _ socket)
    rw [tracks.account.stands e member] at first
    exact notSocket serial (Option.some.inj first)

theorem IsDefault.nonneg (tracks : Tracks f p pipeVector live s issues) {default : Int}
    (isDefault : IsDefault live default) : 0 ≤ default := by
  rcases isDefault with ⟨nonneg, _⟩ | ⟨serial, socket⟩
  · exact nonneg
  · have above : 3 ≤ default := tracks.account.above (default, .socket serial) (by simp [socket])
    omega

/-- An object that is not closed with the write end of the due pipe shows at the call. -/
theorem Tracks.stays (tracks : Tracks f p pipeVector live s issues) {default : Int}
    (isDefault : IsDefault live default) {e : Int × Object} (member : e ∈ live ++ ends pipeVector)
    (notSocket : ∀ serial, e.2 ≠ .socket serial) {q : Process}
    (kept : q = p ∨ ∃ r ∈ pipeVector, q = p.closeEnd r.inFd (some (.writeEnd r.made)) ∧
      e.2 ≠ .writeEnd r.made) : port default e.1 (q.object e.1) = .object e.2 := by
  obtain ⟨other, notNegative⟩ := tracks.apart isDefault member notSocket
  have stands : q.object e.1 = some e.2 := by
    rcases kept with rfl | ⟨r, isRecord, rfl, differs⟩
    · exact tracks.account.stands e member
    · have entered := tracks.account.stands (r.inFd, .writeEnd r.made)
        (List.mem_append_right _ (mem_ends isRecord List.mem_cons_self))
      have apart : e.1 ≠ r.inFd := by
        intro number
        have here := tracks.account.stands e member
        rw [number, entered] at here
        exact differs (Option.some.inj here).symm
      rw [Process.object_closeEnd, if_neg apart]
      exact tracks.account.stands e member
  rw [stands, port_object other notNegative]

theorem Tracks.injective (tracks : Tracks f p pipeVector live s issues) {i j : Nat}
    (first : i < s.made) (second : j < s.made) (same : f i = f j) : i = j := by
  rcases Nat.lt_trichotomy i j with less | equal | more
  · have apart := tracks.ordered i j less second
    omega
  · exact equal
  · have apart := tracks.ordered j i more first
    omega

/-- The record of a serial number is the only one. -/
theorem Tracks.record_unique (tracks : Tracks f p pipeVector live s issues) {r t : PipeFd}
    (first : r ∈ pipeVector) (second : t ∈ pipeVector) (same : r.made = t.made) :
    r.inFd = t.inFd := by
  have one : (r.inFd, Object.writeEnd r.made) ∈ live ++ ends pipeVector :=
    List.mem_append_right _ (mem_ends first List.mem_cons_self)
  have two : (t.inFd, Object.writeEnd t.made) ∈ live ++ ends pipeVector :=
    List.mem_append_right _ (mem_ends second List.mem_cons_self)
  have objects : ((live ++ ends pipeVector).map Prod.snd).Nodup := by
    simpa using tracks.account.apart
  have equal := List.inj_on_of_nodup_map objects one two (by rw [same])
  exact congrArg Prod.fst equal

/-- What a shell finds due, the reference shell has due. -/
theorem Tracks.got (tracks : Tracks f p pipeVector live s issues) {r : PipeFd} {q : Process}
    (got : getPipeFd pipeVector p = some (r, q)) :
    q = p.closeEnd r.inFd (some (.writeEnd r.made)) ∧ r ∈ pipeVector ∧
      ∃ k, s.due = some k ∧ k < s.made ∧ r.made = f k := by
  rw [getPipeFd] at got
  split at got
  · rename_i found first
    cases got
    refine ⟨rfl, List.mem_of_find?_eq_some first, ?_⟩
    have due := tracks.due
    rw [first] at due
    obtain ⟨k, isDue, isMade⟩ := Option.map_eq_some_iff.mp due
    obtain ⟨e, isFirst, rfl⟩ := Option.map_eq_some_iff.mp isDue
    exact ⟨e.2, isDue, tracks.below e (List.mem_of_find?_eq_some isFirst), isMade.symm⟩
  · cases got

theorem Tracks.got_none (tracks : Tracks f p pipeVector live s issues)
    (got : getPipeFd pipeVector p = none) : s.due = none := by
  rw [getPipeFd] at got
  split at got
  · cases got
  · rename_i missing
    have due := tracks.due
    rw [missing] at due
    exact Option.map_eq_none_iff.mp due

/-- A descriptor leads where the reference shell has it lead, at the call: the pipe that was due
has lost its write end. A command can have that end for its output only through a record that is
due, and everything else has stood through the close. -/
theorem Tracks.port_shut (tracks : Tracks f p pipeVector live s issues) {default fd : Int}
    (isDefault : IsDefault live default) {goal : Port}
    (leads : Leads f pipeVector live s.made default fd goal) {q : Process}
    (attached : q = ((getPipeFd pipeVector p).map Prod.snd).getD p) :
    port default fd (q.object fd) = (goal.shut s.due).relabel f := by
  have standing : getPipeFd pipeVector p = none ∧ q = p ∧ s.due = none ∨
      ∃ r k, q = p.closeEnd r.inFd (some (.writeEnd r.made)) ∧ r ∈ pipeVector ∧
        s.due = some k ∧ k < s.made ∧ r.made = f k := by
    cases got : getPipeFd pipeVector p with
    | none =>
      rw [got] at attached
      exact .inl ⟨rfl, attached, tracks.got_none got⟩
    | some taken =>
      rw [got] at attached
      obtain ⟨record, after⟩ := taken
      obtain ⟨closed, member, k, isDue, below, isMade⟩ := tracks.got got
      exact .inr ⟨record, k, attached.trans closed, member, isDue, below, isMade⟩
  have nonneg := isDefault.nonneg tracks
  have other (serials : ∀ k, goal ≠ .object (.writeEnd k)) : goal.shut s.due = goal :=
    Port.shut_other (fun k _ => serials k)
  match goal, leads with
  | .standard, leads =>
    have isDefault : fd = default := leads
    rw [other (by simp), isDefault, port_default]
    rfl
  | .failed, leads =>
    have negative : fd = -1 := leads
    rw [other (by simp), port_negative (by omega) (by omega)]
    rfl
  | .object (.file k), ⟨_, member⟩ =>
    rw [other (by simp)]
    refine tracks.stays isDefault (List.mem_append_left _ member) (by simp) ?_
    rcases standing with ⟨-, same, -⟩ | ⟨r, _, closed, isRecord, -⟩
    · exact .inl same
    · exact .inr ⟨r, isRecord, closed, by simp⟩
  | .object (.writeEnd k), ⟨below, r, member, isIn, isMade⟩ =>
    have entered : (fd, Object.writeEnd (f k)) ∈ live ++ ends pipeVector := by
      rw [← isIn, ← isMade]
      exact List.mem_append_right _ (mem_ends member List.mem_cons_self)
    rcases standing with ⟨-, same, noDue⟩ | ⟨t, j, closed, isRecord, isDue, inRange, dueMade⟩
    · rw [noDue]
      exact tracks.stays isDefault entered (by simp) (.inl same)
    · by_cases isSame : k = j
      · subst isSame
        have number : fd = t.inFd := by
          rw [← isIn]
          exact tracks.record_unique member isRecord (isMade.trans dueMade.symm)
        obtain ⟨apart, notNegative⟩ := tracks.apart isDefault entered (by simp)
        have gone : q.object fd = none := by rw [closed, Process.object_closeEnd, if_pos number]
        rw [isDue, Port.shut_same, gone, port_closed apart notNegative]
        rfl
      · have stays : (Port.object (.writeEnd k)).shut s.due = .object (.writeEnd k) := by
          rw [isDue]
          refine Port.shut_other (fun m isJ sameEnd => isSame ?_)
          cases isJ
          simpa using sameEnd
        rw [stays]
        refine tracks.stays isDefault entered (by simp) (.inr ⟨t, isRecord, closed, ?_⟩)
        rw [dueMade]
        intro same
        exact isSame (tracks.injective below inRange (by simpa using same))

/-- The input is the pipe that is due. -/
theorem Tracks.port_due (tracks : Tracks f p pipeVector live s issues) {default : Int}
    (isDefault : IsDefault live default) {r : PipeFd} {q : Process}
    (got : getPipeFd pipeVector p = some (r, q)) : ∃ k, s.due = some k ∧
      port default r.outFd (q.object r.outFd) = (Port.object (.readEnd k)).relabel f := by
  obtain ⟨closed, member, k, isDue, -, isMade⟩ := tracks.got got
  refine ⟨k, isDue, ?_⟩
  have entered : (r.outFd, Object.readEnd r.made) ∈ live ++ ends pipeVector :=
    List.mem_append_right _ (mem_ends member (List.mem_cons_of_mem _ List.mem_cons_self))
  have shown := tracks.stays isDefault entered (by simp) (.inr ⟨r, member, closed, by simp⟩)
  rw [shown, isMade]
  rfl

/-- Before a call the pipe that is due is given up, with what else the command has
read. -/
theorem Tracks.give (tracks : Tracks f p pipeVector live s issues)
    {fewer given : List (Int × Object)} (parts : (fewer ++ given).Perm live) :
    Account False p (fewer ++ ends (pipeVector.filter (·.count ≠ 0)))
      (given ++ ends (pipeVector.filter (·.count = 0))) := by
  have apart := List.perm_iff_count.mp (ends_filter_due pipeVector)
  have whole := List.perm_iff_count.mp parts
  refine tracks.account.weaken _ _ ?_ (List.Perm.subperm (List.perm_iff_count.mpr fun e => ?_))
  · intro e member
    rcases List.mem_append.mp member with old | kept
    · exact List.mem_append_left _ (parts.subset (List.mem_append_left given old))
    · obtain ⟨r, inside, isEnd⟩ := List.mem_flatMap.mp kept
      exact List.mem_append_right _ (mem_ends (List.mem_filter.mp inside).1 isEnd)
  · have here := apart e
    have there := whole e
    simp only [List.count_append, List.count_nil] at here there ⊢
    omega

/-- The pipe that was due is closed, the first time by taking it and again by erasing
its record. -/
theorem Tracks.detach (tracks : Tracks f p pipeVector live s issues)
    {fewer given : List (Int × Object)} (parts : (fewer ++ given).Perm live) {q : Process}
    (attached : q = ((getPipeFd pipeVector p).map Prod.snd).getD p) :
    Account False (erasePipeVector pipeVector q).2
      (fewer ++ ends (pipeVector.filter (·.count ≠ 0)))
      (given ++ ends (pipeVector.filter (·.count = 0))) := by
  have due : ∀ r ∈ pipeVector, r.count = 0 → ∀ e ∈ r.ends,
      e ∈ given ++ ends (pipeVector.filter (·.count = 0)) := by
    intro r member isDue e isEnd
    have kept : r ∈ pipeVector.filter (·.count = 0) :=
      List.mem_filter.mpr ⟨member, by simpa using isDue⟩
    exact List.mem_append_right given (mem_ends kept isEnd)
  refine erasePipeVector_account ?_ due
  cases got : getPipeFd pipeVector p with
  | none =>
    rw [got] at attached
    exact attached ▸ tracks.give parts
  | some taken =>
    rw [got] at attached
    obtain ⟨record, after⟩ := taken
    exact attached ▸ (getPipeFd_account (tracks.give parts) due got).2

/-- After a call the due records are gone, the others count down, and the shell is tracked still.
The counts stay distinct, for they are all taken down by one. -/
theorem Tracks.issued (tracks : Tracks f p pipeVector live s issues) {q : Process}
    {fewer : List (Int × Object)} (account : Account False q
      (fewer ++ ends (pipeVector.filter (·.count ≠ 0))) [])
    (made : q.made = p.made) {issue : Issue} (occurs : ∀ n ∈ issue.serials, n < s.made) :
    Tracks f q (countdownPipeVector (pipeVector.filter (·.count ≠ 0))) fewer (s.issued issue)
      (issues ++ [issue.relabel f]) where
  account := by
    rw [ends_countdown]
    exact account
  pipes := by
    have filtered := congrArg (List.filter (fun e : Int × Nat => e.1 ≠ 0)) tracks.pipes
    rw [List.filter_map, List.filter_map] at filtered
    have counted := congrArg (List.map (fun e : Int × Nat => (e.1 - 1, e.2))) filtered
    rw [List.map_map, List.map_map] at counted
    rw [countdownPipeVector, State.issued, List.map_map, List.map_map]
    exact counted
  below e member := by
    obtain ⟨old, isOld, rfl⟩ := List.mem_map.mp member
    exact tracks.below old (List.mem_of_mem_filter isOld)
  distinct := by
    have kept : ((s.pipes.filter (·.1 ≠ 0)).map Prod.fst).Nodup :=
      tracks.distinct.sublist (List.filter_sublist.map _)
    have shifted := kept.map (f := fun n : Int => n - 1) (fun a b same => by
      simp only at same
      omega)
    rw [List.map_map] at shifted
    rw [State.issued, List.map_map]
    exact shifted
  ordered := tracks.ordered
  known i below := made ▸ tracks.known i below
  occurs n member := by
    rw [State.issued, List.flatMap_append] at member
    rcases List.mem_append.mp member with old | new
    · exact tracks.occurs n old
    · exact occurs n (by simpa using new)
  same := by
    rw [State.issued, List.map_append, ← tracks.same]
    rfl

end Tracks

end NetProg.Common
