import NetProg.SingleProc.Ids

/-!
# Which numbers the tables rely on

Every record relies on its socket, on both ends of its numbered pipes, on both
ends of the user pipes it has sent, and only on the read end of one that is
marked used. As long as those entries form an account of the process, closing
goes right. A command gives up what it has read, the numbered pipe that is due
and the user pipes it has marked, then closes it, some of it several times, and
opens nothing meanwhile.

A record stays marked when a later word of the same command is a user-pipe
error: the line ends without `EraseUserPipeVector`, the number of the write end
is free, and the next taking or the departure of the receiver closes it again. An
execution erases what is marked in the records it lists, and in no others.
-/

namespace NetProg.SingleProc

open Loops Outcomes Runs

/-- What one record relies on. -/
def Holder.entries (h : Holder) : List (Int × Object) :=
  (h.fd, .socket h.made) :: (NumberedPipes.ends h.pipeVector ++ UserPipes.ends h.userpipeVector)

/-- What the tables rely on. -/
def Tables.entries (t : Tables) : List (Int × Object) :=
  (t.msock, .listener) :: t.holders.flatMap Holder.entries

/-- The user pipes marked used, each with the id of the record that holds it. -/
def Tables.marks (t : Tables) : List (Int × UserPipeFd) :=
  t.holders.flatMap (fun h => (h.userpipeVector.filter (·.isUsed)).map (h.id, ·))

section Around

variable {t : Tables} {i : Nat} {h : Holder}

/-- The entries around one record, which a change behind the iterator leaves as
they are. -/
theorem entries_around (found : t.holders[i]? = some h) : ∃ rest,
    t.entries.Perm (h.entries ++ rest) ∧
    ∀ (shift : Holder → Holder) p, ({ t with
      process := p, holders := t.holders.modify i shift } : Tables).entries.Perm
        ((shift h).entries ++ rest) := by
  obtain ⟨before, after, whole, changed⟩ := modify_split found
  have shuffle (first : Int × Object) (front middle back : List (Int × Object)) :
      (first :: (front ++ (middle ++ back))).Perm (middle ++ first :: (front ++ back)) := by
    apply List.perm_iff_count.mpr
    intro e
    simp only [List.count_append, List.count_cons]
    omega
  refine ⟨(t.msock, .listener) :: (before.flatMap Holder.entries ++
    after.flatMap Holder.entries), ?_, ?_⟩
  · simp only [Tables.entries, whole, List.flatMap_append, List.flatMap_cons]
    exact shuffle _ _ _ _
  · intro shift p
    simp only [Tables.entries, changed, List.flatMap_append, List.flatMap_cons]
    exact shuffle _ _ _ _

/-- The entries around the numbered pipes of one record. -/
theorem entries_withPipes (found : t.holders[i]? = some h) : ∃ rest,
    t.entries.Perm (NumberedPipes.ends h.pipeVector ++ rest) ∧
    ∀ pipeVector p, (t.withPipes i pipeVector p).entries.Perm
      (NumberedPipes.ends pipeVector ++ rest) := by
  obtain ⟨rest, whole, changed⟩ := entries_around found
  have shuffle (first : Int × Object) (pipes users : List (Int × Object)) :
      (first :: (pipes ++ users) ++ rest).Perm (pipes ++ (first :: (users ++ rest))) := by
    apply List.perm_iff_count.mpr
    intro e
    simp only [List.count_append, List.count_cons]
    omega
  refine ⟨(h.fd, .socket h.made) :: (UserPipes.ends h.userpipeVector ++ rest), ?_, ?_⟩
  · exact whole.trans (shuffle _ _ _)
  · intro pipeVector p
    exact (changed ({ · with pipeVector := pipeVector }) p).trans (shuffle _ _ _)

/-- The entries around the user pipes of one record. -/
theorem entries_withUserPipes (found : t.holders[i]? = some h) : ∃ rest,
    t.entries.Perm (UserPipes.ends h.userpipeVector ++ rest) ∧
    ∀ userpipeVector p, (t.withUserPipes i userpipeVector p).entries.Perm
      (UserPipes.ends userpipeVector ++ rest) := by
  obtain ⟨rest, whole, changed⟩ := entries_around found
  have shuffle (first : Int × Object) (pipes users : List (Int × Object)) :
      (first :: (pipes ++ users) ++ rest).Perm (users ++ (first :: (pipes ++ rest))) := by
    apply List.perm_iff_count.mpr
    intro e
    simp only [List.count_append, List.count_cons]
    omega
  refine ⟨(h.fd, .socket h.made) :: (NumberedPipes.ends h.pipeVector ++ rest), ?_, ?_⟩
  · exact whole.trans (shuffle _ _ _)
  · intro userpipeVector p
    exact (changed ({ · with userpipeVector := userpipeVector }) p).trans (shuffle _ _ _)

/-- Numbered pipes have no part in the marks. -/
theorem marks_withPipes (pipeVector : List PipeFd) (p : Process) :
    (t.withPipes i pipeVector p).marks = t.marks :=
  flatMap_modify (fun _ _ => rfl)

theorem mem_marks {m : Int × UserPipeFd} : m ∈ t.marks ↔
    ∃ h ∈ t.holders, h.id = m.1 ∧ m.2 ∈ h.userpipeVector ∧ m.2.isUsed = true := by
  simp only [Tables.marks, List.mem_flatMap]
  constructor
  · rintro ⟨h, holds, marked⟩
    obtain ⟨u, inside, rfl⟩ := List.mem_map.mp marked
    obtain ⟨member, used⟩ := List.mem_filter.mp inside
    exact ⟨h, holds, rfl, member, used⟩
  · rintro ⟨h, holds, sameId, member, used⟩
    exact ⟨h, holds, List.mem_map.mpr ⟨m.2, List.mem_filter.mpr ⟨member, used⟩, by rw [sameId]⟩⟩

/-- The marks of another vector, and those of all other records. -/
theorem mem_marks_withUserPipes (found : t.holders[i]? = some h)
    (userpipeVector : List UserPipeFd) (p : Process) {m : Int × UserPipeFd}
    (member : m ∈ (t.withUserPipes i userpipeVector p).marks) :
    (m.1 = h.id ∧ m.2 ∈ userpipeVector ∧ m.2.isUsed = true) ∨ m ∈ t.marks := by
  obtain ⟨g, holds, sameId, inside, used⟩ := mem_marks.mp member
  rcases mem_modify found holds with rfl | old
  · exact .inl ⟨sameId.symm, inside, used⟩
  · exact .inr (mem_marks.mpr ⟨g, old, sameId, inside, used⟩)

/-- Pipes that are not marked have no part in the marks. -/
theorem marks_withUserPipes (found : t.holders[i]? = some h) {userpipeVector : List UserPipeFd}
    (p : Process) (same : userpipeVector.filter (·.isUsed) = h.userpipeVector.filter (·.isUsed)) :
    (t.withUserPipes i userpipeVector p).marks = t.marks := by
  refine flatMap_modify (fun g isHere => ?_)
  rw [found] at isHere
  cases isHere
  simp only [same]

end Around

/-- A record without the user pipes that are marked. -/
def Holder.settled (h : Holder) : Holder :=
  { h with userpipeVector := h.userpipeVector.filter (! ·.isUsed) }

/-- A record without its marked user pipes, if it has one of the ids. -/
def Holder.cleared (ids : List Int) (h : Holder) : Holder := if h.id ∈ ids then h.settled else h

/-- What the tables rely on once everything marked in the records with some ids has
been erased. -/
def Tables.cleared (ids : List Int) (t : Tables) : List (Int × Object) :=
  (t.msock, .listener) :: t.holders.flatMap (fun h => (h.cleared ids).entries)

/-- Pipes that are marked have no part in what stays of a record with one of the ids. -/
theorem cleared_withUserPipes {t : Tables} {ids : List Int} {i : Nat} {h : Holder}
    (found : t.holders[i]? = some h) (listed : h.id ∈ ids) {userpipeVector : List UserPipeFd}
    (p : Process)
    (same : userpipeVector.filter (! ·.isUsed) = h.userpipeVector.filter (! ·.isUsed)) :
    (t.withUserPipes i userpipeVector p).cleared ids = t.cleared ids := by
  refine congrArg (List.cons (t.msock, Object.listener)) (flatMap_modify (fun g isHere => ?_))
  rw [found] at isHere
  cases isHere
  simp only [Holder.cleared, listed, if_true, Holder.settled, same]

/-- What stays depends on the ends in a pipe table alone, not on its counts. -/
theorem cleared_withPipes (t : Tables) (ids : List Int) (i : Nat) {first second : List PipeFd}
    (p q : Process) (same : NumberedPipes.ends first = NumberedPipes.ends second) :
    (t.withPipes i first p).cleared ids = (t.withPipes i second q).cleared ids := by
  refine congrArg (List.cons (t.msock, Object.listener)) (flatMap_modify_modify (fun g _ => ?_))
  simp only [Holder.cleared, Holder.settled]
  split
  · simp only [Holder.entries, same]
  · simp only [Holder.entries, same]

/-- Where nothing is marked in the records with the ids, everything stays. -/
theorem cleared_of_unmarked {t : Tables} {ids : List Int}
    (unmarked : ∀ m ∈ t.marks, m.1 ∉ ids) : t.cleared ids = t.entries := by
  have clear (h : Holder) (member : h ∈ t.holders) : h.cleared ids = h := by
    rw [Holder.cleared]
    split
    · rename_i listed
      have none : ∀ u ∈ h.userpipeVector, u.isUsed = false := by
        intro u inside
        by_contra used
        have marked : (h.id, u) ∈ t.marks :=
          mem_marks.mpr ⟨h, member, rfl, inside, by simpa using used⟩
        exact unmarked _ marked listed
      have kept : h.userpipeVector.filter (! ·.isUsed) = h.userpipeVector :=
        List.filter_eq_self.mpr (fun u inside => by simp [none u inside])
      simp only [Holder.settled, kept]
    · rfl
  refine congrArg (List.cons (t.msock, Object.listener)) (List.flatMap_congr (fun h member => ?_))
  rw [clear h member]

/-- The read end of a marked pipe. -/
def markedEnd (m : Int × UserPipeFd) : Int × Object := (m.2.outFd, .readEnd m.2.made)

/-- A vector and its pipes that are not marked. -/
theorem ends_filter_unused (userpipeVector : List UserPipeFd) (id : Int) :
    (UserPipes.ends userpipeVector).Perm
      (UserPipes.ends (userpipeVector.filter (! ·.isUsed)) ++
        ((userpipeVector.filter (·.isUsed)).map (id, ·)).map markedEnd) := by
  induction userpipeVector with
  | nil => exact List.Perm.refl _
  | cons u rest ih =>
    cases used : u.isUsed with
    | true =>
      have kept : (u :: rest).filter (! ·.isUsed) = rest.filter (! ·.isUsed) := by simp [used]
      have gone : (u :: rest).filter (·.isUsed) = u :: rest.filter (·.isUsed) := by simp [used]
      have single : u.ends = [markedEnd (id, u)] := by simp [UserPipeFd.ends, used, markedEnd]
      rw [UserPipes.ends_cons, single, kept, gone, List.map_cons, List.map_cons]
      exact (List.Perm.cons _ ih).trans List.perm_middle.symm
    | false =>
      have kept : (u :: rest).filter (! ·.isUsed) = u :: rest.filter (! ·.isUsed) := by simp [used]
      have gone : (u :: rest).filter (·.isUsed) = rest.filter (·.isUsed) := by simp [used]
      rw [UserPipes.ends_cons, kept, gone, UserPipes.ends_cons, List.append_assoc]
      exact ih.append_left _

/-- The entries are those that stay and the read ends of what is marked in the records
with the ids. -/
theorem entries_cleared (t : Tables) (ids : List Int) :
    t.entries.Perm (t.cleared ids ++ (t.marks.filter (·.1 ∈ ids)).map markedEnd) := by
  have each (h : Holder) : h.entries.Perm ((h.cleared ids).entries ++
      (((h.userpipeVector.filter (·.isUsed)).map (h.id, ·)).filter (·.1 ∈ ids)).map markedEnd) := by
    by_cases listed : h.id ∈ ids
    · have all : ((h.userpipeVector.filter (·.isUsed)).map (h.id, ·)).filter (·.1 ∈ ids) =
          (h.userpipeVector.filter (·.isUsed)).map (h.id, ·) := by
        refine List.filter_eq_self.mpr (fun m member => ?_)
        obtain ⟨u, -, rfl⟩ := List.mem_map.mp member
        simpa using listed
      rw [all, Holder.cleared, if_pos listed]
      simp only [Holder.entries, Holder.settled, List.cons_append, List.append_assoc]
      exact List.Perm.cons _ ((ends_filter_unused _ h.id).append_left _)
    · have none : ((h.userpipeVector.filter (·.isUsed)).map (h.id, ·)).filter (·.1 ∈ ids) = [] := by
        refine List.filter_eq_nil_iff.mpr (fun m member => ?_)
        obtain ⟨u, -, rfl⟩ := List.mem_map.mp member
        simpa using listed
      rw [none, Holder.cleared, if_neg listed, List.map_nil, List.append_nil]
  have all : (t.holders.flatMap Holder.entries).Perm
      (t.holders.flatMap (fun h => (h.cleared ids).entries ++
        (((h.userpipeVector.filter (·.isUsed)).map (h.id, ·)).filter (·.1 ∈ ids)).map markedEnd)) :=
    List.Perm.flatMap_left _ (fun h _ => each h)
  have apart := List.flatMap_append_perm t.holders (fun h => (h.cleared ids).entries)
    (fun h => (((h.userpipeVector.filter (·.isUsed)).map (h.id, ·)).filter (·.1 ∈ ids)).map
      markedEnd)
  simp only [Tables.entries, Tables.cleared, Tables.marks, List.filter_flatMap, List.map_flatMap,
    List.cons_append]
  exact List.Perm.cons _ (all.trans apart.symm)

/-- What a command has read, the due pipes of the client and everything marked in the
records with some ids, and all the rest. -/
theorem entries_given {t : Tables} {i : Nat} {h : Holder} (ids : List Int)
    (found : t.holders[i]? = some h) : t.entries.Perm
      ((t.withPipes i (h.pipeVector.filter (·.count ≠ 0)) t.process).cleared ids ++
        (NumberedPipes.ends (h.pipeVector.filter (·.count = 0)) ++
          (t.marks.filter (·.1 ∈ ids)).map markedEnd)) := by
  obtain ⟨rest, whole, changed⟩ := entries_withPipes found
  have kept := changed (h.pipeVector.filter (·.count ≠ 0)) t.process
  have stays := entries_cleared (t.withPipes i (h.pipeVector.filter (·.count ≠ 0)) t.process) ids
  rw [marks_withPipes] at stays
  apply List.perm_iff_count.mpr
  intro e
  have first := List.perm_iff_count.mp whole e
  have second := List.perm_iff_count.mp (NumberedPipes.ends_filter_due h.pipeVector) e
  have third := List.perm_iff_count.mp kept e
  have fourth := List.perm_iff_count.mp stays e
  simp only [List.count_append] at first second third fourth ⊢
  omega

/-- Giving up, at the start of an execution, what the command has read. -/
theorem Account.give {honest : Prop} {t : Tables} {i : Nat} {h : Holder}
    {files : List (Int × Object)} (ids : List Int) (found : t.holders[i]? = some h)
    (account : Account honest t.process (files ++ t.entries) []) :
    Account honest t.process
      ((t.withPipes i (h.pipeVector.filter (·.count ≠ 0)) t.process).cleared ids)
      (files ++ (NumberedPipes.ends (h.pipeVector.filter (·.count = 0)) ++
        (t.marks.filter (·.1 ∈ ids)).map markedEnd)) := by
  have all : (files ++ t.entries).Perm
      ((t.withPipes i (h.pipeVector.filter (·.count ≠ 0)) t.process).cleared ids ++
      (files ++ (NumberedPipes.ends (h.pipeVector.filter (·.count = 0)) ++
        (t.marks.filter (·.1 ∈ ids)).map markedEnd))) := by
    apply List.perm_iff_count.mpr
    intro e
    have first := List.perm_iff_count.mp (entries_given ids found) e
    simp only [List.count_append] at first ⊢
    omega
  refine account.weaken _ _ ?_ (by simpa using all.symm.subperm)
  exact fun e member => all.symm.subset (List.mem_append_left _ member)

end NetProg.SingleProc
