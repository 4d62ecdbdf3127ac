import NetProg.MultiProc.Children

/-!
# The name command

`Name` compares the new name with those of all slots. A slot keeps the name of its last
client when that client has gone, so a name may be refused that no client has. A name
that passes is copied into `user_name` without a look at its length.

Otherwise the command does what it is for: it succeeds when no client has the name, and
changes the name in its client's own slot and nothing else in the table.
-/

namespace NetProg.MultiProc

open Outcomes

/-- `Name` has gone through, up to its announcement. -/
def Succeeds (g : Server) (curId : Nat) (newName : Str) : Prop :=
  ∃ after, name g curId newName = .ok after ∧ after.announced = g.announced ++ [(curId, .name)]

/-- What the command is for: it succeeds exactly if no client has the name, changes nothing in the
table but the name of the client's own slot, and the client is found with it then. -/
structure NamesRight (g : Server) (curId : Nat) (newName : Str) : Prop where
  /-- It succeeds if and only if no client has the name. -/
  succeeds_iff : Succeeds g curId newName ↔
    ∀ client ∈ g.table, client.valid = true → client.userName ≠ newName
  /-- The name of the client's own slot is all it changes in the table. -/
  effect : ∀ after, name g curId newName = .ok after →
    after.announced = g.announced ++ [(curId, .name)] →
      after.table = g.table.modify (curId - 1) (fun client => { client with userName := newName })
  /-- It is the name the client is found with. -/
  found : ∀ after, name g curId newName = .ok after →
    after.announced = g.announced ++ [(curId, .name)] →
      getClientByID after.table curId =
        (getClientByID g.table curId).map (fun client => { client with userName := newName })

section List

variable {α : Type} {p : α → Bool} {change : α → α}

/-- A search that nothing but one position can end finds that position changed when it
is changed, if the search does not see the change. -/
theorem find?_modify (blind : ∀ a, p (change a) = p a) {l : List α} {i : Nat}
    (only : ∀ j a, l[j]? = some a → p a = true → j = i) :
    (l.modify i change).find? p = (l.find? p).map change := by
  induction l generalizing i with
  | nil => simp
  | cons a l ih =>
    cases i with
    | zero =>
      rw [List.modify_zero_cons]
      by_cases here : p a = true
      · rw [List.find?_cons_of_pos (blind a ▸ here), List.find?_cons_of_pos here]
        rfl
      · have nowhere : l.find? p = none := by
          apply List.find?_eq_none.mpr
          intro b member there
          obtain ⟨j, inside, at_⟩ := List.getElem_of_mem member
          have position := only (j + 1) b (by simp [← at_]) there
          cases position
        rw [List.find?_cons_of_neg (blind a ▸ here), List.find?_cons_of_neg here, nowhere]
        rfl
    | succ i =>
      have notHere : ¬ p a = true := by
        intro here
        have position := only 0 a rfl here
        cases position
      rw [List.modify_succ_cons, List.find?_cons_of_neg notHere, List.find?_cons_of_neg notHere]
      apply ih
      intro j b at_ there
      exact Nat.succ.inj (only (j + 1) b at_ there)

end List

section Name

variable {g : Server} {curId : Nat} {newName : Str}

/-- A client with an id has the slot of that number. -/
theorem Server.Numbered.slot_eq (numbered : g.Numbered) {i : Nat} {client : ClientInfo}
    (slot : g.table[i]? = some client) (isClient : client.id = curId) (valid : client.valid = true) :
    i = curId - 1 := by
  have number := numbered.number i client.id (by simp [Server.links, slot, valid])
  omega

/-- A renamed client is found under its new name. -/
theorem getClientByID_rename (numbered : g.Numbered) :
    getClientByID (rename g.table curId newName) curId =
      (getClientByID g.table curId).map (fun client => { client with userName := newName }) := by
  rw [getClientByID, getClientByID, rename]
  apply find?_modify
  · intro client
    rfl
  · intro i client slot found
    simp only [Bool.and_eq_true, decide_eq_true_eq] at found
    exact numbered.slot_eq slot (Int.ofNat.inj found.1) found.2

/-- A name that some slot has is refused. -/
theorem name_refused (taken : ∃ client ∈ g.table, client.userName = newName) :
    ∃ text, name g curId newName = .ok (g.write curId text) := by
  have found : g.table.any (fun client => client.userName = newName) = true := by
    simpa using taken
  rw [name, if_pos found]
  exact ⟨_, rfl⟩

/-- A name that is refused is not announced. -/
theorem not_succeeds_of_taken (taken : ∃ client ∈ g.table, client.userName = newName) :
    ¬ Succeeds g curId newName := by
  rintro ⟨after, named, announced⟩
  obtain ⟨text, refused⟩ := @name_refused g curId newName taken
  rw [refused] at named
  cases named
  have longer := congrArg List.length announced
  simp [Server.write, Server.onShell] at longer

/-- A name that no slot has and that fits is taken. -/
theorem name_taken (numbered : g.Numbered) (own : (getClientByID g.table curId).isSome = true)
    (free : ∀ client ∈ g.table, client.userName ≠ newName) (fits : newName.length < userNameSize) :
    name g curId newName = .ok { g with
      table := rename g.table curId newName
      announced := g.announced ++ [(curId, .name)] } := by
  have absent : ¬ g.table.any (fun client => client.userName = newName) = true := by
    simpa using free
  have still := @getClientByID_rename g curId newName numbered
  obtain ⟨client, isClient⟩ := Option.isSome_iff_exists.mp own
  rw [isClient] at still
  rw [name, if_neg absent, if_pos fits, Server.broadcast, still]
  rfl

/-- A name that no slot has and that does not fit overruns its array. -/
theorem name_overruns (free : ∀ client ∈ g.table, client.userName ≠ newName)
    (long : ¬ newName.length < userNameSize) : name g curId newName = .error (.userName, g) := by
  have absent : ¬ g.table.any (fun client => client.userName = newName) = true := by
    simpa using free
  rw [name, if_neg absent, if_neg long]

/-- For every table, client and name: the name command does what it is for if and only if a client
has the name, or no slot has it, those of clients that have gone included, and it fits into
`user_name`.

The comparison goes through all slots and does not ask whether they are valid; and the copy into
`user_name` does not ask how long the name is. -/
theorem names_right_iff (numbered : g.Numbered)
    (own : (getClientByID g.table curId).isSome = true) (newName : Str) :
    NamesRight g curId newName ↔
      (∃ client ∈ g.table, client.valid = true ∧ client.userName = newName) ∨
        ((∀ client ∈ g.table, client.userName ≠ newName) ∧ newName.length < userNameSize) := by
  by_cases used : ∃ client ∈ g.table, client.valid = true ∧ client.userName = newName
  · obtain ⟨client, member, valid, same⟩ := used
    have refused := @not_succeeds_of_taken g curId newName ⟨client, member, same⟩
    apply iff_of_true _ (Or.inl ⟨client, member, valid, same⟩)
    constructor
    · apply iff_of_false refused
      intro unused
      exact unused client member valid same
    · intro after named announced
      exact absurd ⟨after, named, announced⟩ refused
    · intro after named announced
      exact absurd ⟨after, named, announced⟩ refused
  · have due : ∀ client ∈ g.table, client.valid = true → client.userName ≠ newName :=
      fun client member valid same => used ⟨client, member, valid, same⟩
    by_cases free : ∀ client ∈ g.table, client.userName ≠ newName
    · by_cases fits : newName.length < userNameSize
      · have named := name_taken numbered own free fits
        apply iff_of_true _ (Or.inr ⟨free, fits⟩)
        constructor
        · exact iff_of_true ⟨_, named, rfl⟩ due
        · intro after isNamed _
          rw [named] at isNamed
          cases isNamed
          rfl
        · intro after isNamed _
          rw [named] at isNamed
          cases isNamed
          exact getClientByID_rename numbered
      · -- the copy overruns `user_name`
        apply iff_of_false
        · intro right
          obtain ⟨after, named, -⟩ := right.succeeds_iff.mpr due
          rw [name_overruns free fits] at named
          cases named
        · rintro (taken | ⟨-, short⟩)
          · exact used taken
          · exact fits short
    · -- the name of a client that has gone
      have taken : ∃ client ∈ g.table, client.userName = newName := by
        simpa using free
      apply iff_of_false
      · intro right
        exact not_succeeds_of_taken taken (right.succeeds_iff.mpr due)
      · rintro (valid | ⟨unused, -⟩)
        · exact used valid
        · exact free unused

end Name

/-- A client with the id 1, and a slot whose client, called bob, has gone. -/
def bobHasGone : Server := { Server.initial with
  table := (Server.initial.table.set 0 ⟨true, 0, 1, str "(no name)", str "10.0.0.1", 5000⟩).set 1
    ⟨false, 0, 2, str "bob", str "10.0.0.2", 5001⟩ }

theorem bobHasGone_numbered : bobHasGone.Numbered :=
  ((Server.initial_rest.numbered).enter rfl : Server.Numbered { Server.initial with
    table := Server.initial.table.set 0
      ⟨true, 0, 1, str "(no name)", str "10.0.0.1", 5000⟩ }).enter rfl

/-- A name nobody has had is taken. -/
theorem names_right_alice : NamesRight bobHasGone 1 (str "alice") :=
  (names_right_iff bobHasGone_numbered (by decide +kernel) (str "alice")).mpr
    (Or.inr (by decide +kernel))

/-- The name of the client that has gone is refused, and one of twenty characters overruns
its array. -/
theorem departed_name_refused :
    ¬ NamesRight bobHasGone 1 (str "bob") ∧ ¬ NamesRight bobHasGone 1 (str "abcdefghijklmnopqrst") ∧
      (∀ client ∈ bobHasGone.table, client.valid = true → client.userName ≠ str "bob") ∧
      (∃ text, name bobHasGone 1 (str "bob") = .ok (bobHasGone.write 1 text)) ∧
      name bobHasGone 1 (str "abcdefghijklmnopqrst") = .error (.userName, bobHasGone) := by
  have own : (getClientByID bobHasGone.table (1 : Nat)).isSome = true := by decide +kernel
  have gone : ∃ client ∈ bobHasGone.table, client.userName = str "bob" := by decide +kernel
  have unused : ∀ client ∈ bobHasGone.table, client.valid = true → client.userName ≠ str "bob" := by
    decide +kernel
  have free : ∀ client ∈ bobHasGone.table, client.userName ≠ str "abcdefghijklmnopqrst" := by
    decide +kernel
  have overruns := @name_overruns bobHasGone 1 _ free (by decide)
  refine ⟨?_, ?_, unused, name_refused gone, overruns⟩
  · intro right
    exact not_succeeds_of_taken gone (right.succeeds_iff.mpr unused)
  · intro right
    obtain ⟨after, named, -⟩ := right.succeeds_iff.mpr (fun client member _ => free client member)
    rw [overruns] at named
    cases named

end NetProg.MultiProc
