import NetProg.SingleProc.Scan

/-!
# Which lines stay in range

The command loop looks at no length before it takes a word from the queue,
copies one into a fixed buffer, indexes the arguments of a built-in command or
the table of ids, and where `pipe` fails it ends the process by `::exit(0)`. With
tables that agree, everything else that can go wrong is in the words themselves: every
round fails exactly when what the scan sees next is out of range, and otherwise the
scan goes along with it. So a line brings the server down exactly when its scan does not
go through.
-/

namespace NetProg.SingleProc

open Loops Outcomes Runs

/-- What the rounds of a line rely on: everybody they remember is logged in, and a command that is
begun has its first word. With it no look-up can fail. -/
structure Sane (job : Job) (f : Frame) : Prop where
  agree : Agree f.server.tables
  present : ∃ c, f.server.clientTable[job.cli]? = some c
  recv : f.recvStrId ≠ -1 → f.recvStrId ∈ f.server.tables.holders.map Holder.id
  send : f.sendStrId ≠ -1 → f.sendStrId ∈ f.server.tables.holders.map Holder.id
  erase : ∀ id ∈ f.needEraseCliIds, id ∈ f.server.tables.holders.map Holder.id
  begun : f.isFirstArgv = false ∨ f.isFinalArgv = true → f.arguments ≠ []

section Totals

variable {s : Server}

/-- Whoever is in the tables is found. -/
theorem client_total {iter : Nat} (present : ∃ c, s.clientTable[iter]? = some c) :
    Ends (s.client iter) (fun _ => True) (fun _ => False) := by
  obtain ⟨c, found⟩ := present
  rw [client_eq_ok.mpr found]
  trivial

theorem clientByID_total {id : Int} (member : id ∈ s.tables.holders.map Holder.id) :
    Ends (s.client (s.getClientByID id)) (fun _ => True) (fun _ => False) :=
  client_total (getClientByID_found member)

/-- A broadcast that names a client who is logged in does not fail. -/
theorem broadCast_total (action : Action) (msg : Str) (cur : ClientInfo) {targetId : Int}
    (member : action = .send ∨ action = .recv → targetId ∈ s.tables.holders.map Holder.id) :
    Ends (broadCast s action msg cur targetId) (fun after => after.tables = s.tables)
      (fun _ => False) := by
  have text : Ends (broadcastText s action msg cur targetId) (fun _ => True) (fun _ => False) := by
    cases action with
    | send => exact Ends.bind _ (clientByID_total (member (.inl rfl))) (fun _ _ => trivial)
    | recv => exact Ends.bind _ (clientByID_total (member (.inr rfl))) (fun _ _ => trivial)
    | login | logout | name | yell => trivial
  rw [broadCast]
  split
  · exact rfl
  · exact Ends.bind _ text (fun _ _ => rfl)

/-- An index of the id table is in range exactly for the ids 1..30. -/
theorem idAt_range (agree : Agree s.tables) (id : Int) :
    (∃ mark, s.idAt (id - 1) = .ok mark) ↔ 1 ≤ id ∧ id ≤ maxClientSize := by
  have size : s.idTable.length = maxClientSize := agree.size
  constructor
  · rintro ⟨mark, looked⟩
    obtain ⟨nonneg, found⟩ := idAt_eq_ok.mp looked
    obtain ⟨bound, -⟩ := List.getElem?_eq_some_iff.mp found
    omega
  · intro range
    have bound : (id - 1).toNat < s.idTable.length := by omega
    exact ⟨_, idAt_eq_ok.mpr ⟨by omega, List.getElem?_eq_getElem bound⟩⟩

/-- `args[k]` is in range when there are more than `k` arguments. -/
theorem arg_range (arguments : List Str) (k : Nat) :
    Ends (arg s arguments k) (fun text => arguments[k]? = some text)
      (fun _ => arguments.length ≤ k) := by
  rw [arg]
  cases found : arguments[k]? with
  | some text => exact rfl
  | none => exact List.getElem?_eq_none_iff.mp found

/-- `pop_back` has a blank to take off when there are more than `k` arguments. -/
theorem message_range (arguments : List Str) (k : Nat) :
    Ends (message s arguments k) (fun _ => k < arguments.length)
      (fun _ => arguments.length ≤ k) := by
  rw [message]
  split
  · rename_i empty
    exact List.drop_eq_nil_iff.mp empty
  · rename_i rest filled
    have longer : k < arguments.length := by
      by_contra short
      rw [List.drop_eq_nil_of_le (by omega)] at filled
      exact filled rfl
    exact longer

/-- `Who` finds everybody whose id is in use. -/
theorem who_total (agree : Agree s.tables) (cli : ClientInfo) :
    Ends (who s cli) (fun _ => True) (fun _ => False) := by
  have line (t : Server) (same : t.tables = s.tables) (k : Nat) (bound : k < maxClientSize) :
      Ends (whoLine t cli k) (fun after => after.tables = s.tables) (fun _ => False) := by
    rw [← same] at agree
    obtain ⟨mark, looked⟩ := (idAt_range agree (k + 1)).mpr (by omega)
    have index : t.idAt k = .ok mark := by
      rwa [show ((k : Int) + 1) - 1 = k by omega] at looked
    rw [whoLine]
    rw [index]
    refine Ends.bind (fun found => found = mark) rfl ?_
    rintro _ rfl
    split
    · rename_i marked
      have member := agree.marked looked marked
      exact Ends.bind _ (clientByID_total member) (fun _ _ => same)
    · exact same
  have lines (ks : List Nat) (bounds : ∀ k ∈ ks, k < maxClientSize) (t : Server)
      (same : t.tables = s.tables) :
      Ends (ks.foldlM (whoLine · cli) t) (fun _ => True) (fun _ => False) := by
    induction ks generalizing t with
    | nil => trivial
    | cons k rest ih =>
      rw [List.foldlM_cons]
      apply Ends.bind _ (line t same k (bounds k List.mem_cons_self))
      intro after kept
      exact ih (fun j member => bounds j (List.mem_cons_of_mem k member)) after kept
  exact lines _ (fun k member => List.mem_range.mp member) _ rfl

/-- `Tell` is in range for the ids 1..30. -/
theorem tell_range (agree : Agree s.tables) (cli : ClientInfo) (targetId : Int) (msg : Str) :
    Ends (tell s cli targetId msg) (fun _ => 1 ≤ targetId ∧ targetId ≤ maxClientSize)
      (fun _ => ¬ (1 ≤ targetId ∧ targetId ≤ maxClientSize)) := by
  rw [tell]
  refine Ends.bind_eq ?_ ?_
  · intro _ failed range
    obtain ⟨mark, looked⟩ := (idAt_range agree targetId).mpr range
    rw [looked] at failed
    cases failed
  · intro mark looked
    have range := (idAt_range agree targetId).mp ⟨mark, looked⟩
    split
    · rename_i marked
      have found := clientByID_total (agree.marked looked marked)
      apply Ends.bind _ (found.mono (fun _ known => known) (fun _ none => none.elim))
      exact fun _ _ => range
    · exact range

/-- `Name` looks nobody up. -/
theorem name_total (iter : Nat) (cli : ClientInfo) (newName : Str) :
    Ends (name s iter cli newName) (fun _ => True) (fun _ => False) := by
  rw [name]
  split
  · trivial
  · exact (broadCast_total .name _ _ (by simp)).mono (fun _ _ => trivial) (fun _ none => none)

/-- A part of a command, after an argument or a message, that needs `n` words
after the program. -/
theorem needs_range {α β : Type} {x : Outcome α} {f : α → Outcome β} {prog : Str} {rest : List Str}
    {n : Nat} (range : commandInRange (prog :: rest) = decide (n ≤ rest.length))
    (first : Ends x (fun _ => n ≤ rest.length) (fun _ => rest.length < n))
    (second : ∀ a, Ends (f a) (fun _ => True) (fun _ => False)) :
    Ends (x >>= f) (fun _ => commandInRange (prog :: rest) = true)
      (fun _ => commandInRange (prog :: rest) = false) := by
  rw [range]
  refine Ends.bind (fun _ => n ≤ rest.length) (first.mono (fun _ long => long) ?_) ?_
  · intro _ short
    simpa using short
  · intro a long
    exact (second a).mono (fun _ _ => by simpa using long) (fun _ none => none.elim)

/-- Argument `k` of a command with its program in front. -/
theorem arg_needs (t : Server) (prog : Str) (rest : List Str) (k : Nat) :
    Ends (arg t (prog :: rest) (k + 1)) (fun _ => k + 1 ≤ rest.length)
      (fun _ => rest.length < k + 1) := by
  refine (arg_range (prog :: rest) (k + 1)).mono ?_ ?_
  · intro text found
    obtain ⟨bound, -⟩ := List.getElem?_eq_some_iff.mp found
    simp only [List.length_cons] at bound
    omega
  · intro _ short
    simp only [List.length_cons] at short
    omega

/-- The message of a command with its program in front. -/
theorem message_needs (t : Server) (prog : Str) (rest : List Str) (k : Nat) :
    Ends (message t (prog :: rest) (k + 1)) (fun _ => k + 1 ≤ rest.length)
      (fun _ => rest.length < k + 1) := by
  refine (message_range (prog :: rest) (k + 1)).mono ?_ ?_
  · intro text long
    simp only [List.length_cons] at long
    omega
  · intro _ short
    simp only [List.length_cons] at short
    omega

/-- A part that does not fail, with its status. -/
theorem status_total {x : Outcome Server} {kept : Server → Prop}
    (total : Ends x kept (fun _ => False)) (status : Int) :
    Ends (do return (← x, status)) (fun _ : Server × Int => True) (fun _ => False) :=
  Ends.bind _ total (fun _ _ => trivial)

/-- A built-in command fails exactly when it is out of range. The cases are those of `builtinCMD`,
each with the arguments it needs; a command that needs none fails on no agreeing tables. -/
theorem builtin_range (agree : Agree s.tables) (iter : Nat) (cli : ClientInfo)
    {arguments : List Str} (begun : arguments ≠ []) :
    Ends (builtin s iter cli arguments) (fun _ => commandInRange arguments = true)
      (fun _ => commandInRange arguments = false) := by
  obtain ⟨prog, rest, rfl⟩ := List.exists_cons_of_ne_nil begun
  rw [builtin]
  refine Ends.bind (fun text => text = prog) ?_ ?_
  · exact (arg_range (prog :: rest) 0).mono (fun _ same => (Option.some.inj same).symm)
      (fun _ short => by simp at short)
  intro text same
  rw [same]
  split
  · rename_i printenv
    refine needs_range (n := 1) ?_ (arg_needs s prog rest 0) (fun _ => trivial)
    simp only [commandInRange, if_pos printenv]
  rename_i notPrintenv
  split
  · rename_i setenv
    have range : commandInRange (prog :: rest) = decide (2 ≤ rest.length) := by
      simp only [commandInRange, if_neg notPrintenv, if_pos setenv]
    refine Ends.bind (fun _ => True) ((arg_needs s prog rest 0).mono (fun _ _ => trivial) ?_) ?_
    · intro _ short
      rw [range]
      simp only [decide_eq_false_iff_not]
      omega
    · intro var _
      exact needs_range range (arg_needs _ prog rest 1) (fun _ => trivial)
  rename_i notSetenv
  split
  · rename_i isWho
    have range : commandInRange (prog :: rest) = true := by
      simp only [commandInRange, if_neg notPrintenv, if_neg notSetenv, if_pos isWho]
    exact (status_total (who_total agree cli) 0).mono (fun _ _ => range) (fun _ none => none.elim)
  rename_i notWho
  split
  · rename_i yell
    refine needs_range (n := 1) ?_ (message_needs s prog rest 0) (fun msg => ?_)
    · simp only [commandInRange, if_neg notPrintenv, if_neg notSetenv, if_neg notWho, if_pos yell]
    · exact status_total (broadCast_total .yell msg cli (by simp)) 0
  rename_i notYell
  split
  · rename_i isTell
    have range : commandInRange (prog :: rest) = (decide (2 ≤ rest.length) &&
        ((rest[0]?).bind stoi).any (fun id : Int => decide (1 ≤ id ∧ id ≤ maxClientSize))) := by
      simp only [commandInRange, if_neg notPrintenv, if_neg notSetenv, if_neg notWho,
        if_neg notYell, if_pos isTell]
    rw [range]
    refine Ends.bind (fun number => rest[0]? = some number) ?_ ?_
    · apply (arg_range (prog :: rest) 1).mono (fun _ found => by simpa using found)
      intro _ short
      simp only [List.length_cons] at short
      have few : ¬ 2 ≤ rest.length := by omega
      simp [few]
    intro number first
    rw [first, Option.bind_some]
    split
    · rename_i none
      simp [none]
    · rename_i targetId number
      rw [number, Option.any_some]
      refine Ends.bind (fun _ => 2 ≤ rest.length) ?_ ?_
      · apply (message_needs s prog rest 1).mono (fun _ long => long)
        intro _ short
        have few : ¬ 2 ≤ rest.length := by omega
        simp [few]
      intro msg long
      refine Ends.bind _ ((tell_range agree cli targetId msg).mono (fun _ inRange => inRange) ?_) ?_
      · intro _ outside
        simp [outside]
      · intro after inRange
        simp [long, inRange]
  rename_i notTell
  split
  · rename_i isName
    refine needs_range (n := 1) ?_ (arg_needs s prog rest 0) (fun newName => ?_)
    · simp only [commandInRange, if_neg notPrintenv, if_neg notSetenv, if_neg notWho,
        if_neg notYell, if_neg notTell, if_pos isName]
    · exact status_total (name_total iter cli newName) 0
  rename_i notName
  have range : commandInRange (prog :: rest) = true := by
    simp only [commandInRange, if_neg notPrintenv, if_neg notSetenv, if_neg notWho,
      if_neg notYell, if_neg notTell, if_neg notName]
  split <;> exact range

end Totals

/-- A user-pipe word whose id can be looked up is in range. -/
theorem userWord_inRange {s : Server} (agree : Agree s.tables) {word : Str} {rest : List Str}
    {id mark : Int} (same : kind word = .userOut ∨ kind word = .userIn)
    (number : UserPipes.userNum word = some id) (looked : s.idAt (id - 1) = .ok mark) :
    wordInRange word rest = true := by
  obtain ⟨short, rfl⟩ := UserPipes.userNum_eq_some.mp number
  have range := (idAt_range agree _).mp ⟨mark, looked⟩
  rcases same with same | same <;>
    simp only [wordInRange, same, short, range, and_self, decide_true, Bool.and_self]

/-- What is read or not of a word, whatever the pipe it asks for. -/
theorem ready_inRange {job : Job} {f : Frame} {word : Str} {rest : List Str}
    (inRange : wordInRange word rest = true)
    (made : f.scan.asks job.cli word = true → job.world.pipes rest.length = true) :
    (f.isFirstArgv || (wordInRange word rest &&
      (!f.scan.asks job.cli word || job.world.pipes rest.length))) = true := by
  cases asked : f.scan.asks job.cli word with
  | false => simp [inRange]
  | true => simp [inRange, made asked]

/-- A word that could be read was in range, and the pipe it asked for was made. Only the words
that open a pipe ask for one, and a numbered pipe that is found in the table asks for none. -/
theorem Reads.inRange {job : Job} {f : Frame} {word : Str} {rest : List Str} {step : Step}
    (reads : Reads job f word rest step) (agree : Agree f.server.tables)
    (present : ∃ c, f.server.clientTable[job.cli]? = some c) :
    (f.isFirstArgv || (wordInRange word rest &&
      (!f.scan.asks job.cli word || job.world.pipes rest.length))) = true := by
  obtain ⟨me, isMe⟩ := present
  cases reads with
  | prog first => simp [first]
  | argument later same =>
    exact ready_inRange (by simp [wordInRange, same]) (by simp [Scan.asks, same])
  | @pipe isError pipeNum cli created later same number isCli creates =>
    have short := NumberedPipes.pipeNum_fits number
    have either : kind word = .pipe ∨ kind word = .errorPipe := by
      cases isError with
      | true => exact .inr same
      | false => exact .inl same
    apply ready_inRange
    · rcases either with same | same <;> simp [wordInRange, same, short]
    · intro asked
      have fresh := (asks_pipe either number isCli).mp asked
      obtain ⟨writeEnd, extended, opened⟩ := created
      rcases NumberedPipes.createPipe_cases creates with
        ⟨record, member, count, -⟩ | ⟨can, -⟩
      · exact absurd count (fresh record member)
      · exact can
  | redirectOut later same follows =>
    exact ready_inRange (by simp [wordInRange, same, follows]) (by simp [Scan.asks, same])
  | redirectIn later same follows =>
    exact ready_inRange (by simp [wordInRange, same, follows]) (by simp [Scan.asks, same])
  | userOut later same number looked marked isCli fresh can =>
    exact ready_inRange (userWord_inRange agree (.inl same) number looked) (fun _ => can)
  | userIn later same number looked =>
    exact ready_inRange (userWord_inRange agree (.inr same) number looked)
      (by simp [Scan.asks, same])
  | missing later same number looked =>
    apply ready_inRange (userWord_inRange agree same number looked)
    rcases same with same | same
    · intro asked
      exact absurd rfl ((asks_userOut agree same number looked isMe).mp asked).1
    · simp [Scan.asks, same]
  | exists_ later same number looked marked isCli taken =>
    apply ready_inRange (userWord_inRange agree (.inl same) number looked)
    intro asked
    obtain ⟨u, member, isTarget⟩ := taken
    exact absurd isTarget (((asks_userOut agree same number looked isCli).mp asked).2 u member)
  | absent later same number looked =>
    exact ready_inRange (userWord_inRange agree (.inr same) number looked)
      (by simp [Scan.asks, same])

/-- A word that could not be read was out of range, or asked for a pipe that was not made. -/
theorem Fails.inRange {job : Job} {f : Frame} {word : Str} {rest : List Str} {fault : Fault}
    (fails : Fails job f word rest fault) (agree : Agree f.server.tables)
    (present : ∃ c, f.server.clientTable[job.cli]? = some c) :
    (f.isFirstArgv || (wordInRange word rest &&
      (!f.scan.asks job.cli word || job.world.pipes rest.length))) = false := by
  cases fails with
  | pipeChar later same long =>
    have overrun := NumberedPipes.pipeNum_long long
    rcases same with same | same <;> simp [wordInRange, later, same, overrun]
  | pipeError later same number isCli refused =>
    obtain ⟨cannot, fresh⟩ := NumberedPipes.createPipe_refused refused
    have asked := (asks_pipe same number isCli).mpr fresh
    simp [later, asked, cannot]
  | userPipeError later same number looked marked isCli fresh refused =>
    have asked := (asks_userOut agree same number looked isCli).mpr ⟨marked, fresh⟩
    simp [later, asked, refused]
  | emptyQueue later same last =>
    rcases same with same | same <;> simp [wordInRange, later, same, last]
  | userChar later same long =>
    have overrun := UserPipes.userNum_eq_none.mp long
    rcases same with same | same <;> simp [wordInRange, later, same, overrun]
  | @idTable id later same number outside =>
    obtain ⟨short, rfl⟩ := UserPipes.userNum_eq_some.mp number
    have outOfRange : ¬ (1 ≤ atoi (word.drop 1) ∧ atoi (word.drop 1) ≤ maxClientSize) := by
      intro range
      obtain ⟨mark, looked⟩ := (idAt_range agree _).mpr range
      obtain ⟨nonneg, found⟩ := idAt_eq_ok.mp looked
      rw [outside nonneg] at found
      cases found
    rcases same with same | same <;>
      simp only [wordInRange, later, same, outOfRange, decide_false, Bool.and_false, Bool.or_false,
        Bool.false_and]
  | noClient missing =>
    obtain ⟨c, found⟩ := present
    rw [found] at missing
    cases missing
  | noSource looked marked missing =>
    obtain ⟨c, found⟩ := getClientByID_found (agree.marked looked marked)
    rw [found] at missing
    cases missing

/-- A round keeps the line sane if the clients it remembers are logged in. -/
theorem Sane.next {job : Job} {f next : Frame} (sane : Sane job f)
    (registry : SameRegistry f.server.tables next.server.tables)
    (recv : next.recvStrId ≠ -1 → next.recvStrId = f.recvStrId ∨
      next.recvStrId ∈ f.server.tables.holders.map Holder.id)
    (send : next.sendStrId ≠ -1 → next.sendStrId = f.sendStrId ∨
      next.sendStrId ∈ f.server.tables.holders.map Holder.id)
    (erase : ∀ id ∈ next.needEraseCliIds, id ∈ f.needEraseCliIds ∨
      id ∈ f.server.tables.holders.map Holder.id)
    (begun : next.arguments ≠ []) : Sane job next where
  agree := sane.agree.same registry
  present := registry.present sane.present
  recv isSet := by
    rw [registry.ids]
    rcases recv isSet with same | known
    · rw [same] at isSet ⊢
      exact sane.recv isSet
    · exact known
  send isSet := by
    rw [registry.ids]
    rcases send isSet with same | known
    · rw [same] at isSet ⊢
      exact sane.send isSet
    · exact known
  erase id member := by
    rw [registry.ids]
    rcases erase id member with old | known
    · exact sane.erase id old
    · exact known
  begun _ := begun

/-- A word read keeps the line sane. -/
theorem Reads.sane {job : Job} {f next : Frame} {word : Str} {rest : List Str}
    (reads : Reads job f word rest (.again next)) (sane : Sane job f) : Sane job next := by
  have registry := reads.registry
  have kept : ∀ id ∈ f.needEraseCliIds, id ∈ f.needEraseCliIds ∨
      id ∈ f.server.tables.holders.map Holder.id := fun _ member => .inl member
  cases reads with
  | prog first =>
    apply sane.next registry (fun _ => .inl rfl) (fun _ => .inl rfl) kept
    simp only [Frame.readProg]
    split <;> simp
  | argument later same =>
    apply sane.next registry (fun _ => .inl rfl) (fun _ => .inl rfl) kept
    simp [Frame.readArgument]
  | pipe later =>
    exact sane.next registry (fun _ => .inl rfl) (fun _ => .inl rfl) kept (sane.begun (.inl later))
  | redirectOut later =>
    exact sane.next registry (fun _ => .inl rfl) (fun _ => .inl rfl) kept (sane.begun (.inl later))
  | redirectIn later =>
    exact sane.next registry (fun _ => .inl rfl) (fun _ => .inl rfl) kept (sane.begun (.inl later))
  | userOut later same number looked marked =>
    have known := sane.agree.marked looked marked
    exact sane.next registry (fun _ => .inl rfl) (fun _ => .inr known) kept
      (sane.begun (.inl later))
  | @userIn sourceId mark sourceCli cli taken later same number looked marked isSource =>
    have known : sourceCli.id ∈ f.server.tables.holders.map Holder.id :=
      List.mem_map_of_mem (List.mem_of_getElem? (holders_getElem isSource))
    refine sane.next registry (fun _ => .inr known) (fun _ => .inl rfl) ?_
      (sane.begun (.inl later))
    intro id member
    rcases List.mem_append.mp member with old | new
    · exact .inl old
    · rw [List.mem_singleton.mp new]
      exact .inr known

theorem Sane.initFd {job : Job} {f : Frame} (sane : Sane job f) (sockfd : Int) :
    Sane job (f.initFd sockfd) := by
  rw [Frame.initFd]
  split
  · exact ⟨sane.agree, sane.present, sane.recv, sane.send, sane.erase, sane.begun⟩
  · exact sane

/-- The broadcasts before an execution find whom they name. -/
theorem announce_total {job : Job} {f : Frame} (sane : Sane job f) :
    Ends (announce job f) (fun after => after.tables = f.server.tables) (fun _ => False) := by
  have one (s : Server) (same : s.tables = f.server.tables) (action : Action) (cli : ClientInfo)
      (strId : Int) (known : strId ≠ -1 → strId ∈ f.server.tables.holders.map Holder.id) :
      Ends (announceOne job s action cli strId) (fun after => after.tables = f.server.tables)
        (fun _ => False) := by
    rw [announceOne]
    split
    · rename_i isSet
      rw [← same] at known ⊢
      exact broadCast_total action _ cli (fun _ => known isSet)
    · exact same
  rw [announce]
  refine Ends.bind _ (client_total sane.present) (fun cli _ => ?_)
  refine Ends.bind _ (one f.server rfl .recv cli _ sane.recv) (fun received same => ?_)
  exact one received same .send cli _ sane.send

/-- The used pipes of clients that are logged in can be erased. -/
theorem eraseUsed_total {ids : List Int} {s : Server}
    (known : ∀ id ∈ ids, id ∈ s.tables.holders.map Holder.id) :
    Ends (ids.foldlM eraseUsed s) (fun _ => True) (fun _ => False) := by
  induction ids generalizing s with
  | nil => trivial
  | cons id rest ih =>
    rw [List.foldlM_cons]
    have first : Ends (eraseUsed s id) (fun _ => True) (fun _ => False) := by
      rw [eraseUsed]
      exact Ends.bind _ (clientByID_total (known id List.mem_cons_self)) (fun _ _ => trivial)
    refine Ends.bind_eq (fun failure failed => first.raised failed) (fun one erased => ?_)
    obtain ⟨_, -, rfl⟩ := eraseUsed_eq_ok erased
    apply ih
    intro other member
    rw [(registry_userpipeVector _ _ _ _).ids]
    exact known other (List.mem_cons_of_mem id member)

/-- An execution fails exactly when its command is out of range. -/
theorem execute_range {job : Job} {f : Frame} (sane : Sane job f) (final : f.isFinalArgv = true) :
    Ends (execute job f) (fun _ => commandInRange f.arguments = true)
      (fun _ => commandInRange f.arguments = false) := by
  have impossible {α : Type} {x : Outcome α} {good : α → Prop}
      (total : Ends x good (fun _ => False)) : Ends x good
        (fun _ => commandInRange f.arguments = false) :=
    total.mono (fun _ known => known) (fun _ none => none.elim)
  rw [execute]
  refine Ends.bind _ (impossible (announce_total sane)) (fun announced told => ?_)
  have registry : SameRegistry f.server.tables announced.tables := .of_eq told
  have present := registry.present sane.present
  refine Ends.bind_eq (fun _ missing => ((client_total present).raised missing).elim)
    (fun cli isCli => ?_)
  have found := client_eq_ok.mp isCli
  generalize attach f cli announced.process = attached
  obtain ⟨needClosePipe, inFd, inPipe, p⟩ := attached
  have called : SameRegistry f.server.tables ((announced.withProcess p).logged
      (callOf job f (announced.withProcess p) cli inFd)).tables := registry.trans (.process _ p)
  have ranges := builtin_range (sane.agree.same called) job.cli cli
    (sane.begun (.inr final))
  refine Ends.bind_eq (fun _ failed => ranges.raised failed) (fun result built => ?_)
  obtain ⟨ran, status⟩ := result
  have inRange : commandInRange f.arguments = true := ranges.returned built
  have kept : SameRegistry f.server.tables ran.tables :=
    called.trans (.of_eq ((builtin_keeps _ _ _ _).returned built))
  have detaches : Ends (detach job ran (needClosePipe || f.needCloseUserpipe) inFd inPipe)
      (fun _ => True) (fun _ => False) := by
    rw [detach]
    exact Ends.bind _ (client_total (kept.present sane.present)) (fun _ _ => trivial)
  refine Ends.bind_eq (fun _ failed => (detaches.raised failed).elim) (fun detached done => ?_)
  obtain ⟨_, -, rfl⟩ := detach_eq_ok done
  refine Ends.bind _ (impossible (eraseUsed_total ?_)) (fun _ _ => inRange)
  intro id member
  rw [(registry_pipeVector _ _ _ _).ids, kept.ids]
  rcases List.mem_append.mp member with taken | own
  · exact sane.erase id taken
  · rw [List.mem_singleton.mp own, ← told]
    exact List.mem_map_of_mem (List.mem_of_getElem? (holders_getElem found))

/-- A round fails exactly when it is out of range; otherwise it keeps the line sane. What is out
of range is decided by the scan, which has the words and the tables and no descriptors. -/
theorem round_range {job : Job} {f : Frame} (sane : Sane job f) :
    Ends (round job f)
      (Round.Holds (fun next => f.scan.inRange job.world.pipes job.cli = true ∧ Sane job next)
        (fun _ => f.scan.inRange job.world.pipes job.cli = true))
      (fun _ => f.scan.inRange job.world.pipes job.cli = false) := by
  rw [round]
  split
  · rename_i final
    have range : f.scan.inRange job.world.pipes job.cli = commandInRange f.arguments := by
      simp only [Scan.inRange, Frame.scan, final, if_true]
    rw [range]
    have both := (execute_range sane final).and_returned (fun step ran => execute_executes ran)
    apply both.mono
    · rintro step ⟨inRange, next, rfl, executes⟩
      refine ⟨inRange, ?_⟩
      have registry := executes.registry
      obtain ⟨_, _, _, _, _, _, _, _, _, _, -, -, -, -, -, -, rfl⟩ := executes.steps
      exact sane.next registry (fun isSet => absurd rfl isSet) (fun isSet => absurd rfl isSet)
        (fun id member => by cases member) (sane.begun (.inr final))
    · exact fun _ outside => outside
  · rename_i notFinal
    split
    · rename_i empty
      simp [Scan.inRange, Frame.scan, notFinal, empty]
    · rename_i word rest words
      have started := sane.initFd job.sockfd
      have range : f.scan.inRange job.world.pipes job.cli =
          ((f.initFd job.sockfd).isFirstArgv || (wordInRange word rest &&
            (!(f.initFd job.sockfd).scan.asks job.cli word || job.world.pipes rest.length))) := by
        rw [initFd_scan, initFd_isFirstArgv]
        simp [Scan.inRange, show f.scan.words = word :: rest from words,
          show f.scan.isFinal = false from eq_false_of_ne_true notFinal,
          show f.scan.isFirst = f.isFirstArgv from rfl]
      rw [range]
      cases read : readWord job f word rest with
      | error failure =>
        obtain ⟨-, fails⟩ := readWord_fails read
        exact fails.inRange started.agree started.present
      | ok step =>
        have reads := readWord_reads read
        have inRange := reads.inRange started.agree started.present
        cases step with
        | again next => exact ⟨inRange, reads.sane started⟩
        | leave result => exact inRange

/-- The scan follows a round that does not fail. -/
theorem round_next {job : Job} {f : Frame} (sane : Sane job f) :
    Ends (round job f) (fun step => f.scan.next job.cli = scanned step) (fun _ => True) := by
  apply Ends.of_returned
  intro step ran
  rw [round] at ran
  split at ran
  · rename_i final
    obtain ⟨next, rfl, executes⟩ := execute_executes ran
    exact executes.scan final
  · rename_i notFinal
    split at ran
    · rename_i empty
      cases ran
      simp [Scan.next, Frame.scan, scanned, notFinal, empty]
    · rename_i word rest left
      have started := sane.initFd job.sockfd
      have notFinal' : (f.initFd job.sockfd).isFinalArgv = false := by
        have same := congrArg Scan.isFinal (initFd_scan f job.sockfd)
        exact same.trans (eq_false_of_ne_true notFinal)
      have left' : (f.initFd job.sockfd).cmds = word :: rest :=
        (congrArg Scan.words (initFd_scan f job.sockfd)).trans left
      rw [← initFd_scan f job.sockfd]
      exact (readWord_reads ran).scan started.agree started.present notFinal' left'

/-- The loop returns if the scan goes through, and fails if not. -/
def Survives (ran : Outcome (Server × Int)) (scan : Except Unit Unit) : Prop :=
  (∃ result, ran = .ok result) ↔ scan = .ok ()

/-- One round of the loop and of the scan: both fail, both end, or both go on to a sane frame and
its scan. It is the step of a simulation. -/
theorem round_survives {job : Job} {f : Frame} (sane : Sane job f) :
    Sum.LiftRel (fun g c => Sane job g ∧ c = g.scan) Survives (leads (round job f))
      (leads ((Scan.loop job.world.pipes job.cli).body f.scan)) := by
  have ranges := round_range sane
  have follows := round_next sane
  simp only [Scan.loop]
  cases ran : round job f with
  | error failure =>
    rw [ran] at ranges
    rw [if_neg (by simp [show f.scan.inRange job.world.pipes job.cli = false from ranges])]
    exact .inr (by simp [Survives])
  | ok step =>
    rw [ran] at ranges follows
    cases step with
    | again next =>
      rw [if_pos ranges.1, follows]
      exact .inl ⟨ranges.2, rfl⟩
    | leave result =>
      have inRange : f.scan.inRange job.world.pipes job.cli = true := ranges
      rw [if_pos inRange, follows]
      exact .inr (by simp [Survives])

/-- A line begins sane. -/
theorem Sane.begin {world : World} {s : Server} {iter : Nat} {cli : ClientInfo} {msg : Str}
    (agree : Agree s.tables) (found : s.clientTable[iter]? = some cli) :
    Sane ⟨iter, cli.fd, msg, world⟩ (Frame.initial (beginLine s cli) cli.fd (words msg)) where
  agree := agree.same (.process _ _)
  present := ⟨cli, found⟩
  recv isSet := absurd rfl isSet
  send isSet := absurd rfl isSet
  erase id member := by cases member
  begun either := by simp [Frame.initial] at either

/-- A line is executed to its end exactly when its scan goes through. By the rule for two loops
whose rounds go along with each other. -/
theorem clientExec_survives {world : World} {s : Server} {iter : Nat} {msg : Str}
    (agree : Agree s.tables) (present : ∃ c, s.clientTable[iter]? = some c) :
    (∃ result, clientExec world s iter msg = .ok result) ↔
      (Scan.loop world.pipes iter).run (Scan.ofLine s.tables msg) = .ok () := by
  obtain ⟨cli, found⟩ := present
  by_cases empty : msg = []
  · have blank : clientExec world s iter msg = .ok (beginLine s cli, 0) := by
      rw [clientExec]
      rw [client_eq_ok.mpr found]
      exact if_pos empty
    have passes : (Scan.loop world.pipes iter).run (Scan.ofLine s.tables msg) = .ok () := by
      rw [empty]
      exact (Scan.loop world.pipes iter).run_leave rfl
    simp [blank, passes]
  · have line : (∃ result, clientExec world s iter msg = .ok result) ↔
        ∃ result, execCmds ⟨iter, cli.fd, msg, world⟩ (beginLine s cli) (words msg) =
          .ok result := by
      rw [clientExec]
      rw [client_eq_ok.mpr found]
      simp only [bind, Except.bind, empty, if_false]
      cases execCmds ⟨iter, cli.fd, msg, world⟩ (beginLine s cli) (words msg) with
      | error e => simp
      | ok result => simp [pure, Except.pure]
    have survives : Survives
        (execCmds ⟨iter, cli.fd, msg, world⟩ (beginLine s cli) (words msg))
        ((Scan.loop world.pipes iter).run (Scan.ofLine s.tables msg)) := by
      apply (cmdLoop ⟨iter, cli.fd, msg, world⟩).run_matches (Scan.loop world.pipes iter)
        (fun f c => Sane ⟨iter, cli.fd, msg, world⟩ f ∧ c = f.scan)
      · rintro f _ ⟨sane, rfl⟩
        exact round_survives sane
      · exact ⟨Sane.begin agree found, rfl⟩
    rw [line]
    exact survives

/-- The scan of a line goes through. It reads the line against who is logged in, which pipes there
are and which `pipe` calls succeed, and touches nothing. -/
def LineInRange (s : Server) (fd : Int) (chunk : Str) (world : World) : Prop :=
  (Scan.loop world.pipes (s.getClientByFd fd)).run (Scan.ofLine s.tables (cliMsg chunk)) = .ok ()

instance (s : Server) (fd : Int) (chunk : Str) (world : World) :
    Decidable (LineInRange s fd chunk world) :=
  inferInstanceAs (Decidable (_ = _))

/-- Two clients, the first with a pending user pipe from the second. -/
def twoClients : List Event :=
  [.accept (str "127.0.0.1") 4001, .accept (str "127.0.0.1") 4002,
    .line 5 (str "ls >1\n") World.plain]

/-- A line with every kind of word. -/
def everyWord : Str := str "cat <2 | number !12 tell 2 hello there\n"

end NetProg.SingleProc
