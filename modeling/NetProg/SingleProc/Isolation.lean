import NetProg.SingleProc.Alone

/-!
# Clients are isolated

One shell with one environment and one search path serves all clients, and nothing
of a client shows in the lines of another, apart from user pipes and messages. Each
line of a client goes as it would go alone; by induction over the run, what the
client sees of all its lines is a function of their texts.
-/

namespace NetProg.SingleProc

open Loops Outcomes Runs

/-- What the client behind an iterator holds. -/
def Holdings.own (me : Nat) (h : Holdings) : Option Belongings := (h.cards[me]?).map Card.own

theorem own_alter (me : Nat) (change : Belongings → Belongings) (h : Holdings) :
    (h.alter me change).own me = (h.own me).map change := by
  simp only [Holdings.own, Holdings.alter, List.getElem?_modify_eq, Option.map_eq_map,
    Option.map_map]
  rfl

/-- The frame as the client of the line would see it alone. -/
def Frame.solo (me : Nat) (f : Frame) : Solo where
  words := f.cmds
  isFirst := f.isFirstArgv
  isFinal := f.isFinalArgv
  arguments := f.arguments
  environment := f.server.holdings.environment
  own := f.server.holdings.own me

theorem initFd_solo (f : Frame) (me : Nat) (sockfd : Int) :
    (f.initFd sockfd).solo me = f.solo me := by
  rw [Frame.initFd]
  split <;> rfl

/-- No word left is a user pipe, and none was read. -/
structure Plain (f : Frame) : Prop where
  words : ∀ word ∈ f.cmds, kind word ≠ .userOut ∧ kind word ≠ .userIn
  recvStrId : f.recvStrId = -1
  sendStrId : f.sendStrId = -1

theorem Plain.initFd {f : Frame} (plain : Plain f) (sockfd : Int) : Plain (f.initFd sockfd) := by
  rw [Frame.initFd]
  split
  · exact ⟨plain.words, plain.recvStrId, plain.sendStrId⟩
  · exact plain

/-- Reading a word that is no user pipe: the line read by itself, with what its client sees of the
server, reads it in the same way. Every kind of word but the user pipes asks the tables only for
the client itself. -/
theorem Reads.solo {job : Job} {f : Frame} {word : Str} {rest : List Str} {step : Step}
    (reads : Reads job f word rest step) (plain : Plain f) (notFinal : f.isFinalArgv = false)
    (left : f.cmds = word :: rest) : ∃ next, step = .again next ∧ Plain next ∧
      (f.solo job.cli).next = .again (next.solo job.cli) := by
  have notUser := plain.words word (left ▸ List.mem_cons_self)
  have later {shorter : List Str} (suffix : shorter ⊆ rest) :
      ∀ word ∈ shorter, kind word ≠ .userOut ∧ kind word ≠ .userIn :=
    fun word member => plain.words word (left ▸ List.mem_cons_of_mem _ (suffix member))
  have next (step : Frame) (holdings : step.server.holdings =
      f.server.holdings.read job.cli f.isFirstArgv word) : step.solo job.cli =
        ⟨step.cmds, step.isFirstArgv, step.isFinalArgv, step.arguments,
          (f.server.holdings.read job.cli f.isFirstArgv word).environment,
          (f.server.holdings.read job.cli f.isFirstArgv word).own job.cli⟩ := by
    rw [Frame.solo, holdings]
  have notFinal : (f.solo job.cli).isFinal = false := notFinal
  have left : (f.solo job.cli).words = word :: rest := left
  have held := reads.holdings
  cases reads with
  | prog first =>
    refine ⟨_, rfl, ⟨later ?_, plain.recvStrId, plain.sendStrId⟩, ?_⟩
    · simp only [Frame.readProg]
      split <;> simp
    · rw [Solo.next_prog notFinal left first, next _ held, Holdings.read, if_pos first]
      rfl
  | argument notFirst same =>
    refine ⟨_, rfl, ⟨later (List.Subset.refl _), plain.recvStrId, plain.sendStrId⟩, ?_⟩
    rw [Solo.next_argument notFinal left notFirst same, next _ held, Holdings.read, notFirst, same]
    rfl
  | @pipe isError _ _ _ notFirst same number isCli creates =>
    refine ⟨_, rfl, ⟨later (List.Subset.refl _), plain.recvStrId, plain.sendStrId⟩, ?_⟩
    rw [Solo.next_pipe notFinal left notFirst same, next _ held, Holdings.read, notFirst, same]
    cases isError
    all_goals
      simp only [Bool.false_eq_true, if_false, if_true, own_alter]
      rfl
  | redirectOut notFirst same follows =>
    refine ⟨_, rfl, ⟨later (by simp [Frame.redirectOut, Frame.endLine, follows]),
      plain.recvStrId, plain.sendStrId⟩, ?_⟩
    rw [Solo.next_redirect notFinal left notFirst (.inl same), next _ held, Holdings.read,
      notFirst, same, follows]
    rfl
  | redirectIn notFirst same follows =>
    refine ⟨_, rfl, ⟨later (by simp [Frame.redirectIn, Frame.endLine, follows]),
      plain.recvStrId, plain.sendStrId⟩, ?_⟩
    rw [Solo.next_redirect notFinal left notFirst (.inr same), next _ held, Holdings.read,
      notFirst, same, follows]
    rfl
  | userOut _ same => exact absurd same notUser.1
  | userIn _ same => exact absurd same notUser.2
  | missing _ same => exact (same.elim notUser.1 notUser.2).elim
  | exists_ _ same => exact absurd same notUser.1
  | absent _ same => exact absurd same notUser.2

/-- An execution. -/
theorem Executes.solo {job : Job} {f next : Frame} (executes : Executes job f next)
    (plain : Plain f) (final : f.isFinalArgv = true) :
    Plain next ∧ (f.solo job.cli).next = .again (next.solo job.cli) := by
  have held := executes.holdings
  have own : next.server.holdings.own job.cli =
      (f.server.holdings.own job.cli).map (fun own => (own.store f.arguments).advance) := by
    have run : (f.server.holdings.run job.cli f.arguments).own job.cli =
        (f.server.holdings.own job.cli).map (Belongings.store f.arguments) := own_alter _ _ _
    rw [held, Holdings.perform, own_alter, run, Option.map_map]
    rfl
  have environment : next.server.holdings.environment =
      environmentAfter f.arguments f.server.holdings.environment := by
    rw [held]
    rfl
  have shown : next.solo job.cli = ⟨next.cmds, next.isFirstArgv, next.isFinalArgv, next.arguments,
      environmentAfter f.arguments f.server.holdings.environment,
      (f.server.holdings.own job.cli).map (fun own => (own.store f.arguments).advance)⟩ := by
    rw [Frame.solo, own, environment]
  rw [shown, Solo.next, if_pos (by exact final)]
  obtain ⟨_, _, _, _, _, _, _, _, _, _, -, -, -, -, -, -, rfl⟩ := executes.steps
  exact ⟨⟨plain.words, rfl, rfl⟩, rfl⟩

/-- The broadcasts before an execution without user pipes. -/
theorem announce_plain {job : Job} {f : Frame} {announced : Server} (plain : Plain f)
    (announces : announce job f = .ok announced) : announced = f.server := by
  rw [announce] at announces
  obtain ⟨cli, -, announces⟩ := bind_eq_ok.mp announces
  rw [plain.recvStrId, plain.sendStrId] at announces
  cases announces
  rfl

/-- `printenv` prints the value of its first argument, if there is one. -/
theorem builtin_printenv {s ran : Server} {iter : Nat} {cli : ClientInfo} {arguments : List Str}
    {status : Int} (first : arguments.head? = some (str "printenv"))
    (built : builtin s iter cli arguments = .ok (ran, status)) :
    ran.output = s.output ++ (((arguments[1]?.bind s.environment.getenv).map
      (· ++ str "\n")).toList.map (cli.fd, ·)) := by
  rw [List.head?_eq_getElem?] at first
  rw [builtin] at built
  obtain ⟨prog, isProg, built⟩ := bind_eq_ok.mp built
  have named : prog = str "printenv" := by
    rw [arg, first] at isProg
    exact (Except.ok.inj isProg).symm
  rw [if_pos named] at built
  obtain ⟨var, isVar, built⟩ := bind_eq_ok.mp built
  cases built
  have second : arguments[1]? = some var := by
    rw [arg] at isVar
    split at isVar
    · rename_i found
      cases isVar
      exact found
    · cases isVar
  rw [second, Option.bind_some, printEnv]
  cases value : s.environment.getenv var with
  | none => simp
  | some text => simp [Server.write]

/-- An execution of `printenv` prints nothing else. -/
theorem Executes.prints {job : Job} {f next : Frame} (executes : Executes job f next)
    (plain : Plain f) (first : f.arguments.head? = some (str "printenv")) :
    (next.server.output.drop f.server.output.length).map Prod.snd =
      ((f.arguments[1]?.bind f.server.environment.getenv).map (· ++ str "\n")).toList := by
  obtain ⟨announced, cli, needClosePipe, inFd, inPipe, p, ran, status, detached, erased,
    announces, -, -, built, detaches, erases, rfl⟩ := executes.steps
  have same := announce_plain plain announces
  subst same
  have output : erased.output = ran.output := by
    have detached : detached.output = ran.output := by
      obtain ⟨_, -, rfl⟩ := detach_eq_ok detaches
      rfl
    exact eraseUsed_induction (fun t => t.output = ran.output) detached
      (fun _ _ _ same _ => same) erases
  have printed := builtin_printenv first built
  change (erased.output.drop f.server.output.length).map Prod.snd = _
  rw [output, printed]
  change ((f.server.output ++ _).drop f.server.output.length).map Prod.snd = _
  rw [List.drop_left, List.map_map]
  exact List.map_id _

/-- What `printenv` prints is what the client would print alone. -/
theorem printed_solo {job : Job} {f : Frame} {step : Step} (plain : Plain f)
    (ran : round job f = .ok step) : printed job f = (f.solo job.cli).glimpse.printed := by
  by_cases prints : f.isFinalArgv ∧ f.arguments.head? = some (str "printenv")
  · obtain ⟨next, rfl, executes⟩ : ∃ next, step = .again next ∧ Executes job f next := by
      rw [round, if_pos prints.1] at ran
      exact execute_executes ran
    rw [printed, if_pos prints, ran]
    exact (executes.prints plain prints.2).trans (if_pos (by exact prints)).symm
  · rw [printed, if_neg prints]
    exact (if_neg (by exact prints)).symm

/-- What is seen at the head of a round is what the client would see alone. -/
theorem glimpse_solo {job : Job} {f : Frame} {step : Step} (plain : Plain f)
    (ran : round job f = .ok step) : glimpse job f = (f.solo job.cli).glimpse := by
  have counts : (f.server.clientTable[job.cli]?).map (fun c => c.pipeVector.map PipeFd.count) =
      (f.server.holdings.own job.cli).map Belongings.counts := by
    simp only [Server.holdings, Holdings.own, List.getElem?_map, Option.map_map]
    rfl
  rw [glimpse, printed_solo plain ran, counts]
  rfl

section Line

variable {job : Job}

/-- A round that does not execute anything reads a word or is the last, and the line alone does
the same with it. -/
theorem round_solo {f : Frame} {step : Step} (plain : Plain f) (ran : round job f = .ok step) :
    (∃ next, step = .again next ∧ Plain next ∧
      (f.solo job.cli).next = .again (next.solo job.cli)) ∨
    (∃ status, step = .leave (f.server, status) ∧
      (f.solo job.cli).next = .leave (f.server.holdings.own job.cli)) := by
  rw [round] at ran
  split at ran
  · rename_i final
    obtain ⟨next, rfl, executes⟩ := execute_executes ran
    exact .inl ⟨next, rfl, executes.solo plain final⟩
  · rename_i notFinal
    split at ran
    · rename_i empty
      cases ran
      refine .inr ⟨f.status, rfl, ?_⟩
      rw [Solo.next, if_neg (by exact notFinal)]
      simp only [show (f.solo job.cli).words = [] from empty]
      rfl
    · rename_i word rest left
      have cmds : (f.initFd job.sockfd).cmds = word :: rest := by
        rw [Frame.initFd]
        split <;> exact left
      have unfinished : (f.initFd job.sockfd).isFinalArgv = false := by
        rw [Frame.initFd]
        split <;> simpa using notFinal
      have read := (readWord_reads ran).solo (plain.initFd job.sockfd) unfinished cmds
      rw [initFd_solo] at read
      exact .inl read

/-- The rounds of a line without user pipes are seen as they would be alone. -/
theorem cmdLoop_alone {f : Frame} {value : Server × Int} (plain : Plain f)
    (returned : (cmdLoop job).run f = .ok value) :
    ((cmdLoop job).rounds f).map (glimpse job) =
        (Solo.loop.rounds (f.solo job.cli)).map Solo.glimpse ∧
      Solo.loop.run (f.solo job.cli) = .ok (value.1.holdings.own job.cli) := by
  refine (cmdLoop job).run_follows Solo.loop (Frame.solo job.cli)
    (fun value => value.1.holdings.own job.cli) Plain (glimpse job) Solo.glimpse ?_ ?_
    (fun f step plain one => glimpse_solo plain one) plain returned
  · intro f next plain again
    rcases round_solo plain again with ⟨_, same, after, step⟩ | ⟨_, same, -⟩
    · cases same
      exact ⟨after, congrArg Except.ok step⟩
    · cases same
  · intro f value plain leave
    rcases round_solo plain leave with ⟨_, same, -⟩ | ⟨_, same, step⟩
    · cases same
    · cases same
      exact congrArg Except.ok step

end Line

/-- The start of a line is the start of a line alone. -/
theorem beginLine_solo (s : Server) {iter : Nat} {cli : ClientInfo}
    (found : s.clientTable[iter]? = some cli) (path : HasPath cli.envVector) (line : Str) :
    (Frame.initial (beginLine s cli) cli.fd (words line)).solo iter =
      Solo.ofLine cli.card.own line := by
  have filled : (beginLine s cli).holdings.environment = setAllEnv ⟨[], []⟩ cli.envVector :=
    setAllEnv_congr rfl (.inr path)
  have own : (beginLine s cli).holdings.own iter = some cli.card.own := by
    simp [beginLine, Server.holdings, Holdings.own, Server.withProcess, Server.withEnvironment,
      found]
  simp only [Frame.solo, Frame.initial, Solo.ofLine, filled, own]
  rfl

/-- A line without user pipes goes as it would go alone. Other clients have left nothing in the
environment, because the line begins by clearing it and setting the variables of its client. -/
theorem clientExec_alone {world : World} {s ended : Server} {iter : Nat} {cli : ClientInfo}
    {cliMsg : Str} {status : Int} (found : s.clientTable[iter]? = some cli)
    (noUserPipes : ∀ word ∈ words cliMsg, kind word ≠ .userOut ∧ kind word ≠ .userIn)
    (path : HasPath cli.envVector)
    (ran : clientExec world s iter cliMsg = .ok (ended, status)) :
    (visited world s iter cliMsg).map (fun v => glimpse v.1 v.2) =
        glimpsesAlone cli.card.own cliMsg ∧
      ended.holdings.own iter = some (cli.card.own.after cliMsg) := by
  have looped : ∃ value, execCmds ⟨iter, cli.fd, cliMsg, world⟩ (beginLine s cli) (words cliMsg) =
      .ok value ∧ ended.holdings = value.1.holdings := by
    rw [clientExec] at ran
    obtain ⟨first, isCli, ran⟩ := bind_eq_ok.mp ran
    have same : cli = first := Option.some.inj (found.symm.trans (client_eq_ok.mp isCli))
    subst same
    simp only at ran
    split at ran
    · rename_i empty
      rw [empty]
      cases ran
      exact ⟨(beginLine s cli, 0), (cmdLoop _).run_leave rfl, rfl⟩
    · obtain ⟨⟨done, _⟩, looped, ran⟩ := bind_eq_ok.mp ran
      cases ran
      exact ⟨_, looped, rfl⟩
  obtain ⟨value, returned, same⟩ := looped
  have begins := beginLine_solo s found path cliMsg
  obtain ⟨seen, alone⟩ := cmdLoop_alone ⟨noUserPipes, rfl, rfl⟩ returned
  rw [begins] at seen alone
  obtain ⟨change, cards⟩ := clientExec_onlyAt ran
  have present : ended.holdings.own iter = some (change cli.card.own) := by
    have card : s.holdings.cards[iter]? = some cli.card := by simp [Server.holdings, found]
    rw [Holdings.own, cards, List.getElem?_modify_eq, card]
    rfl
  rw [← same, present] at alone
  refine ⟨?_, ?_⟩
  · rw [visited, found, List.map_map]
    exact seen
  · rw [present, Belongings.after, alone]
    rfl

/-- What an event shows of the client entered with an `accept` call: a chunk comes from
the client whose socket it arrives on. -/
def linesOf (made : Nat) (s : Server) : Event → List (Str × List Glimpse)
  | .line fd chunk world =>
    if s.clientTable.any (fun c => c.made = made ∧ c.fd = fd) then
      [(cliMsg chunk, (visited world s (s.getClientByFd fd) (cliMsg chunk)).map
        (fun v => glimpse v.1 v.2))]
    else []
  | _ => []

/-- The lines of a client in a run, each with what is seen at the heads of its rounds. -/
def ownLines (made : Nat) (events : List Event) : List (Str × List Glimpse) :=
  gather system (linesOf made) system.start events

/-- The lines alone. -/
def ownTexts (made : Nat) (events : List Event) : List Str := (ownLines made events).map Prod.fst

/-- Sockets are taken by identity: no two clients have one number at the same time. -/
def ByIdentity (s : Server) : Event → Prop
  | .accept _ _ => s.process.accept.1 ∉ s.clientTable.map ClientInfo.fd
  | _ => True

instance decidableByIdentity (s : Server) : (event : Event) → Decidable (ByIdentity s event)
  | .accept _ _ => inferInstanceAs (Decidable (s.process.accept.1 ∉ s.clientTable.map ClientInfo.fd))
  | .line _ _ _ => inferInstanceAs (Decidable True)
  | .closed _ => inferInstanceAs (Decidable True)

section Serve

variable {s after : Server}

/-- A departure takes cards away, and makes no objects. -/
theorem eraseClientVector_cards (id : Int) (clients : List ClientInfo) (p : Process) :
    ((eraseClientVector id clients p).1.map ClientInfo.card).Sublist (clients.map ClientInfo.card) ∧
      (eraseClientVector id clients p).2.made = p.made := by
  induction clients generalizing p with
  | nil => exact ⟨List.Sublist.refl _, rfl⟩
  | cons c rest ih =>
    obtain ⟨others, made⟩ := ih (UserPipes.eraseTarget id c.userpipeVector p).2
    rw [UserPipes.made_eraseTarget] at made
    refine ⟨?_, made⟩
    by_cases leaves : c.id = id
    · simp only [eraseClientVector, leaves, if_true, List.map_cons]
      exact others.cons _
    · simp only [eraseClientVector, leaves, if_false, List.map_cons]
      exact others.cons_cons _

theorem logout_cards {cli : ClientInfo} {erased fd : Int}
    (left : logout s cli erased fd = .ok after) :
    after.holdings.cards.Sublist s.holdings.cards ∧ after.process.made = s.process.made := by
  rw [logout] at left
  obtain ⟨told, tells, left⟩ := bind_eq_ok.mp left
  obtain ⟨output, rfl⟩ := (broadCast_ends s .logout [] cli (-1)).returned tells
  obtain ⟨freed, frees, left⟩ := bind_eq_ok.mp left
  rw [Server.clearId] at frees
  split at frees
  · cases frees
    cases left
    obtain ⟨cards, made⟩ := eraseClientVector_cards erased s.clientTable s.process
    exact ⟨cards, (Process.made_close _ _).trans made⟩
  · cases frees

/-- A login gives the new client a card, or the socket is forgotten. -/
theorem acceptClient_cards {userIp : Str} {port : Nat}
    (accepted : acceptClient s userIp port = .ok after) :
    (after.holdings.cards = s.holdings.cards ∨
      after.holdings.cards = s.holdings.cards ++
        [⟨s.process.made, s.process.accept.1, Belongings.fresh⟩]) ∧
    after.process.made = s.process.made + 1 := by
  rw [acceptClient] at accepted
  split at accepted
  · cases accepted
    exact ⟨.inl rfl, rfl⟩
  · rename_i id idTable free
    obtain ⟨told, tells, accepted⟩ := bind_eq_ok.mp accepted
    obtain ⟨output, rfl⟩ := (broadCast_ends _ .login [] _ (-1)).returned tells
    cases accepted
    refine ⟨.inr ?_, rfl⟩
    simp [Server.holdings, Server.write, Server.withProcess, newClient, ClientInfo.card,
      Belongings.fresh]

/-- A line changes what its client holds; an `exit` takes that client's card. -/
theorem clientLine_cards {world : World} {fd : Int} {chunk : Str}
    (ran : clientLine world s fd chunk = .ok after) :
    ∃ ended status, clientExec world s (s.getClientByFd fd) (cliMsg chunk) = .ok (ended, status) ∧
      after.holdings.cards.Sublist ended.holdings.cards ∧
      s.process.made ≤ after.process.made := by
  obtain ⟨ended, status, execed, ⟨-, rfl⟩ | ⟨cli, left, -, -, -, out, rfl⟩⟩ :=
    clientLine_cases ran
  · exact ⟨_, status, execed, List.Sublist.refl _, clientExec_made execed⟩
  · obtain ⟨cards, made⟩ := logout_cards out
    have restored : (restore left.process).made = left.process.made := by simp [restore]
    refine ⟨ended, status, execed, cards, ?_⟩
    exact Nat.le_trans (clientExec_made execed) (Nat.le_of_eq (restored.trans made).symm)

end Serve

/-- Every client has a number and a socket of its own, so that a line is the line of one client.
-/
structure Entered (s : Server) : Prop where
  mades : (s.holdings.cards.map Card.made).Nodup
  fds : (s.holdings.cards.map Card.fd).Nodup
  before : ∀ card ∈ s.holdings.cards, card.made < s.process.made

theorem modify_alter (cards : List Card) (iter : Nat) (change : Belongings → Belongings) :
    (cards.modify iter (Card.alter change)).map Card.made = cards.map Card.made ∧
      (cards.modify iter (Card.alter change)).map Card.fd = cards.map Card.fd := by
  constructor
  · exact (map_modify cards iter (Card.alter change) id Card.made (fun _ _ => rfl)).trans
      (List.modify_id iter _)
  · exact (map_modify cards iter (Card.alter change) id Card.fd (fun _ _ => rfl)).trans
      (List.modify_id iter _)

/-- Cards that leave, and other holdings, keep the clients apart. -/
theorem Entered.less {s t : Server} (entered : Entered s) {held : List Card}
    (changed : ∃ iter change, held = s.holdings.cards.modify iter (Card.alter change))
    (less : t.holdings.cards.Sublist held) (later : s.process.made ≤ t.process.made) :
    Entered t := by
  obtain ⟨iter, change, rfl⟩ := changed
  obtain ⟨mades, fds⟩ := modify_alter s.holdings.cards iter change
  refine ⟨?_, ?_, fun card member => ?_⟩
  · exact (mades ▸ entered.mades).sublist (less.map Card.made)
  · exact (fds ▸ entered.fds).sublist (less.map Card.fd)
  · have there : card.made ∈ s.holdings.cards.map Card.made :=
      mades ▸ List.mem_map_of_mem (less.subset member)
    obtain ⟨old, before, same⟩ := List.mem_map.mp there
    exact Nat.lt_of_lt_of_le (same ▸ entered.before old before) later

/-- Every event keeps the clients apart. -/
theorem Entered.served {s after : Server} {event : Event} (entered : Entered s)
    (identity : ByIdentity s event) (served : serve s event = .ok after) : Entered after := by
  cases event with
  | accept userIp port =>
    obtain ⟨cards | cards, made⟩ := acceptClient_cards served
    · exact entered.less ⟨0, id, (List.modify_id 0 _).symm⟩ (cards ▸ List.Sublist.refl _)
        (by omega)
    · have fresh : s.process.made ∉ s.holdings.cards.map Card.made := by
        intro there
        obtain ⟨card, member, same⟩ := List.mem_map.mp there
        exact absurd (entered.before card member) (by omega)
      have apart : s.process.accept.1 ∉ s.holdings.cards.map Card.fd := by
        have other : s.process.accept.1 ∉ s.clientTable.map ClientInfo.fd := identity
        simpa [Server.holdings, ClientInfo.card, Function.comp_def] using other
      refine ⟨?_, ?_, fun card member => ?_⟩
      · rw [cards, List.map_append]
        exact List.nodup_append.mpr ⟨entered.mades, by simp, by simpa using fresh⟩
      · rw [cards, List.map_append]
        exact List.nodup_append.mpr ⟨entered.fds, by simp, by simpa using apart⟩
      · rw [cards] at member
        rw [made]
        rcases List.mem_append.mp member with old | new
        · exact Nat.lt_succ_of_lt (entered.before card old)
        · rw [List.mem_singleton.mp new]
          exact Nat.lt_succ_self _
  | line fd chunk world =>
    obtain ⟨ended, status, execed, less, later⟩ := clientLine_cards served
    exact entered.less ⟨_, clientExec_onlyAt execed⟩ less later
  | closed fd =>
    obtain ⟨cli, -, out⟩ := bind_eq_ok.mp served
    obtain ⟨cards, made⟩ := logout_cards out
    exact entered.less ⟨0, id, (List.modify_id 0 _).symm⟩ cards (Nat.le_of_eq made.symm)

theorem run_entered {events : List Event} {s : Server} (run : Run system ByIdentity events s) :
    Entered s := by
  refine run.invariant Entered ?_
    (fun _ _ _ entered _ identity served => entered.served identity served)
  refine ⟨List.nodup_nil, List.nodup_nil, fun card member => ?_⟩
  cases member

/-- A chunk on a client's socket is looked up at that client's record. -/
theorem Entered.found {s : Server} (entered : Entered s) {c : ClientInfo}
    (member : c ∈ s.clientTable) : s.clientTable[s.getClientByFd c.fd]? = some c := by
  have known : c.fd ∈ s.tables.holders.map Holder.fd :=
    List.mem_map.mpr ⟨c.holder, List.mem_map_of_mem member, rfl⟩
  obtain ⟨other, isOther⟩ := getClientByFd_found known
  have fds : (s.clientTable.map ClientInfo.fd).Nodup := by
    simpa [Server.holdings, Function.comp_def, ClientInfo.card] using entered.fds
  have same : other = c :=
    List.inj_on_of_nodup_map fds (List.mem_of_getElem? isOther) member (getClientByFd_fd isOther)
  exact same ▸ isOther

/-- What is known of a client after a run: its lines went as they would go alone, and it holds
what it would hold alone. It is kept by the client's own lines and by whatever others do. -/
structure Follows (made : Nat) (lines : List (Str × List Glimpse)) (s : Server) : Prop where
  seen : lines = linesAlone Belongings.fresh (lines.map Prod.fst)
  held : ∀ card ∈ s.holdings.cards, card.made = made →
    card.own = (lines.map Prod.fst).foldl Belongings.after Belongings.fresh
  begun : lines ≠ [] → made < s.process.made

/-- An event that is no line of the client: what the client holds is as before, or the
client has just logged in. -/
theorem Follows.other {made : Nat} {lines : List (Str × List Glimpse)} {s after : Server}
    (follows : Follows made lines s)
    (held : ∀ card ∈ after.holdings.cards, card.made = made → card ∈ s.holdings.cards ∨
      (s.process.made ≤ made ∧ card.own = Belongings.fresh))
    (later : s.process.made ≤ after.process.made) : Follows made lines after := by
  refine ⟨follows.seen, fun card member isOwn => ?_,
    fun some => Nat.lt_of_lt_of_le (follows.begun some) later⟩
  rcases held card member isOwn with old | ⟨new, fresh⟩
  · exact follows.held card old isOwn
  · have none : lines = [] := by
      by_contra some
      exact absurd (follows.begun some) (by omega)
    rw [none, fresh]
    rfl

/-- A line of somebody changes at most the card of the client it is from. -/
theorem card_kept {s ended : Server} {iter made : Nat} (only : OnlyAt iter s ended)
    (other : ∀ c, s.clientTable[iter]? = some c → c.made ≠ made) {card : Card}
    (member : card ∈ ended.holdings.cards) (isOwn : card.made = made) :
    card ∈ s.holdings.cards := by
  obtain ⟨change, cards⟩ := only
  rw [cards] at member
  cases found : s.clientTable[iter]? with
  | none =>
    have past : s.holdings.cards.length ≤ iter := by
      simpa [Server.holdings] using List.getElem?_eq_none_iff.mp found
    rwa [List.modify_eq_self past] at member
  | some c =>
    have isCard : s.holdings.cards[iter]? = some c.card := by simp [Server.holdings, found]
    rcases mem_modify isCard member with rfl | old
    · exact absurd isOwn (other c found)
    · exact old

/-- After a line of the client it holds what it would hold alone after it. -/
theorem card_changed {s ended : Server} {iter : Nat} {c : ClientInfo} (entered : Entered s)
    (found : s.clientTable[iter]? = some c) (only : OnlyAt iter s ended) {own : Belongings}
    (holds : ended.holdings.own iter = some own) {card : Card}
    (member : card ∈ ended.holdings.cards) (isOwn : card.made = c.made) : card.own = own := by
  obtain ⟨change, cards⟩ := only
  have mades : (ended.holdings.cards.map Card.made).Nodup := by
    rw [cards, (modify_alter s.holdings.cards iter change).1]
    exact entered.mades
  obtain ⟨here, isHere, rfl⟩ := Option.map_eq_some_iff.mp holds
  have made : here.made = c.made := by
    have isCard : s.holdings.cards[iter]? = some c.card := by simp [Server.holdings, found]
    rw [cards, List.getElem?_modify_eq, isCard] at isHere
    cases isHere
    rfl
  have same : card = here :=
    List.inj_on_of_nodup_map mades member (List.mem_of_getElem? isHere) (isOwn.trans made.symm)
  rw [same]

/-- One event more. An event that is no line of the client leaves its card as it is, whoever
enters or departs; a line of its own is executed on its card. -/
theorem Follows.served {made : Nat} {lines : List (Str × List Glimpse)} {s after : Server}
    {event : Event} (follows : Follows made lines s) (entered : Entered s)
    (noUserPipes : ∀ line ∈ (linesOf made s event).map Prod.fst, ∀ word ∈ words line,
      kind word ≠ .userOut ∧ kind word ≠ .userIn)
    (served : serve s event = .ok after) :
    Follows made (lines ++ linesOf made s event) after := by
  cases event with
  | accept userIp port =>
    obtain ⟨cards, serial⟩ := acceptClient_cards served
    have none : linesOf made s (.accept userIp port) = [] := rfl
    rw [none, List.append_nil]
    refine follows.other (fun card member isOwn => ?_) (by omega)
    rcases cards with same | entered
    · exact .inl (same ▸ member)
    · rw [entered] at member
      rcases List.mem_append.mp member with old | new
      · exact .inl old
      · rw [List.mem_singleton.mp new] at isOwn ⊢
        exact .inr ⟨Nat.le_of_eq isOwn, rfl⟩
  | closed fd =>
    obtain ⟨cli, -, out⟩ := bind_eq_ok.mp served
    obtain ⟨cards, serial⟩ := logout_cards out
    have none : linesOf made s (.closed fd) = [] := rfl
    rw [none, List.append_nil]
    exact follows.other (fun card member _ => .inl (cards.subset member)) (Nat.le_of_eq serial.symm)
  | line fd chunk world =>
    obtain ⟨ended, status, execed, less, later⟩ := clientLine_cards served
    have only := clientExec_onlyAt execed
    by_cases mine : ∃ c ∈ s.clientTable, c.made = made ∧ c.fd = fd
    · have shown : linesOf made s (.line fd chunk world) = [(cliMsg chunk,
          (visited world s (s.getClientByFd fd) (cliMsg chunk)).map
            (fun v => glimpse v.1 v.2))] := by
        rw [linesOf, if_pos (by simpa using mine)]
      obtain ⟨c, member, isMine, rfl⟩ := mine
      have found := entered.found member
      have before : c.card.own = (lines.map Prod.fst).foldl Belongings.after Belongings.fresh :=
        follows.held c.card (List.mem_map_of_mem member) isMine
      rw [shown] at noUserPipes ⊢
      have path : HasPath c.card.own.envVector := by
        rw [before]
        exact foldl_after_hasPath ⟨_, List.mem_cons_self, rfl⟩ _
      obtain ⟨seen, own⟩ := clientExec_alone found (noUserPipes _ List.mem_cons_self) path execed
      refine ⟨?_, fun card inside isOwn => ?_, fun _ => ?_⟩
      · rw [List.map_append, List.map_cons, List.map_nil, linesAlone_append, ← before, ← seen,
          ← follows.seen]
      · rw [List.map_append, List.map_cons, List.map_nil, List.foldl_append, ← before]
        exact card_changed entered found only own (less.subset inside) (isOwn.trans isMine.symm)
      · have entry := entered.before c.card (List.mem_map_of_mem member)
        exact Nat.lt_of_lt_of_le (isMine ▸ entry) later
    · have none : linesOf made s (.line fd chunk world) = [] := by
        rw [linesOf, if_neg (by simpa using mine)]
      rw [none, List.append_nil]
      refine follows.other (fun card member isOwn => .inl ?_) later
      refine card_kept only (fun c found isMine => ?_) (less.subset member) isOwn
      exact mine ⟨c, List.mem_of_getElem? found, isMine, getClientByFd_fd found⟩

/-- In every run the lines of a client go as they would go alone. By induction on the run: a line
of the client goes on from what it holds, and any other event leaves that as it is. -/
theorem run_alone {made : Nat} {events : List Event} {s : Server}
    (run : Run system ByIdentity events s)
    (noUserPipes : ∀ line ∈ ownTexts made events, ∀ word ∈ words line,
      kind word ≠ .userOut ∧ kind word ≠ .userIn) : Follows made (ownLines made events) s := by
  induction run with
  | start =>
    refine ⟨rfl, fun card member => ?_, fun some => absurd rfl some⟩
    cases member
  | @next events before after event earlier offered identity served ih =>
    have more : ownLines made (events ++ [event]) =
        ownLines made events ++ linesOf made before event := earlier.gather_next _ served
    rw [ownTexts, more, List.map_append] at noUserPipes
    rw [more]
    exact (ih (fun line member => noUserPipes line (List.mem_append_left _ member))).served
      (run_entered earlier) (fun line member => noUserPipes line (List.mem_append_right _ member))
      served

/-- Two runs in which a client has the same lines, none of them with a user pipe, show that client
the same: the same search path, the same values printed by `printenv` and the same counts, in
every round of every line.

Each of the two is compared with the client alone on the server: what it is shown in a run is what
its lines show it there. Clients are known by serial numbers here, so that ids and descriptors
that were used before do not matter. -/
theorem clients_are_isolated {first second : List Event} {s t : Server} {made other : Nat}
    (run : Run system ByIdentity first s) (twin : Run system ByIdentity second t)
    (sameTexts : ownTexts made first = ownTexts other second)
    (noUserPipes : ∀ line ∈ ownTexts made first, ∀ word ∈ words line,
      kind word ≠ .userOut ∧ kind word ≠ .userIn) :
    ownLines made first = ownLines other second := by
  have one := (run_alone run noUserPipes).seen
  have two := (run_alone twin (sameTexts ▸ noUserPipes)).seen
  have texts : (ownLines made first).map Prod.fst = (ownLines other second).map Prod.fst := sameTexts
  exact one.trans ((congrArg (linesAlone Belongings.fresh) texts).trans two.symm)

/-- A client sets a variable, leaves a pipe waiting and prints the variable. -/
def quietRun : List Event :=
  [.accept (str "127.0.0.1") 4001, .line 4 (str "setenv A b\n") World.plain,
    .line 4 (str "ls |2\n") World.plain, .line 4 (str "printenv A\n") World.plain]

/-- Another client is there before, sets the same variable and the search path, and
leaves. -/
def busyRun : List Event :=
  [.accept (str "127.0.0.1") 4001, .accept (str "127.0.0.1") 4002,
    .line 5 (str "setenv A b\n") World.plain, .line 4 (str "setenv A c\n") World.plain,
    .line 5 (str "ls |2\n") World.plain, .line 4 (str "setenv PATH x\n") World.plain,
    .line 4 (str "exit\n") World.plain, .line 5 (str "printenv A\n") World.plain]

/-- Its three lines show it the same in both runs. -/
theorem clients_are_isolated_in_busy_run : ∃ s t, Run system ByIdentity quietRun s ∧
    Run system ByIdentity busyRun t ∧
    ownTexts 0 quietRun = [str "setenv A b", str "ls |2", str "printenv A"] ∧
    ownLines 0 quietRun = ownLines 1 busyRun := by
  have quiet : (play system ByIdentity system.start quietRun).isSome = true := by decide +kernel
  have busy : (play system ByIdentity system.start busyRun).isSome = true := by decide +kernel
  obtain ⟨s, played⟩ := Option.isSome_iff_exists.mp quiet
  obtain ⟨t, twinPlayed⟩ := Option.isSome_iff_exists.mp busy
  have run := Run.played quietRun s played
  have twin := Run.played busyRun t twinPlayed
  have texts : ownTexts 0 quietRun = [str "setenv A b", str "ls |2", str "printenv A"] := by
    decide +kernel
  have twinTexts : ownTexts 1 busyRun = [str "setenv A b", str "ls |2", str "printenv A"] := by
    decide +kernel
  refine ⟨s, t, run, twin, texts, clients_are_isolated run twin (texts.trans twinTexts.symm) ?_⟩
  rw [texts]
  decide

end NetProg.SingleProc
