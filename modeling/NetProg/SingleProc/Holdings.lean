import NetProg.SingleProc.Ids

/-!
# What a client holds

For each client what it has set in its environment and what its numbered pipes
wait for, beside which client it is; and the environment of the process, which all
clients share. A round of a line changes what the client of the line holds, by the
word it reads or the command it executes, and nothing of anybody else. Descriptors,
names, user pipes and what is printed have no part in it.

The serial numbers are here as well: they only grow, so that the number of an
`accept` call says which client a record belongs to.
-/

namespace NetProg.SingleProc

open Loops Outcomes

/-- What a client has set, and the counts of its numbered pipes. -/
structure Belongings where
  envVector : List EnvInfo
  counts : List Int
  deriving DecidableEq

/-- What a command assigns, if it is a `setenv` that has both its arguments. -/
def assigned : List Str → Option (Str × Str)
  | prog :: var :: val :: _ => if prog = str "setenv" then some (var, val) else none
  | _ => none

theorem assigned_eq_some {arguments : List Str} {var val : Str} :
    assigned arguments = some (var, val) ↔ arguments[0]? = some (str "setenv") ∧
      arguments[1]? = some var ∧ arguments[2]? = some val := by
  rcases arguments with _ | ⟨prog, _ | ⟨first, _ | ⟨second, rest⟩⟩⟩ <;> simp [assigned]

namespace Belongings

/-- A numbered pipe is joined, or a new one waits. -/
def await (count : Int) (own : Belongings) : Belongings :=
  if count ∈ own.counts then own else { own with counts := own.counts ++ [count] }

/-- An entry replaces the first one for its variable. -/
def assign (var val : Str) (own : Belongings) : Belongings :=
  { own with envVector := eraseEnv var own.envVector ++ [⟨var, val⟩] }

/-- What a command assigns is stored. -/
def store (arguments : List Str) (own : Belongings) : Belongings :=
  match assigned arguments with
  | some (var, val) => own.assign var val
  | none => own

/-- The pipe that was due is gone, and the others are nearer by one. -/
def advance (own : Belongings) : Belongings :=
  { own with counts := (own.counts.filter (· ≠ 0)).map (· - 1) }

end Belongings

/-- The environment after a command. -/
def environmentAfter (arguments : List Str) (e : Environment) : Environment :=
  match assigned arguments with
  | some (var, val) => e.setEnv var val
  | none => e

/-- Which client a record belongs to, and what that client holds. -/
structure Card where
  made : Nat
  fd : Int
  own : Belongings
  deriving DecidableEq

/-- What a record says of these: the serial number, the socket, the variables and the counts. -/
def ClientInfo.card (c : ClientInfo) : Card :=
  ⟨c.made, c.fd, c.envVector, c.pipeVector.map PipeFd.count⟩

/-- The client has other belongings and is the same. -/
def Card.alter (change : Belongings → Belongings) (card : Card) : Card :=
  { card with own := change card.own }

/-- What all clients hold, and the environment of the process. -/
structure Holdings where
  cards : List Card
  environment : Environment

/-- The holdings in the state of the server. -/
def Server.holdings (s : Server) : Holdings :=
  ⟨s.clientTable.map ClientInfo.card, s.environment⟩

/-- One client holds something else. -/
def Holdings.alter (iter : Nat) (change : Belongings → Belongings) (h : Holdings) : Holdings :=
  { h with cards := h.cards.modify iter (Card.alter change) }

/-- A word that is read: a pipe operator adds to the pipes of the client. -/
def Holdings.read (iter : Nat) (isFirst : Bool) (word : Str) (h : Holdings) : Holdings :=
  if isFirst then h
  else
    match kind word with
    | .pipe | .errorPipe => h.alter iter (Belongings.await ((NumberedPipes.pipeNum word).getD 0))
    | _ => h

/-- What `ExecCmd` does for a command. -/
def Holdings.run (iter : Nat) (arguments : List Str) (h : Holdings) : Holdings :=
  { h.alter iter (Belongings.store arguments) with
    environment := environmentAfter arguments h.environment }

/-- A command that is executed. -/
def Holdings.perform (iter : Nat) (arguments : List Str) (h : Holdings) : Holdings :=
  (h.run iter arguments).alter iter Belongings.advance

section Views

variable (s : Server)

@[simp] theorem holdings_withProcess (p : Process) : (s.withProcess p).holdings = s.holdings := rfl

@[simp] theorem holdings_write (fd : Int) (text : Str) :
    (s.write fd text).holdings = s.holdings := rfl

@[simp] theorem holdings_logged (call : Call) : (s.logged call).holdings = s.holdings := rfl

/-- A change of a record, on what the clients hold. -/
theorem holdings_update (iter : Nat) (change : ClientInfo → ClientInfo)
    (shift : Belongings → Belongings)
    (commutes : ∀ c, s.clientTable[iter]? = some c → (change c).card = c.card.alter shift) :
    (s.update iter change).holdings = s.holdings.alter iter shift := by
  simp only [Server.holdings, Server.update, Holdings.alter]
  rw [map_modify _ _ _ _ _ commutes]

/-- Changes that concern nothing of what clients hold. -/
theorem holdings_update_other (iter : Nat) (change : ClientInfo → ClientInfo)
    (keeps : ∀ c, (change c).card = c.card) : (s.update iter change).holdings = s.holdings := by
  have same : (s.clientTable.modify iter change).map ClientInfo.card =
      (s.clientTable.map ClientInfo.card).modify iter id := map_modify _ _ _ _ _ (fun c _ => keeps c)
  simp [Server.holdings, Server.update, same]

end Views

/-- What clients hold is a view without names and outputs. -/
theorem holdings_unseen : Unseen Server.holdings where
  printed _ _ := rfl
  renamed s iter _ := holdings_update_other s iter _ (fun _ => rfl)

/-- A pipe that is created or joined. -/
theorem holdings_pipeTo {f : Frame} {cli : Nat} {isError canPipe : Bool} {c : ClientInfo}
    {pipeNum : Int} {created : Int × List PipeFd × Process} {rest : List Str}
    (isCli : f.server.clientTable[cli]? = some c)
    (creates : NumberedPipes.createPipe canPipe f.server.process c.pipeVector pipeNum =
      some created) : (f.pipeTo cli isError created rest).server.holdings =
        f.server.holdings.alter cli (Belongings.await pipeNum) := by
  obtain ⟨writeEnd, extended, opened⟩ := created
  refine holdings_update f.server cli _ _ (fun here found => ?_)
  cases isCli.symm.trans found
  have waits : pipeNum ∈ c.card.own.counts ↔ ∃ record ∈ c.pipeVector, record.count = pipeNum :=
    List.mem_map
  rcases NumberedPipes.createPipe_cases creates with
    ⟨same, member, count, rfl, rfl, rfl⟩ | ⟨can, fresh, rfl, rfl, rfl⟩
  · rw [Card.alter, Belongings.await, if_pos (waits.mpr ⟨same, member, count⟩)]
  · have none : pipeNum ∉ c.card.own.counts := by
      intro there
      obtain ⟨record, member, count⟩ := waits.mp there
      exact fresh record member count
    rw [Card.alter, Belongings.await, if_neg none]
    simp [ClientInfo.card]

/-- Reading a word changes what the client holds by that word alone. -/
theorem Reads.holdings {job : Job} {f : Frame} {word : Str} {rest : List Str} {step : Step}
    (reads : Reads job f word rest step) : (stepServer step).holdings =
      f.server.holdings.read job.cli f.isFirstArgv word := by
  have users (iter : Nat) (userpipeVector : List UserPipeFd) (p : Process) :
      ((f.server.update iter ({ · with userpipeVector := userpipeVector })).withProcess p).holdings =
        f.server.holdings := holdings_update_other f.server iter _ (fun _ => rfl)
  cases reads with
  | prog first => simp [Holdings.read, first, stepServer, Frame.readProg]
  | argument later same => simp [Holdings.read, later, same, stepServer, Frame.readArgument]
  | @pipe isError _ _ _ later same number isCli creates =>
    rw [Holdings.read, later, same, number]
    cases isError with
    | true => exact holdings_pipeTo isCli creates
    | false => exact holdings_pipeTo isCli creates
  | redirectOut later same follows =>
    simp [Holdings.read, later, same, stepServer, Frame.redirectOut, Frame.endLine]
  | redirectIn later same follows =>
    simp [Holdings.read, later, same, stepServer, Frame.redirectIn, Frame.endLine]
  | userOut later same =>
    rw [Holdings.read, later, same]
    exact users _ _ _
  | userIn later same =>
    rw [Holdings.read, later, same]
    exact users _ _ _
  | missing later same =>
    rcases same with same | same <;> simp [Holdings.read, later, same, stepServer]
  | exists_ later same => simp [Holdings.read, later, same, stepServer]
  | absent later same => simp [Holdings.read, later, same, stepServer]

/-- The built-in commands: only an assignment changes anything. -/
theorem builtin_holdings {s ran : Server} {iter : Nat} {cli : ClientInfo} {arguments : List Str}
    {status : Int} (built : builtin s iter cli arguments = .ok (ran, status)) :
    ran.holdings = s.holdings.run iter arguments := by
  by_cases first : arguments[0]? = some (str "setenv")
  · rw [builtin_setenv s iter cli first] at built
    obtain ⟨var, second, built⟩ := bind_eq_ok.mp built
    obtain ⟨val, third, built⟩ := bind_eq_ok.mp built
    cases built
    have assigns : assigned arguments = some (var, val) :=
      assigned_eq_some.mpr ⟨first, arg_eq_ok.mp second, arg_eq_ok.mp third⟩
    have stored : Belongings.store arguments = Belongings.assign var val := by
      funext own
      rw [Belongings.store, assigns]
    have once := holdings_update s iter (ClientInfo.forget var)
      (fun own => { own with envVector := eraseEnv var own.envVector }) (fun _ _ => rfl)
    have twice := holdings_update (s.update iter (ClientInfo.forget var)) iter
      (ClientInfo.remember var val)
      (fun own => { own with envVector := own.envVector ++ [⟨var, val⟩] }) (fun _ _ => rfl)
    rw [once, Holdings.alter, Holdings.alter, List.modify_modify_eq] at twice
    rw [Holdings.run, environmentAfter, assigns, stored]
    exact congrArg (fun h : Holdings => Holdings.mk h.cards (s.environment.setEnv var val)) twice
  · have none : assigned arguments = none :=
      Option.eq_none_iff_forall_ne_some.mpr
        (fun _ assigns => first (assigned_eq_some.mp assigns).1)
    have store : Belongings.store arguments = id := by
      funext own
      simp only [Belongings.store, none, id]
    have kept : s.holdings.run iter arguments = s.holdings := by
      have cards : s.holdings.cards.modify iter (Card.alter id) = s.holdings.cards :=
        List.modify_id iter _
      simp only [Holdings.run, Holdings.alter, environmentAfter, none, store, cards]
    rw [kept]
    exact (holdings_unseen.builtin s iter cli first).returned built

/-- Erasing used user pipes. -/
theorem eraseUsed_holdings {ids : List Int} {server after : Server}
    (erased : ids.foldlM eraseUsed server = .ok after) : after.holdings = server.holdings :=
  eraseUsed_induction (fun t => t.holdings = server.holdings) rfl
    (fun s candidate iter same _ => (holdings_update_other s iter ({ · with userpipeVector :=
      (UserPipes.eraseUserPipeVector candidate.userpipeVector s.process).1 })
        (fun _ => rfl)).trans same) erased

/-- The pipes after an execution. -/
theorem detach_holdings {job : Job} {server after : Server} {needClose : Bool} {inFd : Int}
    {inPipe : Option Object} (detached : detach job server needClose inFd inPipe = .ok after) :
    after.holdings = server.holdings.alter job.cli Belongings.advance := by
  obtain ⟨cli, isCli, rfl⟩ := detach_eq_ok detached
  refine holdings_update server job.cli _ _ (fun here found => ?_)
  cases isCli.symm.trans found
  simp [ClientInfo.card, Card.alter, Belongings.advance, NumberedPipes.erasePipeVector_fst,
    NumberedPipes.countdownPipeVector, List.filter_map, Function.comp_def]

/-- An execution changes what the client holds by the command alone. -/
theorem Executes.holdings {job : Job} {f next : Frame} (executes : Executes job f next) :
    next.server.holdings = f.server.holdings.perform job.cli f.arguments := by
  obtain ⟨announced, cli, needClosePipe, inFd, inPipe, p, ran, status, detached, erased, announces,
    -, -, built, detaches, erases, rfl⟩ := executes.steps
  have told : announced.holdings = f.server.holdings :=
    (holdings_unseen.unprinted.announce job f).returned announces
  have after := builtin_holdings built
  rw [holdings_logged, holdings_withProcess, told] at after
  change erased.holdings = _
  rw [eraseUsed_holdings erases, detach_holdings detaches, after]
  rfl

/-- One client's holdings may differ, and so may the environment, which is set anew before every
line. -/
def OnlyAt (iter : Nat) (s t : Server) : Prop :=
  ∃ change, t.holdings.cards = s.holdings.cards.modify iter (Card.alter change)

theorem OnlyAt.same {iter : Nat} {s t : Server} (same : t.holdings.cards = s.holdings.cards) :
    OnlyAt iter s t :=
  ⟨id, same.trans (List.modify_id iter _).symm⟩

theorem OnlyAt.trans {iter : Nat} {s t u : Server} (first : OnlyAt iter s t)
    (second : OnlyAt iter t u) : OnlyAt iter s u := by
  obtain ⟨change, once⟩ := first
  obtain ⟨more, twice⟩ := second
  exact ⟨more ∘ change, by rw [twice, once, List.modify_modify_eq]; rfl⟩

/-- A round changes what the client of the line holds, and nobody else's. -/
theorem round_onlyAt {job : Job} {f : Frame} {step : Step} (ran : round job f = .ok step) :
    OnlyAt job.cli f.server (stepServer step) := by
  rw [round] at ran
  split at ran
  · obtain ⟨next, rfl, executes⟩ := execute_executes ran
    rw [stepServer, OnlyAt, executes.holdings]
    exact ⟨Belongings.advance ∘ Belongings.store f.arguments, List.modify_modify_eq _ _ _ _⟩
  · split at ran
    · cases ran
      exact .same rfl
    · have read := (readWord_reads ran).holdings
      rw [initFd_server] at read
      refine (?_ : ∃ _, _)
      rw [read, Holdings.read]
      split
      · exact (OnlyAt.same rfl : OnlyAt job.cli f.server f.server)
      · split
        · exact ⟨_, rfl⟩
        · exact ⟨_, rfl⟩
        · exact (OnlyAt.same rfl : OnlyAt job.cli f.server f.server)

/-- So does a line. -/
theorem clientExec_onlyAt {world : World} {s ended : Server} {iter : Nat} {cliMsg : Str}
    {status : Int} (ran : clientExec world s iter cliMsg = .ok (ended, status)) :
    OnlyAt iter s ended := by
  rw [clientExec] at ran
  obtain ⟨cli, -, ran⟩ := bind_eq_ok.mp ran
  simp only at ran
  split at ran
  · cases ran
    exact .same rfl
  · obtain ⟨⟨done, _⟩, looped, ran⟩ := bind_eq_ok.mp ran
    cases ran
    exact rounds_keep (fun t => OnlyAt iter s t)
      (fun _ _ before one => before.trans (round_onlyAt one)) (.same rfl) looped

section Serials

theorem made_eraseUsed {ids : List Int} {server after : Server}
    (erased : ids.foldlM eraseUsed server = .ok after) :
    after.process.made = server.process.made :=
  eraseUsed_induction (fun t => t.process.made = server.process.made) rfl
    (fun _ _ _ same _ => (UserPipes.made_eraseUserPipeVector _ _).trans same) erased

/-- An execution makes no objects. -/
theorem Executes.made {job : Job} {f next : Frame} (executes : Executes job f next) :
    next.server.process.made = f.server.process.made := by
  obtain ⟨announced, cli, needClosePipe, inFd, inPipe, p, ran, status, detached, erased,
    announces, -, attaches, built, detaches, erases, rfl⟩ := executes.steps
  have told : announced.tables = f.server.tables := (announce_keeps job f).returned announces
  have attached : p.made = announced.process.made := by
    rcases attach_cases attaches with ⟨-, -, rfl⟩ | ⟨r, -, -, -, rfl⟩
    · rfl
    · exact Process.made_closeEnd _ _ _
  have built : ran.process.made = p.made :=
    congrArg (fun t => t.process.made) ((builtin_keeps _ _ _ _).returned built)
  obtain ⟨_, -, rfl⟩ := detach_eq_ok detaches
  have closed (again : Bool) (q : Process) (n : Int) (meant : Option Object) :
      (if again then q.closeEnd n meant else q).made = q.made := by
    split <;> simp
  calc erased.process.made
    _ = ran.process.made := by
      rw [made_eraseUsed erases]
      exact (closed _ _ _ _).trans (NumberedPipes.erasePipeVector_made _ _)
    _ = p.made := built
    _ = announced.process.made := attached
    _ = f.server.process.made := congrArg (fun t => t.process.made) told

/-- A round makes new objects or none. -/
theorem round_made {job : Job} {f : Frame} {step : Step} (ran : round job f = .ok step) :
    f.server.process.made ≤ (stepServer step).process.made := by
  rw [round] at ran
  split at ran
  · obtain ⟨next, rfl, executes⟩ := execute_executes ran
    exact Nat.le_of_eq executes.made.symm
  · split at ran
    · cases ran
      exact Nat.le_refl _
    · have reads := readWord_reads ran
      rw [← initFd_server f job.sockfd]
      cases reads with
      | prog | argument | missing | exists_ | absent => exact Nat.le_refl _
      | redirectOut | redirectIn => exact made_openAs _ _
      | pipe later same number isCli creates =>
        rcases NumberedPipes.createPipe_cases creates with
          ⟨_, _, _, _, _, kept⟩ | ⟨_, _, _, _, made⟩
        · exact Nat.le_of_eq (congrArg Process.made kept).symm
        · exact Nat.le_trans (Nat.le_succ _) (Nat.le_of_eq (congrArg Process.made made).symm)
      | userOut => exact Nat.le_succ _
      | userIn => exact Nat.le_of_eq (Process.made_closeEnd _ _ _).symm

/-- So does a line. -/
theorem clientExec_made {world : World} {s ended : Server} {iter : Nat} {cliMsg : Str}
    {status : Int} (ran : clientExec world s iter cliMsg = .ok (ended, status)) :
    s.process.made ≤ ended.process.made := by
  rw [clientExec] at ran
  obtain ⟨cli, -, ran⟩ := bind_eq_ok.mp ran
  have begun : (beginLine s cli).process.made = s.process.made :=
    (Process.made_dup2 _ _ _).trans (Process.made_dup2 _ _ _)
  simp only at ran
  split at ran
  · cases ran
    exact Nat.le_of_eq begun.symm
  · obtain ⟨⟨done, _⟩, looped, ran⟩ := bind_eq_ok.mp ran
    cases ran
    exact rounds_keep (fun t => s.process.made ≤ t.process.made)
      (fun _ _ before one => Nat.le_trans before (round_made one)) (Nat.le_of_eq begun.symm) looped

end Serials

end NetProg.SingleProc
