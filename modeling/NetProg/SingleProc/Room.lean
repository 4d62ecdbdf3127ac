import NetProg.Library.Rooms
import NetProg.SingleProc.Passes
import NetProg.SingleProc.Redirections

/-!
# The clients of a server as a room

Whatever a line, a login or a departure makes the server write goes to every client that is
logged in, or to one: to the client itself, or to the one that a `tell` names. So the server
is a room. What is said in it comes to all clients in one order, and those that neither send
anything nor are told anything hear exactly the same.

What the server prints for itself is not part of it. It does so when a client hangs up or
when there is no id for a connection, on a descriptor that the client served last has been
given; such events are left out.
-/

namespace NetProg.SingleProc

open Loops Outcomes Rooms Runs

/-- The clients that `BroadCast` writes to. -/
def Server.recipients (s : Server) : List Int := s.afds.filter (· ≠ s.msock)

/-- The writes for a text to all, or to one. -/
def writes (recipients : List Int) : Option Int × Str → List (Int × Str)
  | (none, text) => recipients.map (·, text)
  | (some fd, text) => [(fd, text)]

/-- A server has written texts to all that are watched and texts to some of them, in some order,
and nothing to anybody else. -/
structure Utters (permits : Int → Prop) (s t : Server) : Prop where
  afds : t.afds = s.afds
  msock : t.msock = s.msock
  texts : ∃ utterances : List (Option Int × Str),
    t.output = s.output ++ utterances.flatMap (writes s.recipients) ∧
      ∀ fd text, (some fd, text) ∈ utterances → permits fd

section Utters

variable {permits allows : Int → Prop} {s t u : Server}

theorem Utters.silent (afds : t.afds = s.afds) (msock : t.msock = s.msock)
    (output : t.output = s.output) : Utters permits s t :=
  ⟨afds, msock, [], by simpa using output, by simp⟩

theorem Utters.refl (s : Server) : Utters permits s s := .silent rfl rfl rfl

theorem Utters.trans (first : Utters permits s t) (second : Utters permits t u) :
    Utters permits s u := by
  obtain ⟨earlier, output, earlierPermitted⟩ := first.texts
  obtain ⟨later, more, laterPermitted⟩ := second.texts
  have same : t.recipients = s.recipients := by
    rw [Server.recipients, first.afds, first.msock, Server.recipients]
  refine ⟨second.afds.trans first.afds, second.msock.trans first.msock, earlier ++ later, ?_, ?_⟩
  · rw [more, output, same, List.flatMap_append, List.append_assoc]
  · intro fd text member
    rcases List.mem_append.mp member with isEarlier | isLater
    · exact earlierPermitted fd text isEarlier
    · exact laterPermitted fd text isLater

theorem Utters.mono (utters : Utters permits s t) (more : ∀ fd, permits fd → allows fd) :
    Utters allows s t := by
  obtain ⟨texts, output, permitted⟩ := utters.texts
  exact ⟨utters.afds, utters.msock, texts, output,
    fun fd text member => more fd (permitted fd text member)⟩

theorem Utters.write (s : Server) {fd : Int} (text : Str) (permitted : permits fd) :
    Utters permits s (s.write fd text) := by
  refine ⟨rfl, rfl, [(some fd, text)], rfl, ?_⟩
  intro other also member
  cases List.mem_singleton.mp member
  exact permitted

/-- A broadcast says one text, or nobody is there. -/
theorem broadCast_utters {action : Action} {msg : Str} {cur : ClientInfo} {targetId : Int}
    (told : broadCast s action msg cur targetId = .ok t) : Utters permits s t := by
  rw [broadCast] at told
  split at told
  · cases told
    exact .refl s
  · obtain ⟨text, -, wrote⟩ := bind_eq_ok.mp told
    cases wrote
    exact ⟨rfl, rfl, [(none, text)], by simp [writes, Server.recipients], by simp⟩

/-- Steps that utter something, one after the other. -/
theorem foldlM_utters {β : Type} {part : Server → β → Outcome Server}
    (each : ∀ (s t : Server) b, part s b = .ok t → Utters permits s t) {items : List β}
    {s t : Server} (ran : items.foldlM part s = .ok t) : Utters permits s t := by
  induction items generalizing s with
  | nil =>
    cases ran
    exact .refl _
  | cons b rest ih =>
    rw [List.foldlM_cons] at ran
    obtain ⟨middle, first, others⟩ := bind_eq_ok.mp ran
    exact (each s middle b first).trans (ih others)

theorem who_utters {cli : ClientInfo} (listed : who s cli = .ok t) :
    Utters (· = cli.fd) s t := by
  have header : Utters (· = cli.fd) s
      (s.write cli.fd (str "<ID>\t<nickname>\t<IP:port>\t<indicate me>\n")) := .write s _ rfl
  refine header.trans (foldlM_utters (fun s t k line => ?_) listed)
  rw [whoLine] at line
  obtain ⟨mark, -, rest⟩ := bind_eq_ok.mp line
  split at rest
  · obtain ⟨temp, -, wrote⟩ := bind_eq_ok.mp rest
    cases wrote
    exact .write s _ rfl
  · cases rest
    exact .refl s

/-- The descriptor of the client that the words of a `tell` name. -/
def TellsTo (s : Server) (arguments : List Str) (fd : Int) : Prop :=
  arguments[0]? = some (str "tell") ∧
    ∃ c ∈ s.clientTable, arguments[1]?.bind stoi = some c.id ∧ c.fd = fd

instance (s : Server) (arguments : List Str) (fd : Int) : Decidable (TellsTo s arguments fd) :=
  inferInstanceAs (Decidable (_ ∧ _))

theorem tell_utters {cli : ClientInfo} {targetId : Int} {msg : Str}
    (told : tell s cli targetId msg = .ok t) :
    Utters (fun fd => fd = cli.fd ∨ ∃ c ∈ s.clientTable, c.id = targetId ∧ c.fd = fd) s t := by
  rw [tell] at told
  obtain ⟨mark, -, rest⟩ := bind_eq_ok.mp told
  split at rest
  · obtain ⟨target, isTarget, wrote⟩ := bind_eq_ok.mp rest
    cases wrote
    have found := client_eq_ok.mp isTarget
    exact .write s _ (.inr ⟨target, List.mem_of_getElem? found, getClientByID_id found, rfl⟩)
  · cases rest
    exact .write s _ (.inl rfl)

theorem name_utters {iter : Nat} {cli : ClientInfo} {newName : Str}
    (named : name s iter cli newName = .ok t) : Utters (· = cli.fd) s t := by
  rw [name] at named
  split at named
  · cases named
    exact .write s _ rfl
  · have renamed : Utters (· = cli.fd) s (s.update iter (ClientInfo.rename newName)) :=
      .silent rfl rfl rfl
    exact renamed.trans (broadCast_utters named)

/-- A built-in command says something to all, answers its client, or is a `tell`. The cases are
those of `builtinCMD`. -/
theorem builtin_utters {iter : Nat} {cli : ClientInfo} {arguments : List Str} {status : Int}
    (ran : builtin s iter cli arguments = .ok (t, status)) :
    Utters (fun fd => fd = cli.fd ∨ TellsTo s arguments fd) s t := by
  rw [builtin] at ran
  obtain ⟨prog, isProg, ran⟩ := bind_eq_ok.mp ran
  rw [arg_eq_ok] at isProg
  split at ran
  · obtain ⟨var, -, printed⟩ := bind_eq_ok.mp ran
    cases printed
    rw [printEnv]
    split
    · exact .write s _ (.inl rfl)
    · exact .refl s
  split at ran
  · obtain ⟨var, -, ran⟩ := bind_eq_ok.mp ran
    obtain ⟨val, -, stored⟩ := bind_eq_ok.mp ran
    cases stored
    exact .silent rfl rfl rfl
  split at ran
  · obtain ⟨listed, isListed, same⟩ := bind_eq_ok.mp ran
    cases same
    exact (who_utters isListed).mono (fun fd own => .inl own)
  split at ran
  · obtain ⟨msg, -, ran⟩ := bind_eq_ok.mp ran
    obtain ⟨told, yelled, same⟩ := bind_eq_ok.mp ran
    cases same
    exact broadCast_utters yelled
  split at ran
  · rename_i isTell
    obtain ⟨number, isNumber, ran⟩ := bind_eq_ok.mp ran
    split at ran
    · cases ran
    · rename_i targetId isId
      obtain ⟨msg, -, ran⟩ := bind_eq_ok.mp ran
      obtain ⟨told, isTold, same⟩ := bind_eq_ok.mp ran
      cases same
      refine (tell_utters isTold).mono (fun fd permitted => permitted.imp_right (fun target => ?_))
      obtain ⟨c, member, hasId, hasFd⟩ := target
      refine ⟨isTell ▸ isProg, c, member, ?_, hasFd⟩
      rw [arg_eq_ok.mp isNumber, Option.bind_some, isId, hasId]
  split at ran
  · obtain ⟨newName, -, ran⟩ := bind_eq_ok.mp ran
    obtain ⟨named, isNamed, same⟩ := bind_eq_ok.mp ran
    cases same
    exact (name_utters isNamed).mono (fun fd own => .inl own)
  split at ran
  all_goals
    cases ran
    exact .refl _

theorem announce_utters {job : Job} {f : Frame} (announced : announce job f = .ok t) :
    Utters permits f.server t := by
  have one {s t : Server} {action : Action} {cli : ClientInfo} {strId : Int}
      (said : announceOne job s action cli strId = .ok t) : Utters permits s t := by
    rw [announceOne] at said
    split at said
    · exact broadCast_utters said
    · cases said
      exact .refl _
  rw [announce] at announced
  obtain ⟨cli, -, announced⟩ := bind_eq_ok.mp announced
  obtain ⟨received, first, second⟩ := bind_eq_ok.mp announced
  exact (one first).trans (one second)

/-- A word that is read answers the client, at the most. -/
theorem Reads.utters {job : Job} {f : Frame} {word : Str} {rest : List Str} {step : Step}
    (reads : Reads job f word rest step) : Utters (· = job.sockfd) f.server (stepServer step) := by
  cases reads with
  | prog | argument | pipe | redirectOut | redirectIn | userOut | userIn =>
    exact .silent rfl rfl rfl
  | missing | exists_ | absent => exact .write _ _ rfl

theorem clientTable_unprinted : Unprinted Server.clientTable := ⟨fun _ _ => rfl⟩

/-- A command that is executed makes one call, and says what that says. -/
theorem Executes.utters {job : Job} {f next : Frame} (executes : Executes job f next) {c : ClientInfo}
    (isCli : f.server.clientTable[job.cli]? = some c) (own : c.fd = job.sockfd) :
    ∃ call, next.server.calls = f.server.calls ++ [call] ∧
      Utters (fun fd => fd = job.sockfd ∨ TellsTo f.server call.arguments fd) f.server next.server := by
  obtain ⟨announced, cli, needClosePipe, inFd, inPipe, p, ran, status, detached, erased, announces,
    isClient, -, built, detaches, erases, rfl⟩ := executes.steps
  have sameTable : announced.clientTable = f.server.clientTable :=
    (clientTable_unprinted.announce job f).returned announces
  have sameCalls : announced.calls = f.server.calls :=
    (calls_unseen.unprinted.announce job f).returned announces
  have same : cli = c := by
    have found := client_eq_ok.mp isClient
    rw [sameTable, isCli] at found
    exact (Option.some.inj found).symm
  subst same
  obtain ⟨_, -, isDetached⟩ := detach_eq_ok detaches
  refine ⟨callOf job f (announced.withProcess p) cli inFd, ?_, ?_⟩
  · have ranCalls := (builtin_calls _ _ _ _).returned built
    have detachedCalls := (detach_calls job ran _ inFd inPipe).returned detaches
    have erasedCalls := (eraseUsed_calls detached _).returned erases
    exact erasedCalls.trans (detachedCalls.trans (ranCalls.trans (by rw [← sameCalls]; rfl)))
  · have called : Utters (fun fd => fd = job.sockfd ∨ TellsTo f.server f.arguments fd) f.server
        ((announced.withProcess p).logged (callOf job f (announced.withProcess p) cli inFd)) :=
      (announce_utters announces).trans (.silent rfl rfl rfl)
    have spoken : Utters (fun fd => fd = job.sockfd ∨ TellsTo f.server f.arguments fd)
        ((announced.withProcess p).logged (callOf job f (announced.withProcess p) cli inFd)) ran := by
      refine (builtin_utters built).mono (fun fd permitted => ?_)
      rw [own] at permitted
      exact permitted.imp_right (fun tells => ⟨tells.1, sameTable ▸ tells.2⟩)
    have quiet :
        Utters (fun fd => fd = job.sockfd ∨ TellsTo f.server f.arguments fd) ran detached := by
      rw [isDetached]
      exact .silent rfl rfl rfl
    refine (called.trans (spoken.trans quiet)).trans ?_
    refine eraseUsed_induction (fun t => Utters _ detached t) (.refl _) ?_ erases
    intro s candidate iter utters _
    exact utters.trans (.silent rfl rfl rfl)

/-- Clients that are addressed on their own: the one whose line it is, and those that a
`tell` among the calls names. -/
def Heeds (s : Server) (own : Int) (calls : List Call) (fd : Int) : Prop :=
  fd = own ∨ ∃ call ∈ calls, TellsTo s call.arguments fd

/-- A client of one registry is in the other, with the same descriptor and id. -/
theorem SameRegistry.client (same : SameRegistry s.tables t.tables) {iter : Nat} {c : ClientInfo}
    (found : s.clientTable[iter]? = some c) :
    ∃ d, t.clientTable[iter]? = some d ∧ d.fd = c.fd ∧ d.id = c.id := by
  have fds : (t.clientTable.map ClientInfo.fd)[iter]? = some c.fd := by
    have mapped : t.clientTable.map ClientInfo.fd = s.clientTable.map ClientInfo.fd := by
      simpa [Server.tables, Function.comp_def, ClientInfo.holder] using same.fds
    rw [mapped, List.getElem?_map, found]
    rfl
  have ids : (t.clientTable.map ClientInfo.id)[iter]? = some c.id := by
    have mapped : t.clientTable.map ClientInfo.id = s.clientTable.map ClientInfo.id := by
      simpa [Server.tables, Function.comp_def, ClientInfo.holder] using same.ids
    rw [mapped, List.getElem?_map, found]
    rfl
  rw [List.getElem?_map, Option.map_eq_some_iff] at fds ids
  obtain ⟨d, isClient, isFd⟩ := fds
  obtain ⟨e, isSame, isId⟩ := ids
  rw [isClient] at isSame
  cases isSame
  exact ⟨d, isClient, isFd, isId⟩

theorem SameRegistry.symm {t u : Tables} (same : SameRegistry t u) : SameRegistry u t :=
  ⟨same.msock.symm, same.afds.symm, same.idTable.symm, same.fds.symm, same.ids.symm,
    same.mades.symm⟩

/-- A `tell` names the same client for all of a line. -/
theorem TellsTo.before (same : SameRegistry s.tables t.tables) {arguments : List Str} {fd : Int}
    (tells : TellsTo t arguments fd) : TellsTo s arguments fd := by
  obtain ⟨isTell, c, member, hasId, hasFd⟩ := tells
  obtain ⟨iter, found⟩ := List.mem_iff_getElem?.mp member
  obtain ⟨d, isClient, sameFd, sameId⟩ := same.symm.client found
  exact ⟨isTell, d, List.mem_of_getElem? isClient, by rw [hasId, sameId], sameFd.trans hasFd⟩

/-- One round of a line: what it writes is said to all, to the client of the line, or to the one
that its `tell` names. -/
theorem round_utters {job : Job} {f : Frame} {step : Step} {c : ClientInfo}
    (registry : SameRegistry s.tables f.server.tables) (isCli : s.clientTable[job.cli]? = some c)
    (own : c.fd = job.sockfd) (ran : round job f = .ok step) :
    ∃ calls, (stepServer step).calls = f.server.calls ++ calls ∧
      Utters (Heeds s job.sockfd calls) f.server (stepServer step) := by
  rw [round] at ran
  split at ran
  · obtain ⟨next, rfl, executes⟩ := execute_executes ran
    obtain ⟨d, isClient, sameFd, -⟩ := registry.client isCli
    obtain ⟨call, isCalled, utters⟩ := executes.utters isClient (sameFd.trans own)
    refine ⟨[call], isCalled, utters.mono (fun fd permitted => permitted.imp_right (fun tells => ?_))⟩
    exact ⟨call, List.mem_singleton_self call, tells.before registry⟩
  · split at ran
    · cases ran
      exact ⟨[], by simp [stepServer], .refl _⟩
    · have reads := readWord_reads ran
      have utters := reads.utters
      rw [initFd_server] at utters
      refine ⟨[], ?_, utters.mono (fun fd isOwn => .inl isOwn)⟩
      have sameServer := initFd_server f job.sockfd
      generalize f.initFd job.sockfd = g at reads sameServer
      rw [List.append_nil, ← sameServer]
      cases reads <;> rfl

/-- All rounds of a line. -/
theorem rounds_utter {job : Job} {f : Frame} {result : Server × Int} {c : ClientInfo}
    (isCli : f.server.clientTable[job.cli]? = some c) (own : c.fd = job.sockfd)
    (ran : (cmdLoop job).run f = .ok result) :
    ∃ calls, result.1.calls = f.server.calls ++ calls ∧
      Utters (Heeds f.server job.sockfd calls) f.server result.1 := by
  have all := rounds_keep (fun t => SameRegistry f.server.tables t.tables ∧
    ∃ calls, t.calls = f.server.calls ++ calls ∧
      Utters (Heeds f.server job.sockfd calls) f.server t) ?_ ⟨.refl _, [], by simp, .refl _⟩ ran
  · exact all.2
  · rintro g step ⟨registry, calls, sofar, utters⟩ ran
    obtain ⟨more, further, spoken⟩ := round_utters registry isCli own ran
    refine ⟨registry.trans (round_registry ran), calls ++ more, ?_, ?_⟩
    · rw [further, sofar, List.append_assoc]
    · refine (utters.mono ?_).trans (spoken.mono ?_)
      · rintro fd (isOwn | ⟨call, member, tells⟩)
        · exact .inl isOwn
        · exact .inr ⟨call, List.mem_append_left _ member, tells⟩
      · rintro fd (isOwn | ⟨call, member, tells⟩)
        · exact .inl isOwn
        · exact .inr ⟨call, List.mem_append_right _ member, tells⟩

/-- A line of a client: what it says, what it answers its client, and whom it tells something; the
last is the prompt, unless the line is empty. By induction on its rounds. -/
theorem clientExec_utters {world : World} {iter : Nat} {line : Str} {status : Int}
    (ran : clientExec world s iter line = .ok (t, status)) :
    ∃ c calls, s.clientTable[iter]? = some c ∧ t.calls = s.calls ++ calls ∧
      if line = [] then t.output = s.output ∧ Utters (Heeds s c.fd calls) s t
      else ∃ ended, Utters (Heeds s c.fd calls) s ended ∧ t = ended.write c.fd (str "% ") := by
  rw [clientExec] at ran
  obtain ⟨c, isCli, ran⟩ := bind_eq_ok.mp ran
  have found := client_eq_ok.mp isCli
  simp only at ran
  split at ran
  · rename_i empty
    cases ran
    have begun : Utters (Heeds s c.fd []) s (beginLine s c) := .silent rfl rfl rfl
    exact ⟨c, [], found, (List.append_nil _).symm, by rw [if_pos empty]; exact ⟨rfl, begun⟩⟩
  · rename_i notEmpty
    obtain ⟨⟨ended, code⟩, looped, same⟩ := bind_eq_ok.mp ran
    cases same
    obtain ⟨calls, isCalls, utters⟩ := @rounds_utter ⟨iter, c.fd, line, world⟩
      (Frame.initial (beginLine s c) c.fd (words line)) (ended, code) c found rfl looped
    refine ⟨c, calls, found, isCalls, ?_⟩
    rw [if_neg notEmpty]
    have begun : Utters (Heeds s c.fd calls) s (beginLine s c) := .silent rfl rfl rfl
    exact ⟨ended, begun.trans utters, rfl⟩

/-- Together that is what the client and those it tells something hear, and all. -/
theorem line_utters {world : World} {fd : Int} {line : Str} {status : Int}
    (ran : clientExec world s (s.getClientByFd fd) line = .ok (t, status)) :
    ∃ calls, t.calls = s.calls ++ calls ∧ Utters (Heeds s fd calls) s t := by
  obtain ⟨c, calls, isCli, isCalls, said⟩ := clientExec_utters ran
  obtain rfl := getClientByFd_fd isCli
  refine ⟨calls, isCalls, ?_⟩
  split at said
  · exact said.2
  · obtain ⟨ended, utters, rfl⟩ := said
    exact utters.trans (.write ended _ (.inl rfl))

end Utters

/-! ## The room -/

/-- The clients that are there, and what was written to each. -/
def roomOf (recipients : List Int) (output : List (Int × Str)) : Room Int Str where
  members := recipients.toFinset
  heard fd := (output.filter (·.1 = fd)).map Prod.snd

/-- Those who are there, and what each of them was written so far. -/
def Server.room (s : Server) : Room Int Str := roomOf s.recipients s.output

/-- What is uttered, as a move. -/
def utteredMove : Option Int × Str → Move Int Str
  | (none, text) => .speaks text
  | (some fd, text) => .whispers fd text

section Room

variable {permits : Int → Prop} {s t : Server}

/-- A text to all is in the output of each of them once. -/
theorem texts_to_all {recipients : List Int} (nodup : recipients.Nodup) (text : Str) (fd : Int) :
    (((recipients.map (·, text)).filter (·.1 = fd)).map Prod.snd : List Str) =
      if fd ∈ recipients then [text] else [] := by
  have picked : (recipients.map (·, text)).filter (·.1 = fd) =
      (recipients.filter (· = fd)).map (·, text) := by
    rw [List.filter_map]
    rfl
  rw [picked, List.filter_eq, List.map_map, List.map_replicate]
  by_cases member : fd ∈ recipients
  · rw [if_pos member, List.count_eq_one_of_mem nodup member]
    rfl
  · rw [if_neg member, List.count_eq_zero_of_not_mem member]
    rfl

/-- What an utterance writes is a move of the room. It needs that nobody is listed twice, who
would hear it twice. -/
theorem roomOf_writes {recipients : List Int} (nodup : recipients.Nodup) (output : List (Int × Str))
    (utterance : Option Int × Str) :
    roomOf recipients (output ++ writes recipients utterance) =
      (roomOf recipients output).step (utteredMove utterance) := by
  obtain ⟨whom, text⟩ := utterance
  have split (fd : Int) (texts : List (Int × Str)) :
      (((output ++ texts).filter (·.1 = fd)).map Prod.snd : List Str) =
        (roomOf recipients output).heard fd ++ (texts.filter (·.1 = fd)).map Prod.snd := by
    rw [List.filter_append, List.map_append, roomOf]
  cases whom with
  | none =>
    have heard : (fun fd => (((output ++ writes recipients (none, text)).filter
        (·.1 = fd)).map Prod.snd : List Str)) = fun fd => if fd ∈ (roomOf recipients output).members
          then (roomOf recipients output).heard fd ++ [text]
          else (roomOf recipients output).heard fd := by
      funext fd
      rw [split, writes, texts_to_all nodup]
      by_cases member : fd ∈ recipients <;> simp [roomOf, member]
    exact congrArg (Room.mk recipients.toFinset) heard
  | some whom =>
    have heard : (fun fd => (((output ++ writes recipients (some whom, text)).filter
        (·.1 = fd)).map Prod.snd : List Str)) = fun fd => if fd = whom
          then (roomOf recipients output).heard fd ++ [text]
          else (roomOf recipients output).heard fd := by
      funext fd
      rw [split, writes]
      by_cases same : fd = whom
      · simp [same]
      · have other : whom ≠ fd := fun isSame => same isSame.symm
        simp [same, other]
    exact congrArg (Room.mk recipients.toFinset) heard

/-- What is uttered are moves in the room: texts to all, and whispers to some. -/
theorem Utters.room (utters : Utters permits s t) (nodup : s.afds.Nodup) :
    ∃ moves, t.room = s.room.run moves ∧ ∀ move ∈ moves,
      (∃ text, move = .speaks text) ∨ ∃ fd text, permits fd ∧ move = .whispers fd text := by
  obtain ⟨utterances, output, permitted⟩ := utters.texts
  have recipients : t.recipients = s.recipients := by
    rw [Server.recipients, utters.afds, utters.msock, Server.recipients]
  refine ⟨utterances.map utteredMove, ?_, ?_⟩
  · rw [Server.room, recipients, output]
    clear output permitted
    induction utterances using List.reverseRecOn with
    | nil => simp [Room.run, Server.room]
    | append_singleton earlier last ih =>
      rw [List.flatMap_append, List.flatMap_singleton, ← List.append_assoc, List.map_append,
        Room.run_append, ← ih]
      exact roomOf_writes (nodup.filter _) _ last
  · intro move member
    obtain ⟨⟨whom, text⟩, uttered, rfl⟩ := List.mem_map.mp member
    cases whom with
    | none => exact .inl ⟨text, rfl⟩
    | some fd => exact .inr ⟨fd, text, permitted fd text uttered, rfl⟩

/-- The server prints something for itself: that there is no id for a connection, that a
socket was closed, or an error of `recv`. It does so on descriptor 1 or 2, which stands for the
socket of the client served last. -/
def PrintsLog (s : Server) : Event → Prop
  | .accept _ _ => getAvaliableID s.idTable = none
  | .line _ _ _ => False
  | .closed _ => True

instance decidablePrintsLog (s : Server) : (event : Event) → Decidable (PrintsLog s event)
  | .accept _ _ => inferInstanceAs (Decidable (getAvaliableID s.idTable = none))
  | .line _ _ _ => isFalse id
  | .closed _ => isTrue trivial

/-- What an event can do in the room: who enters and who leaves, and to whom something is
whispered. -/
def Permits (s : Server) (event : Event) (calls : List Call) : Move Int Str → Prop
  | .enters fd => event.client? = none ∧ fd = s.process.accept.1
  | .leaves fd => event.client? = some fd
  | .speaks _ => True
  | .whispers fd _ =>
    match event with
    | .accept _ _ => fd = s.process.accept.1
    | .line own _ _ => Heeds s own calls fd
    | .closed _ => False

/-- What is uttered is permitted if whom it is uttered to is. -/
theorem Utters.permitted {event : Event} {calls : List Call}
    (utters : Utters permits s t) (nodup : s.afds.Nodup)
    (allowed : ∀ fd text, permits fd → Permits s event calls (.whispers fd text)) :
    ∃ moves, t.room = s.room.run moves ∧ ∀ move ∈ moves, Permits s event calls move := by
  obtain ⟨moves, isRun, each⟩ := utters.room nodup
  refine ⟨moves, isRun, fun move member => ?_⟩
  rcases each move member with ⟨text, rfl⟩ | ⟨fd, text, isPermitted, rfl⟩
  · trivial
  · exact allowed fd text isPermitted

/-- Somebody leaves: it is said, and the client is not there any more. -/
theorem logout_room {cli : ClientInfo} {erased fd : Int} (nodup : s.afds.Nodup)
    (left : logout s cli erased fd = .ok t) : t.calls = s.calls ∧
      ∃ moves, t.room = s.room.run (moves ++ [.leaves fd]) ∧
        ∀ move ∈ moves, ∃ text, move = .speaks text := by
  rw [logout] at left
  obtain ⟨told, tells, left⟩ := bind_eq_ok.mp left
  have utters : Utters (fun _ => False) s told := broadCast_utters tells
  obtain ⟨moves, isRun, each⟩ := utters.room nodup
  have sameCalls : told.calls = s.calls := by
    obtain ⟨output, rfl⟩ := (broadCast_ends s .logout [] cli (-1)).returned tells
    rfl
  obtain ⟨freed, frees, left⟩ := bind_eq_ok.mp left
  rw [Server.clearId] at frees
  split at frees
  · cases frees
    cases left
    refine ⟨sameCalls, moves, ?_, fun move member => ?_⟩
    · rw [Room.run_append, ← isRun]
      refine congrArg (fun members => Room.mk members _) ?_
      ext other
      simp only [Server.recipients, fdClr, List.filter_filter, List.mem_toFinset, List.mem_filter,
        Finset.mem_erase, Server.room, roomOf]
      simp only [ne_eq, Bool.and_eq_true, decide_eq_true_eq]
      tauto
    · rcases each move member with spoken | ⟨_, _, none, -⟩
      · exact spoken
      · exact none.elim
  · cases frees

/-- A client that leaves may say good-bye to all, and goes. -/
theorem farewell_permits {event : Event} {calls : List Call} {fd : Int}
    (own : event.client? = some fd) {farewell : List (Move Int Str)}
    (spoken : ∀ move ∈ farewell, ∃ text, move = .speaks text) {move : Move Int Str}
    (member : move ∈ farewell ++ [.leaves fd]) : Permits s event calls move := by
  rcases List.mem_append.mp member with early | last
  · obtain ⟨text, rfl⟩ := spoken move early
    trivial
  · rw [List.mem_singleton.mp last]
    exact own

theorem fdSet_nodup {afds : List Int} {fd : Int} (nodup : afds.Nodup) : (fdSet afds fd).Nodup := by
  rw [fdSet]
  split
  · exact nodup
  · rename_i fresh
    simpa only [List.concat_eq_append] using nodup.concat fresh

/-- Who is there when one more is watched. -/
theorem watched_fdSet (afds : List Int) (fd msock : Int) :
    ((fdSet afds fd).filter (· ≠ msock)).toFinset =
      if fd = msock then (afds.filter (· ≠ msock)).toFinset
      else insert fd (afds.filter (· ≠ msock)).toFinset := by
  ext other
  split
  · rename_i listening
    simp only [List.mem_toFinset, List.mem_filter, mem_fdSet, decide_eq_true_eq, listening]
    tauto
  · rename_i apart
    simp only [List.mem_toFinset, List.mem_filter, mem_fdSet, decide_eq_true_eq, Finset.mem_insert]
    constructor
    · tauto
    · rintro (rfl | ⟨member, notListening⟩)
      · exact ⟨.inr rfl, apart⟩
      · exact ⟨.inl member, notListening⟩

/-- Somebody for whom there is an id enters, and is welcomed. The moves are the entry, where the
descriptor is not that of the listening socket, and what is said: the welcome, the announcement to
all and the prompt, in the order of `main`. -/
theorem acceptClient_room {userIp : Str} {port : Nat} (nodup : s.afds.Nodup)
    (free : getAvaliableID s.idTable ≠ none) (accepted : acceptClient s userIp port = .ok t) :
    ∃ moves calls, t.calls = s.calls ++ calls ∧ t.room = s.room.run moves ∧
      ∀ move ∈ moves, Permits s (.accept userIp port) calls move := by
  rw [acceptClient] at accepted
  simp only at accepted
  split at accepted
  · rename_i full
    exact absurd full free
  · rename_i id idTable found
    obtain ⟨told, tells, same⟩ := bind_eq_ok.mp accepted
    cases same
    let entered : Server := { s.withProcess s.process.accept.2 with
      idTable := idTable
      clientTable := s.clientTable ++ [newClient s.process.accept.1 id userIp port s.process.made]
      afds := fdSet s.afds s.process.accept.1 }
    have welcomed : Utters (· = s.process.accept.1) entered
        (entered.write s.process.accept.1 welcome) := .write entered _ rfl
    have greeted : Utters (· = s.process.accept.1) (entered.write s.process.accept.1 welcome) told :=
      broadCast_utters tells
    have prompted : Utters (· = s.process.accept.1) told
        (told.write s.process.accept.1 (str "% ")) := .write told _ rfl
    have sameCalls : told.calls = s.calls := by
      obtain ⟨output, rfl⟩ := (broadCast_ends _ .login [] _ (-1)).returned tells
      rfl
    obtain ⟨moves, isRun, each⟩ :=
      ((welcomed.trans greeted).trans prompted).room (fdSet_nodup nodup)
    have permitted : ∀ move ∈ moves, Permits s (.accept userIp port) [] move := by
      intro move member
      rcases each move member with ⟨text, rfl⟩ | ⟨fd, text, own, rfl⟩
      · trivial
      · exact own
    have calls : (told.write s.process.accept.1 (str "% ")).calls = s.calls ++ [] :=
      sameCalls.trans (List.append_nil _).symm
    by_cases listening : s.process.accept.1 = s.msock
    · refine ⟨moves, [], calls, isRun.trans (congrArg (fun room : Room Int Str => room.run moves) ?_),
        permitted⟩
      have members := watched_fdSet s.afds s.process.accept.1 s.msock
      rw [if_pos listening] at members
      exact congrArg (fun members => Room.mk members _) members
    · refine ⟨.enters s.process.accept.1 :: moves, [], calls,
        isRun.trans (congrArg (fun room : Room Int Str => room.run moves) ?_), ?_⟩
      · have members := watched_fdSet s.afds s.process.accept.1 s.msock
        rw [if_neg listening] at members
        exact congrArg (fun members => Room.mk members _) members
      · intro move member
        rcases List.mem_cons.mp member with rfl | later
        · exact ⟨rfl, rfl⟩
        · exact permitted move later

/-- Every event at which the server prints nothing for itself makes moves in the room, which are
permitted to it. A login is entering and what is said then; a line is what it utters; a departure
is saying good-bye and leaving. -/
theorem serve_room {event : Event} (nodup : s.afds.Nodup) (quiet : ¬ PrintsLog s event)
    (served : serve s event = .ok t) :
    ∃ moves calls, t.calls = s.calls ++ calls ∧ t.room = s.room.run moves ∧
      ∀ move ∈ moves, Permits s event calls move := by
  cases event with
  | accept userIp port => exact acceptClient_room nodup quiet served
  | line fd chunk world =>
    obtain ⟨ended, status, execed, ⟨-, rfl⟩ | ⟨cli, left, -, -, -, out, rfl⟩⟩ :=
      clientLine_cases served
    · obtain ⟨calls, isCalls, utters⟩ := line_utters execed
      obtain ⟨moves, isRun, each⟩ := @Utters.permitted _ s t (.line fd chunk world) calls utters
        nodup (fun _ _ heeds => heeds)
      exact ⟨moves, calls, isCalls, isRun, each⟩
    · obtain ⟨calls, isCalls, utters⟩ := line_utters execed
      obtain ⟨moves, isRun, each⟩ := @Utters.permitted _ s ended (.line fd chunk world) calls utters
        nodup (fun _ _ heeds => heeds)
      obtain ⟨sameCalls, farewell, leaves, spoken⟩ := logout_room (utters.afds ▸ nodup) out
      refine ⟨moves ++ (farewell ++ [.leaves fd]), calls, sameCalls.trans isCalls, ?_, ?_⟩
      · rw [Room.run_append, ← isRun]
        exact leaves
      · intro move member
        rcases List.mem_append.mp member with early | late
        · exact each move early
        · exact farewell_permits rfl spoken late
  | closed fd => exact absurd trivial quiet

end Room

/-! ## What bystanders hear -/

/-- An event tells a client something. -/
def Tells (s : Server) (event : Event) (fd : Int) : Prop :=
  ∃ t ∈ (serve s event).toOption, ∃ call ∈ t.calls.drop s.calls.length,
    TellsTo s call.arguments fd

instance (s : Server) (event : Event) (fd : Int) : Decidable (Tells s event fd) :=
  inferInstanceAs (Decidable (∃ t ∈ (serve s event).toOption, _))

/-- An event is none of a client's: it does not come from it, tells it nothing and does not
take its number, and the server prints nothing for itself. -/
def Aloof (fd : Int) (s : Server) (event : Event) : Prop :=
  ¬ PrintsLog s event ∧ event.client? ≠ some fd ∧ s.process.accept.1 ≠ fd ∧ ¬ Tells s event fd

instance (fd : Int) (s : Server) (event : Event) : Decidable (Aloof fd s event) :=
  inferInstanceAs (Decidable (_ ∧ _ ∧ _ ∧ _))

section Bystanders

variable {before more : List Event} {s t : Server}

/-- No descriptor is watched twice. -/
theorem run_nodup {events : List Event} (run : Run system always events s) : s.afds.Nodup := by
  apply run.invariant (fun s => s.afds.Nodup)
  · exact List.nodup_singleton _
  intro s event t nodup _ _ served
  have cleared {fd : Int} (gone : t.afds = fdClr s.afds fd) : t.afds.Nodup := by
    rw [gone]
    exact nodup.filter _
  cases event with
  | accept userIp port =>
    obtain ⟨_, same, ⟨refused, -⟩ | ⟨id, -, -, entered, -⟩⟩ := acceptClient_enters s userIp port
    · cases same.symm.trans served
      have afds : t.afds = s.afds := congrArg Tables.afds refused
      exact afds ▸ nodup
    · cases same.symm.trans served
      have afds : t.afds = fdSet s.afds s.process.accept.1 := congrArg Tables.afds entered
      rw [afds]
      exact fdSet_nodup nodup
  | line fd chunk world =>
    obtain ⟨ended, status, execed, ⟨-, rfl⟩ | ⟨cli, left, -, -, -, out, rfl⟩⟩ :=
      clientLine_cases served
    · have afds : t.afds = s.afds := (clientExec_registry execed).afds
      exact afds ▸ nodup
    · have afds : ended.afds = s.afds := (clientExec_registry execed).afds
      exact cleared ((logout_watched out).2.trans (by rw [afds]))
  | closed fd =>
    obtain ⟨cli, -, out⟩ := bind_eq_ok.mp served
    exact cleared (logout_watched out).2

/-- The server is a room. In every state that it can come to, what an event makes it write is said
to all who are there, or to the client it comes from, or to one that a `tell` in its line names;
and who is there changes by the one who enters or leaves. Events at which it prints something for
itself are left out: that comes to whoever was served last.

A line utters what its rounds utter, one after the other, and each utterance is a move because no
descriptor is watched twice. -/
theorem server_is_room {events : List Event} {event : Event}
    (run : Run system always events s) (quiet : ¬ PrintsLog s event)
    (served : serve s event = .ok t) :
    ∃ moves calls, t.calls = s.calls ++ calls ∧ t.room = s.room.run moves ∧
      ∀ move ∈ moves, Permits s event calls move :=
  serve_room (run_nodup run) quiet served

/-- Such an event does not show a client the door, nor whispers to it. -/
theorem Aloof.spares {fd : Int} {event : Event} (aloof : Aloof fd s event)
    (served : serve s event = .ok t) {calls : List Call} (made : t.calls = s.calls ++ calls)
    {move : Move Int Str} (permitted : Permits s event calls move) :
    move ≠ .leaves fd ∧ ∀ text, move ≠ .whispers fd text := by
  obtain ⟨-, others, number, untold⟩ := aloof
  constructor
  · rintro rfl
    exact others permitted
  · rintro text rfl
    cases event with
    | accept userIp port => exact number permitted.symm
    | line own chunk world =>
      rcases permitted with rfl | ⟨call, member, tells⟩
      · exact others rfl
      · refine untold ?_
        exact ⟨t, by rw [served]; rfl, call, by rwa [made, List.drop_left], tells⟩
    | closed own => exact permitted

/-- A stretch of a run in which the server prints nothing for itself makes moves in the room, and
those to whom its events are nothing are spared by them. -/
theorem stretch_room (run : Run system always before s)
    (longer : Run system always (before ++ more) t)
    (quiet : Along system (fun s event => ¬ PrintsLog s event) s more) :
    ∃ moves, t.room = s.room.run moves ∧ ∀ fd, Along system (Aloof fd) s more →
      .leaves fd ∉ moves ∧ ∀ text, .whispers fd text ∉ moves := by
  induction more generalizing before s with
  | nil =>
    rw [List.append_nil] at longer
    obtain rfl := run.unique longer
    exact ⟨[], rfl, by simp⟩
  | cons event rest ih =>
    rw [List.append_cons] at longer
    obtain ⟨after, first⟩ := longer.cut
    obtain ⟨m, earlier, offered, met, served⟩ := first.last
    obtain rfl := run.unique earlier
    obtain ⟨moves, calls, made, isRun, permitted⟩ := serve_room (run_nodup run) quiet.1 served
    obtain ⟨further, isFurther, spared⟩ :=
      ih (.next run offered met served) longer (quiet.2 after served)
    refine ⟨moves ++ further, by rw [Room.run_append, ← isRun, isFurther], fun fd aloof => ?_⟩
    obtain ⟨stays, alone⟩ := spared fd (aloof.2 after served)
    constructor
    · intro member
      rcases List.mem_append.mp member with now | later
      · exact (aloof.1.spares served made (permitted _ now)).1 rfl
      · exact stays later
    · intro text member
      rcases List.mem_append.mp member with now | later
      · exact (aloof.1.spares served made (permitted _ now)).2 text rfl
      · exact alone text later

/-- Whatever happens in a stretch of a run, there is one sequence of texts that all clients hear
who are there and have no part in it: they stay, and nothing that happens in it comes from them or
is said to them alone.

The stretch is a run of moves of the room, and what is said to all in it is the sequence. -/
theorem bystanders_hear_the_same (run : Run system always before s)
    (longer : Run system always (before ++ more) t) :
    ∃ texts, ∀ fd ∈ s.recipients, Along system (Aloof fd) s more →
      t.room.heard fd = s.room.heard fd ++ texts := by
  by_cases quiet : Along system (fun s event => ¬ PrintsLog s event) s more
  case neg =>
    exact ⟨[], fun fd _ aloof => absurd (aloof.weaken (fun _ _ apart => apart.1)) quiet⟩
  obtain ⟨moves, isRun, spared⟩ := stretch_room run longer quiet
  refine ⟨moves.filterMap said, fun fd member aloof => ?_⟩
  obtain ⟨stays, alone⟩ := spared fd aloof
  rw [isRun]
  exact heard_said (List.mem_toFinset.mpr member) stays alone

/-- Three clients have logged in. -/
def threeThere : List Event :=
  [.accept (str "127.0.0.1") 4001, .accept (str "127.0.0.1") 4002, .accept (str "127.0.0.1") 4003]

/-- What the first then says is said to all. -/
theorem server_is_room_three : ∃ s t moves calls, Run system always threeThere s ∧
    serve s (.line 4 (str "yell hello\n") World.plain) = .ok t ∧ t.calls = s.calls ++ calls ∧
    t.room = s.room.run moves ∧
    ∀ move ∈ moves, Permits s (.line 4 (str "yell hello\n") World.plain) calls move := by
  have plays : ((play system always system.start threeThere).bind (fun s =>
      (serve s (.line 4 (str "yell hello\n") World.plain)).toOption)).isSome = true := by
    decide +kernel
  obtain ⟨t, both⟩ := Option.isSome_iff_exists.mp plays
  obtain ⟨s, played, isServed⟩ := Option.bind_eq_some_iff.mp both
  have run := Run.played threeThere s played
  have served : serve s (.line 4 (str "yell hello\n") World.plain) = .ok t := by
    cases outcome : serve s (.line 4 (str "yell hello\n") World.plain) with
    | ok after =>
      rw [outcome] at isServed
      exact congrArg Except.ok (Option.some.inj isServed)
    | error failure =>
      rw [outcome] at isServed
      cases isServed
  obtain ⟨moves, calls, made, isRun, permitted⟩ := server_is_room run id served
  exact ⟨s, t, moves, calls, run, served, made, isRun, permitted⟩

/-- The first client says something, is told something by the second, and leaves. -/
def firstTalks : List Event :=
  [.line 4 (str "yell hello\n") World.plain, .line 5 (str "tell 1 hush\n") World.plain,
    .line 4 (str "exit\n") World.plain]

/-- The third hears what is said and that the first has left, and nothing else. -/
theorem bystanders_hear_the_same_third : ∃ s t texts, Run system always threeThere s ∧
    Run system always (threeThere ++ firstTalks) t ∧
    t.room.heard 6 = s.room.heard 6 ++ texts ∧ texts.length = 2 := by
  have plays : ((play system always system.start threeThere).map (fun s =>
      decide (6 ∈ s.recipients ∧ Along system (Aloof 6) s firstTalks ∧
        ((play system always s firstTalks).map (fun t =>
          (t.room.heard 6).length)) = some ((s.room.heard 6).length + 2)))) = some true := by
    decide +kernel
  obtain ⟨s, played, facts⟩ := Option.map_eq_some_iff.mp plays
  obtain ⟨there, aloof, count⟩ := of_decide_eq_true facts
  obtain ⟨t, further, isCount⟩ := Option.map_eq_some_iff.mp count
  have run := Run.played threeThere s played
  have longer := Run.extended run firstTalks t further
  obtain ⟨texts, heard⟩ := bystanders_hear_the_same run longer
  have same := heard 6 there aloof
  have lengths := congrArg List.length same
  rw [isCount, List.length_append] at lengths
  exact ⟨s, t, texts, run, longer, same, by omega⟩

end Bystanders

end NetProg.SingleProc
