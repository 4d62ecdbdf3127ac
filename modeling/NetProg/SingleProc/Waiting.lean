import NetProg.SingleProc.Redirections

/-!
# Which commands the server waits for

`ExecCmd` waits for the child it forks if the command ends its line and
`is_using_pipe` is not set. Every part of a command but a `<s` sets this variable anew,
and so it is not the last output of the command that decides whether it is waited for
but the last word: an argument or a `< f` behind a `>t` makes the server wait for a
writer whose reader may never come.
-/

namespace NetProg.SingleProc

open Loops Outcomes Runs

/-- The part says where the output of the command goes. -/
def Part.isOutput : Part → Bool
  | toFile _ | toUser _ _ | pipe _ _ _ => true
  | argument _ | fromFile _ | noFile | fromUser _ => false

/-- The output goes to a numbered or a user pipe. -/
def Part.isPiped : Part → Bool
  | toUser _ _ | pipe _ _ _ => true
  | argument _ | toFile _ | fromFile _ | noFile | fromUser _ => false

/-- The last `> f`, `>t` or pipe operator. -/
def lastOutput (parts : List Part) : Option Part := parts.reverse.find? Part.isOutput

/-- The parts behind it, from the last one on. -/
def behindOutput (parts : List Part) : List Part := parts.reverse.takeWhile (!·.isOutput)

/-- The output goes to a user pipe, and behind its `>t` there is an argument or a `< f`. -/
def Command.Forgets (c : Command) : Prop :=
  (∃ word left, lastOutput c.parts = some (.toUser word left)) ∧
  ∃ part ∈ behindOutput c.parts, (∃ word, part = .argument word) ∨ ∃ left, part = .fromFile left

/-- The call has the write end of a numbered or a user pipe as its `out_fd`. -/
def Execution.PipesOut (e : Execution) : Prop :=
  ∃ target ∈ e.setup.targets.getLast?, target.isFile = false ∧ e.call.outFd = target.fd

section Parts

theorem lastOutput_snoc (parts : List Part) (part : Part) :
    lastOutput (parts ++ [part]) = if part.isOutput then some part else lastOutput parts := by
  cases output : part.isOutput <;> simp [lastOutput, output]

theorem behindOutput_snoc (parts : List Part) (part : Part) :
    behindOutput (parts ++ [part]) =
      if part.isOutput then [] else part :: behindOutput parts := by
  cases output : part.isOutput <;> simp [behindOutput, output]

/-- With its output to a pipe, `is_using_pipe` survives exactly what behind it is a `<s`. -/
theorem usesPipe_behind (parts : List Part) (piped : (lastOutput parts).any Part.isPiped = true) :
    parts.foldl Part.usesPipe false = (behindOutput parts).all (Part.usesPipe true) := by
  induction parts using List.reverseRecOn with
  | nil => cases piped
  | append_singleton parts part ih =>
    rw [lastOutput_snoc] at piped
    rw [List.foldl_append, behindOutput_snoc]
    cases part with
    | toUser word left | pipe isError word left => rfl
    | toFile left => cases piped
    | fromUser word => simpa [Part.isOutput, Part.usesPipe] using ih piped
    | argument word | fromFile left | noFile => rfl

variable {job : Job}

/-- The last output part is the one that has made the last target. -/
theorem piped_iff {parts : List Part} {start setup : Setup} (none : start.targets = [])
    (performed : parts.foldlM (perform job) start = some setup) :
    (∃ target ∈ setup.targets.getLast?, target.isFile = false) ↔
      (lastOutput parts).any Part.isPiped = true := by
  induction parts using List.reverseRecOn generalizing setup with
  | nil =>
    cases performed
    simp [none, lastOutput]
  | append_singleton parts part ih =>
    rw [List.foldlM_append, Option.bind_eq_bind, Option.bind_eq_some_iff] at performed
    obtain ⟨before, others, last⟩ := performed
    rw [List.foldlM_cons, Option.bind_eq_bind, Option.bind_eq_some_iff] at last
    obtain ⟨after, performed, same⟩ := last
    cases same
    obtain ⟨sources, targets, opens, -, whole⟩ := (perform_performs performed).opens
    rw [whole, lastOutput_snoc]
    cases opens with
    | argument | fromFile | fromUser => simpa [Part.isOutput] using ih others
    | toFile | toUser | pipe => simp [Part.isOutput, Part.isPiped, Target.isFile]

/-- A file name that is missing cannot be performed. -/
theorem noFile_not_performed {parts : List Part} {start setup : Setup}
    (performed : parts.foldlM (perform job) start = some setup) : .noFile ∉ parts := by
  induction parts generalizing start with
  | nil => simp
  | cons part rest ih =>
    rw [List.foldlM_cons, Option.bind_eq_bind, Option.bind_eq_some_iff] at performed
    obtain ⟨middle, first, others⟩ := performed
    simp only [List.mem_cons, not_or]
    refine ⟨?_, ih others⟩
    rintro rfl
    cases first

end Parts

section Commands

/-- Only the last part of a command can be a pipe operator. -/
theorem cutParts_pipe_last (words : List Str) :
    ∀ part ∈ (cutParts words).1.dropLast, part.isPipe = false := by
  induction words using cutParts.induct with
  | case1 => simp [cutParts]
  | case2 word rest isPipe => simp [cutParts, isPipe]
  | case3 word rest notPipe ih =>
    rw [cutParts, if_neg notPipe]
    cases later : (cutParts (nextPart word rest).2).1 with
    | nil => simp
    | cons next others =>
      rw [later] at ih
      intro part member
      cases member with
      | head => simpa using notPipe
      | tail _ inside => exact ih part inside

/-- What a command of a line is like, `tell` and `yell` among them. -/
structure Command.Whole (c : Command) : Prop where
  pipeLast : ∀ part ∈ c.parts.dropLast, part.isPipe = false
  complete : c.rest = [] ∨ ∃ part, c.parts.getLast? = some part ∧ part.isPipe = true

theorem cut_whole (word : Str) (rest : List Str) : (Command.cut word rest).Whole := by
  rw [Command.cut]
  split
  · refine ⟨?_, .inl rfl⟩
    intro part member
    obtain ⟨word, -, rfl⟩ := List.mem_map.mp (List.dropLast_subset _ member)
    rfl
  · exact ⟨cutParts_pipe_last rest, cutParts_complete rest⟩

theorem commandsOf_whole (words : List Str) : ∀ c ∈ commandsOf words, c.Whole := by
  induction words using commandsOf.induct with
  | case1 => simp [commandsOf]
  | case2 word rest ih =>
    rw [commandsOf]
    intro c member
    cases member with
    | head => exact cut_whole word rest
    | tail _ later => exact ih c later

/-- The last output of a command that is no pipe operator comes before the end of the line. -/
theorem Command.Whole.ends {c : Command} (whole : c.Whole) {word : Str} {left : Nat}
    (last : lastOutput c.parts = some (.toUser word left)) : c.rest = [] := by
  apply whole.complete.resolve_right
  rintro ⟨part, isLast, isPipe⟩
  obtain ⟨before, parts⟩ := List.getLast?_eq_some_iff.mp isLast
  rw [parts, lastOutput_snoc] at last
  cases part with
  | pipe isError word left => cases last
  | _ => cases isPipe

/-- Nothing comes behind a pipe operator. -/
theorem Command.Whole.behind {c : Command} (whole : c.Whole) {isError : Bool} {word : Str}
    {left : Nat} (last : lastOutput c.parts = some (.pipe isError word left)) :
    behindOutput c.parts = [] := by
  have pipeLast := whole.pipeLast
  generalize c.parts = parts at last pipeLast
  induction parts using List.reverseRecOn with
  | nil => cases last
  | append_singleton before part =>
    rw [List.dropLast_concat] at pipeLast
    rw [behindOutput_snoc]
    rw [lastOutput_snoc] at last
    split at last
    · rename_i output
      rw [if_pos output]
    · have member := List.mem_reverse.mp (List.mem_of_find?_eq_some last)
      cases pipeLast _ member

end Commands

section Lines

variable {job : Job}

/-- A command with its output to a pipe uses it, unless it has forgotten it. Only what stands
behind the last output can change the variable, and of that a `<s` leaves it. -/
theorem usesPipe_iff {c : Command} {start setup : Setup} (whole : c.Whole)
    (performed : c.parts.foldlM (perform job) start = some setup)
    (piped : (lastOutput c.parts).any Part.isPiped = true) :
    c.usesPipe = true ↔ ¬ c.Forgets := by
  rw [Command.usesPipe, usesPipe_behind c.parts piped, List.all_eq_true]
  constructor
  · rintro kept ⟨-, part, member, ⟨word, rfl⟩ | ⟨left, rfl⟩⟩
    · cases kept _ member
    · cases kept _ member
  · intro remembers part member
    have inParts : part ∈ c.parts :=
      List.mem_reverse.mp ((List.takeWhile_subset _) member)
    have aside : part.isOutput = false := by
      simpa using List.mem_takeWhile_imp member
    cases last : lastOutput c.parts with
    | none =>
      rw [last] at piped
      cases piped
    | some output =>
      rw [last] at piped
      cases output with
      | pipe isError word left =>
        rw [whole.behind last] at member
        cases member
      | toUser word left =>
        cases part with
        | fromUser word => rfl
        | noFile => exact absurd inParts (noFile_not_performed performed)
        | argument other =>
          exact absurd ⟨⟨word, left, last⟩, _, member, .inl ⟨other, rfl⟩⟩ remembers
        | fromFile more =>
          exact absurd ⟨⟨word, left, last⟩, _, member, .inr ⟨more, rfl⟩⟩ remembers
        | toFile | toUser | pipe => cases aside
      | _ => cases piped

/-- The output of a call goes to a pipe where the last output of its command does. -/
theorem pipesOut_iff {e : Execution} (lawful : e.Lawful job) :
    e.PipesOut ↔ (lastOutput e.command.parts).any Part.isPiped = true := by
  obtain ⟨before, performed⟩ := lawful.performed
  rw [← piped_iff rfl performed]
  constructor
  · rintro ⟨target, last, piped, -⟩
    exact ⟨target, last, piped⟩
  · rintro ⟨target, last, piped⟩
    refine ⟨target, last, piped, ?_⟩
    rw [lawful.outFd, Setup.outFd, Option.mem_def.mp last]
    rfl

/-- For every server and every line: of the calls that `ExecCmds` makes, one with its output to a
numbered or a user pipe is not waited for if and only if its command has neither an argument nor a
`< f` behind the `>t` its output goes to.

The flag of the output is set where the pipe is made and cleared by the words behind it. What is
left of it at the end of a command depends on the last word alone that sends the output somewhere,
and on what follows it. -/
theorem writer_not_waited_for_iff (job : Job) (s : Server) (words : List Str) :
    Ends (execCmds job s words)
      (fun result => result.1.calls = s.calls ++ (executed job s words).map Execution.call)
      (fun failure => failure.2.calls = s.calls ++ (executed job s words).map Execution.call) ∧
    (executed job s words).map Execution.command <+: commandsOf words ∧
    ∀ e ∈ executed job s words,
      (e.PipesOut → e.call.isUsingPipe = true ∨ e.call.lineEnds = false) ↔
        ¬ e.command.Forgets := by
  have ofLine : (executed job s words).map Execution.command <+: commandsOf words :=
    executions_prefix _ _
  refine ⟨?_, ofLine, ?_⟩
  · exact Ends.mono (executed_ends job s words) (fun _ ended => ended.1) (fun _ same => same)
  intro e member
  have lawful : e.Lawful job := executions_lawful _ _ e member
  have whole : e.command.Whole :=
    commandsOf_whole words _ (ofLine.subset (List.mem_map_of_mem member))
  obtain ⟨before, performed⟩ := lawful.performed
  rw [lawful.isUsingPipe, lawful.lineEnds, pipesOut_iff lawful]
  constructor
  · rintro spared ⟨⟨word, left, last⟩, behind⟩
    have piped : (lastOutput e.command.parts).any Part.isPiped = true := by
      rw [last]
      rfl
    have uses := usesPipe_iff whole performed piped
    rcases spared piped with kept | more
    · exact uses.mp kept ⟨⟨word, left, last⟩, behind⟩
    · rw [whole.ends last] at more
      cases more
  · intro remembers piped
    exact .inl ((usesPipe_iff whole performed piped).mpr remembers)

end Lines

/-- Two clients have logged in. -/
def twoUsers : List Event :=
  [.accept (str "127.0.0.1") 4001, .accept (str "127.0.0.1") 4002]

/-- The first sends the second the listing of a directory, with the option behind the user
pipe. The server waits for `ls`, and nobody reads what it writes. -/
theorem option_behind_user_pipe_waited_for : ∃ s after call serial,
    Run system ByExit twoUsers s ∧ offers s (.line 4 (str "ls >2 -l\n") World.plain) ∧
    serve s (.line 4 (str "ls >2 -l\n") World.plain) = .ok after ∧
    s.calls = [] ∧ after.calls = [call] ∧ call.arguments = [str "ls", str "-l"] ∧
    call.outObject = some (.writeEnd serial) ∧ call.isUsingPipe = false ∧
    call.lineEnds = true := by
  have plays : ((play system ByExit system.start twoUsers).bind (fun s =>
      match serve s (.line 4 (str "ls >2 -l\n") World.plain) with
      | .ok after => some (decide (offers s (.line 4 (str "ls >2 -l\n") World.plain) ∧
          s.calls = [] ∧ after.calls.map (fun call => (call.arguments, call.outObject,
            call.isUsingPipe, call.lineEnds)) =
              [([str "ls", str "-l"], some (.writeEnd 2), false, true)]))
      | .error _ => none)) = some true := by
    decide +kernel
  obtain ⟨s, played, served⟩ := Option.bind_eq_some_iff.mp plays
  have run := Run.played twoUsers s played
  split at served
  · rename_i after isServed
    obtain ⟨offered, none, made⟩ := of_decide_eq_true (Option.some.inj served)
    obtain ⟨call, isCall, same⟩ := List.map_eq_singleton_iff.mp made
    simp only [Prod.mk.injEq] at same
    obtain ⟨arguments, outObject, isUsingPipe, lineEnds⟩ := same
    exact ⟨s, after, call, 2, run, offered, isServed, none, isCall, arguments, outObject,
      isUsingPipe, lineEnds⟩
  · cases served

end NetProg.SingleProc
