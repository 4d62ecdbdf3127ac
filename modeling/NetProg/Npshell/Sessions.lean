import NetProg.Common.Views
import NetProg.Npshell.Shell

/-!
# Sessions of np_project1 on the common language

A pass of the command loop reads a word and, if that completes a command, executes it.
On words of the common language it is one step of a view or two: the descriptors start
from the standard ones, and the last pipe with count zero is the only one.
-/

namespace NetProg.Npshell

open Common Loops Outcomes NumberedPipes

/-- The standard descriptors. -/
def defaults : Defaults := ⟨0, 1, 2⟩

/-- A call without what differs between the shells. -/
def Call.issue (call : Call) : Issue where
  arguments := call.arguments
  lineEnds := call.lineEnds
  isUsingPipe := call.isUsingPipe
  input := port 0 call.inFd call.inObject
  output := port 1 call.outFd call.outObject
  error := port 2 call.errFd call.errObject

/-- The calls after the first `old` ones. -/
def Shell.issuesFrom (s : Shell) (old : Nat) : List Issue := (s.calls.drop old).map Call.issue

/-- The view of a frame. -/
def Frame.view (old : Nat) (f : Frame) : View where
  process := f.shell.process
  pipeVector := f.shell.pipeVector
  issues := f.shell.issuesFrom old
  words := f.cmds
  isFirst := f.isFirstArgv
  isFinal := f.isFinalArgv
  arguments := f.arguments
  isUsingPipe := f.isUsingPipe
  lineEnds := f.lineEnds
  outFd := f.outFd
  errFd := f.errFd

/-- `ExecCmds` on one line after another. -/
def session (s : Shell) (lines : List (Str × World)) : Outcome Shell :=
  lines.foldlM (fun s line => execCmds line.2 s (words line.1)) s

/-- What is compared at the end of a session. -/
def outlineFrom (old : Nat) : Outcome Shell → Outline
  | .ok s => outline true (s.issuesFrom old) s.pipeVector
  | .error (_, s) => outline false (s.issuesFrom old) s.pipeVector

/-- At most one pipe is due, so the last one is the first. -/
theorem getPipeFd_eq {pipeVector : List PipeFd} (distinct : (pipeVector.map PipeFd.count).Nodup)
    (inFd : Int) (p : Process) : getPipeFd pipeVector inFd p =
      (((NumberedPipes.getPipeFd pipeVector p).map (·.1.outFd)).getD inFd,
        ((NumberedPipes.getPipeFd pipeVector p).map Prod.snd).getD p) := by
  have none (rest : List PipeFd) (later : ∀ r ∈ rest, r.count ≠ 0) (inFd : Int) (p : Process) :
      getPipeFd rest inFd p = (inFd, p) := by
    induction rest with
    | nil => rfl
    | cons record rest ih =>
      rw [getPipeFd, if_neg (later record List.mem_cons_self)]
      exact ih (fun r member => later r (List.mem_cons_of_mem record member))
  induction pipeVector with
  | nil => rfl
  | cons record rest ih =>
    rw [List.map_cons, List.nodup_cons] at distinct
    by_cases due : record.count = 0
    · have later : ∀ r ∈ rest, r.count ≠ 0 := by
        intro r member alsoDue
        exact distinct.1 (List.mem_map.mpr ⟨r, member, alsoDue.trans due.symm⟩)
      rw [getPipeFd, if_pos due, none rest later]
      simp [NumberedPipes.getPipeFd, due]
    · rw [getPipeFd, if_neg due, ih distinct.2]
      simp [NumberedPipes.getPipeFd, due]

section Read

variable {world : World} {f next : Frame} {word : Str} {rest : List Str}

theorem readWord_prog (first : f.isFirstArgv = true) :
    readWord world f word rest = .ok (f.initFd.readProg word rest) := if_pos first

theorem readWord_pipe (later : f.isFirstArgv = false) (bar : 124 ∈ word) :
    readWord world f word rest = readPipe world f.initFd false word rest := by
  simp [readWord, Frame.initFd, later, kind, bar]

theorem readWord_errorPipe (later : f.isFirstArgv = false) (noBar : 124 ∉ word) (bang : 33 ∈ word) :
    readWord world f word rest = readPipe world f.initFd true word rest := by
  simp [readWord, Frame.initFd, later, kind, noBar, bang]

theorem readWord_file (later : f.isFirstArgv = false) :
    readWord world f (str ">") rest = readRedirect world f.initFd false rest := by
  have isFile : kind (str ">") = .redirect := by decide
  simp [readWord, Frame.initFd, later, isFile]

/-- A word without a redirection in it is an argument. -/
theorem readWord_argument (later : f.isFirstArgv = false) (solid : plain word = true)
    (noBar : 124 ∉ word) (noBang : 33 ∉ word) :
    readWord world f word rest = .ok (f.initFd.readArgument word rest) := by
  have isArgument : kind word = .argument := by
    have noFile : word ≠ str ">" ∧ word ≠ str ">>" ∧ word ≠ str "&>" := by
      refine ⟨?_, ?_, ?_⟩
      · rintro rfl
        exact absurd solid (by decide)
      · rintro rfl
        exact absurd solid (by decide)
      · rintro rfl
        exact absurd solid (by decide)
    simp [kind, noBar, noBang, noFile]
  simp [readWord, Frame.initFd, later, isArgument]

/-- A pipe operator is read as the reference has it: `|` wherever it is in the word, and `!` where
there is no `|`. -/
theorem readPipe_view (old : Nat) (isError : Bool) (later : f.isFirstArgv = false)
    (same : if isError then 124 ∉ word ∧ 33 ∈ word else 124 ∈ word)
    (read : readPipe world f.initFd isError word rest = .ok next) :
    (f.view old).Reads defaults world word rest (next.view old) := by
  unfold readPipe at read
  split at read
  · cases read
  · rename_i count number
    split at read
    · cases read
    · rename_i created creates
      cases read
      exact .pipe later same number creates

/-- A pipe operator that fails does so in the reference loop too, and leaves the shell as it was.
-/
theorem readPipe_fails (old : Nat) {isError : Bool} (later : f.isFirstArgv = false)
    (same : 124 ∈ word ∨ 33 ∈ word) {failure : Fault × Shell}
    (failed : readPipe world f.initFd isError word rest = .error failure) :
    (f.view old).Fails world word rest ∧ failure.2 = f.shell := by
  unfold readPipe at failed
  split at failed
  · rename_i long
    cases failed
    exact ⟨.pipeChar later same long, rfl⟩
  · rename_i count number
    split at failed
    · rename_i refused
      cases failed
      exact ⟨.pipeError later same number refused, rfl⟩
    · cases failed

/-- Reading a word of the common language is a step of the view. -/
theorem readWord_view (old : Nat) (understood : common f.isFirstArgv (word :: rest) = true)
    (read : readWord world f word rest = .ok next) :
    (f.view old).Reads defaults world word rest (next.view old) := by
  cases isFirst : f.isFirstArgv with
  | true =>
    rw [readWord_prog isFirst] at read
    cases read
    exact .prog isFirst
  | false =>
    rw [isFirst] at understood
    by_cases bar : 124 ∈ word
    · rw [readWord_pipe isFirst bar] at read
      exact readPipe_view old false isFirst bar read
    by_cases bang : 33 ∈ word
    · rw [readWord_errorPipe isFirst bar bang] at read
      exact readPipe_view old true isFirst (And.intro bar bang) read
    by_cases isFile : word = str ">"
    · subst isFile
      rw [readWord_file isFirst] at read
      match rest with
      | [] => cases read
      | file :: left =>
        cases read
        exact .redirect isFirst rfl rfl
    · rw [common_argument bar bang isFile] at understood
      rw [readWord_argument isFirst understood.1 bar bang] at read
      cases read
      exact .argument isFirst bar bang isFile

/-- It fails only where the view fails. -/
theorem readWord_fails (old : Nat) (understood : common f.isFirstArgv (word :: rest) = true)
    {failure : Fault × Shell} (failed : readWord world f word rest = .error failure) :
    (f.view old).Fails world word rest ∧ failure.2 = f.shell := by
  cases isFirst : f.isFirstArgv with
  | true =>
    rw [readWord_prog isFirst] at failed
    cases failed
  | false =>
    rw [isFirst] at understood
    by_cases bar : 124 ∈ word
    · rw [readWord_pipe isFirst bar] at failed
      exact readPipe_fails old isFirst (.inl bar) failed
    by_cases bang : 33 ∈ word
    · rw [readWord_errorPipe isFirst bar bang] at failed
      exact readPipe_fails old isFirst (.inr bang) failed
    by_cases isFile : word = str ">"
    · subst isFile
      rw [common_file] at understood
      rw [readWord_file isFirst] at failed
      match rest, understood with
      | [file], _ => cases failed
    · rw [common_argument bar bang isFile] at understood
      rw [readWord_argument isFirst understood.1 bar bang] at failed
      cases failed

end Read

section Execute

variable {f : Frame} {g : Nat → Nat} {live : List (Int × Object)} {r : Common.Frame}

/-- A shared command that has its arguments leaves what matters as it is. -/
theorem builtin_complete {arguments : List Str} (shared : Shared arguments)
    (complete : runs arguments = true) (s : Shell) : ∃ ran, builtin s arguments = .ok ran ∧
      ran.process = s.process ∧ ran.pipeVector = s.pipeVector ∧ ran.calls = s.calls := by
  have program := shared.program
  rw [complete] at program
  cases program with
  | printenv var rest =>
    refine ⟨s.printEnv (cstr var), rfl, ?_⟩
    rw [Shell.printEnv]
    split <;> exact ⟨rfl, rfl, rfl⟩
  | setenv var val rest => exact ⟨s.setEnv (cstr var) (cstr val), rfl, rfl, rfl, rfl⟩
  | @other prog rest solid notPrintenv notSetenv notExcluded =>
    have notExit : prog ≠ str "exit" := by
      rintro rfl
      exact notExcluded (by decide)
    refine ⟨s, ?_, rfl, rfl, rfl⟩
    have first : arg s (prog :: rest) 0 = .ok prog := congrArg Except.ok solid
    rw [builtin, first]
    simp [bind, Except.bind, pure, Except.pure, notPrintenv, notSetenv, notExit]

/-- One that has not fails. -/
theorem builtin_incomplete {arguments : List Str} (shared : Shared arguments)
    (missing : runs arguments = false) (s : Shell) :
    ∃ fault, builtin s arguments = .error (fault, s) := by
  have program := shared.program
  rw [missing] at program
  cases program with
  | noName => exact ⟨.argument, rfl⟩
  | noVariable => exact ⟨.argument, rfl⟩
  | noValue var => exact ⟨.argument, rfl⟩

theorem issuesFrom_logged {s : Shell} {old : Nat} (enough : old ≤ s.calls.length) (call : Call) :
    (s.logged call).issuesFrom old = s.issuesFrom old ++ [call.issue] := by
  rw [Shell.issuesFrom, Shell.logged, List.drop_append_of_le_length enough, List.map_append]
  rfl

/-- The call of a command is that of the view. -/
theorem callOf_issue (world : World) (old : Nat)
    (distinct : (f.shell.pipeVector.map PipeFd.count).Nodup) :
    (callOf world f (f.shell.withProcess (getPipeFd f.shell.pipeVector 0 f.shell.process).2)
      (getPipeFd f.shell.pipeVector 0 f.shell.process).1).issue = (f.view old).issue defaults := by
  rw [getPipeFd_eq distinct]
  rfl

/-- A complete command that has its arguments is an execution of the view. -/
theorem execute_complete (world : World) {old : Nat} (behind : Behind defaults g live (f.view old) r)
    (enough : old ≤ f.shell.calls.length) (shared : Shared f.arguments)
    (complete : runs f.arguments = true) : ∃ next, execute world f = .ok next ∧
      old ≤ next.shell.calls.length ∧ next.view old = (f.view old).executed defaults
        (f.view old).erased := by
  have taken := getPipeFd_eq behind.distinct 0 f.shell.process
  have called := callOf_issue world old behind.distinct
  generalize isCall : callOf world f
    (f.shell.withProcess (getPipeFd f.shell.pipeVector 0 f.shell.process).2)
    (getPipeFd f.shell.pipeVector 0 f.shell.process).1 = call at called
  obtain ⟨ran, returns, process, pipeVector, calls⟩ := builtin_complete shared complete
    ((f.shell.withProcess (getPipeFd f.shell.pipeVector 0 f.shell.process).2).logged call)
  have runs : execute world f =
      .ok { f with shell := detach ran, isFinalArgv := false } := by
    rw [execute]
    simp only [isCall, returns]
    rfl
  have isProcess : ran.process = (f.view old).attached := by
    rw [process]
    exact congrArg Prod.snd taken
  have isVector : ran.pipeVector = f.shell.pipeVector := pipeVector
  refine ⟨_, runs, ?_, ?_⟩
  · have length : (detach ran).calls = f.shell.calls ++ [call] := calls
    simp only [length, List.length_append]
    omega
  · have issues : (detach ran).issuesFrom old =
        f.shell.issuesFrom old ++ [(f.view old).issue defaults] := by
      rw [← called, ← issuesFrom_logged enough call]
      exact congrArg (fun calls : List Call => (calls.drop old).map Call.issue) calls
    rw [Frame.view]
    simp only [issues]
    simp only [detach, Shell.withPipes, isProcess, isVector, erasePipeVector_fst]
    rfl

/-- One that has not is called all the same. -/
theorem execute_incomplete (world : World) {old : Nat}
    (behind : Behind defaults g live (f.view old) r)
    (enough : old ≤ f.shell.calls.length) (shared : Shared f.arguments)
    (missing : runs f.arguments = false) : ∃ failure, execute world f = .error failure ∧
      outlineFrom old (.error failure) = outline false
        ((f.view old).issues ++ [(f.view old).issue defaults]) f.shell.pipeVector := by
  have called := callOf_issue world old behind.distinct
  generalize isCall : callOf world f
    (f.shell.withProcess (getPipeFd f.shell.pipeVector 0 f.shell.process).2)
    (getPipeFd f.shell.pipeVector 0 f.shell.process).1 = call at called
  obtain ⟨fault, fails⟩ := builtin_incomplete shared missing
    ((f.shell.withProcess (getPipeFd f.shell.pipeVector 0 f.shell.process).2).logged call)
  have failed : execute world f = .error (fault, (f.shell.withProcess
      (getPipeFd f.shell.pipeVector 0 f.shell.process).2).logged call) := by
    rw [execute]
    simp only [isCall, fails]
    rfl
  have issues : ((f.shell.withProcess
      (getPipeFd f.shell.pipeVector 0 f.shell.process).2).logged call).issuesFrom old =
        f.shell.issuesFrom old ++ [call.issue] := issuesFrom_logged enough call
  refine ⟨_, failed, ?_⟩
  rw [outlineFrom, issues, called]
  rfl

end Execute

/-- The shell behind a state of the reference shell, between two lines. -/
def Holds (old : Nat) (s : Shell) (t : State) : Prop :=
  old ≤ s.calls.length ∧ ∃ g live, Tracks g s.process s.pipeVector live t (s.issuesFrom old)

/-- Both have failed with the same. -/
def FailsAlike (old : Nat) (failure : Fault × Shell) (t : State) : Prop :=
  outlineFrom old (.error failure) = .ofResult (.error t)

/-- The standard descriptors are defaults whatever is open besides. -/
theorem defaults_standard (live : List (Int × Object)) :
    IsDefault live defaults.input ∧ IsDefault live defaults.output ∧
      IsDefault live defaults.error :=
  ⟨.inl ⟨by decide, by decide⟩, .inl ⟨by decide, by decide⟩, .inl ⟨by decide, by decide⟩⟩

/-- The shell at the head of a pass, behind the reference shell. One pass of the shell reads one
word and executes what that completes, as the reference does, so the two go on side by side. -/
def Related (old : Nat) (f : Frame) (r : Common.Frame) : Prop :=
  f.isFinalArgv = false ∧ old ≤ f.shell.calls.length ∧
    ∃ g live, Behind defaults g live (f.view old) r

/-- An execution is one of the reference shell. -/
theorem execute_follows {world : World} {old : Nat} {f : Frame} {r : Common.Frame}
    {g : Nat → Nat} {live : List (Int × Object)} (behind : Behind defaults g live (f.view old) r)
    (enough : old ≤ f.shell.calls.length) (final : f.isFinalArgv = true) :
    (∃ next twin, execute world f = .ok next ∧ (refLoop world).run r = (refLoop world).run twin ∧
      Related old next twin) ∨
    ∃ failure t, execute world f = .error failure ∧ (refLoop world).run r = .error t ∧
      FailsAlike old failure t := by
  have shared : Shared f.arguments := by
    rw [show f.arguments = r.arguments from behind.arguments]
    exact behind.command (.inl (behind.isFinal ▸ final))
  cases complete : runs f.arguments with
  | true =>
    obtain ⟨next, executed, longer, view⟩ :=
      execute_complete world behind enough shared complete
    have parts : (live ++ []).Perm live := by simp
    obtain ⟨twin, same, behindNext⟩ := behind.executes world final complete
      (behind.erased parts).forget (View.made_erased _) behind.defaults
    rw [← view] at behindNext
    have done : next.isFinalArgv = false := congrArg View.isFinal view
    exact .inl ⟨next, twin, executed, same, done, longer, g, live, behindNext⟩
  | false =>
    obtain ⟨failure, executed, alike⟩ := execute_incomplete world behind enough shared complete
    obtain ⟨t, failed, same⟩ := behind.incomplete world final complete
    exact .inr ⟨failure, t, executed, failed, alike.trans same⟩

/-- Reading a word calls nothing. -/
theorem readWord_calls {world : World} {f next : Frame} {word : Str} {rest : List Str}
    (read : readWord world f word rest = .ok next) : next.shell.calls = f.shell.calls := by
  cases (readWord_ends world f word rest).returned read <;> rfl

/-- A pass over a word is one round of the reference shell or two: the pass executes the command
that its word completes at once, where the reference shell takes another round for it. -/
theorem pass_follows {world : World} {old : Nat} {f : Frame} {r : Common.Frame}
    (related : Related old f r) :
    (cmdLoop world).Refines (refLoop world) (Related old) (Holds old) (FailsAlike old) f r := by
  obtain ⟨reading, enough, g, live, behind⟩ := related
  cases left : f.cmds with
  | nil =>
    have leaves : round world f = .ok (.leave f.shell) := by rw [round, left]
    have empty : r.words = [] := behind.words.symm.trans left
    exact .leave leaves (Common.run_empty (behind.isFinal.symm.trans reading) empty)
      ⟨enough, g, live, behind.tracks⟩
  | cons word rest =>
    have passes : round world f = (do return .again (← pass world f word rest)) := by
      rw [round, left]
    have understood : common f.isFirstArgv (word :: rest) = true := by
      rw [← left, show f.isFirstArgv = r.isFirst from behind.isFirst,
        show f.cmds = r.words from behind.words]
      exact behind.understood
    cases read : readWord world f word rest with
    | error failure =>
      obtain ⟨fails, same⟩ := readWord_fails old understood read
      have failed : round world f = .error failure := by
        rw [passes, pass, read]
        rfl
      refine .fail failed (behind.fails reading left fails) ?_
      obtain ⟨fault, s⟩ := failure
      cases same
      exact behind.tracks.outline_error
    | ok middle =>
      obtain ⟨files, h, twin, same, behindMiddle⟩ :=
        behind.reads reading left (readWord_view old understood read)
      have longer : old ≤ middle.shell.calls.length := by
        rw [readWord_calls read]
        exact enough
      cases final : middle.isFinalArgv with
      | false =>
        have goesOn : round world f = .ok (.again middle) := by
          rw [passes, pass, read]
          simp [bind, Except.bind, pure, Except.pure, final]
        exact .again goesOn same ⟨final, longer, h, _, behindMiddle⟩
      | true =>
        have executes : round world f = (do return .again (← execute world middle)) := by
          rw [passes, pass, read]
          simp [bind, Except.bind, final]
        rcases execute_follows behindMiddle longer final with
          ⟨next, last, executed, rounds, relatedNext⟩ | ⟨failure, t, failed, ends, alike⟩
        · rw [executed] at executes
          exact .again executes (same.trans rounds) relatedNext
        · rw [failed] at executes
          exact .fail executes (same.trans ends) alike

/-- A line of the common language: the loop and the reference loop come to the same, or fail
alike. By the rule for a loop that refines another one, pass by pass. -/
theorem execCmds_follows {world : World} {old : Nat} {s : Shell} {t : State} (holds : Holds old s t)
    {line : List Str} (understood : common true line = true) :
    Parallel (Holds old) (FailsAlike old) (execCmds world s line)
      ((refLoop world).run (.initial t line)) := by
  obtain ⟨enough, g, live, tracks⟩ := holds
  have start : Related old (.initial s line) (.initial t line) :=
    ⟨rfl, enough, g, live, .initial tracks (defaults_standard live) understood⟩
  exact (cmdLoop world).run_refines (fun _ _ related => pass_follows related) start

/-- A session on the common language is one of the reference shell. -/
theorem session_follows {old : Nat} {s : Shell} {t : State} (holds : Holds old s t)
    {lines : List (Str × World)}
    (understood : ∀ line ∈ lines, common true (words line.1) = true) :
    Parallel (Holds old) (FailsAlike old) (session s lines) (Common.session t lines) := by
  rw [session, Common.session]
  refine Parallel.foldlM ?_ holds
  intro line member before twin holds
  exact execCmds_follows holds (understood line member)

/-- A shell at the start of a session: no numbered pipes, and its standard descriptors
are open. -/
structure Ready (s : Shell) : Prop where
  standard : ∀ n : Int, 0 ≤ n → n < 3 → s.process.object n ≠ none
  pipes : s.pipeVector = []

/-- The outline of a session is that of the reference shell. -/
theorem session_outline {s : Shell} (ready : Ready s) {lines : List (Str × World)}
    (understood : ∀ line ∈ lines, common true (words line.1) = true) :
    outlineFrom s.calls.length (session s lines) =
      .ofResult (Common.session .initial lines) := by
  have holds : Holds s.calls.length s .initial := by
    refine ⟨Nat.le_refl _, id, [], ?_⟩
    have issues : s.issuesFrom s.calls.length = [] := by
      rw [Shell.issuesFrom, List.drop_length, List.map_nil]
    rw [issues, ready.pipes]
    exact .initial (.standardAlone ready.standard False.elim)
  have parallel := session_follows holds understood
  generalize session s lines = ended at parallel
  generalize Common.session .initial lines = twin at parallel
  cases parallel with
  | ok holds =>
    obtain ⟨-, g, live, tracks⟩ := holds
    exact tracks.outline_ok
  | error alike => exact alike

end NetProg.Npshell
