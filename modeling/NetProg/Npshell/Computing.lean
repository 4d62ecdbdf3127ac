import Mathlib.Data.List.NodupEquivFin
import NetProg.Library.Networks
import NetProg.Npshell.Inheritance

/-!
# What a session computes

The commands of a session run as children of the shell, connected by its pipes. The standard
input of a child is the pipe that was due for it; its outputs are the pipe of its operator;
and it keeps open what it has inherited. So the children and their pipes are a network of
programs, whatever the programs are.

Where the lines are those of well-formed commands, the pipes are as the operators say. A
command that others send their output to, and that reads to the end, has worked on a mixture
of what they have said, all of which is in order. Where it is one command there is nothing to
mix: a pipeline computes the composition of its commands, for any programs that depend on
their input alone, in whatever order the processes are scheduled, and although some may be
killed for want of a reader. A child that goes on as a shell because `execvp` failed is not
such a program.
-/

namespace NetProg.Npshell

open Loops Outcomes Networks Runs

/-- The pipe whose read end an object is. -/
def pipeReadBy : Option Object → Option Nat
  | some (.readEnd made) => some made
  | _ => none

/-- The pipe whose write end an object is. -/
def pipeWrittenBy : Option Object → Option Nat
  | some (.writeEnd made) => some made
  | _ => none

/-- The descriptor of a port. -/
def descriptor : Port → Int
  | .out => 1
  | .err => 2

/-- The child that is forked in a pass of a session. -/
def childIn (heads : List (World × Frame)) (i : Nat) : Option Process :=
  heads[i]?.bind (fun head => childAt head.1 head.2)

/-- The children of a session and their pipes. -/
def network (heads : List (World × Frame)) (programs : Nat → Program UInt8) (typed : Nat → Str) :
    Network Nat UInt8 where
  program := programs
  input i := (childIn heads i).bind (fun child => pipeReadBy (child.object 0))
  typed := typed
  output i port :=
    (childIn heads i).bind (fun child => pipeWrittenBy (child.object (descriptor port)))
  Holds i made := ∃ child, childIn heads i = some child ∧ HasOpen child (.writeEnd made)

section Wired

variable {first : Process} {s : Shell} {world : World} {f : Frame} {child : Process}

/-- A pipe that a child reads was due for it. -/
theorem due_of_child_reads (keyboard : ∀ made, first.object 0 ≠ some (.readEnd made))
    (sealed : Sealed first f.shell) (forked : childAt world f = some child) {made : Nat}
    (reads : child.object 0 = some (.readEnd made)) : ∃ due ∈ dueAt world f, due.made = made := by
  obtain ⟨read, found, isChild⟩ := childAt_connected forked
  have behind := (commandAt_reads found).1
  have after : Sealed first read.shell := behind ▸ (sealed.behindWord world).1
  rcases getPipeFd_fst read.shell.pipeVector 0 read.shell.process with
    ⟨-, none⟩ | ⟨record, member, zero, -⟩
  · rw [isChild, object_connect (plain_command sealed found), if_pos rfl, none, Option.or_self,
      object_getPipeFd] at reads
    split at reads
    · cases reads
    · rw [after.standard 0 (by decide)] at reads
      exact absurd reads (keyboard made)
  · have isDue : record ∈ dueAt world f := by
      rw [dueAt_command found]
      exact List.mem_filter.mpr ⟨member, by simpa using zero⟩
    have here := child_reads sealed forked isDue
    rw [reads] at here
    exact ⟨record, isDue, (Object.readEnd.inj (Option.some.inj here)).symm⟩

theorem pipeReadBy_iff {o : Option Object} {made : Nat} :
    pipeReadBy o = some made ↔ o = some (.readEnd made) := by
  cases o with
  | none => simp [pipeReadBy]
  | some o => cases o <;> simp [pipeReadBy]

theorem pipeWrittenBy_iff {o : Option Object} {made : Nat} :
    pipeWrittenBy o = some made ↔ o = some (.writeEnd made) := by
  cases o with
  | none => simp [pipeWrittenBy]
  | some o => cases o <;> simp [pipeWrittenBy]

theorem network_input {passes : List (World × Frame)} {programs : Nat → Program UInt8}
    {typed : Nat → Str} {i made : Nat} : (network passes programs typed).input i = some made ↔
      ∃ child, childIn passes i = some child ∧ child.object 0 = some (.readEnd made) := by
  simp only [network, Option.bind_eq_some_iff, pipeReadBy_iff]

/-- The output of a command in the network of a session: a child was forked for it, and has a
write end under the number of the port. -/
theorem network_output {passes : List (World × Frame)} {programs : Nat → Program UInt8}
    {typed : Nat → Str} {i made : Nat} {port : Port} :
    (network passes programs typed).output i port = some made ↔
      ∃ child, childIn passes i = some child ∧
        child.object (descriptor port) = some (.writeEnd made) := by
  simp only [network, Option.bind_eq_some_iff, pipeWrittenBy_iff]

/-- The pipes of some commands of a session are those of a network: a command that writes to one
keeps it open, one command reads it, and who keeps it open was forked before that one.

A record that was due for one command is in no later table, and a pipe has one record; so there is
one reader. Whoever has the write end was forked while the record was in the table. -/
theorem Sealed.wired (terminal : Terminal first)
    (keyboard : ∀ made, first.object 0 ≠ some (.readEnd made)) (sealed : Sealed first s)
    (lines : List (Str × World)) {chosen : List (World × Frame)}
    (among : chosen.Sublist (heads lines s))
    (programs : Nat → Program UInt8) (typed : Nat → Str) : (network chosen programs typed).Wired := by
  obtain ⟨each, -, -⟩ := sealed.lines lines
  have inputs := sealed.inputsEnd terminal lines
  have closed := (sealed.kept.lines lines).closed
  obtain ⟨place, isPlace⟩ := List.sublist_iff_exists_orderEmbedding_getElem?_eq.mp among
  -- who reads a pipe is the command that it was due for
  have reader {j made : Nat} (isInput : (network chosen programs typed).input j = some made) :
      ∃ head, (heads lines s)[place j]? = some head ∧
        ∃ due ∈ dueAt head.1 head.2, due.made = made := by
    obtain ⟨child, forked, reads⟩ := network_input.mp isInput
    obtain ⟨head, isHead, isChild⟩ := Option.bind_eq_some_iff.mp forked
    rw [isPlace] at isHead
    exact ⟨head, isHead, due_of_child_reads keyboard (each head (List.mem_of_getElem? isHead)).1
      isChild reads⟩
  have notBefore {i j made : Nat} (first : (network chosen programs typed).input i = some made)
      (second : (network chosen programs typed).input j = some made) : ¬ place i < place j := by
    intro less
    obtain ⟨head, isHead, due, isDue, rfl⟩ := reader first
    obtain ⟨later, isLater, other, alsoDue, same⟩ := reader second
    obtain ⟨read, found⟩ := command_of_due alsoDue
    rw [dueAt_command found] at alsoDue
    obtain ⟨inI, rfl⟩ := List.getElem?_eq_some_iff.mp isHead
    obtain ⟨inJ, rfl⟩ := List.getElem?_eq_some_iff.mp isLater
    have gone := List.pairwise_iff_getElem.mp closed _ _ inI inJ less due isDue
    have inTable : other ∈ (afterWord (heads lines s)[place j].1
        (heads lines s)[place j].2).pipeVector := by
      rw [(commandAt_reads found).1]
      exact (List.mem_filter.mp alsoDue).1
    exact (each _ (List.getElem_mem inJ)).1.gone gone other inTable same
  constructor
  · intro i port made isOutput
    obtain ⟨child, forked, writes⟩ := network_output.mp isOutput
    exact ⟨child, forked, descriptor port, writes⟩
  · intro i j made first second
    apply place.injective
    have := notBefore first second
    have := notBefore second first
    omega
  · rintro i j made isInput ⟨child, forked, holds⟩
    obtain ⟨readingHead, isReader, due, isDue, rfl⟩ := reader isInput
    obtain ⟨head, isHead, isChild⟩ := Option.bind_eq_some_iff.mp forked
    rw [isPlace] at isHead
    have before := (inputs.holders _ _ head readingHead isHead isReader due isDue child isChild).mp
      holds
    exact place.lt_iff_lt.mp before.1

end Wired

/-! ## The calls of the children -/

/-- The call of the command that a pass executes. -/
def callAt (head : World × Frame) : Option Call :=
  (commandAt head.1 head.2).map fun read =>
    let (inFd, p) := getPipeFd read.shell.pipeVector 0 read.shell.process
    callOf head.1 read (read.shell.withProcess p) inFd

/-- The passes of a session that execute a command: the first of them executes the first
command, and so on. -/
def commandHeads (lines : List (Str × World)) (s : Shell) : List (World × Frame) :=
  (heads lines s).filter (fun head => (commandAt head.1 head.2).isSome)

section Calls

variable {world : World} {f : Frame}

/-- The built-in branches log nothing. -/
theorem builtin_calls (s : Shell) (arguments : List Str) : Ends (builtin s arguments)
    (fun ran => ran.calls = s.calls) (fun failure => failure.2 = s) := by
  have argument (k : Nat) :
      Ends (arg s arguments k) (fun _ => True) (fun failure => failure.2 = s) := by
    rw [arg]
    split
    · exact trivial
    · rfl
  rw [builtin]
  apply (argument 0).bind
  intro prog _
  split
  · apply (argument 1).bind
    intro var _
    rw [ends_pure, Shell.printEnv]
    split <;> rfl
  split
  · apply (argument 1).bind
    intro var _
    apply (argument 2).bind
    intro val _
    exact rfl
  split
  · rfl
  · exact rfl

/-- Executing a command logs its call, also where that fails. -/
theorem execute_calls (world : World) (f : Frame) : Ends (execute world f)
    (fun next => next.shell.calls = f.shell.calls ++ [callOf world f (f.shell.withProcess
      (getPipeFd f.shell.pipeVector 0 f.shell.process).2)
      (getPipeFd f.shell.pipeVector 0 f.shell.process).1])
    (fun failure => failure.2.calls = f.shell.calls ++ [callOf world f (f.shell.withProcess
      (getPipeFd f.shell.pipeVector 0 f.shell.process).2)
      (getPipeFd f.shell.pipeVector 0 f.shell.process).1]) := by
  rw [execute]
  apply Ends.bind _ ((builtin_calls _ f.arguments).mono (fun _ same => same) ?_)
  · intro ran same
    exact same
  · rintro failure same
    rw [same]
    rfl

/-- One round logs the call of the command that it executes, or nothing. The call is logged before
anything of the command can fail. -/
theorem round_calls (world : World) (f : Frame) : Ends ((cmdLoop world).body f)
    (Round.Holds (fun next => next.shell.calls = f.shell.calls ++ (callAt (world, f)).toList)
      (fun s => s.calls = f.shell.calls ++ (callAt (world, f)).toList))
    (fun failure => failure.2.calls = f.shell.calls ++ (callAt (world, f)).toList) := by
  have body : (cmdLoop world).body f = Npshell.round world f := rfl
  rw [body, Npshell.round, callAt, commandAt]
  cases f.cmds with
  | nil => exact (List.append_nil _).symm
  | cons word rest =>
    have reads := readWord_ends world f word rest
    simp only [pass]
    cases isRead : readWord world f word rest with
    | error failure =>
      rw [isRead] at reads
      have same : failure.2 = f.shell := reads
      simp [bind, Except.bind, same]
    | ok read =>
      have same : read.shell.calls = f.shell.calls := by
        cases reads.returned isRead <;> rfl
      cases final : read.isFinalArgv with
      | false => simp [bind, Except.bind, final, same, pure, Except.pure]
      | true =>
        have executes := execute_calls world read
        rw [same] at executes
        simp only [bind, Except.bind, final, if_true, Option.map_some, Option.toList_some]
        cases executed : execute world read with
        | error failure =>
          rw [executed] at executes
          exact executes
        | ok next =>
          rw [executed] at executes
          exact executes

/-- A line logs the calls of its commands. -/
theorem execLine_calls (s : Shell) (line : Str × World) : Ends (execLine s line)
    (fun t => t.calls = s.calls ++ (lineHeads line s).filterMap callAt)
    (fun failure => failure.2.calls = s.calls ++ (lineHeads line s).filterMap callAt) := by
  rw [execLine, lineHeads]
  by_cases empty : line.1 = []
  · simp [empty, Shell.write]
  · rw [if_neg empty, if_neg empty, List.filterMap_map, List.filterMap_eq_flatMap_toList]
    have runs := (cmdLoop line.2).run_traces (fun f => (callAt (line.2, f)).toList)
      (fun log f => f.shell.calls = s.calls ++ log) (fun _ => True)
      (fun log t => t.calls = s.calls ++ log) (fun log failure => failure.2.calls = s.calls ++ log)
      ?_ [] (Frame.initial (s.write (str "% ")) (words line.1)) ?_ (fun _ _ => trivial)
    · simpa [execCmds] using runs
    · intro log f held _
      have round := round_calls line.2 f
      rw [held] at round
      simpa [List.append_assoc] using round
    · simp [Frame.initial, Shell.write]

/-- So do the lines of a session. -/
theorem lines_calls (lines : List (Str × World)) (s : Shell) : Ends (lines.foldlM execLine s)
    (fun t => t.calls = s.calls ++ (heads lines s).filterMap callAt)
    (fun failure => failure.2.calls = s.calls ++ (heads lines s).filterMap callAt) := by
  induction lines generalizing s with
  | nil => exact (List.append_nil _).symm
  | cons line lines ih =>
    have here := execLine_calls s line
    rw [List.foldlM_cons, heads]
    cases executed : execLine s line with
    | error failure =>
      rw [executed] at here
      simpa [bind, Except.bind] using here
    | ok t =>
      rw [executed] at here
      have calls : t.calls = s.calls ++ (lineHeads line s).filterMap callAt := here
      have later := ih t
      rw [calls] at later
      simpa [bind, Except.bind, List.append_assoc] using later

/-- The calls of some passes are those of the ones that execute a command, in order. -/
theorem getElem?_calls (passes : List (World × Frame)) (i : Nat) :
    (passes.filterMap callAt)[i]? =
      (passes.filter (fun head => (commandAt head.1 head.2).isSome))[i]?.bind callAt := by
  induction passes generalizing i with
  | nil => rfl
  | cons head passes ih =>
    cases found : commandAt head.1 head.2 with
    | none => simpa [callAt, found] using ih i
    | some read =>
      cases i with
      | zero => simp [callAt, found]
      | succ i => simpa [callAt, found] using ih i

end Calls

/-! ## The files of redirections -/

/-- The calls of commands that write to a file are not those of commands that write to a
pipe. -/
def FilesApart (commands : List Command) (calls : List Call) : Prop :=
  ∀ (i : Nat) (call : Call) (c : Command) (name : Str), calls[i]? = some call →
    commands[i]? = some c → c.ending = .file name →
    ∀ made, call.outObject ≠ some (.writeEnd made)

section Files

variable {world : World}

/-- What a redirection opens is a file or nothing, also behind the closes of the pipes that
are due. -/
theorem opened_apart (opens : Bool) (p : Process) (pipeVector : List PipeFd) (made : Nat) :
    (getPipeFd pipeVector 0 (openAs opens p).2).2.object (openAs opens p).1 ≠
      some (.writeEnd made) := by
  rw [object_getPipeFd]
  split
  · exact fun impossible => nomatch impossible
  · cases opens with
    | false =>
      have none : p.object (-1) = none := object_negative p (by decide)
      simp [openAs, none]
    | true =>
      have isFile : p.openFile.2.object p.openFile.1 = some (.file p.made) := by
        simp only [Process.openFile, Process.object_put_nat, if_pos]
      simp [openAs, isFile]

/-- One command of a line: if it is to write to a file, its ending has prepared one, which is no
end of a pipe. All other calls are as they were. -/
theorem FilesApart.execute {all : List Command} {k : Nat} {c : Command} {t after : Shell}
    {left : Nat} {rest : List Str} {outFd errFd : Int} (found : all[k]? = some c)
    (length : t.calls.length = k) (apart : FilesApart all t.calls)
    (prepares : prepare world left t c.ending = .ok (after, outFd, errFd)) {g : Frame}
    (ready : g.Ready c rest after outFd errFd) : Ends (execute world g)
      (fun done => done.shell.calls.length = k + 1 ∧ FilesApart all done.shell.calls)
      (fun failure => FilesApart all failure.2.calls) := by
  have calls : g.shell.calls = t.calls := by
    rw [ready.shell]
    cases ending : c.ending with
    | none =>
      rw [ending] at prepares
      cases prepares
      rfl
    | file name =>
      rw [ending] at prepares
      cases prepares
      rfl
    | pipe isError digits =>
      rw [ending, Npshell.prepare] at prepares
      split at prepares
      · cases prepares
        rfl
      · cases prepares
  have logged : FilesApart all (t.calls ++ [callOf world g (g.shell.withProcess
      (getPipeFd g.shell.pipeVector 0 g.shell.process).2)
      (getPipeFd g.shell.pipeVector 0 g.shell.process).1]) := by
    intro i call d name isCall isCommand isFile made
    rw [List.getElem?_append] at isCall
    split at isCall
    · exact apart i call d name isCall isCommand isFile made
    · have here : i = k := by
        have below : i - t.calls.length < 1 := (List.getElem?_eq_some_iff.mp isCall).1
        omega
      subst here
      obtain rfl : c = d := Option.some.inj (found.symm.trans isCommand)
      rw [length, Nat.sub_self, List.getElem?_cons_zero] at isCall
      obtain rfl := Option.some.inj isCall
      rw [isFile] at prepares
      cases prepares
      simp only [callOf, Shell.withProcess, ready.outFd, ready.shell]
      exact opened_apart _ _ _ _
  have executes := execute_calls world g
  rw [calls] at executes
  refine executes.mono ?_ ?_
  · intro done same
    rw [same]
    exact ⟨by simp [length], logged⟩
  · intro failure same
    rw [same]
    exact logged

/-- The commands of a line. -/
theorem FilesApart.line {all : List Command} {line : Str} {cs rest : List Command}
    (parses : Parses line cs) {s : Shell} (position : all.drop s.calls.length = cs ++ rest)
    (apart : FilesApart all s.calls) : Ends (execLine s (line, world))
      (fun t => t.calls.length = s.calls.length + cs.length ∧ FilesApart all t.calls)
      (fun failure => FilesApart all failure.2.calls) := by
  by_cases empty : line = []
  · have none : cs = [] := by
      have noWords := parses.words
      rw [empty, show words [] = [] from rfl] at noWords
      cases cs with
      | nil => rfl
      | cons c later => cases noWords
    simp only [execLine, empty, if_true]
    rw [none]
    exact ⟨rfl, apart⟩
  · simp only [execLine, empty, if_false, execCmds, parses.words]
    have ends := commands_end world
      (fun cmds t => t.calls.length + cmds.length = s.calls.length + cs.length ∧
        all.drop t.calls.length = cmds ++ rest ∧ FilesApart all t.calls)
      (fun failure => FilesApart all failure.2.calls) ?_ ?_ cs parses.wellFormed parses.ended
      (f := Frame.initial (s.write (str "% ")) (cs.flatMap Command.words))
      ⟨rfl, rfl, .inl rfl, rfl⟩ ⟨rfl, position, apart⟩
    · refine ends.mono ?_ (fun _ failed => failed)
      rintro t ⟨length, -, apart⟩
      exact ⟨length, apart⟩
    · rintro c later t left e ⟨-, -, apart⟩ failed
      obtain ⟨rfl, -⟩ := prepare_fails failed
      exact apart
    · rintro c later t words after outFd errFd ⟨length, here, apart⟩ - prepares g ready
      have found : all[t.calls.length]? = some c := by
        have head := congrArg List.head? here
        simpa [List.head?_drop] using head
      refine (apart.execute found rfl prepares ready).mono ?_ (fun _ failed => failed)
      rintro done ⟨further, apart⟩
      refine ⟨?_, ?_, apart⟩
      · simp only [List.length_cons] at length
        omega
      · have tail := congrArg List.tail here
        rw [further]
        simpa [List.tail_drop] using tail

/-- The lines of a session. -/
theorem FilesApart.lines {all : List Command} {lines : List (Str × World)}
    {commands : List (List Command)}
    (parsed : List.Forall₂ (fun line cs => Parses line.1 cs) lines commands) {s : Shell}
    (position : all.drop s.calls.length = commands.flatten) (apart : FilesApart all s.calls) :
    Ends (lines.foldlM execLine s) (fun t => FilesApart all t.calls)
      (fun failure => FilesApart all failure.2.calls) := by
  induction parsed generalizing s with
  | nil => exact apart
  | @cons line cs lines commands parses _ ih =>
    rw [List.foldlM_cons]
    refine Ends.bind _ (FilesApart.line parses position apart) ?_
    rintro t ⟨length, apart⟩
    refine ih ?_ apart
    rw [length, ← List.drop_drop, position, List.flatten_cons, List.drop_left]

end Files

/-! ## The pipes as they are written -/

/-- The descriptors of a child are those of a call, over what the shell had on the standard ones,
where there are no pipe ends that a program could read or keep open. -/
structure Connected (call : Call) (child p : Process) : Prop where
  input : child.object 0 = call.inObject.or (p.object 0)
  output : child.object 1 = call.outObject.or (p.object 1)
  errors : child.object 2 = (p.object call.errFd).or (p.object 2)
  inObject : call.inObject = p.object call.inFd
  outObject : call.outObject = p.object call.outFd
  keyboard : ∀ made, p.object 0 ≠ some (.readEnd made)
  terminal : ∀ n : Int, n < 3 → ∀ made, p.object n ≠ some (.writeEnd made)

section Written

variable {first : Process} {world : World} {f : Frame} {child : Process}

/-- A child is connected as its call says. -/
theorem child_connected (terminal : Terminal first)
    (keyboard : ∀ made, first.object 0 ≠ some (.readEnd made)) (sealed : Sealed first f.shell)
    (forked : childAt world f = some child) :
    ∃ call p, callAt (world, f) = some call ∧ Connected call child p := by
  obtain ⟨read, found, isChild⟩ := childAt_connected forked
  have behind := (commandAt_reads found).1
  have after : Sealed first read.shell := behind ▸ (sealed.behindWord world).1
  have standard {n : Int} {o : Object} (low : n < 3)
      (opened : (getPipeFd read.shell.pipeVector 0 read.shell.process).2.object n = some o) :
      first.object n = some o := by
    rw [object_getPipeFd] at opened
    split at opened
    · cases opened
    · rwa [after.standard n low] at opened
  refine ⟨callOf world read (read.shell.withProcess
    (getPipeFd read.shell.pipeVector 0 read.shell.process).2)
    (getPipeFd read.shell.pipeVector 0 read.shell.process).1,
    (getPipeFd read.shell.pipeVector 0 read.shell.process).2, ?_, ?_⟩
  · simp [callAt, found]
  · have plain := plain_command sealed found
    subst isChild
    constructor
    · rw [object_connect plain, if_pos rfl]
      rfl
    · rw [object_connect plain, if_neg (by decide), if_pos rfl]
      rfl
    · rw [object_connect plain, if_neg (by decide), if_neg (by decide), if_pos rfl]
      rfl
    · rfl
    · rfl
    · exact fun made opened => keyboard made (standard (by decide) opened)
    · exact fun n low made opened => terminal n low made (standard low opened)

/-- A command is forked. -/
def Forked (passes : List (World × Frame)) (i : Nat) : Prop := (childIn passes i).isSome = true

/-- The pipes of a network are those of the operators: the targets of the first so many commands,
among which are those that are forked, have a pipe each. What a session computes follows from this
and from who holds which ends. -/
structure AsWritten (commands : List Command) (net : Network Nat UInt8) (forked : Nat → Prop)
    (upto : Nat) (pipeOf : Nat → Nat) : Prop where
  known : ∀ i, forked i → i < upto
  input : ∀ j made, net.input j = some made ↔
    forked j ∧ TargetedBefore commands j j ∧ made = pipeOf j
  output : ∀ i made, net.output i .out = some made ↔
    forked i ∧ ∃ j, Targets commands i j ∧ made = pipeOf j
  errors : ∀ i made, net.output i .err = some made ↔
    net.output i .out = some made ∧ commands[i]?.any (·.ending.isError) = true
  apart : ∀ j k, TargetedBefore commands upto j → TargetedBefore commands upto k →
    pipeOf j = pipeOf k → j = k

section Routed

variable {commands : List Command} {pipeOf : Nat → Nat} {i : Nat} {c : Command} {call : Call}
  {child p : Process} {made : Nat}

/-- A command reads the pipe that was made for it, if there is one. -/
theorem Connected.input_iff (connected : Connected call child p)
    (routed : Routed commands pipeOf i c call) : child.object 0 = some (.readEnd made) ↔
      TargetedBefore commands i i ∧ made = pipeOf i := by
  rw [connected.input]
  by_cases targeted : TargetedBefore commands i i
  · rw [routed.input targeted, Option.some_or]
    simp [targeted, eq_comm]
  · rw [connected.inObject, routed.terminal targeted, Option.or_self]
    simp [targeted, connected.keyboard]

/-- Its output goes to the pipe of its target. -/
theorem Connected.output_iff (connected : Connected call child p)
    (routed : Routed commands pipeOf i c call)
    (file : ∀ name, c.ending = .file name → ∀ made, call.outObject ≠ some (.writeEnd made)) :
    child.object 1 = some (.writeEnd made) ↔
      ∃ n, c.ending.target = some n ∧ made = pipeOf (i + n) := by
  have terminal := connected.terminal 1 (by decide)
  rw [connected.output]
  cases ending : c.ending with
  | none =>
    rw [connected.outObject, routed.standard ending, Option.or_self]
    simp [Ending.target, terminal]
  | file name =>
    have notPipe := file name ending
    cases opened : call.outObject with
    | none => simp [Ending.target, terminal]
    | some o =>
      rw [opened] at notPipe
      simpa [Ending.target] using notPipe made
  | pipe isError digits =>
    have isOutput := routed.output (numberOf digits) (by rw [ending]; rfl)
    rw [isOutput, Option.some_or]
    simp [Ending.target, eq_comm]

/-- Behind `!` its errors go there as well. -/
theorem Connected.errors_iff (connected : Connected call child p)
    (routed : Routed commands pipeOf i c call) : child.object 2 = some (.writeEnd made) ↔
      child.object 1 = some (.writeEnd made) ∧ c.ending.isError = true := by
  have terminal := connected.terminal
  rw [connected.errors, connected.output]
  cases isError : c.ending.isError with
  | false =>
    rw [routed.standardErrors isError, Option.or_self]
    simp [terminal 2 (by decide)]
  | true =>
    obtain ⟨n, target⟩ : ∃ n, c.ending.target = some n := by
      cases ending : c.ending with
      | none => simp [ending, Ending.isError] at isError
      | file name => simp [ending, Ending.isError] at isError
      | pipe isError digits => exact ⟨numberOf digits, rfl⟩
    have isOutput := routed.output n target
    rw [routed.errors.mpr isError, ← connected.outObject, isOutput]
    simp

end Routed

/-- The commands of a session are connected as their operators say. The ends that a child has are
those of its call, and the routing tells for each call which pipes these are; a file that a
command writes to is none of them. -/
theorem network_asWritten {s : Shell} (terminal : Terminal first)
    (keyboard : ∀ made, first.object 0 ≠ some (.readEnd made)) (sealed : Sealed first s)
    (lines : List (Str × World)) {commands : List Command} {pipeOf : Nat → Nat}
    (routes : Routes commands pipeOf ((heads lines s).filterMap callAt))
    (files : FilesApart commands ((heads lines s).filterMap callAt))
    (programs : Nat → Program UInt8) (typed : Nat → Str) :
    AsWritten commands (network (commandHeads lines s) programs typed)
      (Forked (commandHeads lines s)) ((heads lines s).filterMap callAt).length pipeOf := by
  obtain ⟨each, -, -⟩ := sealed.lines lines
  have known {i : Nat} {child : Process} (forked : childIn (commandHeads lines s) i = some child) :
      ∃ call p c, ((heads lines s).filterMap callAt)[i]? = some call ∧ commands[i]? = some c ∧
        Routed commands pipeOf i c call ∧ Connected call child p := by
    obtain ⟨head, isHead, isChild⟩ := Option.bind_eq_some_iff.mp forked
    have member := (List.mem_filter.mp (List.mem_of_getElem? isHead)).1
    obtain ⟨call, p, isCall, connected⟩ :=
      child_connected terminal keyboard (each head member).1 isChild
    have logged : ((heads lines s).filterMap callAt)[i]? = some call := by
      rw [getElem?_calls]
      exact Option.bind_eq_some_iff.mpr ⟨head, isHead, isCall⟩
    obtain ⟨c, isCommand, routed⟩ := routes.routed i call logged
    exact ⟨call, p, c, logged, isCommand, routed, connected⟩
  have target {i : Nat} {c : Command} (isCommand : commands[i]? = some c) (made : Nat) :
      (∃ n, c.ending.target = some n ∧ made = pipeOf (i + n)) ↔
        ∃ j, Targets commands i j ∧ made = pipeOf j := by
    constructor
    · rintro ⟨n, number, same⟩
      exact ⟨i + n, ⟨c, n, isCommand, number, rfl⟩, same⟩
    · rintro ⟨j, ⟨d, n, isAlso, number, rfl⟩, same⟩
      obtain rfl : c = d := Option.some.inj (isCommand.symm.trans isAlso)
      exact ⟨n, number, same⟩
  constructor
  · intro i forked
    obtain ⟨child, isChild⟩ := Option.isSome_iff_exists.mp forked
    obtain ⟨call, _, _, logged, -⟩ := known isChild
    exact (List.getElem?_eq_some_iff.mp logged).1
  · intro j made
    rw [network_input]
    constructor
    · rintro ⟨child, forked, reads⟩
      obtain ⟨call, p, c, -, -, routed, connected⟩ := known forked
      exact ⟨by rw [Forked, forked]; rfl, (connected.input_iff routed).mp reads⟩
    · rintro ⟨forked, targeted⟩
      obtain ⟨child, isChild⟩ := Option.isSome_iff_exists.mp forked
      obtain ⟨call, p, c, -, -, routed, connected⟩ := known isChild
      exact ⟨child, isChild, (connected.input_iff routed).mpr targeted⟩
  · intro i made
    rw [network_output]
    constructor
    · rintro ⟨child, forked, writes⟩
      obtain ⟨call, p, c, logged, isCommand, routed, connected⟩ := known forked
      have written := (connected.output_iff routed
        (fun name isFile => files i call c name logged isCommand isFile)).mp writes
      exact ⟨by rw [Forked, forked]; rfl, (target isCommand made).mp written⟩
    · rintro ⟨forked, targets⟩
      obtain ⟨child, isChild⟩ := Option.isSome_iff_exists.mp forked
      obtain ⟨call, p, c, logged, isCommand, routed, connected⟩ := known isChild
      exact ⟨child, isChild, (connected.output_iff routed
        (fun name isFile => files i call c name logged isCommand isFile)).mpr
        ((target isCommand made).mpr targets)⟩
  · intro i made
    rw [network_output, network_output]
    constructor
    · rintro ⟨child, forked, writes⟩
      obtain ⟨call, p, c, -, isCommand, routed, connected⟩ := known forked
      obtain ⟨toPipe, isError⟩ := (connected.errors_iff routed).mp writes
      exact ⟨⟨child, forked, toPipe⟩, by simpa [isCommand] using isError⟩
    · rintro ⟨⟨child, forked, toPipe⟩, isError⟩
      obtain ⟨call, p, c, -, isCommand, routed, connected⟩ := known forked
      exact ⟨child, forked, (connected.errors_iff routed).mpr
        ⟨toPipe, by simpa [isCommand] using isError⟩⟩
  · exact routes.apart

end Written

/-! ## What is computed -/

/-- One command sends its output to another, and nobody else does. -/
structure Pipes (commands : List Command) (i j : Nat) : Prop where
  targets : Targets commands i j
  alone : ∀ other, Targets commands other j → other = i

/-- What a command passes on through its pipe: its output, and behind `!` its errors among
it. -/
def passedOn (commands : List Command) (i : Nat) (items : List (Port × UInt8)) : Str :=
  (items.filter (fun item => item.1 = .out ∨ commands[i]?.any (·.ending.isError) = true)).map
    Prod.snd

/-- What the last of some commands says, when each reads what the one before it passes on. -/
def composed (commands : List Command) (programs : Nat → Program UInt8) :
    Nat → List (Port × UInt8) → List Nat → List (Port × UInt8)
  | _, items, [] => items
  | i, items, j :: rest =>
    composed commands programs j ((programs j).utters (passedOn commands i items) true) rest

/-- What the commands of a session have computed, whatever programs they are and in whatever order
these took their steps: single commands first, then pipelines of commands connected one to one. -/
structure Computes (commands : List Command) (passes : List (World × Frame)) : Prop where
  /-- A command that has nothing to read from others has worked on the text it found. -/
  alone : ∀ programs typed events s,
    Run (network passes programs typed).system always events s →
    ∀ j, ¬ TargetedBefore commands j j → (programs j).Filter →
      s.ended j = true → s.killed j = false → s.given j = (programs j).utters (typed j) true
  /-- One that has, has worked on a mixture of all that those have passed on, who have ended. -/
  mixes : ∀ programs typed events s,
    Run (network passes programs typed).system always events s →
    ∀ j, Forked passes j → TargetedBefore commands j j → (programs j).Filter →
      s.ended j = true → s.killed j = false →
      ∃ entries : List (Nat × UInt8), s.given j = (programs j).utters (entries.map Prod.snd) true ∧
        (∀ entry ∈ entries, Forked passes entry.1 ∧ Targets commands entry.1 j) ∧
        ∀ i, Forked passes i → Targets commands i j → s.ended i = true ∧
          (entries.filter (fun entry => entry.1 = i)).map Prod.snd =
            passedOn commands i (s.given i)
  /-- Commands that are connected one to one compute the composition. -/
  composes : ∀ programs typed events s,
    Run (network passes programs typed).system always events s →
    ∀ i rest, List.IsChain (Pipes commands) (i :: rest) → (∀ j ∈ i :: rest, Forked passes j) →
      (∀ j ∈ rest, (programs j).Filter) →
      s.ended ((i :: rest).getLast (List.cons_ne_nil _ _)) = true →
      s.killed ((i :: rest).getLast (List.cons_ne_nil _ _)) = false →
      (∀ j ∈ i :: rest, s.ended j = true ∧ s.killed j = false) ∧
        s.given ((i :: rest).getLast (List.cons_ne_nil _ _)) =
          composed commands programs i (s.given i) rest

section Computes

variable {commands : List Command} {net : Network Nat UInt8} {forked : Nat → Prop}
  {upto : Nat} {pipeOf : Nat → Nat} {i j : Nat}

/-- What a command has written to the pipe of its target is what it passes on. -/
theorem AsWritten.into (written : AsWritten commands net forked upto pipeOf) (isForked : forked i)
    (targets : Targets commands i j) (items : List (Port × UInt8)) :
    net.into i (pipeOf j) items = passedOn commands i items := by
  have output : net.output i .out = some (pipeOf j) :=
    (written.output i _).mpr ⟨isForked, j, targets, rfl⟩
  have goes (port : Port) : net.output i port = some (pipeOf j) ↔
      port = .out ∨ commands[i]?.any (·.ending.isError) = true := by
    cases port with
    | out => simp [output]
    | err =>
      rw [written.errors]
      simp [output]
  simp only [Network.into, passedOn, goes]

/-- Commands that are connected one to one are linked. -/
theorem AsWritten.linked (written : AsWritten commands net forked upto pipeOf)
    (wellFormed : ∀ c ∈ commands, c.WellFormed) (isForked : forked i) (readerForked : forked j)
    (pipes : Pipes commands i j) : net.Linked i j (pipeOf j) := by
  have output : net.output i .out = some (pipeOf j) :=
    (written.output i _).mpr ⟨isForked, j, pipes.targets, rfl⟩
  constructor
  · exact output
  · refine (written.input j _).mpr ⟨readerForked, ⟨i, ?_, pipes.targets⟩, rfl⟩
    obtain ⟨c, n, isCommand, number, same⟩ := pipes.targets
    have positive := target_positive (wellFormed c (List.mem_of_getElem? isCommand)) number
    omega
  · intro other port goes
    have toPipe : net.output other .out = some (pipeOf j) := by
      cases port with
      | out => exact goes
      | err => exact ((written.errors other _).mp goes).1
    obtain ⟨alsoForked, k, targets, same⟩ := (written.output other _).mp toPipe
    obtain rfl := written.apart j k ⟨i, written.known i isForked, pipes.targets⟩
      ⟨other, written.known other alsoForked, targets⟩ same
    exact pipes.alone other targets
  · intro port other goes
    cases port with
    | out => exact Option.some.inj (goes.symm.trans output)
    | err => exact Option.some.inj (((written.errors i _).mp goes).1.symm.trans output)

/-- What comes out of a pipeline of commands that were all forked: the composition of their
programs, for any items that go into the first one. By induction along the chain of the pipe
operators. -/
theorem AsWritten.flow (written : AsWritten commands net forked upto pipeOf) {rest : List Nat}
    (chain : List.IsChain (Pipes commands) (i :: rest)) (allForked : ∀ j ∈ i :: rest, forked j)
    (items : List (Port × UInt8)) :
    net.flow i items rest = composed commands net.program i items rest := by
  induction rest generalizing i items with
  | nil => rfl
  | cons j rest ih =>
    obtain ⟨pipes, chain⟩ := List.isChain_cons_cons.mp chain
    have isForked := allForked i List.mem_cons_self
    have passed : net.passed i items = passedOn commands i items := by
      rw [← written.into isForked pipes.targets, Network.passed, Network.into,
        (written.output i _).mpr ⟨isForked, j, pipes.targets, rfl⟩]
    rw [Network.flow, passed, composed]
    exact ih chain (fun k member => allForked k (List.mem_cons_of_mem _ member)) _

/-- A network that is as the commands are written computes what they say. A command reads what
those that target it have passed on, since no other one has its output there; and from an order in
which every command was read to its end, that comes out whole. -/
theorem AsWritten.computes {passes : List (World × Frame)}
    (wellFormed : ∀ c ∈ commands, c.WellFormed)
    (wired : ∀ programs typed, (network passes programs typed).Wired)
    (written : ∀ programs typed,
      AsWritten commands (network passes programs typed) (Forked passes) upto pipeOf) :
    Computes commands passes where
  alone programs typed events s run j untargeted isFilter ended notKilled := by
    have none : (network passes programs typed).input j = none := by
      refine Option.eq_none_iff_forall_ne_some.mpr (fun made reads => ?_)
      exact untargeted (((written programs typed).input j made).mp reads).2.1
    obtain ⟨-, given⟩ := (Network.run_sound (wired programs typed) run).filtered isFilter ended
      notKilled
    rw [given, Network.source, none]
    rfl
  mixes programs typed events s run j isForked targeted isFilter ended notKilled := by
    have written := written programs typed
    have sound := Network.run_sound (wired programs typed) run
    have input := (written.input j _).mpr ⟨isForked, targeted, rfl⟩
    obtain ⟨seen, given⟩ := sound.filtered isFilter ended notKilled
    refine ⟨s.content (pipeOf j), ?_, ?_, ?_⟩
    · rw [given, Network.source, input]
      rfl
    · intro entry member
      obtain ⟨port, goes⟩ := sound.writer member
      have toPipe : (network passes programs typed).output entry.1 .out = some (pipeOf j) := by
        cases port with
        | out => exact goes
        | err => exact ((written.errors _ _).mp goes).1
      obtain ⟨writerForked, k, targets, same⟩ := (written.output _ _).mp toPipe
      have before := targeted.mono (Nat.le_of_lt (written.known j isForked))
      obtain rfl := written.apart j k before
        ⟨entry.1, written.known _ writerForked, targets⟩ same
      exact ⟨writerForked, targets⟩
    · intro i writerForked targets
      have output := (written.output i _).mpr ⟨writerForked, j, targets, rfl⟩
      refine ⟨(sound.atEnd j seen).2 _ input i ((wired programs typed).own i .out _ output), ?_⟩
      rw [sound.content, written.into writerForked targets]
  composes programs typed events s run i rest chain allForked filters ended notKilled := by
    have written := written programs typed
    have linked : List.IsChain
        (fun i j => ∃ made, (network passes programs typed).Linked i j made) (i :: rest) :=
      chain.imp_of_mem_imp (fun i j isFirst isSecond pipes =>
        ⟨_, written.linked wellFormed (allForked i isFirst) (allForked j isSecond) pipes⟩)
    have flow := written.flow chain allForked (s.given i)
    exact flow ▸ Network.run_pipeline (wired programs typed) run linked filters ended notKilled

end Computes

section Session

variable {first : Process} {s : Shell}

/-- Nothing is counted where no command has been called. -/
theorem Kept.counted (kept : Kept s) (table : s.pipeVector = []) (calls : s.calls = [])
    (commands : List Command) : CountedTo commands 0 s := by
  have none (j : Nat) : ¬ TargetedBefore commands 0 j := by
    rintro ⟨k, below, -⟩
    omega
  refine ⟨id, kept.account, ?_, ?_, ?_, ?_, by rw [calls]; rfl, ?_⟩
  · intro record member
    rw [table] at member
    cases member
  · exact fun j _ targeted => absurd targeted (none j)
  · exact fun j targeted => absurd targeted (none j)
  · exact fun j _ targeted => absurd targeted (none j)
  · intro k call isCall
    rw [calls] at isCall
    cases isCall

/-- The calls of a session are routed, to its end or to where it fails, and those with a file
are apart. -/
theorem calls_routed {lines : List (Str × World)} {commands : List (List Command)}
    (parsed : List.Forall₂ (fun line cs => Parses line.1 cs) lines commands)
    (counted : CountedTo commands.flatten 0 s) (none : s.calls = []) :
    (∃ pipeOf, Routes commands.flatten pipeOf ((heads lines s).filterMap callAt)) ∧
      FilesApart commands.flatten ((heads lines s).filterMap callAt) := by
  have routes := lines_route lines commands parsed rfl counted
  have calls := lines_calls lines s
  have files := @FilesApart.lines commands.flatten lines commands parsed s (by rw [none]; rfl)
    (by rw [none]; exact fun _ _ _ _ isCall => nomatch isCall)
  rw [none, List.nil_append] at calls
  cases ran : lines.foldlM execLine s with
  | ok t =>
    rw [ran] at routes calls files
    have same : t.calls = (heads lines s).filterMap callAt := calls
    obtain ⟨pipeOf, counting⟩ := routes
    rw [← same]
    exact ⟨⟨pipeOf, counting.routes (Nat.le_refl _)⟩, files⟩
  | error failure =>
    rw [ran] at routes calls files
    have same : failure.2.calls = (heads lines s).filterMap callAt := calls
    obtain ⟨_, -, routed, -⟩ := routes
    rw [← same]
    exact ⟨routed, files⟩

theorem parsed_wellFormed {lines : List (Str × World)} {commands : List (List Command)}
    (parsed : List.Forall₂ (fun line cs => Parses line.1 cs) lines commands) :
    ∀ c ∈ commands.flatten, c.WellFormed := by
  induction parsed with
  | nil => exact fun _ member => nomatch member
  | @cons line cs lines commands parses _ ih =>
    intro c member
    rw [List.flatten_cons] at member
    rcases List.mem_append.mp member with here | later
    · exact parses.wellFormed c here
    · exact ih c later

/-- From a sealed state without pipes and calls, the commands of the lines compute what is
written.

The routing of the calls gives the pipes, and the inheritance of the children tells that nobody
else holds their ends. The terminal is where the standard descriptors of the shell lead, which no
pipe of a session can be. -/
theorem Sealed.computes (terminal : Terminal first)
    (keyboard : ∀ made, first.object 0 ≠ some (.readEnd made)) (sealed : Sealed first s)
    (table : s.pipeVector = []) (calls : s.calls = []) {lines : List (Str × World)}
    {commands : List (List Command)}
    (parsed : List.Forall₂ (fun line cs => Parses line.1 cs) lines commands) :
    Computes commands.flatten (commandHeads lines s) := by
  obtain ⟨⟨pipeOf, routes⟩, files⟩ := calls_routed parsed
    (sealed.kept.counted table calls commands.flatten) calls
  exact AsWritten.computes (parsed_wellFormed parsed)
    (sealed.wired terminal keyboard lines List.filter_sublist)
    (network_asWritten terminal keyboard sealed lines routes files)

end Session

/-- In every session of either program on lines of well-formed commands, to its end or to where it
fails, for all programs and every order of their steps: a command that reads to the end has worked
on the mixture of what the commands that target it have passed on, and a pipeline computes the
composition of its commands.

How the shell connects its commands is known from the routing of the session, and who holds which
end from the inheritance of its children. That the bytes then come through is a fact about any
network of programs, which the session is an instance of. -/
theorem session_computes (vars : List (Str × Str)) (lines : List (Str × World))
    (commands : List (List Command))
    (parsed : List.Forall₂ (fun line cs => Parses line.1 cs) lines commands) :
    Computes commands.flatten (commandHeads lines (started vars)) ∧
      Computes commands.flatten (commandHeads lines (begunSimple vars).shell) :=
  ⟨(started_sealed vars).computes (started_terminal vars) (fun _ found => nomatch found) rfl rfl
      parsed,
    (begunSimple_sealed vars).computes (begunSimple_terminal vars) (fun _ found => nomatch found)
      rfl rfl parsed⟩

/-- A pipeline over two lines. -/
def pipedLines : List (Str × World) :=
  [(str "ls |", World.plain), (str "cat ! number", World.plain)]

/-- The commands of these lines. -/
def pipedCommands : List (List Command) :=
  [[⟨str "ls", [], .pipe false []⟩],
    [⟨str "cat", [], .pipe true []⟩, ⟨str "number", [], .none⟩]]

/-- Two lines with three commands in all: the output of the first one goes on to the second line.
-/
theorem session_computes_piped :
    Computes pipedCommands.flatten (commandHeads pipedLines (started [])) ∧
      List.IsChain (Pipes pipedCommands.flatten) [0, 1, 2] ∧
      ∀ j ∈ [0, 1, 2], Forked (commandHeads pipedLines (started [])) j := by
  have parsed : List.Forall₂ (fun line cs => Parses line.1 cs) pipedLines pipedCommands := by
    refine .cons ⟨by decide +kernel, ?_, by decide⟩ (.cons ⟨by decide +kernel, ?_, by decide⟩ .nil)
    · intro c member
      rw [List.mem_singleton.mp member]
      exact ⟨by decide, by simp, by unfold Ending.WellFormed; decide +kernel⟩
    · intro c member
      have either : c = ⟨str "cat", [], .pipe true []⟩ ∨ c = ⟨str "number", [], .none⟩ := by
        simpa using member
      rcases either with rfl | rfl
      · exact ⟨by decide, by simp, by unfold Ending.WellFormed; decide +kernel⟩
      · exact ⟨by decide, by simp, trivial⟩
  have target {i j : Nat} (targets : Targets pipedCommands.flatten i j) : i < 2 ∧ j = i + 1 := by
    obtain ⟨c, n, isCommand, number, rfl⟩ := targets
    match i, isCommand with
    | 0, rfl | 1, rfl => cases number; decide
    | 2, rfl => cases number
  refine ⟨(session_computes [] pipedLines pipedCommands parsed).1, ?_, ?_⟩
  · simp only [List.isChain_cons_cons, List.isChain_singleton, and_true]
    refine ⟨⟨⟨_, 1, rfl, rfl, rfl⟩, fun other targets => ?_⟩,
      ⟨⟨_, 1, rfl, rfl, rfl⟩, fun other targets => ?_⟩⟩
    · have := target targets
      omega
    · have := target targets
      omega
  · unfold Forked
    decide +kernel

end NetProg.Npshell
