import NetProg.MultiProc.Main

/-!
# A client process between its system calls

A signal can come between any two steps of a process. Here a round of `ExecCmds` is
not taken as a whole: an execution goes from point to point, with every `close` of
the numbered pipes a step of its own, and what happens between two steps is up to
the others. They change the server in any way that leaves the process and the
descriptors its handler has stored; and the handler of `SIGUSR2` may open a FIFO and
store its descriptor in the record.

Without an interruption the steps of a command are its execution.
-/

namespace NetProg.MultiProc

open Loops Outcomes Runs

/-- Where the process is: in front of a line, of a round, of `GetPipeFd`, of `ExecCmd`;
in `ErasePipeVector` in front of the record at a position, or between the two closes of
that record; in front of `close(in_fd)`, of what is forgotten; or at its end. -/
inductive Point where
  | idle
  | reads
  | attaches
  | runs
  | erases (i : Nat)
  | closesOut (i : Nat) (record : PipeFd)
  | closes
  | forgets
  | finished
  deriving DecidableEq

/-- A process between two steps: where it is in its line, and the frame, with the server in it. -/
structure Moment where
  job : Job
  point : Point
  frame : Frame

namespace Moment

/-- The shell of the process. -/
def shell (m : Moment) : Shell := m.frame.server.shells m.job.curId

/-- The moment at another point, with another frame. -/
def goes (m : Moment) (point : Point) (frame : Frame) : Moment :=
  { m with point := point, frame := frame }

/-- The frame with the shell of the process changed. -/
def onShell (m : Moment) (change : Shell → Shell) : Frame :=
  m.frame.withServer (m.frame.server.onShell m.job.curId change)

/-- The end of a line; after `exit` the client leaves. -/
def leaves (m : Moment) (result : Server × Int) : Outcome Moment :=
  if result.2 = -1 then do
    let left ← result.1.logout m.job.curId
    return m.goes .finished (m.frame.withServer left)
  else .ok (m.goes .idle (m.frame.withServer result.1))

/-- The step at the head of a round. -/
def advances (m : Moment) : Outcome Moment :=
  if m.frame.isFinalArgv then do
    let received ← announceRecv m.job m.frame
    let sent ← announceSend m.job received
    return m.goes .attaches sent
  else
    match m.frame.cmds with
    | [] => m.leaves (m.frame.server, m.frame.status)
    | word :: rest => do
      match ← readWord m.job m.frame word rest with
      | .again next => return m.goes .reads next
      | .leave result => m.leaves result

/-- The step of `ErasePipeVector` at a position: a record that is due has its write end
closed; at the end of the vector all counts go down. -/
def erases (m : Moment) (i : Nat) : Moment :=
  match m.shell.pipeVector[i]? with
  | none => m.goes .closes (m.onShell
      (fun s => s.withPipes (NumberedPipes.countdownPipeVector s.pipeVector) s.process))
  | some record =>
    if record.count = 0 then
      m.goes (.closesOut i record) (m.onShell (fun s => s.withProcess
        (s.process.closeEnd record.inFd (some (.writeEnd record.made)))))
    else m.goes (.erases (i + 1)) m.frame

/-- The other `close` of the record, which leaves the vector. -/
def closesOut (m : Moment) (i : Nat) (record : PipeFd) : Moment :=
  m.goes (.erases i) (m.onShell (fun s => s.withPipes (s.pipeVector.eraseIdx i)
    (s.process.closeEnd record.outFd (some (.readEnd record.made)))))

/-- One step of the process. -/
def tick (m : Moment) : Outcome Moment :=
  match m.point with
  | .idle | .finished => .ok m
  | .reads => m.advances
  | .attaches => .ok (m.goes .runs (attach m.job m.frame))
  | .runs => do
    let called ← call m.job m.frame
    return m.goes (.erases 0) called
  | .erases i => .ok (m.erases i)
  | .closesOut i record => .ok (m.closesOut i record)
  | .closes => .ok (m.goes .forgets (closeIn m.job m.frame))
  | .forgets => .ok (m.goes .reads (forget m.job m.frame))

/-- Some steps without an interruption. -/
def ticks : Nat → Moment → Outcome Moment
  | 0, m => .ok m
  | n + 1, m => do
    let next ← m.tick
    ticks n next

theorem ticks_add (n k : Nat) (m : Moment) : ticks (n + k) m = (do
    let next ← ticks n m
    ticks k next) := by
  induction n generalizing m with
  | zero => rw [Nat.zero_add]; rfl
  | succ n ih =>
    rw [Nat.succ_add, ticks, ticks]
    cases m.tick with
    | error failure => rfl
    | ok next => exact ih next

/-! ## Without an interruption -/

section Undisturbed

variable {job : Job}

theorem onShell_onShell (g : Server) (id : Nat) (first second : Shell → Shell) :
    (g.onShell id first).onShell id second = g.onShell id (fun s => second (first s)) := by
  simp only [Server.onShell, if_true]
  congr 1
  funext other
  split
  · rfl
  · rfl

theorem onShell_congr {g : Server} {id : Nat} {first second : Shell → Shell}
    (same : first (g.shells id) = second (g.shells id)) :
    g.onShell id first = g.onShell id second := by
  simp only [Server.onShell, same]

theorem ticks_succ {m next : Moment} (step : m.tick = .ok next) (n : Nat) :
    ticks (n + 1) m = ticks n next := by
  rw [ticks, step]
  rfl

/-- The steps of `ErasePipeVector` from a position on do what the function does to the rest. By
induction on the rest; a record that is due takes a step for each of its ends. -/
theorem ticks_erases (job : Job) (todo kept : List PipeFd) (f : Frame)
    (whole : (f.shell job.curId).pipeVector = kept ++ todo) :
    ∃ n, ticks n ⟨job, .erases kept.length, f⟩ = .ok ⟨job, .closes, f.withServer
      (f.server.onShell job.curId (fun s => s.withPipes
        (NumberedPipes.countdownPipeVector (kept ++ (NumberedPipes.erasePipeVector todo s.process).1))
        (NumberedPipes.erasePipeVector todo s.process).2))⟩ := by
  have pipes : (f.server.shells job.curId).pipeVector = kept ++ todo := whole
  induction todo generalizing kept f with
  | nil =>
    refine ⟨1, ?_⟩
    have step : (Moment.mk job (.erases kept.length) f).tick = .ok ⟨job, .closes, f.withServer
        (f.server.onShell job.curId (fun s =>
          s.withPipes (NumberedPipes.countdownPipeVector s.pipeVector) s.process))⟩ := by
      simp [tick, erases, shell, pipes, goes, onShell]
    rw [ticks_succ step 0]
    refine congrArg (fun g => Except.ok (Moment.mk job .closes (f.withServer g)))
      (onShell_congr ?_)
    rw [pipes]
    rfl
  | cons record rest ih =>
    by_cases due : record.count = 0
    · let closed := f.withServer (f.server.onShell job.curId (fun s => s.withProcess
        (s.process.closeEnd record.inFd (some (.writeEnd record.made)))))
      let erased := closed.withServer (closed.server.onShell job.curId (fun s =>
        s.withPipes (s.pipeVector.eraseIdx kept.length)
          (s.process.closeEnd record.outFd (some (.readEnd record.made)))))
      have first : (Moment.mk job (.erases kept.length) f).tick =
          .ok ⟨job, .closesOut kept.length record, closed⟩ := by
        simp [tick, erases, shell, pipes, goes, onShell, due, closed]
      have second : (Moment.mk job (.closesOut kept.length record) closed).tick =
          .ok ⟨job, .erases kept.length, erased⟩ := rfl
      have left : (erased.server.shells job.curId).pipeVector = kept ++ rest := by
        simp [erased, closed, Frame.withServer, Server.onShell, Shell.withPipes, Shell.withProcess,
          pipes, List.eraseIdx_append_of_length_le]
      obtain ⟨n, ran⟩ := ih kept erased left left
      refine ⟨n + 2, ?_⟩
      rw [ticks_succ first, ticks_succ second, ran]
      refine congrArg (fun g => Except.ok (Moment.mk job .closes (f.withServer g))) ?_
      simp only [erased, closed, Frame.withServer, onShell_onShell]
      refine onShell_congr ?_
      simp only [NumberedPipes.erasePipeVector, due, if_true]
      rfl
    · have step : (Moment.mk job (.erases kept.length) f).tick =
          .ok ⟨job, .erases (kept.length + 1), f⟩ := by
        simp [tick, erases, shell, pipes, goes, due]
      have left : (f.server.shells job.curId).pipeVector = kept ++ [record] ++ rest := by
        simpa using pipes
      obtain ⟨n, ran⟩ := ih (kept ++ [record]) f left left
      refine ⟨n + 1, ?_⟩
      rw [ticks_succ step]
      simpa [NumberedPipes.erasePipeVector, due] using ran

/-- The steps of a command are its execution. -/
theorem ticks_execute {f next : Frame} (final : f.isFinalArgv = true)
    (executed : execute job f = .ok (.again next)) :
    ∃ n, ticks n ⟨job, .reads, f⟩ = .ok ⟨job, .reads, next⟩ := by
  obtain ⟨received, sent, called, ⟨receives, sends, calls⟩, same⟩ := execute_executes executed
  cases same
  obtain ⟨n, erased⟩ := ticks_erases job (called.shell job.curId).pipeVector [] called rfl
  have announced : (Moment.mk job .reads f).tick = .ok ⟨job, .attaches, sent⟩ := by
    simp [tick, advances, final, receives, sends, bind, Except.bind, goes, pure, Except.pure]
  have attached : (Moment.mk job .attaches sent).tick = .ok ⟨job, .runs, attach job sent⟩ := rfl
  have ran : (Moment.mk job .runs (attach job sent)).tick = .ok ⟨job, .erases 0, called⟩ := by
    simp [tick, calls, bind, Except.bind, goes, pure, Except.pure]
  refine ⟨n + 2 + 3, ?_⟩
  rw [ticks_succ announced, ticks_succ attached, ticks_succ ran, ticks_add]
  rw [show ticks n ⟨job, .erases 0, called⟩ = .ok ⟨job, .closes, erase job called⟩ from erased]
  rfl

end Undisturbed

end Moment

/-- A line is read, the process makes a step, the other processes have changed the server, or the
handler opens the FIFO from a source. The last can come between any two steps. -/
inductive Happening where
  | line (job : Job)
  | tick
  | others (g : Server)
  | opens (sourceId : Nat)

/-- The server as the others have left it. The process, its handler and the descriptors
stored by it are the client's own. -/
def Server.besides (g others : Server) (curId : Nat) : Server where
  table := others.table
  fifo s t := if t = curId then { others.fifo s t with outFd := (g.fifo s t).outFd }
    else others.fifo s t
  files := others.files
  shells id := if id = curId then g.shells id else others.shells id
  reading t := if t = curId then g.reading t else others.reading t
  signalled := others.signalled
  forked := others.forked
  writing := others.writing
  announced := others.announced

namespace Moment

/-- Serve what happens. -/
def serve (m : Moment) : Happening → Outcome Moment
  | .line job => .ok ⟨job, .reads, Frame.initial m.frame.server (words job.line)⟩
  | .tick => m.tick
  | .others g => .ok (m.goes m.point (m.frame.withServer (m.frame.server.besides g m.job.curId)))
  | .opens sourceId =>
    .ok (m.goes m.point (m.frame.withServer (m.frame.server.opensToRead sourceId m.job.curId)))

/-- A line is read by a process that is in front of one; the handler opens the file of
a record that has a name and no descriptor. -/
def offers (m : Moment) : Happening → Prop
  | .line job => m.point = .idle ∧ job.curId = m.job.curId ∧ job.line ≠ []
  | .tick => m.point ≠ .idle ∧ m.point ≠ .finished
  | .others _ => True
  | .opens sourceId => m.point ≠ .finished ∧ sourceId ∈ ids ∧
      (m.frame.server.fifo sourceId m.job.curId).outFd = -1 ∧
      (m.frame.server.fifo sourceId m.job.curId).name ≠ [] ∧
      m.frame.server.files sourceId m.job.curId = true

instance decidableOffers (m : Moment) : (happening : Happening) → Decidable (m.offers happening)
  | .line _ => inferInstanceAs (Decidable (_ ∧ _ ∧ _))
  | .tick => inferInstanceAs (Decidable (_ ∧ _))
  | .others _ => isTrue trivial
  | .opens _ => inferInstanceAs (Decidable (_ ∧ _ ∧ _ ∧ _ ∧ _))

end Moment

/-- The process of a client, interrupted at any point. Without interruptions its steps are those
of the command loop. -/
def interrupted (curId : Nat) : System Moment Happening (Fault × Server) where
  start := ⟨⟨curId, [], .plain, fun _ _ => false⟩, .idle, Frame.initial .initial []⟩
  offers := Moment.offers
  serve := Moment.serve

instance (curId : Nat) (m : Moment) (happening : Happening) :
    Decidable ((interrupted curId).offers m happening) :=
  inferInstanceAs (Decidable (m.offers happening))

end NetProg.MultiProc
