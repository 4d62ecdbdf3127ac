import NetProg.Npshell.Forks

/-!
# What a shell has open

The descriptors of a shell over a session: the standard ones, which it never touches, the
ends of the pipes in its table, and the files it has opened for redirections. It closes
the pipes when they have been read, and the files never.
-/

namespace NetProg.Npshell

open Loops Outcomes NumberedPipes

/-- The shell when the word of a pass has been read. -/
def afterWord (world : World) (f : Frame) : Shell :=
  match f.cmds with
  | [] => f.shell
  | word :: rest =>
    match readWord world f word rest with
    | .ok read => read.shell
    | .error _ => f.shell

theorem object_negative (p : Process) {n : Int} (negative : n < 0) : p.object n = none := by
  rw [Process.object, if_neg (by omega)]

/-- The numbers of a new pipe were not open. -/
theorem pipe_free (p : Process) : p.object p.pipe.1 = none ∧ p.object p.pipe.2.1 = none := by
  have read : p.object p.pipe.1 = none := Process.object_lowest p.fds p.made p.closes
  refine ⟨read, ?_⟩
  have free := Process.object_lowest (p.fds.put p.fds.lowest (.readEnd p.made)) p.made p.closes
  rw [Process.object_put_nat] at free
  split at free
  · cases free
  · exact free

/-- `pipe` makes the two ends and changes nothing else. -/
theorem object_pipe (p : Process) (n : Int) : p.pipe.2.2.object n =
    if n = p.pipe.2.1 then some (.writeEnd p.made)
    else if n = p.pipe.1 then some (.readEnd p.made)
    else p.object n := by
  simp only [Process.pipe, Process.object_put_nat]
  rfl

section Closing

variable {honest : Prop} {p : Process} {pipeVector : List PipeFd} {files : List (Int × Object)}

/-- Getting the pipes that are due closes their write ends and nothing else. -/
theorem object_getPipeFd (pipeVector : List PipeFd) (inFd : Int) (p : Process) (n : Int) :
    (getPipeFd pipeVector inFd p).2.object n =
      if n ∈ (duePipes pipeVector).map PipeFd.inFd then none else p.object n := by
  induction pipeVector generalizing inFd p with
  | nil => simp [getPipeFd, duePipes]
  | cons record rest ih =>
    by_cases due : record.count = 0
    · have first : duePipes (record :: rest) = record :: duePipes rest := by
        simp [duePipes, due]
      rw [getPipeFd, if_pos due, ih, first, List.map_cons, Process.object_closeEnd]
      by_cases later : n ∈ (duePipes rest).map PipeFd.inFd
      · rw [if_pos later, if_pos (List.mem_cons_of_mem _ later)]
      · rw [if_neg later]
        by_cases here : n = record.inFd <;> simp [here, later]
    · have none : duePipes (record :: rest) = duePipes rest := by simp [duePipes, due]
      rw [getPipeFd, if_neg due, ih, none]

/-- Erasing closes both ends of the pipes that are due and nothing else. -/
theorem object_erasePipeVector (pipeVector : List PipeFd) (p : Process) (n : Int) :
    (erasePipeVector pipeVector p).2.object n =
      if n ∈ endNumbers (duePipes pipeVector) then none else p.object n := by
  induction pipeVector generalizing p with
  | nil => simp [erasePipeVector, duePipes, endNumbers]
  | cons record rest ih =>
    by_cases due : record.count = 0
    · have first : endNumbers (duePipes (record :: rest)) =
          record.inFd :: record.outFd :: endNumbers (duePipes rest) := by
        simp [duePipes, due, endNumbers]
      rw [erasePipeVector, if_pos due, ih, first, Process.object_closeEnd,
        Process.object_closeEnd]
      by_cases later : n ∈ endNumbers (duePipes rest)
      · simp [later]
      · by_cases write : n = record.inFd <;> by_cases read : n = record.outFd <;>
          simp [later, write, read]
    · have none : duePipes (record :: rest) = duePipes rest := by simp [duePipes, due]
      rw [erasePipeVector, if_neg due, none]
      exact ih p

end Closing

/-- The shell has nothing open but what it started with on the standard descriptors, the ends of
its table, and files. This is the invariant of the sessions; every round keeps it, since an end
leaves the table only when it is closed. -/
structure Sealed (first : Process) (s : Shell) : Prop where
  kept : Kept s
  standard : ∀ n : Int, n < 3 → s.process.object n = first.object n
  confined : ∀ (n : Int) (o : Object), 3 ≤ n → s.process.object n = some o →
    (∃ serial, o = .file serial) ∨ (n, o) ∈ ends s.pipeVector

/-- From one state of a session to a later one: files stay open, a record that is in the table was
there before or was made since. It is transitive, so a round is enough to show it. -/
structure Onward (s t : Shell) : Prop where
  files : ∀ (n : Int) (serial : Nat), s.process.object n = some (.file serial) →
    t.process.object n = some (.file serial)
  made : s.process.made ≤ t.process.made
  records : ∀ record ∈ t.pipeVector, record.made < s.process.made →
    ∃ old ∈ s.pipeVector, old.made = record.made

/-- What is logged or printed does not matter. -/
theorem Onward.of_same {s t : Shell} (process : t.process = s.process)
    (pipeVector : t.pipeVector = s.pipeVector) : Onward s t where
  files n serial found := by rwa [process]
  made := by rw [process]
  records record member _ := ⟨record, by rwa [← pipeVector], rfl⟩

theorem Onward.trans {s t u : Shell} (first : Onward s t) (second : Onward t u) : Onward s u where
  files n serial found := second.files n serial (first.files n serial found)
  made := Nat.le_trans first.made second.made
  records record member before := by
    obtain ⟨middle, inMiddle, same⟩ :=
      second.records record member (Nat.lt_of_lt_of_le before first.made)
    obtain ⟨old, inOld, alsoSame⟩ := first.records middle inMiddle (by omega)
    exact ⟨old, inOld, alsoSame.trans same⟩

section Steps

variable {first : Process} {s : Shell}

theorem Sealed.write (sealed : Sealed first s) (text : Str) :
    Sealed first (s.write text) ∧ Onward s (s.write text) :=
  ⟨⟨sealed.kept.write text, sealed.standard, sealed.confined⟩, .of_same rfl rfl⟩

/-- The numbers that are handed out are above the standard descriptors. -/
theorem Kept.lowest_above (kept : Kept s) : (3 : Int) ≤ s.process.fds.lowest := by
  obtain ⟨files, account⟩ := kept.account
  have bound : 3 ≤ s.process.fds.lowest := by
    refine s.process.fds.le_lowest 3 (fun m below => ?_)
    simpa [Process.object] using account.standard m (Int.natCast_nonneg m) (by omega)
  exact_mod_cast bound

/-- A file is opened. -/
theorem Sealed.opens (sealed : Sealed first s) (opens : Bool) :
    Sealed first (s.withProcess (openAs opens s.process).2) ∧
      Onward s (s.withProcess (openAs opens s.process).2) := by
  have kept := sealed.kept.opens opens
  have above := sealed.kept.lowest_above
  cases opens with
  | false => exact ⟨⟨kept, sealed.standard, sealed.confined⟩, .of_same rfl rfl⟩
  | true =>
    have object (n : Int) : (openAs true s.process).2.object n =
        if n = s.process.fds.lowest then some (.file s.process.made) else s.process.object n :=
      Process.object_put_nat _ _ _ _ _ _
    refine ⟨⟨kept, ?_, ?_⟩, ⟨?_, Nat.le_succ _, fun record member _ => ⟨record, member, rfl⟩⟩⟩
    · intro n low
      exact (object n).trans (by rw [if_neg (by omega), sealed.standard n low])
    · intro n o high found
      replace found := (object n).symm.trans found
      split at found
      · cases found
        exact .inl ⟨_, rfl⟩
      · exact sealed.confined n o high found
    · intro n serial found
      have other : n ≠ s.process.fds.lowest := by
        rintro rfl
        have free := Process.object_lowest s.process.fds s.process.made s.process.closes
        rw [show s.process.object s.process.fds.lowest = none from free] at found
        cases found
      exact (object n).trans (by rw [if_neg other, found])

/-- A pipe is created or joined: both ends of a new one are in the table with its record, and they
have numbers above the standard ones, for these are taken. -/
theorem Sealed.pipes (sealed : Sealed first s) {canPipe : Bool} {pipeNum : Int}
    {created : Int × List PipeFd × Process}
    (creates : createPipe canPipe s.process s.pipeVector pipeNum = some created) :
    Sealed first (s.withPipes created.2.1 created.2.2) ∧
      Onward s (s.withPipes created.2.1 created.2.2) := by
  have kept := (sealed.kept.pipes creates).1
  have above := sealed.kept.lowest_above
  obtain ⟨outFd, extended, after⟩ := created
  rcases createPipe_cases creates with ⟨_, _, _, _, rfl, rfl⟩ | ⟨-, -, -, rfl, rfl⟩
  · exact ⟨⟨kept, sealed.standard, sealed.confined⟩, .of_same rfl rfl⟩
  · obtain ⟨files, account⟩ := kept.account
    let record : PipeFd := ⟨s.process.pipe.2.1, s.process.pipe.1, pipeNum, s.process.made⟩
    have entered {e : Int × Object} (isEnd : e ∈ record.ends) : e ∈ ends (s.pipeVector ++ [record]) :=
      mem_ends (List.mem_append_right _ List.mem_cons_self) isEnd
    have above {e : Int × Object} (isEnd : e ∈ record.ends) : 3 ≤ e.1 :=
      account.above e (List.mem_append_left _ (List.mem_append_right _ (entered isEnd)))
    have isWrite : (s.process.pipe.2.1, .writeEnd s.process.made) ∈ record.ends := by
      simp [PipeFd.ends, record]
    have isRead : (s.process.pipe.1, .readEnd s.process.made) ∈ record.ends := by
      simp [PipeFd.ends, record]
    have write : 3 ≤ s.process.pipe.2.1 := above isWrite
    have read : 3 ≤ s.process.pipe.1 := above isRead
    have object := object_pipe s.process
    refine ⟨⟨kept, ?_, ?_⟩, ⟨?_, Nat.le_succ _, ?_⟩⟩
    · intro n low
      exact (object n).trans
        (by rw [if_neg (by omega), if_neg (by omega), sealed.standard n low])
    · intro n o high found
      replace found := (object n).symm.trans found
      split at found
      · rename_i same
        cases found
        subst same
        exact .inr (entered isWrite)
      split at found
      · rename_i same
        cases found
        subst same
        exact .inr (entered isRead)
      · refine (sealed.confined n o high found).imp_right (fun member => ?_)
        exact (ends_append _ _).symm ▸ List.mem_append_left _ member
    · intro n serial found
      have notWrite : n ≠ s.process.pipe.2.1 := by
        rintro rfl
        rw [(pipe_free s.process).2] at found
        cases found
      have notRead : n ≠ s.process.pipe.1 := by
        rintro rfl
        rw [(pipe_free s.process).1] at found
        cases found
      exact (object n).trans (by rw [if_neg notWrite, if_neg notRead, found])
    · intro other member before
      rcases List.mem_append.mp member with old | isNew
      · exact ⟨other, old, rfl⟩
      · rw [List.mem_singleton.mp isNew] at before
        exact absurd before (Nat.lt_irrefl _)

/-- The number of an end in the table stands for that end, above the standard descriptors. -/
theorem Kept.stands (kept : Kept s) {e : Int × Object} (isEnd : e ∈ ends s.pipeVector) :
    s.process.object e.1 = some e.2 ∧ 3 ≤ e.1 := by
  obtain ⟨files, account⟩ := kept.account
  have member : e ∈ files ++ ends s.pipeVector := List.mem_append_right _ isEnd
  exact ⟨account.stands e member, account.above e (List.mem_append_left _ member)⟩

/-- A number of a pipe that is due is that of one of its ends. -/
theorem mem_endNumbers_due {pipeVector : List PipeFd} {n : Int}
    (member : n ∈ endNumbers (duePipes pipeVector)) :
    ∃ record ∈ pipeVector, record.count = 0 ∧ ∃ o, (n, o) ∈ record.ends := by
  rw [endNumbers_eq] at member
  obtain ⟨⟨_, o⟩, isEnd, rfl⟩ := List.mem_map.mp member
  obtain ⟨record, isDue, inRecord⟩ := List.mem_flatMap.mp isEnd
  obtain ⟨inTable, due⟩ := List.mem_filter.mp isDue
  exact ⟨record, inTable, by simpa using due, o, inRecord⟩

/-- The ends of one pipe are not those of another. -/
theorem Kept.same_record (kept : Kept s) {record other : PipeFd} (member : record ∈ s.pipeVector)
    (alsoMember : other ∈ s.pipeVector) {n : Int} {o o' : Object} (isEnd : (n, o) ∈ record.ends)
    (alsoEnd : (n, o') ∈ other.ends) : record = other := by
  obtain ⟨files, account⟩ := kept.account
  have one := (kept.stands (mem_ends member isEnd)).1
  have two := (kept.stands (mem_ends alsoMember alsoEnd)).1
  obtain rfl : o = o' := Option.some.inj (one.symm.trans two)
  apply List.inj_on_of_nodup_map (made_nodup account) member alsoMember
  simp only [PipeFd.ends, List.mem_cons, Prod.mk.injEq, List.not_mem_nil, or_false] at isEnd alsoEnd
  rcases isEnd with ⟨-, rfl⟩ | ⟨-, rfl⟩ <;> rcases alsoEnd with ⟨-, same⟩ | ⟨-, same⟩ <;>
    simp at same ⊢ <;> exact same

/-- What is open when a command has been executed. -/
theorem object_detach {ran : Shell}
    (process : ran.process = (getPipeFd s.pipeVector 0 s.process).2)
    (pipeVector : ran.pipeVector = s.pipeVector) (n : Int) : (detach ran).process.object n =
      if n ∈ endNumbers (duePipes s.pipeVector) then none else s.process.object n := by
  have closed : (Npshell.detach ran).process =
      (erasePipeVector s.pipeVector (getPipeFd s.pipeVector 0 s.process).2).2 := by
    simp only [Npshell.detach, Shell.withPipes, pipeVector, process]
  rw [closed, object_erasePipeVector, object_getPipeFd]
  by_cases isEnd : n ∈ endNumbers (duePipes s.pipeVector)
  · rw [if_pos isEnd, if_pos isEnd]
  · have notWrite : n ∉ (duePipes s.pipeVector).map PipeFd.inFd := by
      intro member
      obtain ⟨record, isDue, rfl⟩ := List.mem_map.mp member
      exact isEnd (List.mem_flatMap.mpr ⟨record, isDue, List.mem_cons_self⟩)
    rw [if_neg isEnd, if_neg isEnd, if_neg notWrite]

/-- The pipes that are due leave, and their ends are closed. What is still open above the standard
numbers is then a file or in the table. -/
theorem Sealed.detach (sealed : Sealed first s) {ran : Shell}
    (process : ran.process = (getPipeFd s.pipeVector 0 s.process).2)
    (pipeVector : ran.pipeVector = s.pipeVector) :
    Sealed first (detach ran) ∧ Onward s (detach ran) := by
  have kept := (sealed.kept.detach process pipeVector).1
  have object := object_detach process pipeVector
  have table : (Npshell.detach ran).pipeVector = countdownPipeVector (laterPipes s.pipeVector) := by
    simp only [Npshell.detach, Shell.withPipes, erasePipeVector_fst, pipeVector, laterPipes]
  have made : (Npshell.detach ran).process.made = s.process.made := by
    simp only [Npshell.detach, Shell.withPipes, pipeVector, process, erasePipeVector_made,
      getPipeFd_made]
  refine ⟨⟨kept, ?_, ?_⟩, ⟨?_, by rw [made], ?_⟩⟩
  · intro n low
    have notEnd : n ∉ endNumbers (duePipes s.pipeVector) := by
      intro member
      obtain ⟨record, inTable, -, o, isEnd⟩ := mem_endNumbers_due member
      have above := (sealed.kept.stands (mem_ends inTable isEnd)).2
      simp only at above
      omega
    rw [object, if_neg notEnd, sealed.standard n low]
  · intro n o high found
    rw [object] at found
    split at found
    · cases found
    · rename_i notEnd
      refine (sealed.confined n o high found).imp_right (fun member => ?_)
      obtain ⟨record, inTable, isEnd⟩ := List.mem_flatMap.mp member
      rw [table, ends_countdown]
      apply mem_ends (List.mem_filter.mpr ⟨inTable, ?_⟩) isEnd
      by_contra isDue
      apply notEnd
      rw [endNumbers_eq]
      have due : record ∈ duePipes s.pipeVector :=
        List.mem_filter.mpr ⟨inTable, by simpa using isDue⟩
      exact List.mem_map.mpr ⟨(n, o), mem_ends due isEnd, rfl⟩
  · intro n serial found
    have notEnd : n ∉ endNumbers (duePipes s.pipeVector) := by
      intro member
      obtain ⟨record, inTable, -, o, isEnd⟩ := mem_endNumbers_due member
      have stands := (sealed.kept.stands (mem_ends inTable isEnd)).1
      simp only [found, Option.some.injEq] at stands
      subst stands
      simp [PipeFd.ends] at isEnd
    rw [object, if_neg notEnd, found]
  · intro record member _
    rw [table] at member
    obtain ⟨old, isLater, rfl⟩ := List.mem_map.mp member
    exact ⟨old, (List.mem_filter.mp isLater).1, rfl⟩

end Steps

section Rounds

variable {first : Process} {world : World} {f : Frame}

/-- Reading a word. -/
theorem Sealed.readWord (sealed : Sealed first f.shell) (world : World) (word : Str)
    (rest : List Str) : Ends (readWord world f word rest)
      (fun read => Sealed first read.shell ∧ Onward f.shell read.shell) (fun _ => True) := by
  refine (readWord_ends world f word rest).mono ?_ (fun _ _ => trivial)
  intro read how
  cases how with
  | prog | argument => exact ⟨sealed, .of_same rfl rfl⟩
  | pipe later creates => exact sealed.pipes creates
  | @redirect isError file left later words => exact sealed.opens (world.opens left.length)

/-- Executing a command. -/
theorem Sealed.execute (sealed : Sealed first f.shell) (world : World) :
    Ends (execute world f)
      (fun next => Sealed first next.shell ∧ Onward f.shell next.shell) (fun _ => True) := by
  rw [Npshell.execute]
  generalize callOf world f _ _ = call
  refine Ends.bind _ ((builtin_stays _ f.arguments).mono (fun _ stays => stays)
    (fun _ _ => trivial)) ?_
  rintro ran ⟨process, pipeVector⟩
  exact sealed.detach process pipeVector

/-- The word of a round. -/
theorem Sealed.behindWord (sealed : Sealed first f.shell) (world : World) :
    Sealed first (afterWord world f) ∧ Onward f.shell (afterWord world f) := by
  rw [afterWord]
  split
  · exact ⟨sealed, .of_same rfl rfl⟩
  · rename_i word rest _
    have reads := sealed.readWord world word rest
    split
    · rename_i read isRead
      exact reads.returned isRead
    · exact ⟨sealed, .of_same rfl rfl⟩

/-- One round, seen from behind its word. -/
theorem Sealed.next {next : Frame} (sealed : Sealed first f.shell)
    (again : (cmdLoop world).body f = .ok (.again next)) :
    Sealed first next.shell ∧ Onward (afterWord world f) next.shell := by
  have more : f.cmds ≠ [] := by
    intro empty
    simp [cmdLoop, Npshell.round, empty] at again
  obtain ⟨word, rest, cmds⟩ := List.exists_cons_of_ne_nil more
  have body : (cmdLoop world).body f = (do return .again (← pass world f word rest)) := by
    simp only [cmdLoop, Npshell.round, cmds]
  obtain ⟨after, passed, same⟩ := bind_eq_ok.mp (body.symm.trans again)
  cases same
  obtain ⟨read, isRead, executed⟩ := bind_eq_ok.mp passed
  have behind : afterWord world f = read.shell := by
    simp only [afterWord, cmds, isRead]
  obtain ⟨sealed, -⟩ := (sealed.readWord world word rest).returned isRead
  rw [behind]
  split at executed
  · exact (sealed.execute world).returned executed
  · cases executed
    exact ⟨sealed, .of_same rfl rfl⟩

/-- One round. -/
theorem Sealed.again {next : Frame} (sealed : Sealed first f.shell)
    (again : (cmdLoop world).body f = .ok (.again next)) :
    Sealed first next.shell ∧ Onward f.shell next.shell :=
  ⟨(sealed.next again).1, (sealed.behindWord world).2.trans (sealed.next again).2⟩

/-- A run of the command loop, seen from behind its first word. -/
theorem Sealed.run {s : Shell} (sealed : Sealed first f.shell)
    (ran : (cmdLoop world).run f = .ok s) : Sealed first s ∧ Onward (afterWord world f) s := by
  induction f using (cmdLoop world).induction with
  | step f ih =>
    cases outcome : (cmdLoop world).body f with
    | error failure =>
      rw [(cmdLoop world).run_error outcome] at ran
      cases ran
    | ok result =>
      cases result with
      | leave t =>
        rw [(cmdLoop world).run_leave outcome] at ran
        obtain rfl : t = s := Except.ok.inj ran
        simp only [cmdLoop, Npshell.round] at outcome
        split at outcome
        · rename_i done
          obtain rfl := Round.leave.inj (Except.ok.inj outcome)
          have behind : afterWord world f = f.shell := by simp only [afterWord, done]
          rw [behind]
          exact ⟨sealed, .of_same rfl rfl⟩
        · obtain ⟨_, _, impossible⟩ := bind_eq_ok.mp outcome
          cases impossible
      | again next =>
        rw [(cmdLoop world).run_again outcome] at ran
        obtain ⟨sealed, onward⟩ := sealed.next outcome
        obtain ⟨final, further⟩ := ih next outcome sealed ran
        exact ⟨final, onward.trans ((sealed.behindWord world).2.trans further)⟩

end Rounds

section Session

variable {first : Process} {s : Shell}

/-- What the shell has open at the heads of the rounds of a line, and at its end, by the invariant
rule of loops; for two heads of the line the earlier one leads to the later one. -/
theorem Sealed.line (sealed : Sealed first s) (line : Str × World) :
    (∀ head ∈ lineHeads line s, Sealed first head.2.shell ∧ Onward s head.2.shell) ∧
      (lineHeads line s).Pairwise (fun head later => Onward (afterWord head.1 head.2) later.2.shell) ∧
      ∀ t, execLine s line = .ok t → Sealed first t ∧ Onward s t ∧
        ∀ head ∈ lineHeads line s, Onward (afterWord head.1 head.2) t := by
  obtain ⟨prompted, onward⟩ := sealed.write (str "% ")
  by_cases empty : line.1 = []
  · rw [lineHeads, if_pos empty]
    refine ⟨by simp, .nil, ?_⟩
    intro t executed
    rw [execLine] at executed
    simp only [empty, if_true] at executed
    obtain rfl := Except.ok.inj executed
    exact ⟨prompted, onward, by simp⟩
  · rw [lineHeads, if_neg empty]
    let start := Frame.initial (s.write (str "% ")) (words line.1)
    have rounds : ∀ g ∈ (cmdLoop line.2).rounds start, Sealed first g.shell ∧ Onward s g.shell := by
      apply (cmdLoop line.2).rounds_invariant
      · exact ⟨prompted, onward⟩
      · rintro g next - ⟨sealed, onward⟩ again -
        obtain ⟨sealed, further⟩ := sealed.again again
        exact ⟨sealed, onward.trans further⟩
    refine ⟨?_, ?_, ?_⟩
    · intro head member
      obtain ⟨g, isHead, rfl⟩ := List.mem_map.mp member
      exact rounds g isHead
    · rw [List.pairwise_map]
      have related := (cmdLoop line.2).rounds_pairwise
        (fun f g => Sealed first f.shell → Sealed first g.shell ∧
          Onward (afterWord line.2 f) g.shell)
        (fun _ _ again sealed => sealed.next again)
        (fun f g next before again sealed => by
          obtain ⟨sealed, onward⟩ := before sealed
          obtain ⟨sealed, further⟩ := sealed.again again
          exact ⟨sealed, onward.trans further⟩) start
      apply related.imp_of_mem
      intro f g isHead _ leads
      exact (leads (rounds f isHead).1).2
    · intro t executed
      rw [execLine] at executed
      simp only [empty, if_false] at executed
      obtain ⟨final, further⟩ := @Sealed.run first line.2 start t prompted executed
      have begun := (@Sealed.behindWord first start prompted line.2).2
      refine ⟨final, onward.trans (begun.trans further), ?_⟩
      intro head member
      obtain ⟨g, isHead, rfl⟩ := List.mem_map.mp member
      have same := (cmdLoop line.2).run_of_mem_rounds isHead
      exact ((rounds g isHead).1.run (same.trans executed)).2

/-- What the shell has open at the heads of all rounds of a session, and at its end. By induction
on the lines; that two heads of the session are in this order needs it for each pair of them. -/
theorem Sealed.lines (sealed : Sealed first s) (lines : List (Str × World)) :
    (∀ head ∈ heads lines s, Sealed first head.2.shell ∧ Onward s head.2.shell) ∧
      (heads lines s).Pairwise (fun head later => Onward (afterWord head.1 head.2) later.2.shell) ∧
      ∀ t, lines.foldlM execLine s = .ok t → Sealed first t ∧ Onward s t ∧
        ∀ head ∈ heads lines s, Onward (afterWord head.1 head.2) t := by
  induction lines generalizing s with
  | nil =>
    refine ⟨by simp [heads], .nil, ?_⟩
    intro t same
    obtain rfl := Except.ok.inj same
    exact ⟨sealed, .of_same rfl rfl, by simp [heads]⟩
  | cons line lines ih =>
    obtain ⟨each, related, ends⟩ := sealed.line line
    rw [heads, List.foldlM_cons]
    cases ran : execLine s line with
    | error failure =>
      simp only [List.append_nil]
      exact ⟨each, related, fun t impossible => by cases impossible⟩
    | ok t =>
      obtain ⟨sealed, onward, toEnd⟩ := ends t ran
      obtain ⟨eachLater, relatedLater, endsLater⟩ := ih sealed
      refine ⟨?_, ?_, ?_⟩
      · intro head member
        rcases List.mem_append.mp member with early | late
        · exact each head early
        · obtain ⟨sealed, further⟩ := eachLater head late
          exact ⟨sealed, onward.trans further⟩
      · rw [List.pairwise_append]
        exact ⟨related, relatedLater, fun head early later late =>
          (toEnd head early).trans (eachLater later late).2⟩
      · intro final ran
        obtain ⟨sealed, further, fromLater⟩ := endsLater final ran
        refine ⟨sealed, onward.trans further, ?_⟩
        intro head member
        rcases List.mem_append.mp member with early | late
        · exact (toEnd head early).trans further
        · exact fromLater head late

end Session

/-- What the shell has open in a session: what it started with on the standard
descriptors, the ends of its table, and files; and a file that was opened for a
redirection stays open. -/
structure Accounted (first : Process) (heads : List (World × Frame)) : Prop where
  standard : ∀ head ∈ heads, ∀ n : Int, n < 3 →
    head.2.shell.process.object n = first.object n
  above : ∀ head ∈ heads, ∀ (n : Int) (o : Object), 3 ≤ n →
    (head.2.shell.process.object n = some o ∧ (∀ serial, o ≠ .file serial) ↔
      (n, o) ∈ ends head.2.shell.pipeVector)
  files : heads.Pairwise (fun head later => ∀ (n : Int) (serial : Nat),
    (afterWord head.1 head.2).process.object n = some (.file serial) →
      later.2.shell.process.object n = some (.file serial))

theorem Sealed.accounted {first : Process} {s : Shell} (sealed : Sealed first s)
    (lines : List (Str × World)) : Accounted first (heads lines s) := by
  obtain ⟨each, onward, -⟩ := sealed.lines lines
  constructor
  · intro head member
    exact (each head member).1.standard
  · intro head member n o high
    have sealed := (each head member).1
    constructor
    · rintro ⟨found, notFile⟩
      rcases sealed.confined n o high found with ⟨serial, isFile⟩ | isEnd
      · exact absurd isFile (notFile serial)
      · exact isEnd
    · intro isEnd
      refine ⟨(sealed.kept.stands isEnd).1, ?_⟩
      obtain ⟨record, -, inRecord⟩ := List.mem_flatMap.mp isEnd
      rintro serial rfl
      simp [PipeFd.ends] at inRecord
  · exact onward.imp (fun further => further.files)

/-! ## The two programs -/

/-- Both programs have started before their first line with nothing open but the standard
descriptors. -/
theorem started_sealed (vars : List (Str × Str)) :
    Sealed (started vars).process (started vars) where
  kept := started_kept vars
  standard _ _ := rfl
  confined n o high found := by
    have three : n.toNat ≠ 0 ∧ n.toNat ≠ 1 ∧ n.toNat ≠ 2 := by omega
    simp [started, Shell.initial, Shell.setEnv, Process.initial, Process.object, three] at found

/-- The descriptors of a client of `np_simple`. -/
theorem begunSimple_process (vars : List (Str × Str)) : (begunSimple vars).shell.process =
    ⟨((Slots.Table.empty.put 0 (.socket 0)).put 1 (.socket 0)).put 2 (.socket 0), 1, []⟩ := rfl

theorem begunSimple_kept (vars : List (Str × Str)) : Kept (begunSimple vars).shell where
  account := by
    refine ⟨[], Account.standardAlone ?_ ?_⟩
    · intro n nonneg below
      rw [begunSimple_process]
      have among : n = 0 ∨ n = 1 ∨ n = 2 := by omega
      rcases among with rfl | rfl | rfl <;> decide
    · intro _ c member
      cases member
  counts := List.nodup_nil
  past := by
    intro c member
    cases member
  spared := by
    intro record member
    cases member

theorem begunSimple_sealed (vars : List (Str × Str)) :
    Sealed (begunSimple vars).shell.process (begunSimple vars).shell where
  kept := begunSimple_kept vars
  standard _ _ := rfl
  confined n o high found := by
    have three : n.toNat ≠ 0 ∧ n.toNat ≠ 1 ∧ n.toNat ≠ 2 := by omega
    simp [begunSimple, Frame.initial, Shell.setEnv, Process.object, three] at found

/-- In every session of either program the shell has its pipe table open, and every file of a
redirection from then on: besides the standard descriptors it has the ends that its table lists
and one descriptor for each redirection so far, which it never closes.

At the head of every round the state is sealed: what is open is known and so is what a round can
add to it. -/
theorem session_accounted (vars : List (Str × Str)) (lines : List (Str × World)) :
    Accounted (started vars).process (heads lines (started vars)) ∧
      Accounted (begunSimple vars).shell.process (heads lines (begunSimple vars).shell) :=
  ⟨(started_sealed vars).accounted lines, (begunSimple_sealed vars).accounted lines⟩

end NetProg.Npshell
