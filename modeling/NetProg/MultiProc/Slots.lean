import NetProg.MultiProc.Children
import NetProg.MultiProc.Logins

/-!
# Slots and connections

A client leaves by `exit` or by closing its connection. After `exit` its process tells the
others, gives the slot back and ends. At the end of its input `ClientExec` returns as well,
but with another value: the process goes back to the loop of `main` and calls `accept` on a
descriptor it has closed, and the slot stays marked.

The slots are accounted for when as many are marked as processes of open connections have
come past the search for one. Every step of the processes, in whatever order they run,
keeps the account or loses it, and which of the two it does can be read off the state before
it: a process must find a slot to read, must not mark one that another process has marked
since it was read, must not hang up, and no signal may go to a process between its slot and
`ClientExec`, which has no handler yet and would be ended by it.

The counting is the same for all steps of one process: the number of settled processes
changes by what the step changes of that one.
-/

namespace NetProg.MultiProc

open Runs

namespace Phase

/-- The connection of the process is open. -/
def connected : Phase → Bool
  | scanning _ | claiming _ | entering _ | entered _ | telling _ _ _ | serving _ | leaving _
  | turnedAway => true
  | absent | hungUp _ | gone | terminated => false

/-- The process looks for a slot. -/
def looking : Phase → Bool
  | scanning _ | claiming _ => true
  | _ => false

/-- The connection is open, and the process has come past the search for a slot. -/
def settled (phase : Phase) : Bool := phase.connected && !phase.looking

/-- The process has its slot, and a signal would end it. -/
def exposed : Phase → Bool
  | entering _ | entered _ => true
  | _ => false

end Phase

/-- The processes of the server, the numbers of those that have been forked, and how often each
has called `accept`. -/
structure Host where
  logins : Logins
  pids : List Nat
  accepts : Nat → Nat

/-- A process goes on; it sends a signal for one slot, as `tell` and `>t` do; it calls
`accept`. -/
inductive Host.Happening where
  | moves (step : LoginStep)
  | signals (pid j : Nat)
  | accepts (pid : Nat)

/-- The numbers of the processes after a step. -/
def LoginStep.forked (pids : List Nat) : LoginStep → List Nat
  | .forks pid _ _ => pids ++ [pid]
  | _ => pids

namespace Host

/-- What happens. The signals of `tell` and `>t` go to the process number in the slot of the
client that is meant; at the end of its input a process calls `accept` on a descriptor that
it has closed, again and again. -/
def serve (h : Host) : Happening → Except Empty Host
  | .moves step =>
    .ok { h with logins := (h.logins.next step).getD h.logins, pids := step.forked h.pids }
  | .signals _ j =>
    match h.logins.table[j]? with
    | none => .ok h
    | some client => .ok { h with logins := h.logins.kill client.pid }
  | .accepts pid => .ok { h with accepts := Function.update h.accepts pid (h.accepts pid + 1) }

/-- A process that waits for a line can be sent a `tell` or a `>t` for a slot that is marked.
One that has come to the end of its input can call `accept`. -/
def offers (h : Host) : Happening → Prop
  | .moves step => MultiProc.logins.offers h.logins step
  | .signals pid j => (∃ i ∈ (h.logins.phase pid).slot, h.logins.phase pid = .serving i) ∧
      ∃ client ∈ h.logins.table[j]?, client.valid = true
  | .accepts pid => ∃ i ∈ (h.logins.phase pid).slot, h.logins.phase pid = .hungUp i

instance decidableOffers (h : Host) : (happening : Happening) → Decidable (h.offers happening)
  | .moves step => inferInstanceAs (Decidable (MultiProc.logins.offers h.logins step))
  | .signals _ _ => inferInstanceAs (Decidable ((∃ i ∈ _, _) ∧ ∃ client ∈ _, _))
  | .accepts _ => inferInstanceAs (Decidable (∃ i ∈ _, _))

/-- The entries of the table that are valid. -/
def taken (h : Host) : Nat := h.logins.table.countP ClientInfo.valid

/-- The clients that are connected. -/
def connected (h : Host) : Nat := h.pids.countP (fun p => (h.logins.phase p).connected)

/-- The connections for which a slot is being looked for. -/
def looking (h : Host) : Nat := h.pids.countP (fun p => (h.logins.phase p).looking)

/-- With those that look for a slot, as many slots are taken as clients are connected, and no
process has called `accept`. A process that looks for a slot is connected and has none yet. -/
structure Accounted (h : Host) : Prop where
  slots : h.taken + h.looking = h.connected
  accepts : ∀ p, h.accepts p = 0

end Host

namespace Logins

/-- A signal to this number goes to no process that has a slot but no handler. -/
def Spares (s : Logins) (pid : Nat) : Prop :=
  ∀ q, pid = 0 ∨ q = pid → (s.phase q).exposed = false

/-- The process finds a slot to read, marks one that is still free, does not close its
connection, and sends no signal to a process that has a slot but no handler. -/
def Departs (s : Logins) : LoginStep → Prop
  | .reads pid => ∀ i, s.phase pid = .scanning i → i < s.table.length
  | .claims pid => ∀ i, s.phase pid = .claiming i →
      ∃ client, s.table[i]? = some client ∧ client.valid = false
  | .tells pid => ∀ i j leaves client, s.phase pid = .telling i j leaves →
      s.table[j]? = some client → client.valid = true → s.Spares client.pid
  | .hangsUp _ => False
  | .forks _ _ _ | .enters _ | .begins _ | .broadcasts _ | .exits _ | .empties _ => True

end Logins

/-- Clients get slots of their own and leave by `exit`, and no signal ends a process. Nothing is
asked of an `accept`: it is to be shown that there is none. -/
def Host.Departs (h : Host) : Host.Happening → Prop
  | .moves step => h.logins.Departs step
  | .signals _ j => ∀ client, h.logins.table[j]? = some client → h.logins.Spares client.pid
  | .accepts _ => True

/-- The server, with all interleavings of the processes of its clients: the logins and their
slots, the signals that processes send one another, and what a process does that has no slot. -/
def hosting : System Host Host.Happening Empty where
  start := ⟨.initial, [], fun _ => 0⟩
  offers := Host.offers
  serve := Host.serve

instance (h : Host) (happening : Host.Happening) : Decidable (hosting.offers h happening) :=
  inferInstanceAs (Decidable (h.offers happening))

section Counting

variable {α : Type} {p q : α → Bool}

/-- Changing one entry of a list changes the count by what it changes of the entry. -/
theorem countP_modify (change : α → α) {l : List α} {i : Nat} {a : α}
    (there : l[i]? = some a) :
    (l.modify i change).countP p + (if p a then 1 else 0) =
      l.countP p + (if p (change a) then 1 else 0) := by
  induction l generalizing i with
  | nil => cases there
  | cons b rest ih =>
    cases i with
    | zero =>
      obtain rfl : b = a := Option.some.inj there
      rw [List.modify_zero_cons, List.countP_cons, List.countP_cons]
      omega
    | succ i =>
      have rest := ih (i := i) (by simpa using there)
      rw [List.modify_succ_cons, List.countP_cons, List.countP_cons]
      omega

/-- What holds of no fewer entries, and of one more, is counted more often. -/
theorem countP_lt {l : List α} (fewer : ∀ a ∈ l, p a = true → q a = true) {a : α}
    (member : a ∈ l) (notP : p a = false) (isQ : q a = true) : l.countP p < l.countP q := by
  induction l with
  | nil => cases member
  | cons b rest ih =>
    rw [List.countP_cons, List.countP_cons]
    have restFewer := fun c inside => fewer c (List.mem_cons_of_mem b inside)
    rcases List.mem_cons.mp member with rfl | later
    · have := List.countP_mono_left restFewer
      simp only [notP, isQ, Bool.false_eq_true, if_false, if_true]
      omega
    · have := ih restFewer later
      have first := fewer b List.mem_cons_self
      split <;> rename_i pFirst
      · rw [if_pos (first pFirst)]
        omega
      · omega

/-- One value of a function changes: the count changes by it. -/
theorem countP_update {β : Type} [DecidableEq α] {l : List α} (nodup : l.Nodup) {a : α}
    (member : a ∈ l) (f : α → β) (value : β) (holds : β → Bool) :
    l.countP (fun x => holds (Function.update f a value x)) + (if holds (f a) then 1 else 0) =
      l.countP (fun x => holds (f x)) + (if holds value then 1 else 0) := by
  induction l with
  | nil => cases member
  | cons b rest ih =>
    obtain ⟨notIn, restNodup⟩ := List.nodup_cons.mp nodup
    rw [List.countP_cons, List.countP_cons]
    by_cases same : b = a
    · subst same
      have others : rest.countP (fun x => holds (Function.update f b value x)) =
          rest.countP (fun x => holds (f x)) := by
        refine List.countP_congr (fun x inside => ?_)
        have other : x ≠ b := ne_of_mem_of_not_mem inside notIn
        rw [Function.update_of_ne other]
      rw [others, Function.update_self]
      omega
    · have rest := ih restNodup ((List.mem_cons.mp member).resolve_left (Ne.symm same))
      rw [Function.update_of_ne same]
      omega

end Counting

namespace Logins

variable {s t : Logins} {step : LoginStep} {pid : Nat} {pids : List Nat}

/-- The processes that have come past the search for a slot. -/
def settled (s : Logins) (pids : List Nat) : Nat := pids.countP (fun p => (s.phase p).settled)

/-- One process goes on. -/
theorem settled_goes (nodup : pids.Nodup) (member : pid ∈ pids) (phase : Phase) :
    (s.goes pid phase).settled pids + (if (s.phase pid).settled then 1 else 0) =
      s.settled pids + (if phase.settled then 1 else 0) :=
  countP_update nodup member s.phase phase Phase.settled

/-- It stays settled, or stays without a slot. -/
theorem settled_stays (nodup : pids.Nodup) (member : pid ∈ pids) {phase : Phase}
    (same : phase.settled = (s.phase pid).settled) :
    (s.goes pid phase).settled pids = s.settled pids := by
  have counts := s.settled_goes nodup member phase
  rw [same] at counts
  omega

/-- It gets past the search for a slot. -/
theorem settled_joins (nodup : pids.Nodup) (member : pid ∈ pids) {phase : Phase}
    (was : (s.phase pid).settled = false) (joins : phase.settled = true) :
    (s.goes pid phase).settled pids = s.settled pids + 1 := by
  have counts := s.settled_goes nodup member phase
  simpa [was, joins] using counts

/-- Its connection is closed. -/
theorem settled_leaves (nodup : pids.Nodup) (member : pid ∈ pids) {phase : Phase}
    (was : (s.phase pid).settled = true) (leaves : phase.settled = false) :
    (s.goes pid phase).settled pids + 1 = s.settled pids := by
  have counts := s.settled_goes nodup member phase
  simpa [was, leaves] using counts

theorem settled_signalled (phase : Phase) : phase.signalled.settled =
    (phase.settled && !phase.exposed) := by
  cases phase <;> rfl

theorem settled_exposed {phase : Phase} (exposed : phase.exposed = true) :
    phase.settled = true := by
  cases phase <;> first | rfl | cases exposed

/-- A signal that spares the processes without a handler leaves the number of those that are
settled, and any other makes it smaller. -/
theorem settled_kill_iff (forked : ∀ p, p ∈ pids ↔ s.phase p ≠ .absent) (number : Nat) :
    (s.kill number).settled pids = s.settled pids ↔ s.Spares number := by
  constructor
  · intro same q isHit
    by_contra exposed
    have exposed : (s.phase q).exposed = true := by simpa using exposed
    have member : q ∈ pids := by
      rw [forked]
      intro absent
      rw [absent] at exposed
      cases exposed
    have less : (s.kill number).settled pids < s.settled pids := by
      refine countP_lt (fun p _ settled => ?_) member ?_ (settled_exposed exposed)
      · simp only [kill] at settled
        split at settled
        · rw [settled_signalled] at settled
          exact (Bool.and_eq_true_iff.mp settled).1
        · exact settled
      · simp only [kill, if_pos isHit, settled_signalled, exposed, Bool.not_true, Bool.and_false]
    omega
  · intro spares
    refine List.countP_congr (fun p _ => ?_)
    simp only [kill]
    split
    · rename_i isHit
      rw [settled_signalled, spares p isHit, Bool.not_false, Bool.and_true]
    · exact Iff.rfl

/-- The table has its size, the processes are listed, and what is about to be marked is a slot
of the table. All steps keep it. -/
structure Framed (s : Logins) (pids : List Nat) : Prop where
  size : s.table.length = maxClientSize
  nodup : pids.Nodup
  forked : ∀ p, p ∈ pids ↔ s.phase p ≠ .absent
  inside : ∀ p i, s.phase p = .claiming i → i < s.table.length

theorem Framed.same (framed : s.Framed pids) (length : t.table.length = s.table.length)
    (phase : t.phase = s.phase) : t.Framed pids := by
  refine ⟨length.trans framed.size, framed.nodup, ?_, ?_⟩
  · rw [phase]
    exact framed.forked
  · rw [phase, length]
    exact framed.inside

theorem Framed.goes (framed : s.Framed pids) (member : pid ∈ pids) {phase : Phase}
    (there : phase ≠ .absent) (inside : ∀ i, phase = .claiming i → i < s.table.length) :
    (s.goes pid phase).Framed pids := by
  refine ⟨framed.size, framed.nodup, fun p => ?_, fun p i claiming => ?_⟩
  · by_cases same : p = pid
    · subst same
      simp [member, there]
    · rw [goes_other s phase same]
      exact framed.forked p
  · by_cases same : p = pid
    · subst same
      exact inside i (by simpa using claiming)
    · rw [goes_other s phase same] at claiming
      exact framed.inside p i claiming

theorem Framed.kill (framed : s.Framed pids) (number : Nat) : (s.kill number).Framed pids := by
  refine ⟨framed.size, framed.nodup, fun p => ?_, fun p i claiming => ?_⟩
  · have kept : (s.phase p).signalled = .absent ↔ s.phase p = .absent := by
      cases s.phase p <;> simp [Phase.signalled]
    simp only [Logins.kill]
    split
    · rw [ne_eq, kept]
      exact framed.forked p
    · exact framed.forked p
  · simp only [Logins.kill] at claiming
    split at claiming
    · exact (signalled_claiming claiming).elim
    · exact framed.inside p i claiming

/-- A process that is forked is added to the list. -/
theorem Framed.forks (framed : s.Framed pids) (absent : s.phase pid = .absent) :
    (s.goes pid (.scanning 0)).Framed (pids ++ [pid]) := by
  have new : pid ∉ pids := fun member => (framed.forked pid).mp member absent
  refine ⟨framed.size, ?_, fun p => ?_, fun p i claiming => ?_⟩
  · exact List.nodup_append.mpr ⟨framed.nodup, List.nodup_singleton pid,
      fun a inside b isPid => by
        rw [List.mem_singleton.mp isPid]
        exact ne_of_mem_of_not_mem inside new⟩
  · by_cases same : p = pid
    · subst same
      simp
    · rw [goes_other s _ same, ← framed.forked p]
      simp [same]
  · by_cases same : p = pid
    · subst same
      rw [goes_self] at claiming
      cases claiming
    · rw [goes_other s _ same] at claiming
      exact framed.inside p i claiming

theorem Framed.next (framed : s.Framed pids) (leads : s.Leads step t) :
    t.Framed (step.forked pids) := by
  have listed {p : Nat} (there : s.phase p ≠ .absent) : p ∈ pids := (framed.forked p).mpr there
  cases leads with
  | forks runs positive absent => exact (framed.forks absent).same rfl rfl
  | turnsAway was | taken was | begins was | broadcasts was | passes was | exits was
  | hangsUp was => exact framed.goes (listed (by simp [was])) (by simp) (by simp)
  | told was =>
    refine framed.goes (listed (by simp [was])) ?_ ?_ <;> split <;> simp
  | @free pid i finds =>
    refine framed.goes (listed (by simp [finds.1])) (by simp) (fun j same => ?_)
    cases same
    obtain ⟨client, found, -⟩ := finds.2
    exact (List.getElem?_eq_some_iff.mp found).1
  | @claims pid i was =>
    have went : (s.goes pid (.entering i)).Framed pids :=
      framed.goes (listed (by simp [was])) (by simp) (by simp)
    exact went.same (List.length_modify ..) rfl
  | @enters pid i was =>
    have went : (s.goes pid (.entered i)).Framed pids :=
      framed.goes (listed (by simp [was])) (by simp) (by simp)
    exact went.same List.length_set rfl
  | signals was =>
    exact (framed.kill _).goes (listed (by simp [was])) (by simp) (by simp)
  | @empties pid i was =>
    have went : (s.goes pid .gone).Framed pids :=
      framed.goes (listed (by simp [was])) (by simp) (by simp)
    exact went.same (List.length_modify ..) rfl

/-- No process has come to the end of its input. -/
def Connected (s : Logins) : Prop := ∀ p i, s.phase p ≠ .hungUp i

theorem Connected.goes (connected : s.Connected) (pid : Nat) {phase : Phase}
    (stays : ∀ i, phase ≠ .hungUp i) : (s.goes pid phase).Connected := by
  intro p i
  by_cases same : p = pid
  · rw [same, goes_self]
    exact stays i
  · rw [goes_other s phase same]
    exact connected p i

/-- A signal ends a process or leaves it where it is. -/
theorem Connected.kill (connected : s.Connected) (number : Nat) : (s.kill number).Connected := by
  intro p i isHung
  simp only [Logins.kill] at isHung
  split at isHung
  · cases was : s.phase p <;> rw [was] at isHung <;> cases isHung
    exact connected p i was
  · exact connected p i isHung

/-- Only closing the connection takes a process to the end of its input. -/
theorem Connected.next (connected : s.Connected) (leads : s.Leads step t)
    (departs : s.Departs step) : t.Connected := by
  cases leads with
  | forks | turnsAway | taken | free | claims | enters | begins | broadcasts | passes | exits
  | empties => exact connected.goes _ (fun i hung => by cases hung)
  | @told pid i j leaves =>
    refine connected.goes pid (fun k hung => ?_)
    cases leaves <;> cases hung
  | signals => exact (connected.kill _).goes _ (fun i hung => by cases hung)
  | hangsUp => exact departs.elim

/-- The slots that are marked. -/
def marked (s : Logins) : Nat := s.table.countP ClientInfo.valid

/-- Tables with the same marks have as many of them. -/
theorem marked_same (marks : ∀ i : Nat, (t.table[i]?).map ClientInfo.valid =
    (s.table[i]?).map ClientInfo.valid) : t.marked = s.marked := by
  have same : t.table.map ClientInfo.valid = s.table.map ClientInfo.valid := by
    apply List.ext_getElem?
    intro i
    rw [List.getElem?_map, List.getElem?_map, marks]
  have asMap (l : List ClientInfo) :
      l.countP ClientInfo.valid = (l.map ClientInfo.valid).countP id := by
    rw [List.countP_map]
    rfl
  rw [marked, marked, asMap, asMap, same]

/-- A slot that is marked is one more, if it was free. -/
theorem marked_marks {i : Nat} {client : ClientInfo} (found : s.table[i]? = some client) :
    (s.marks pid i).marked + (if client.valid then 1 else 0) = s.marked + 1 :=
  countP_modify (p := ClientInfo.valid) _ found

/-- A slot that is emptied is one less. -/
theorem marked_frees {i : Nat} {client : ClientInfo} (found : s.table[i]? = some client)
    (valid : client.valid = true) : (s.frees pid i).marked + 1 = s.marked := by
  have counts : (s.frees pid i).marked + (if client.valid then 1 else 0) = s.marked + 0 :=
    countP_modify (p := ClientInfo.valid) _ found
  rwa [valid] at counts

/-- Where as many slots are marked as processes are settled, a step keeps it so if and only if
it meets the condition: what the step does to the marks and what it does to its process are
counted apart, one case for each way through the steps. -/
theorem Framed.balanced_next_iff (framed : s.Framed pids) (owned : s.Owned)
    (balanced : s.marked = s.settled pids) (leads : s.Leads step t) :
    t.marked = t.settled (step.forked pids) ↔ s.Departs step := by
  have listed {p : Nat} (there : s.phase p ≠ .absent) : p ∈ pids := (framed.forked p).mpr there
  -- a step of one process that marks and empties no slot, and keeps the process settled or not
  have stays {p : Nat} {phase : Phase} (there : s.phase p ≠ .absent)
      (same : phase.settled = (s.phase p).settled) :
      (s.goes p phase).marked = (s.goes p phase).settled pids :=
    balanced.trans (settled_stays framed.nodup (listed there) same).symm
  cases leads with
  | @forks pid userIp port runs positive absent =>
    refine iff_of_true ?_ trivial
    have others : (s.goes pid (.scanning 0)).settled pids = s.settled pids := by
      refine List.countP_congr (fun p inside => ?_)
      have apart : p ≠ pid := by
        rintro rfl
        exact (framed.forked p).mp inside absent
      rw [goes_other s _ apart]
    have added : (s.goes pid (.scanning 0)).settled (pids ++ [pid]) =
        (s.goes pid (.scanning 0)).settled pids := by
      rw [settled, List.countP_append, List.countP_singleton, goes_self]
      rfl
    exact balanced.trans (others.symm.trans added.symm)
  | @turnsAway pid i was past =>
    have counts : (s.goes pid .turnedAway).settled pids = s.settled pids + 1 :=
      settled_joins framed.nodup (listed (by simp [was])) (by rw [was]; rfl) rfl
    refine iff_of_false (fun kept => ?_) (fun departs => ?_)
    · have kept : s.marked = (s.goes pid .turnedAway).settled pids := kept
      omega
    · have bound := departs i was
      rw [List.getElem?_eq_none_iff] at past
      omega
  | @taken pid i client was found valid =>
    refine iff_of_true (stays (by simp [was]) (by rw [was]; rfl)) (fun j alsoWas => ?_)
    cases was.symm.trans alsoWas
    exact (List.getElem?_eq_some_iff.mp found).1
  | @free pid i finds =>
    obtain ⟨was, client, found, -⟩ := finds
    refine iff_of_true (stays (by simp [was]) (by rw [was]; rfl)) (fun j alsoWas => ?_)
    cases was.symm.trans alsoWas
    exact (List.getElem?_eq_some_iff.mp found).1
  | @claims pid i was =>
    have inside := framed.inside pid i was
    have counts : (s.marks pid i).settled pids = s.settled pids + 1 :=
      settled_joins framed.nodup (listed (by simp [was])) (by rw [was]; rfl) rfl
    have marks : (s.marks pid i).marked + _ = s.marked + 1 :=
      marked_marks (List.getElem?_eq_getElem inside)
    constructor
    · intro kept j alsoWas
      cases was.symm.trans alsoWas
      refine ⟨_, List.getElem?_eq_getElem inside, ?_⟩
      by_contra valid
      have kept : (s.marks pid i).marked = (s.marks pid i).settled pids := kept
      rw [if_pos (by simpa using valid)] at marks
      omega
    · intro departs
      obtain ⟨client, found, notValid⟩ := departs i was
      rw [List.getElem?_eq_getElem inside, Option.some.injEq] at found
      rw [found, notValid] at marks
      simp only [Bool.false_eq_true, if_false] at marks
      show (s.marks pid i).marked = (s.marks pid i).settled pids
      omega
  | @enters pid i was =>
    refine iff_of_true ?_ trivial
    have went : (s.goes pid (.entered i)).marked = (s.goes pid (.entered i)).settled pids :=
      stays (by simp [was]) (by rw [was]; rfl)
    exact (marked_same (fun j => owned.valid_enters was rfl j)).trans went
  | begins was | broadcasts was | exits was =>
    exact iff_of_true (stays (by simp [was]) (by rw [was]; rfl)) trivial
  | @told pid i j leaves was past =>
    refine iff_of_true (stays (by simp [was]) ?_) ?_
    · rw [was]
      cases leaves <;> rfl
    · intro i' j' leaves' client alsoWas found
      cases was.symm.trans alsoWas
      rw [past] at found
      cases found
  | @passes pid i j leaves client was found notValid =>
    refine iff_of_true (stays (by simp [was]) (by rw [was]; rfl)) ?_
    intro i' j' leaves' other alsoWas alsoFound valid
    cases was.symm.trans alsoWas
    cases found.symm.trans alsoFound
    rw [notValid] at valid
    cases valid
  | @signals pid i j leaves client was found valid =>
    have still : ((s.kill client.pid).phase pid).settled = true ∧
        (s.kill client.pid).phase pid ≠ .absent := by
      simp only [Logins.kill]
      split <;> simp [was, Phase.signalled, Phase.settled, Phase.connected, Phase.looking]
    have counts : ((s.kill client.pid).goes pid (.telling i (j + 1) leaves)).settled pids =
        (s.kill client.pid).settled pids :=
      settled_stays framed.nodup (listed (by simp [was])) still.1.symm
    have kept : ((s.kill client.pid).goes pid (.telling i (j + 1) leaves)).marked =
        s.settled pids := balanced
    show (_ = ((s.kill client.pid).goes pid (.telling i (j + 1) leaves)).settled pids) ↔ _
    rw [kept, counts, eq_comm, settled_kill_iff framed.forked]
    constructor
    · intro spares i' j' leaves' other alsoWas alsoFound _
      cases was.symm.trans alsoWas
      cases found.symm.trans alsoFound
      exact spares
    · exact fun departs => departs i j leaves client was found valid
  | @empties pid i was =>
    refine iff_of_true ?_ trivial
    obtain ⟨client, found, valid⟩ := owned.held pid i (by rw [was]; rfl)
    have marks : (s.frees pid i).marked + 1 = s.marked := marked_frees found valid
    have counts : (s.frees pid i).settled pids + 1 = s.settled pids :=
      settled_leaves framed.nodup (listed (by simp [was])) (by rw [was]; rfl) rfl
    show (s.frees pid i).marked = (s.frees pid i).settled pids
    omega
  | @hangsUp pid i was =>
    refine iff_of_false (fun kept => ?_) id
    have counts : (s.goes pid (.hungUp i)).settled pids + 1 = s.settled pids :=
      settled_leaves framed.nodup (listed (by simp [was])) (by rw [was]; rfl) rfl
    have kept : s.marked = (s.goes pid (.hungUp i)).settled pids := kept
    omega

end Logins

namespace Host

variable {h after : Host}

/-- All connections are open for a search or after it. -/
theorem connected_eq (h : Host) : h.connected = h.logins.settled h.pids + h.looking := by
  rw [connected, looking, Logins.settled]
  induction h.pids with
  | nil => rfl
  | cons p rest ih =>
    rw [List.countP_cons, List.countP_cons, List.countP_cons, ih]
    cases h.logins.phase p <;>
      simp only [Phase.settled, Phase.connected, Phase.looking, Bool.not_true, Bool.not_false,
        Bool.and_true, Bool.and_false, Bool.false_eq_true, if_true, if_false] <;> omega

theorem accounted_iff (h : Host) : h.Accounted ↔
    h.logins.marked = h.logins.settled h.pids ∧ ∀ p, h.accepts p = 0 := by
  have balance : h.taken + h.looking = h.connected ↔
      h.logins.marked = h.logins.settled h.pids := by
    rw [connected_eq, taken, Logins.marked]
    omega
  exact ⟨fun accounted => ⟨balance.mp accounted.slots, accounted.accepts⟩,
    fun both => ⟨balance.mpr both.1, both.2⟩⟩

/-- The table and the list of the processes are in order, every slot that is taken belongs to
one process, nobody has hung up, and the slots are accounted for. -/
structure Kept (h : Host) : Prop where
  framed : h.logins.Framed h.pids
  owned : h.logins.Owned
  stays : h.logins.Connected
  accounted : h.Accounted

/-- What happens is accounted for if and only if it meets the condition, and the rest is kept
then. By cases on what happens; for a step of a login, on the ways through it. -/
theorem Kept.serve (kept : h.Kept) {happening : Happening} (offered : h.offers happening)
    (served : h.serve happening = .ok after) :
    (after.Accounted ↔ h.Departs happening) ∧ (h.Departs happening → after.Kept) := by
  obtain ⟨balanced, silent⟩ := h.accounted_iff.mp kept.accounted
  suffices both : (after.Accounted ↔ h.Departs happening) ∧ (h.Departs happening →
      after.logins.Framed after.pids ∧ after.logins.Owned ∧ after.logins.Connected) from
    ⟨both.1, fun departs => ⟨(both.2 departs).1, (both.2 departs).2.1, (both.2 departs).2.2,
      both.1.mpr departs⟩⟩
  cases happening with
  | moves step =>
    obtain ⟨t, next⟩ := Option.isSome_iff_exists.mp offered
    have leads := Logins.next_leads next
    simp only [Host.serve, next, Option.getD_some] at served
    cases served
    rw [accounted_iff]
    have counts := kept.framed.balanced_next_iff kept.owned balanced leads
    refine ⟨⟨fun both => counts.mp both.1, fun departs => ⟨counts.mpr departs, silent⟩⟩, ?_⟩
    intro departs
    refine ⟨kept.framed.next leads, kept.owned.next leads ?_, kept.stays.next leads departs⟩
    rintro pid i rfl was
    exact departs i was
  | signals pid j =>
    obtain ⟨-, client, found, -⟩ := offered
    have found : h.logins.table[j]? = some client := found
    simp only [Host.serve, found] at served
    cases served
    have spares : h.logins.Spares client.pid ↔ h.Departs (.signals pid j) := by
      constructor
      · intro spares other isOther
        cases found.symm.trans isOther
        exact spares
      · exact fun departs => departs client found
    rw [accounted_iff, ← spares]
    have counts : (h.logins.kill client.pid).marked = (h.logins.kill client.pid).settled h.pids ↔
        h.logins.Spares client.pid := by
      rw [← Logins.settled_kill_iff kept.framed.forked, eq_comm (a := (_ : Nat)), ← balanced]
      rfl
    exact ⟨⟨fun both => counts.mp both.1, fun spared => ⟨counts.mpr spared, silent⟩⟩,
      fun _ => ⟨kept.framed.kill client.pid, kept.owned.kill client.pid,
        kept.stays.kill client.pid⟩⟩
  | accepts pid =>
    -- only a process at the end of its input calls `accept`, and there is none
    obtain ⟨i, -, hung⟩ := offered
    exact absurd hung (kept.stays pid i)

/-- When no slot is free, all of them belong to clients that are connected. -/
theorem Kept.full (kept : h.Kept) (full : ∀ client ∈ h.logins.table, client.valid = true) :
    h.connected = maxClientSize + h.looking := by
  rw [← kept.accounted.slots, taken, List.countP_eq_length.mpr full, kept.framed.size]

end Host

/-- Everything that is offered is served. -/
theorem Host.serve_returns (h : Host) (happening : Host.Happening) :
    ∃ after, h.serve happening = .ok after := by
  cases served : h.serve happening with
  | error impossible => cases impossible
  | ok after => exact ⟨after, rfl⟩

/-- The server before the first connection is accounted for. -/
theorem initial_kept : hosting.start.Kept := by
  refine ⟨⟨by decide, List.nodup_nil, ?_, ?_⟩, Logins.owned_initial,
    fun p i hung => (by cases hung), ⟨by decide, fun _ => rfl⟩⟩
  · intro p
    exact iff_of_false List.not_mem_nil (fun there => there rfl)
  · intro p i claiming
    cases claiming

/-- The clients are accounted for after every step of a run, whatever the order in which the
processes take their steps, exactly when every step meets the condition. In such a run all
slots are marked only if each is that of a client that is still connected. A line, which the
steps of a process leave out, touches no slot unless it is an `exit`, and then it frees that
of its own client alone. -/
theorem slots_accounted_iff (happenings : List Host.Happening) (h : Host) :
    (Run hosting (fun h happening => ∀ after, h.serve happening = .ok after → after.Accounted)
        happenings h ↔
      Run hosting Host.Departs happenings h) ∧
    (Run hosting Host.Departs happenings h →
      h.Accounted ∧ ((∀ client ∈ h.logins.table, client.valid = true) →
        h.connected = maxClientSize + h.looking)) ∧
    (∀ job g, (g.shells job.curId).status = .running →
      (∀ fault, (execLine job g).2 = some fault → fault = .blocked) →
        Leaves job g (execLine job g).1) := by
  refine ⟨?_, fun run => ?_, fun job g runs fine => execLine_leaves runs fine⟩
  · refine run_congr Host.Kept initial_kept (fun h happening kept offered => ?_)
      (fun h happening after kept offered accounted served => ?_) happenings h
    · obtain ⟨after, served⟩ := h.serve_returns happening
      constructor
      · exact fun accounted => (kept.serve offered served).1.mp (accounted after served)
      · exact fun departs after served => (kept.serve offered served).1.mpr departs
    · have both := kept.serve offered served
      exact both.2 (both.1.mp (accounted after served))
  · have kept : h.Kept := run.invariant Host.Kept initial_kept
      (fun h happening after kept offered departs served => (kept.serve offered served).2 departs)
    exact ⟨kept.accounted, kept.full⟩

/-- A client logs in, closes its connection, and its process calls `accept`. -/
def closesConnection : List Host.Happening :=
  closedConnection.map .moves ++ [.accepts 7]

/-- Its slot stays taken. -/
theorem closed_connection_keeps_slot : ∃ h, Run hosting always closesConnection h ∧
    h.connected = 0 ∧ h.looking = 0 ∧ h.taken = 1 ∧ h.accepts 7 = 1 ∧ ¬ h.Accounted := by
  have plays : ((play hosting always hosting.start closesConnection).map
      (fun h => decide (h.connected = 0 ∧ h.looking = 0 ∧ h.taken = 1 ∧ h.accepts 7 = 1))) =
        some true := by decide +kernel
  obtain ⟨h, played, result⟩ := Option.map_eq_some_iff.mp plays
  obtain ⟨gone, noSearch, kept, called⟩ := of_decide_eq_true result
  refine ⟨h, Run.played closesConnection h played, gone, noSearch, kept, called, ?_⟩
  intro accounted
  have slots := accounted.slots
  omega

end NetProg.MultiProc
