import Mathlib.Data.List.Chain
import Mathlib.Logic.Function.Basic
import NetProg.Library.Runs

/-!
# Programs connected by pipes

Programs are started one after the other and run side by side. Each reads from one pipe, or
a text of its own, and writes on two ports, each to a pipe or elsewhere. It is deterministic:
what it has said depends on what it has read, and on whether it has seen the end of it. The
steps of the programs are taken in any order, one item at a time. A program finds the end of
a pipe when the pipe is empty and everybody who could write to it has ended; a program is
killed when it writes to a pipe that nobody is left to read.

A pipe carries what was said into it, in the order of each of its writers. So a program that
reads to the end has said what it says to a mixture of all that its pipe's writers have said;
and where the pipes are one program's each, a chain of programs computes their composition,
whatever the order of the steps.
-/

namespace NetProg.Networks

open Runs

universe u v
variable {κ : Type u} {β : Type v}

/-- The two ports a program writes on. -/
inductive Port where
  | out
  | err
  deriving DecidableEq

/-- What a program has said when it has read so much, and perhaps seen the end; and whether it
ends there. What it says may only become longer, so that the order in which it reads and says does
not matter. -/
structure Program (β : Type v) where
  utters : List β → Bool → List (Port × β)
  ends : List β → Bool → Bool
  more : ∀ {a b : List β}, a <+: b → utters a false <+: utters b false
  last : ∀ a : List β, utters a false <+: utters a true

/-- It reads to the end. -/
def Program.Filter (program : Program β) : Prop := ∀ a, program.ends a false = false

/-- The programs in the order in which they are started, the pipe that each reads or the text
it finds instead, the pipes behind its ports, and the pipes that it keeps open for writing. -/
structure Network (κ : Type u) (β : Type v) where
  program : Nat → Program β
  input : Nat → Option κ
  typed : Nat → List β
  output : Nat → Port → Option κ
  Holds : Nat → κ → Prop

/-- Whoever writes to a pipe keeps it open; a pipe has one reader, and whoever keeps it open is
started before that. It is a property of the plan and not of a run. -/
structure Network.Wired (net : Network κ β) : Prop where
  own : ∀ i port k, net.output i port = some k → net.Holds i k
  single : ∀ i j k, net.input i = some k → net.input j = some k → i = j
  earlier : ∀ i j k, net.input j = some k → net.Holds i k → i < j

/-- How many programs have been started; what each has read, whether it has seen the end, what
it has said, whether it has ended and whether it was killed; and what was written to each pipe,
with its writer. -/
structure State (κ : Type u) (β : Type v) where
  started : Nat
  taken : Nat → List β
  sawEnd : Nat → Bool
  given : Nat → List (Port × β)
  ended : Nat → Bool
  killed : Nat → Bool
  content : κ → List (Nat × β)

/-- The next program is started; a program reads an item or the end, says an item, is killed by
that, or ends. Which of these happens next is left to the run, but for what the pipes allow. -/
inductive Event where
  | start
  | reads (i : Nat)
  | readsEnd (i : Nat)
  | writes (i : Nat)
  | killed (i : Nat)
  | ends (i : Nat)

/-- What was written to a pipe. -/
def State.text (s : State κ β) (k : κ) : List β := (s.content k).map Prod.snd

namespace Network

variable (net : Network κ β) [DecidableEq κ]

/-- What there is to read for a program. -/
def source (s : State κ β) (i : Nat) : List β :=
  match net.input i with
  | some k => s.text k
  | none => net.typed i

/-- All that a program has to say so far. -/
def said (s : State κ β) (i : Nat) : List (Port × β) :=
  (net.program i).utters (s.taken i) (s.sawEnd i)

/-- What a program says next. -/
def next (s : State κ β) (i : Nat) : Option (Port × β) := (net.said s i)[(s.given i).length]?

/-- A program runs. -/
def Alive (s : State κ β) (i : Nat) : Prop := i < s.started ∧ s.ended i = false

/-- Nobody is left to read a pipe. -/
def Unread (s : State κ β) (k : κ) : Prop := ∀ j, net.input j = some k → s.ended j = true

/-- What can happen. -/
def Offers (s : State κ β) : Event → Prop
  | .start => True
  | .reads i => Alive s i ∧ s.sawEnd i = false ∧ (s.taken i).length < (net.source s i).length
  | .readsEnd i => Alive s i ∧ s.taken i = net.source s i ∧
      ∀ k, net.input i = some k → ∀ j, j < s.started → net.Holds j k → s.ended j = true
  | .writes i => Alive s i ∧ (net.next s i).isSome = true
  | .killed i => Alive s i ∧ ∃ item k, net.next s i = some item ∧
      net.output i item.1 = some k ∧ net.Unread s k
  | .ends i => Alive s i ∧ net.next s i = none ∧
      (net.program i).ends (s.taken i) (s.sawEnd i) = true

/-- A program has said an item. -/
def write (s : State κ β) (i : Nat) (item : Port × β) : State κ β :=
  { s with
    given := Function.update s.given i (s.given i ++ [item])
    content := fun k =>
      if net.output i item.1 = some k then s.content k ++ [(i, item.2)] else s.content k }

/-- What a step does. -/
def serve (s : State κ β) : Event → State κ β
  | .start => { s with started := s.started + 1 }
  | .reads i => { s with
      taken := Function.update s.taken i ((net.source s i).take ((s.taken i).length + 1)) }
  | .readsEnd i => { s with sawEnd := Function.update s.sawEnd i true }
  | .writes i =>
    match net.next s i with
    | some item => net.write s i item
    | none => s
  | .killed i => { s with
      ended := Function.update s.ended i true
      killed := Function.update s.killed i true }
  | .ends i => { s with ended := Function.update s.ended i true }

/-- The programs before the first of them is started. Any of its runs is an order in which they
may take their steps. -/
def system : System (State κ β) Event Empty where
  start := ⟨0, fun _ => [], fun _ => false, fun _ => [], fun _ => false, fun _ => false, fun _ => []⟩
  offers := net.Offers
  serve s event := .ok (net.serve s event)

/-! ## What keeps -/

/-- What a program has said into a pipe. -/
def into (i : Nat) (k : κ) (items : List (Port × β)) : List β :=
  (items.filter (fun item => net.output i item.1 = some k)).map Prod.snd

/-- A program has said a beginning of what it says to what it has read, and that is a beginning
of what there is; a pipe carries what each of its writers has said into it; an end is seen when
there is no more to come; and whoever was killed had nobody to read it. -/
structure Sound (s : State κ β) : Prop where
  given : ∀ i, s.given i <+: net.said s i
  taken : ∀ i, s.taken i <+: net.source s i
  content : ∀ k i, ((s.content k).filter (fun entry => entry.1 = i)).map Prod.snd =
    net.into i k (s.given i)
  atEnd : ∀ i, s.sawEnd i = true → s.taken i = net.source s i ∧
    ∀ k, net.input i = some k → ∀ j, net.Holds j k → s.ended j = true
  done : ∀ i, s.ended i = true → s.killed i = false → s.given i = net.said s i ∧
    (net.program i).ends (s.taken i) (s.sawEnd i) = true
  killed : ∀ i, s.killed i = true → s.ended i = true ∧ ∃ port k, net.output i port = some k ∧
    ∀ j, net.input j = some k → s.ended j = true ∧ s.sawEnd j = false

section Sound

variable {net : Network κ β} {s : State κ β}

theorem into_append (i : Nat) (k : κ) (first second : List (Port × β)) :
    net.into i k (first ++ second) = net.into i k first ++ net.into i k second := by
  rw [into, into, into, List.filter_append, List.map_append]

/-- A beginning of a text, with the item behind it. -/
theorem prefix_next {a b : List β} (isPrefix : a <+: b) : b.take (a.length + 1) <+: b ∧
    a <+: b.take (a.length + 1) := by
  obtain ⟨rest, rfl⟩ := isPrefix
  refine ⟨List.take_prefix _ _, ?_⟩
  rw [List.take_length_add_append]
  exact List.prefix_append _ _

/-- What was said, with what is said next. -/
theorem Sound.given_next (sound : net.Sound s) {i : Nat} {item : Port × β}
    (isNext : net.next s i = some item) : s.given i ++ [item] <+: net.said s i := by
  obtain ⟨rest, whole⟩ := sound.given i
  rw [next, ← whole, List.getElem?_append_right (Nat.le_refl _), Nat.sub_self] at isNext
  cases rest with
  | nil => cases isNext
  | cons other rest =>
    obtain rfl : other = item := Option.some.inj isNext
    exact ⟨rest, by rw [← whole, List.append_assoc]; rfl⟩

/-- Where there is nothing more to say, everything was said. -/
theorem Sound.given_all (sound : net.Sound s) {i : Nat} (none : net.next s i = none) :
    s.given i = net.said s i := by
  obtain ⟨rest, whole⟩ := sound.given i
  have short := List.getElem?_eq_none_iff.mp none
  rw [← whole, List.length_append] at short
  have nothing : rest = [] := List.length_eq_zero_iff.mp (by omega)
  rw [← whole, nothing, List.append_nil]

/-- A pipe that a program writes to goes on. -/
theorem text_write (i : Nat) (item : Port × β) (k : κ) :
    (net.write s i item).text k = if net.output i item.1 = some k then s.text k ++ [item.2]
      else s.text k := by
  by_cases goes : net.output i item.1 = some k <;> simp [State.text, write, goes]

theorem source_write (i : Nat) (item : Port × β) (j : Nat) :
    net.source s j <+: net.source (net.write s i item) j := by
  rw [source, source]
  split
  · rename_i k _
    rw [text_write]
    split
    · exact List.prefix_append _ _
    · exact List.prefix_rfl
  · exact List.prefix_rfl

/-- What a writer has in a pipe goes on with what it writes. -/
theorem content_write (i j : Nat) (item : Port × β) (k : κ)
    (sofar : ((s.content k).filter (fun entry => entry.1 = j)).map Prod.snd =
      net.into j k (s.given j)) :
    (((net.write s i item).content k).filter (fun entry => entry.1 = j)).map Prod.snd =
      net.into j k ((net.write s i item).given j) := by
  have content : (net.write s i item).content k =
      if net.output i item.1 = some k then s.content k ++ [(i, item.2)] else s.content k := rfl
  have given : (net.write s i item).given = Function.update s.given i (s.given i ++ [item]) := rfl
  rw [content, given]
  by_cases same : j = i
  · subst same
    rw [Function.update_self, into_append, ← sofar]
    by_cases goes : net.output j item.1 = some k <;> simp [into, goes]
  · rw [Function.update_of_ne same, ← sofar]
    by_cases goes : net.output i item.1 = some k <;> simp [goes, Ne.symm same]

/-- A program reads an item: the next that was written to its pipe. What it has said stays a
beginning of what it says now, since a program takes nothing back. -/
theorem Sound.reads (sound : net.Sound s) {i : Nat} (offered : net.Offers s (.reads i)) :
    net.Sound (net.serve s (.reads i)) := by
  obtain ⟨⟨-, alive⟩, notYet, -⟩ := offered
  obtain ⟨within, grown⟩ := prefix_next (sound.taken i)
  have here : (net.serve s (.reads i)).taken i =
      (net.source s i).take ((s.taken i).length + 1) := Function.update_self _ _ _
  have there {j : Nat} (other : j ≠ i) : (net.serve s (.reads i)).taken j = s.taken j :=
    Function.update_of_ne other _ _
  have said {j : Nat} (other : j ≠ i) : net.said (net.serve s (.reads i)) j = net.said s j := by
    rw [Network.said, there other]
    rfl
  constructor
  · intro j
    by_cases same : j = i
    · subst same
      refine (sound.given j).trans ?_
      rw [Network.said, Network.said, here]
      change (net.program j).utters (s.taken j) (s.sawEnd j) <+:
        (net.program j).utters _ (s.sawEnd j)
      rw [notYet]
      exact (net.program j).more grown
    · rw [said same]
      exact sound.given j
  · intro j
    by_cases same : j = i
    · subst same
      rw [here]
      exact within
    · rw [there same]
      exact sound.taken j
  · exact sound.content
  · intro j seen
    have other : j ≠ i := by
      rintro rfl
      cases notYet.symm.trans seen
    rw [there other]
    exact sound.atEnd j seen
  · intro j ended alsoKilled
    have other : j ≠ i := by
      rintro rfl
      cases alive.symm.trans ended
    rw [there other, said other]
    exact sound.done j ended alsoKilled
  · exact sound.killed

/-- A program sees the end of what it reads. Nobody has the pipe open for writing any more, so
nothing will come in it. -/
theorem Sound.readsEnd (wired : net.Wired) (sound : net.Sound s) {i : Nat}
    (offered : net.Offers s (.readsEnd i)) : net.Sound (net.serve s (.readsEnd i)) := by
  obtain ⟨⟨isStarted, alive⟩, all, closed⟩ := offered
  have here : (net.serve s (.readsEnd i)).sawEnd i = true := Function.update_self _ _ _
  have there {j : Nat} (other : j ≠ i) : (net.serve s (.readsEnd i)).sawEnd j = s.sawEnd j :=
    Function.update_of_ne other _ _
  have said {j : Nat} (other : j ≠ i) : net.said (net.serve s (.readsEnd i)) j = net.said s j := by
    rw [Network.said, there other]
    rfl
  constructor
  · intro j
    by_cases same : j = i
    · subst same
      refine (sound.given j).trans ?_
      rw [Network.said, Network.said, here]
      cases s.sawEnd j with
      | true => exact List.prefix_rfl
      | false => exact (net.program j).last _
    · rw [said same]
      exact sound.given j
  · exact sound.taken
  · exact sound.content
  · intro j seen
    by_cases same : j = i
    · subst same
      refine ⟨all, fun k isInput holder holds => closed k isInput holder ?_ holds⟩
      exact (wired.earlier holder j k isInput holds).trans isStarted
    · rw [there same] at seen
      exact sound.atEnd j seen
  · intro j ended alsoKilled
    have other : j ≠ i := by
      rintro rfl
      cases alive.symm.trans ended
    rw [there other, said other]
    exact sound.done j ended alsoKilled
  · intro j isKilled
    obtain ⟨ended, port, k, goes, readers⟩ := sound.killed j isKilled
    refine ⟨ended, port, k, goes, fun reader isInput => ?_⟩
    obtain ⟨isEnded, unseen⟩ := readers reader isInput
    have other : reader ≠ i := by
      rintro rfl
      cases alive.symm.trans isEnded
    rw [there other]
    exact ⟨isEnded, unseen⟩

/-- A program says an item. -/
theorem Sound.write (wired : net.Wired) (sound : net.Sound s) {i : Nat} {item : Port × β}
    (alive : s.ended i = false) (isNext : net.next s i = some item) :
    net.Sound (net.write s i item) := by
  have here : (net.write s i item).given i = s.given i ++ [item] := Function.update_self _ _ _
  have there {j : Nat} (other : j ≠ i) : (net.write s i item).given j = s.given j :=
    Function.update_of_ne other _ _
  constructor
  · intro j
    by_cases same : j = i
    · subst same
      rw [here]
      exact sound.given_next isNext
    · rw [there same]
      exact sound.given j
  · intro j
    exact (sound.taken j).trans (source_write i item j)
  · intro k j
    exact content_write i j item k (sound.content k j)
  · intro j seen
    obtain ⟨all, closed⟩ := sound.atEnd j seen
    refine ⟨all.trans ?_, closed⟩
    -- whoever could still write to it has ended
    rw [source, source]
    cases isInput : net.input j with
    | none => rfl
    | some k =>
      have notInto : net.output i item.1 ≠ some k := by
        intro goes
        cases alive.symm.trans (closed k isInput i (wired.own i _ k goes))
      simp only [text_write, if_neg notInto]
  · intro j ended notKilled
    have other : j ≠ i := by
      rintro rfl
      cases alive.symm.trans ended
    rw [there other]
    exact sound.done j ended notKilled
  · exact sound.killed

/-- A program is killed. -/
theorem Sound.kill (wired : net.Wired) (sound : net.Sound s) {i : Nat}
    (offered : net.Offers s (.killed i)) : net.Sound (net.serve s (.killed i)) := by
  obtain ⟨⟨-, alive⟩, item, k, isNext, goes, unread⟩ := offered
  have here : (net.serve s (.killed i)).ended i = true := Function.update_self _ _ _
  have marked : (net.serve s (.killed i)).killed i = true := Function.update_self _ _ _
  have later {j : Nat} (ended : s.ended j = true) : (net.serve s (.killed i)).ended j = true := by
    by_cases same : j = i
    · rw [same, here]
    · exact (Function.update_of_ne same _ _).trans ended
  constructor
  · exact sound.given
  · exact sound.taken
  · exact sound.content
  · intro j seen
    obtain ⟨all, closed⟩ := sound.atEnd j seen
    exact ⟨all, fun k isInput holder holds => later (closed k isInput holder holds)⟩
  · intro j ended notKilled
    have other : j ≠ i := by
      rintro rfl
      cases marked.symm.trans notKilled
    exact sound.done j ((Function.update_of_ne other _ _).symm.trans ended)
      ((Function.update_of_ne other _ _).symm.trans notKilled)
  · intro j isKilled
    by_cases same : j = i
    · subst same
      refine ⟨here, item.1, k, goes, fun reader isInput => ⟨later (unread reader isInput), ?_⟩⟩
      refine Bool.eq_false_iff.mpr (fun seen => ?_)
      have closed := (sound.atEnd reader seen).2 k isInput j (wired.own j _ k goes)
      cases alive.symm.trans closed
    · obtain ⟨ended, port, k, goes, readers⟩ :=
        sound.killed j ((Function.update_of_ne same _ _).symm.trans isKilled)
      exact ⟨later ended, port, k, goes, fun reader isInput =>
        ⟨later (readers reader isInput).1, (readers reader isInput).2⟩⟩

/-- A program ends. -/
theorem Sound.ends (sound : net.Sound s) {i : Nat} (offered : net.Offers s (.ends i)) :
    net.Sound (net.serve s (.ends i)) := by
  obtain ⟨⟨-, alive⟩, none, isEnd⟩ := offered
  have later {j : Nat} (ended : s.ended j = true) : (net.serve s (.ends i)).ended j = true := by
    by_cases same : j = i
    · rw [same]
      exact Function.update_self _ _ _
    · exact (Function.update_of_ne same _ _).trans ended
  constructor
  · exact sound.given
  · exact sound.taken
  · exact sound.content
  · intro j seen
    obtain ⟨all, closed⟩ := sound.atEnd j seen
    exact ⟨all, fun k isInput holder holds => later (closed k isInput holder holds)⟩
  · intro j ended notKilled
    by_cases same : j = i
    · subst same
      exact ⟨sound.given_all none, isEnd⟩
    · exact sound.done j ((Function.update_of_ne same _ _).symm.trans ended) notKilled
  · intro j isKilled
    obtain ⟨ended, port, k, goes, readers⟩ := sound.killed j isKilled
    exact ⟨later ended, port, k, goes, fun reader isInput =>
      ⟨later (readers reader isInput).1, (readers reader isInput).2⟩⟩

/-- Every step keeps it. What a pipe holds is changed at its two ends, by a writer and by its
reader, and the cases are those of the events. -/
theorem Sound.serve (wired : net.Wired) (sound : net.Sound s) {event : Event}
    (offered : net.Offers s event) : net.Sound (net.serve s event) := by
  cases event with
  | start =>
    exact ⟨sound.given, sound.taken, sound.content, sound.atEnd, sound.done, sound.killed⟩
  | reads i => exact sound.reads offered
  | readsEnd i => exact sound.readsEnd wired offered
  | writes i =>
    obtain ⟨⟨-, alive⟩, isSome⟩ := offered
    obtain ⟨item, isNext⟩ := Option.isSome_iff_exists.mp isSome
    rw [Network.serve, isNext]
    exact sound.write wired alive isNext
  | killed i => exact sound.kill wired offered
  | ends i => exact sound.ends offered

/-- In every run every pipe is in order: by induction, from the start where they are all empty. -/
theorem run_sound (wired : net.Wired) {events : List Event}
    (run : Run net.system always events s) : net.Sound s := by
  apply run.invariant net.Sound
  · exact ⟨fun _ => List.nil_prefix, fun _ => List.nil_prefix, fun _ _ => rfl,
      (fun _ seen => nomatch seen), (fun _ ended => nomatch ended),
      (fun _ killed => nomatch killed)⟩
  · rintro s event t sound offered - served
    cases served
    exact sound.serve wired offered

end Sound

/-! ## What is computed -/

/-- What a program passes on: what it says into the pipe behind its output. -/
def passed (i : Nat) (items : List (Port × β)) : List β :=
  (items.filter (fun item => net.output i item.1 = net.output i .out)).map Prod.snd

/-- A program reads from the pipe behind the output of another, which is nobody else's, and to
which that one writes alone. -/
structure Linked (i j : Nat) (k : κ) : Prop where
  output : net.output i .out = some k
  input : net.input j = some k
  sole : ∀ other port, net.output other port = some k → other = i
  only : ∀ port other, net.output i port = some other → other = k

/-- What the last of some programs says, when each reads what the one before it passes on. -/
def flow : Nat → List (Port × β) → List Nat → List (Port × β)
  | _, items, [] => items
  | i, items, j :: rest => flow j ((net.program j).utters (net.passed i items) true) rest

section Computed

variable {net : Network κ β} {s : State κ β}

/-- A program that reads to the end has said what it says to all there was. -/
theorem Sound.filtered (sound : net.Sound s) {j : Nat} (isFilter : (net.program j).Filter)
    (ended : s.ended j = true) (notKilled : s.killed j = false) : s.sawEnd j = true ∧
      s.given j = (net.program j).utters (net.source s j) true := by
  obtain ⟨given, ends⟩ := sound.done j ended notKilled
  have seen : s.sawEnd j = true := by
    by_contra unseen
    rw [Bool.not_eq_true] at unseen
    rw [unseen, isFilter] at ends
    cases ends
  refine ⟨seen, ?_⟩
  rw [given, said, seen, (sound.atEnd j seen).1]

/-- Whoever has an entry in a pipe writes to it. -/
theorem Sound.writer (sound : net.Sound s) {k : κ} {entry : Nat × β}
    (member : entry ∈ s.content k) : ∃ port, net.output entry.1 port = some k := by
  have here : entry.2 ∈ net.into entry.1 k (s.given entry.1) := by
    rw [← sound.content]
    exact List.mem_map.mpr ⟨entry, List.mem_filter.mpr ⟨member, by simp⟩, rfl⟩
  obtain ⟨item, isItem, -⟩ := List.mem_map.mp here
  exact ⟨item.1, by simpa using (List.mem_filter.mp isItem).2⟩

/-- A pipe with one writer carries what that passes on. -/
theorem Sound.linked (sound : net.Sound s) {i j : Nat} {k : κ} (linked : net.Linked i j k) :
    net.source s j = net.passed i (s.given i) := by
  have all : (s.content k).filter (fun entry => entry.1 = i) = s.content k := by
    rw [List.filter_eq_self]
    intro entry member
    obtain ⟨port, goes⟩ := sound.writer member
    simpa using linked.sole _ _ goes
  have carried := sound.content k i
  rw [all] at carried
  rw [source, linked.input]
  refine carried.trans ?_
  rw [into, passed, linked.output]

/-- In a chain of programs that read to the end, if the last has ended by itself then all have,
and it has said the composition of what they say.

By induction on the chain. One that reads to the end and has ended has seen the end of its pipe;
so its writer has ended too, and was not killed, for the pipe still had its reader then. -/
theorem run_pipeline (wired : net.Wired) {events : List Event}
    (run : Run net.system always events s) {i : Nat} {rest : List Nat}
    (chain : List.IsChain (fun i j => ∃ k, net.Linked i j k) (i :: rest))
    (filters : ∀ j ∈ rest, (net.program j).Filter)
    (ended : s.ended ((i :: rest).getLast (List.cons_ne_nil _ _)) = true)
    (notKilled : s.killed ((i :: rest).getLast (List.cons_ne_nil _ _)) = false) :
    (∀ j ∈ i :: rest, s.ended j = true ∧ s.killed j = false) ∧
      s.given ((i :: rest).getLast (List.cons_ne_nil _ _)) = net.flow i (s.given i) rest := by
  have sound := run_sound wired run
  induction rest generalizing i with
  | nil =>
    refine ⟨fun j member => ?_, rfl⟩
    rw [List.mem_singleton.mp member]
    exact ⟨ended, notKilled⟩
  | cons j rest ih =>
    obtain ⟨⟨k, linked⟩, chain⟩ := List.isChain_cons_cons.mp chain
    rw [List.getLast_cons (List.cons_ne_nil _ _)] at ended notKilled ⊢
    obtain ⟨all, composed⟩ :=
      ih chain (fun j member => filters j (List.mem_cons_of_mem _ member)) ended notKilled
    obtain ⟨endedHere, notKilledHere⟩ := all j List.mem_cons_self
    obtain ⟨seen, given⟩ := sound.filtered (filters j List.mem_cons_self) endedHere notKilledHere
    have writerEnded : s.ended i = true :=
      (sound.atEnd j seen).2 k linked.input i (wired.own i _ k linked.output)
    have writerLives : s.killed i = false := by
      -- its reader was still there
      refine Bool.eq_false_iff.mpr (fun killed => ?_)
      obtain ⟨-, port, other, goes, readers⟩ := sound.killed i killed
      obtain rfl := linked.only port other goes
      cases seen.symm.trans (readers j linked.input).2
    constructor
    · intro other member
      rcases List.mem_cons.mp member with rfl | later
      · exact ⟨writerEnded, writerLives⟩
      · exact all other later
    · rw [composed, given, sound.linked linked]
      rfl

end Computed

end Network

end NetProg.Networks
