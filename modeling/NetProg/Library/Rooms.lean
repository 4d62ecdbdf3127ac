import Mathlib.Data.Finset.Basic

/-!
# Rooms

In a room everybody who is there hears what is said, and somebody can be whispered to.
Members enter and leave. What is said in a stretch of moves is one sequence, and a member
who is there from its beginning to its end hears that sequence, with what was whispered to
it in between. So members to whom nothing is whispered hear the same, in the same order.
-/

namespace NetProg.Rooms

universe u v
variable {μ : Type u} {τ : Type v} [DecidableEq μ]

/-- Who is there, and what everybody has heard so far, those who have left included. -/
structure Room (μ : Type u) (τ : Type v) where
  members : Finset μ
  heard : μ → List τ

/-- What happens in a room. -/
inductive Move (μ : Type u) (τ : Type v) where
  | enters (member : μ)
  | leaves (member : μ)
  | speaks (text : τ)
  | whispers (member : μ) (text : τ)

/-- One move. -/
def Room.step (room : Room μ τ) : Move μ τ → Room μ τ
  | .enters member => { room with members := insert member room.members }
  | .leaves member => { room with members := room.members.erase member }
  | .speaks text => { room with
      heard := fun member =>
        if member ∈ room.members then room.heard member ++ [text] else room.heard member }
  | .whispers whom text => { room with
      heard := fun member =>
        if member = whom then room.heard member ++ [text] else room.heard member }

/-- One move after the other. -/
def Room.run (room : Room μ τ) (moves : List (Move μ τ)) : Room μ τ := moves.foldl Room.step room

/-- What a member who is there hears of a move. -/
def hears (member : μ) : Move μ τ → Option τ
  | .speaks text => some text
  | .whispers whom text => if member = whom then some text else none
  | .enters _ | .leaves _ => none

/-- What is said by a move. -/
def said : Move μ τ → Option τ
  | .speaks text => some text
  | .enters _ | .leaves _ | .whispers _ _ => none

section Run

variable {room : Room μ τ} {member : μ} {moves : List (Move μ τ)}

theorem Room.run_append (room : Room μ τ) (first second : List (Move μ τ)) :
    room.run (first ++ second) = (room.run first).run second := List.foldl_append

theorem Room.run_cons (room : Room μ τ) (move : Move μ τ) (rest : List (Move μ τ)) :
    room.run (move :: rest) = (room.step move).run rest := rfl

/-- A member stays unless it leaves, and hears what is said and what is whispered to it. -/
theorem heard_step (present : member ∈ room.members) {move : Move μ τ}
    (stays : move ≠ .leaves member) : member ∈ (room.step move).members ∧
      (room.step move).heard member = room.heard member ++ (hears member move).toList := by
  cases move with
  | enters other => exact ⟨Finset.mem_insert_of_mem present, by simp [Room.step, hears]⟩
  | leaves other =>
    have apart : member ≠ other := fun same => stays (by rw [same])
    exact ⟨Finset.mem_erase_of_ne_of_mem apart present, by simp [Room.step, hears]⟩
  | speaks text => exact ⟨present, by simp [Room.step, hears, present]⟩
  | whispers whom text =>
    refine ⟨present, ?_⟩
    by_cases same : member = whom <;> simp [Room.step, hears, same]

/-- So it is through all moves. -/
theorem heard_run (present : member ∈ room.members) (stays : .leaves member ∉ moves) :
    member ∈ (room.run moves).members ∧
      (room.run moves).heard member = room.heard member ++ moves.filterMap (hears member) := by
  induction moves generalizing room with
  | nil => exact ⟨present, by simp [Room.run]⟩
  | cons move rest ih =>
    have here : move ≠ .leaves member := fun same => stays (by rw [same]; exact List.mem_cons_self)
    obtain ⟨stillPresent, heard⟩ := heard_step present here
    obtain ⟨after, all⟩ := ih stillPresent (fun later => stays (List.mem_cons_of_mem _ later))
    refine ⟨after, ?_⟩
    rw [Room.run_cons, all, heard, List.append_assoc, List.filterMap_cons]
    cases hears member move <;> rfl

/-- A member to whom nothing is whispered hears what is said, and nothing else. -/
theorem heard_said (present : member ∈ room.members) (stays : .leaves member ∉ moves)
    (alone : ∀ text, .whispers member text ∉ moves) :
    (room.run moves).heard member = room.heard member ++ moves.filterMap said := by
  rw [(heard_run present stays).2]
  congr 1
  refine List.filterMap_congr (fun move isMove => ?_)
  cases move with
  | enters | leaves | speaks => rfl
  | whispers whom text =>
    have apart : member ≠ whom := fun same => alone text (same ▸ isMove)
    simp [hears, said, apart]

end Run

end NetProg.Rooms
