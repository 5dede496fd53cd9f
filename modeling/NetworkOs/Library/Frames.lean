import Mathlib

/-! A shared channel that is read slot by slot: between its frames it is silent or sees
collisions, and a frame is a success followed by slots that it keeps busy. -/
namespace NetworkOs.Frames

inductive Event (α : Type*)
  | silent
  | collision
  | success (sender : α)
  | busy
deriving DecidableEq, Repr

inductive Block (α : Type*)
  | silent
  | collision
  | frame (sender : α) (length : Nat)
deriving DecidableEq, Repr

section Blocks
variable {α : Type*}

/-- The first slots of a frame. -/
def sent (sender : α) (slots : Nat) : List (Event α) := .success sender :: List.replicate (slots - 1) .busy

def Block.events : Block α → List (Event α)
  | .silent => [.silent]
  | .collision => [.collision]
  | .frame sender length => sent sender length

/-- A frame's length is within these bounds. -/
def Block.Fits (least greatest : Nat) : Block α → Prop
  | .frame _ length => least ≤ length ∧ length ≤ greatest
  | _ => True

/-- The events of the blocks, and the slots so far of a frame that is not over. -/
structure Reads (least greatest : Nat) (events : List (Event α)) (blocks : List (Block α))
    (sending : Option (α × Nat)) : Prop where
  events : events = blocks.flatMap Block.events ++
    sending.elim [] fun frame => sent frame.1 frame.2
  fits : ∀ block ∈ blocks, block.Fits least greatest
  sending : ∀ frame ∈ sending, 1 ≤ frame.2 ∧ frame.2 < greatest

variable {least greatest : Nat} {events : List (Event α)} {blocks : List (Block α)}

theorem Reads.nil : Reads least greatest ([] : List (Event α)) [] none := ⟨rfl, nofun, nofun⟩

theorem fits_concat {block : Block α} (fits : ∀ b ∈ blocks, b.Fits least greatest)
    (last : block.Fits least greatest) : ∀ b ∈ blocks ++ [block], b.Fits least greatest := by
  intro b member
  rcases List.mem_append.mp member with earlier | own
  · exact fits b earlier
  · exact List.mem_singleton.mp own ▸ last

theorem Reads.silent (h : Reads least greatest events blocks none) :
    Reads least greatest (events ++ [.silent]) (blocks ++ [.silent]) none := by
  refine ⟨?_, fits_concat h.fits trivial, nofun⟩
  simp [h.events, Block.events]

theorem Reads.collision (h : Reads least greatest events blocks none) :
    Reads least greatest (events ++ [.collision]) (blocks ++ [.collision]) none := by
  refine ⟨?_, fits_concat h.fits trivial, nofun⟩
  simp [h.events, Block.events]

theorem Reads.success (h : Reads least greatest events blocks none) (sender : α) (room : 1 < greatest) :
    Reads least greatest (events ++ [.success sender]) blocks (some (sender, 1)) := by
  refine ⟨?_, h.fits, ?_⟩
  · simp [h.events, sent]
  · rintro frame ⟨⟩
    exact ⟨le_rfl, room⟩

theorem sent_concat (sender : α) {slots : Nat} (started : 1 ≤ slots) :
    sent sender slots ++ [.busy] = sent sender (slots + 1) := by
  rw [sent, List.cons_append, ← List.replicate_succ', Nat.sub_add_cancel started, sent, Nat.add_sub_cancel]

theorem Reads.busy {sender : α} {slots : Nat} (h : Reads least greatest events blocks (some (sender, slots)))
    (room : slots + 1 < greatest) :
    Reads least greatest (events ++ [.busy]) blocks (some (sender, slots + 1)) := by
  refine ⟨?_, h.fits, ?_⟩
  · rw [h.events, List.append_assoc]
    exact congrArg _ (sent_concat sender (h.sending _ rfl).1)
  · rintro frame ⟨⟩
    exact ⟨Nat.le_add_left 1 slots, room⟩

/-- The last slot of a frame. -/
theorem Reads.finish {sender : α} {slots : Nat} (h : Reads least greatest events blocks (some (sender, slots)))
    (enough : least ≤ slots + 1) :
    Reads least greatest (events ++ [.busy]) (blocks ++ [.frame sender (slots + 1)]) none := by
  obtain ⟨started, room⟩ := h.sending _ rfl
  refine ⟨?_, fits_concat h.fits ⟨enough, room⟩, nofun⟩
  rw [h.events, List.append_assoc, List.flatMap_append, Option.elim_none, List.append_nil, List.flatMap_singleton]
  exact congrArg _ (sent_concat sender started)

end Blocks

section Counts
variable {α : Type*} [DecidableEq α] {least greatest : Nat} {events : List (Event α)} {blocks : List (Block α)}
  {sending : Option (α × Nat)}

def Event.isSuccess : Event α → Bool
  | .success _ => true
  | _ => false

theorem sent_counts (sender : α) {slots : Nat} (started : 1 ≤ slots) :
    (sent sender slots).countP Event.isSuccess = 1 ∧ (sent sender slots).count .collision = 0 ∧
      (sent sender slots).length = slots := by
  refine ⟨?_, ?_, ?_⟩
  · rw [sent, List.countP_cons_of_pos rfl, List.countP_replicate]
    rfl
  · simp [sent, List.count_replicate]
  · rw [sent, List.length_cons, List.length_replicate, Nat.sub_add_cancel started]

/-- A collision takes a slot, and a frame its least length of them. -/
theorem load_le_slots (some_ : 1 ≤ least) (fits : ∀ block ∈ blocks, block.Fits least greatest) :
    least * (blocks.flatMap Block.events).countP Event.isSuccess + (blocks.flatMap Block.events).count .collision ≤
      (blocks.flatMap Block.events).length := by
  induction blocks with
  | nil => exact Nat.le_refl 0
  | cons block rest ih =>
      have later := ih fun b member => fits b (List.mem_cons_of_mem block member)
      have own : least * block.events.countP Event.isSuccess + block.events.count .collision ≤
          block.events.length := by
        have fit := fits block List.mem_cons_self
        cases block with
        | silent => simp [Block.events, Event.isSuccess]
        | collision => simp [Block.events, Event.isSuccess]
        | frame sender length =>
            have within : least ≤ length := fit.1
            obtain ⟨successes, collisions, slots⟩ := sent_counts sender (some_.trans within)
            rw [Block.events, successes, collisions, slots]
            omega
      simp only [List.flatMap_cons, List.countP_append, List.count_append, List.length_append, Nat.mul_add]
      omega

/-- A frame that is not over has a slot at least. -/
theorem Reads.load_le (h : Reads least greatest events blocks sending) (some_ : 1 ≤ least) :
    least * events.countP Event.isSuccess + events.count .collision ≤ events.length + (least - 1) := by
  have whole := load_le_slots some_ h.fits
  rw [h.events]
  cases sending with
  | none =>
      rw [Option.elim_none, List.append_nil]
      omega
  | some frame =>
      have started := (h.sending frame rfl).1
      obtain ⟨successes, collisions, slots⟩ := sent_counts frame.1 started
      rw [Option.elim_some, List.countP_append, List.count_append, List.length_append, Nat.mul_add, successes,
        collisions, slots]
      omega

/-- The successes are the successes of each sender. -/
theorem countP_isSuccess [Fintype α] (events : List (Event α)) :
    events.countP Event.isSuccess = ∑ sender, events.count (.success sender) := by
  induction events with
  | nil => simp
  | cons event rest ih =>
      rw [List.countP_cons, ih]
      cases event with
      | success sender => simp [Event.isSuccess, List.count_cons, Finset.sum_add_distrib]
      | silent => simp [Event.isSuccess]
      | collision => simp [Event.isSuccess]
      | busy => simp [Event.isSuccess]

end Counts
end NetworkOs.Frames
