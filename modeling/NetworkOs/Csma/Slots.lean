import NetworkOs.Library.Sweep
import NetworkOs.Csma.Simulation

/-! What one slot does to the counters of the nodes and to the channel. -/
namespace NetworkOs.Csma
open Sweep

/-- How often the nodes have succeeded and collided. -/
@[ext] structure Tallies (n : Nat) where
  successes : Fin n → Nat
  collisions : Fin n → Nat
  counter : Nat

/-- The tallies after a slot in which these nodes succeed and these collide. -/
def Tallies.after {n : Nat} (succeeded collided : Finset (Fin n)) (before : Tallies n) : Tallies n where
  successes k := before.successes k + if k ∈ succeeded then 1 else 0
  collisions k := before.collisions k + if k ∈ collided then 1 else 0
  counter := before.counter + if collided.Nonempty then 1 else 0

structure Channel (n : Nat) where
  busy : Bool
  node : Option (Fin n)
  timer : Nat
  time : Nat
deriving DecidableEq

section Slots
variable {n : Nat} {p : Parameters} {s : Sim n}

def Sim.tallies (s : Sim n) : Tallies n where
  successes k := (s.nodes k).successfulTransmissions
  collisions k := (s.nodes k).collisionCount
  counter := s.globalCollisionCounter

def Sim.channel (s : Sim n) : Channel n :=
  ⟨s.channelBusy, s.channelbusynode, s.transmissionTimer, s.transmissionTime⟩

theorem Node.ready_iff {node : Node} :
    node.ready = true ↔ node.backoffInterval = 0 ∧ node.istransmitting = true := by
  simp [Node.ready, Node.attemptTransmission]

/-- What counting a node's tallies sees of it. -/
def Node.tally (node : Node) : Nat × Nat := (node.successfulTransmissions, node.collisionCount)

@[simp] theorem Node.countDown_tally (node : Node) : node.countDown.tally = node.tally := by
  unfold Node.countDown
  split_ifs <;> rfl

@[simp] theorem Node.drawTransmission_tally (transmits : Nat → Bool) (random : Nat) (node : Node) :
    (node.drawTransmission transmits random).tally = node.tally := rfl

@[simp] theorem Node.performBusyBackoff_tally (backoffChannelBusy random : Nat) (node : Node) :
    (node.performBusyBackoff backoffChannelBusy random).tally = node.tally := rfl

theorem tallies_congr {t : Sim n} (nodes : ∀ k, (t.nodes k).tally = (s.nodes k).tally)
    (counter : t.globalCollisionCounter = s.globalCollisionCounter) : t.tallies = s.tallies := by
  refine Tallies.ext (funext fun k => ?_) (funext fun k => ?_) counter
  · exact congrArg Prod.fst (nodes k)
  · exact congrArg Prod.snd (nodes k)

theorem modify_tallies {f : Node → Node} (same : ∀ node, (f node).tally = node.tally) (k : Fin n) (s : Sim n) :
    (s.modify f k).tallies = s.tallies := by
  refine tallies_congr (fun j => ?_) rfl
  by_cases own : j = k
  · subst own
    simp [Sim.modify, same]
  · simp [Sim.modify, own]

theorem modifyDrawing_tallies {f : Nat → Node → Node} (same : ∀ r node, (f r node).tally = node.tally)
    (k : Fin n) (s : Sim n) : (s.modifyDrawing p f k).tallies = s.tallies :=
  modify_tallies (same _) k s

theorem draws_tallies (s : Sim n) : (draws p s).tallies = s.tallies := by
  refine foldl_keeps (fun s k => ?_) _ s
  unfold drawNode
  split_ifs
  · rfl
  · exact modifyDrawing_tallies (Node.drawTransmission_tally _) k s

theorem draws_channel (s : Sim n) : (draws p s).channel = s.channel := by
  refine foldl_keeps (fun s k => ?_) _ s
  unfold drawNode
  split_ifs <;> rfl

theorem busySlot_tallies (s : Sim n) : (busySlot p s).tallies = s.tallies := by
  have loop : ∀ s : Sim n, ((List.finRange n).foldl (busyNode p) s).tallies = s.tallies := by
    refine foldl_keeps (fun s k => ?_) _
    unfold busyNode
    split_ifs
    · exact modifyDrawing_tallies (Node.performBusyBackoff_tally _) k s
    · rfl
    · exact modify_tallies Node.countDown_tally k s
  have finish : ∀ s : Sim n, (finishTransmission p s).tallies = s.tallies := by
    intro s
    unfold finishTransmission
    split_ifs <;> rfl
  exact (finish _).trans (loop _)

/-- A busy slot counts the timer up to the transmission time, and then frees the channel. -/
theorem busySlot_channel (s : Sim n) :
    (s.transmissionTimer + 1 = s.transmissionTime → (busySlot p s).channelBusy = false ∧
      (busySlot p s).transmissionTimer = 0 ∧ 2 ≤ (busySlot p s).transmissionTime) ∧
    (s.transmissionTimer + 1 ≠ s.transmissionTime →
      (busySlot p s).channel = { s.channel with timer := s.transmissionTimer + 1 }) := by
  have loop : ∀ s : Sim n, ((List.finRange n).foldl (busyNode p) s).channel = s.channel := by
    refine foldl_keeps (fun s k => ?_) _
    unfold busyNode
    split_ifs <;> rfl
  have after := loop { s with transmissionTimer := s.transmissionTimer + 1 }
  unfold busySlot finishTransmission
  generalize (List.finRange n).foldl (busyNode p) _ = t at after
  have timer : t.transmissionTimer = s.transmissionTimer + 1 := congrArg Channel.timer after
  have time : t.transmissionTime = s.transmissionTime := congrArg Channel.time after
  rw [timer, time]
  constructor
  · intro whole
    rw [if_pos whole]
    exact ⟨rfl, rfl, Nat.le_add_left 2 _⟩
  · intro part
    rw [if_neg part]
    exact after

theorem idleNodes_quiet {time : Nat} {l : List (Fin n)} (once : l.Nodup)
    (quiet : ∀ k ∈ l, ¬ (s.nodes k).ready = true) : l.foldl (idleNode p time) s =
      { s with nodes := fun k => if k ∈ l then (s.nodes k).countDown else s.nodes k } := by
  induction l generalizing s with
  | nil => simp
  | cons k rest ih =>
      rw [List.nodup_cons] at once
      have first : idleNode p time s k = s.modify Node.countDown k :=
        if_neg (quiet k List.mem_cons_self)
      have others : ∀ j ∈ rest, (s.modify Node.countDown k).nodes j = s.nodes j := by
        intro j later
        have apart : j ≠ k := fun same => once.1 (same ▸ later)
        exact Function.update_of_ne apart _ _
      rw [List.foldl_cons, first, ih once.2 fun j later => by
        rw [others j later]
        exact quiet j (List.mem_cons_of_mem k later)]
      congr 1
      funext j
      by_cases own : j = k
      · subst own
        simp [once.1, Sim.modify]
      · simp [own, Sim.modify]

theorem idleNodes_quiet_effect (p : Parameters) (time : Nat) {l : List (Fin n)} (once : l.Nodup)
    (quiet : ∀ k ∈ l, ¬ (s.nodes k).ready = true) :
    (l.foldl (idleNode p time) s).tallies = s.tallies ∧ (l.foldl (idleNode p time) s).channel = s.channel := by
  rw [idleNodes_quiet once quiet]
  refine ⟨tallies_congr (fun k => ?_) rfl, rfl⟩
  by_cases member : k ∈ l
  · simp [member]
  · simp [member]

end Slots
end NetworkOs.Csma
