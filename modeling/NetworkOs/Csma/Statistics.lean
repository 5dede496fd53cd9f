import NetworkOs.Library.Census
import NetworkOs.Csma.Channel

/-! The statistics that the simulation prints. They are kept in several places and agree
after every slot. -/
namespace NetworkOs.Csma
open Census

/-- What is printed for a node. -/
structure NodeStatistics where
  collisionCount : Nat
  successfulTransmissions : Nat
  collisionsBeforeSuccess : List Nat
  timeBeforeSuccess : List Nat
deriving DecidableEq, Repr

def Node.statistics (node : Node) : NodeStatistics :=
  ⟨node.collisionCount, node.successfulTransmissions, node.collisionsBeforeSuccess, node.timeBeforeSuccess⟩

/-- The statistics tell of slots before `time`, `pending` collisions are not yet followed by
a success. -/
structure NodeStatistics.Agree (pending time : Nat) (stats : NodeStatistics) : Prop where
  collisions : stats.collisionsBeforeSuccess.sum + pending = stats.collisionCount
  successes : stats.collisionsBeforeSuccess.length = stats.successfulTransmissions
  times : stats.timeBeforeSuccess.length = stats.successfulTransmissions
  increasing : stats.timeBeforeSuccess.Pairwise (· < ·)
  past : ∀ u ∈ stats.timeBeforeSuccess, u < time

/-- The statistics of each node agree, and tell of slots before the node's `bound`. -/
def Recorded {n : Nat} (bound : Fin n → Nat) (s : Sim n) : Prop :=
  ∀ k, (s.nodes k).statistics.Agree (s.countcollisions k) (bound k)

def Sim.collisionTotal {n : Nat} (s : Sim n) : Nat := ∑ k, (s.nodes k).collisionCount

section Statistics
variable {n : Nat} {p : Parameters} {s : Sim n} {bound : Fin n → Nat} {time : Nat} {k : Fin n}

@[simp] theorem Node.countDown_statistics (node : Node) : node.countDown.statistics = node.statistics := by
  unfold Node.countDown
  split_ifs <;> rfl

theorem NodeStatistics.Agree.later {pending : Nat} {stats : NodeStatistics} (h : stats.Agree pending time)
    {time' : Nat} (le : time ≤ time') : stats.Agree pending time' :=
  ⟨h.collisions, h.successes, h.times, h.increasing, fun u member => (h.past u member).trans_le le⟩

theorem Node.agree_countCollision {pending : Nat} {node : Node} (h : node.statistics.Agree pending time) :
    node.countCollision.statistics.Agree (pending + 1) time :=
  ⟨congrArg (· + 1) h.collisions, h.successes, h.times, h.increasing, h.past⟩

theorem Node.agree_recordSuccess {pending : Nat} {node : Node} (h : node.statistics.Agree pending time) :
    (node.recordSuccess pending time).statistics.Agree 0 (time + 1) := by
  refine ⟨?_, ?_, ?_, ?_, fun u member => ?_⟩
  · change (node.collisionsBeforeSuccess ++ [pending]).sum + 0 = node.collisionCount
    rw [List.sum_append_nat, List.sum_singleton]
    exact h.collisions
  · exact (List.length_append ..).trans (congrArg (· + 1) h.successes)
  · exact (List.length_append ..).trans (congrArg (· + 1) h.times)
  · refine List.pairwise_append.mpr ⟨h.increasing, List.pairwise_singleton _ _, fun u member v last => ?_⟩
    rw [List.mem_singleton.mp last]
    exact h.past u member
  · rcases List.mem_append.mp member with earlier | last
    · exact (h.past u earlier).trans (Nat.lt_succ_self time)
    · rw [List.mem_singleton.mp last]
      exact Nat.lt_succ_self time

/-- One node and its pending collisions change, and the others stay. -/
theorem Recorded.update (h : Recorded bound s) {t : Sim n} (k : Fin n)
    (own : (t.nodes k).statistics.Agree (t.countcollisions k) (bound k))
    (others : ∀ j, j ≠ k → t.nodes j = s.nodes j ∧ t.countcollisions j = s.countcollisions j) : Recorded bound t := by
  intro j
  by_cases same : j = k
  · subst same
    exact own
  · rw [(others j same).1, (others j same).2]
    exact h j

theorem Recorded.modify (h : Recorded bound s) {f : Node → Node}
    (same : ∀ node, (f node).statistics = node.statistics) (k : Fin n) : Recorded bound (s.modify f k) := by
  refine h.update k ?_ fun j other => ⟨Function.update_of_ne other _ _, rfl⟩
  change (Function.update s.nodes k (f (s.nodes k)) k).statistics.Agree (s.countcollisions k) (bound k)
  rw [Function.update_self, same]
  exact h k

theorem Recorded.modifyDrawing (h : Recorded bound s) {f : Nat → Node → Node}
    (same : ∀ r node, (f r node).statistics = node.statistics) (k : Fin n) :
    Recorded bound (s.modifyDrawing p f k) := h.modify (same _) k

theorem Recorded.draws (h : Recorded bound s) : Recorded bound (draws p s) := by
  refine List.foldlRecOn _ _ h fun s h k _ => ?_
  unfold drawNode
  split_ifs
  · exact h
  · exact h.modifyDrawing (f := Node.drawTransmission p.transmits) (fun _ _ => rfl) k

theorem Recorded.busySlot (h : Recorded bound s) : Recorded bound (busySlot p s) := by
  have loop : Recorded bound
      ((List.finRange n).foldl (busyNode p) { s with transmissionTimer := s.transmissionTimer + 1 }) := by
    refine List.foldlRecOn _ _ h fun s h k _ => ?_
    unfold busyNode
    split_ifs
    · exact h.modifyDrawing (f := Node.performBusyBackoff p.backoffChannelBusy) (fun _ _ => rfl) k
    · exact h
    · exact h.modify Node.countDown_statistics k
  unfold Csma.busySlot finishTransmission
  split_ifs
  · exact loop
  · exact loop

/-- A collision of `k` is counted in both places. -/
theorem Recorded.count (h : Recorded bound s) {t : Sim n} (k : Fin n) (random : Nat)
    (nodes : t.nodes = Function.update s.nodes k ((s.nodes k).countCollision.performBackoff p.maxBackoff random))
    (pending : t.countcollisions = Function.update s.countcollisions k (s.countcollisions k + 1)) :
    Recorded bound t := by
  refine h.update k ?_ fun j other => ?_
  · rw [nodes, pending, Function.update_self, Function.update_self]
    exact Node.agree_countCollision (h k)
  · rw [nodes, pending, Function.update_of_ne other, Function.update_of_ne other]
    exact ⟨rfl, rfl⟩

theorem modify_modify (f g : Node → Node) (k : Fin n) (s : Sim n) :
    ((s.modify g k).modify f k).nodes = Function.update s.nodes k (f (g (s.nodes k))) := by
  simp [Sim.modify]

theorem checkCollision_hit {found : Sim n × Nat} {j : Fin n} (hit : k ≠ j ∧ (found.1.nodes j).ready = true) :
    (checkCollision p k found j).1.nodes = Function.update found.1.nodes j
        ((found.1.nodes j).countCollision.performBackoff p.maxBackoff (p.rand found.1.drawn)) ∧
      (checkCollision p k found j).1.countcollisions =
        Function.update found.1.countcollisions j (found.1.countcollisions j + 1) ∧
      (checkCollision p k found j).2 = found.2 + 1 := by
  rw [checkCollision, if_pos hit]
  exact ⟨modify_modify _ _ j _, rfl, rfl⟩

theorem collide_parts (k : Fin n) (s : Sim n) : (collide p k s).nodes = Function.update s.nodes k
      ((s.nodes k).countCollision.performBackoff p.maxBackoff (p.rand s.drawn)) ∧
    (collide p k s).countcollisions = Function.update s.countcollisions k (s.countcollisions k + 1) :=
  ⟨modify_modify _ _ k _, rfl⟩

theorem Recorded.checked (h : Recorded bound s) (k : Fin n) :
    Recorded bound ((List.finRange n).foldl (checkCollision p k) (s, 0)).1 := by
  refine List.foldlRecOn (motive := fun found : Sim n × Nat => Recorded bound found.1) _ _ h fun found h j _ => ?_
  by_cases hit : k ≠ j ∧ (found.1.nodes j).ready = true
  · obtain ⟨nodes, pending, _⟩ := checkCollision_hit (p := p) hit
    exact h.count j _ nodes pending
  · rw [checkCollision, if_neg hit]
    exact h

theorem Recorded.collide (h : Recorded bound s) (k : Fin n) : Recorded bound (collide p k s) := by
  obtain ⟨nodes, pending⟩ := collide_parts (p := p) k s
  exact h.count k _ nodes pending

theorem Recorded.succeed (h : Recorded bound s) (last : bound k = time) :
    Recorded (Function.update bound k (time + 1)) (succeed p time k s) := by
  intro j
  by_cases same : j = k
  · subst same
    have own : ((s.nodes j).drawTransmission p.transmits (p.rand s.drawn)).statistics.Agree (s.countcollisions j) time :=
      last ▸ h j
    simpa [Csma.succeed, Sim.modifyDrawing, Sim.modify] using Node.agree_recordSuccess own
  · have others := (succeed_effect (p := p) time k s).2.2 j same
    rw [Function.update_of_ne same, others]
    change (s.nodes j).statistics.Agree (Function.update s.countcollisions k 0 j) (bound j)
    rw [Function.update_of_ne same]
    exact h j

/-- The visit of one node may record a success at `time`. -/
theorem Recorded.idleNode (h : Recorded bound s) (last : bound k = time) :
    Recorded (Function.update bound k (time + 1)) (idleNode p time s k) := by
  have later : ∀ {t : Sim n}, Recorded bound t → Recorded (Function.update bound k (time + 1)) t := by
    intro t h j
    by_cases same : j = k
    · subst same
      rw [Function.update_self]
      exact (h j).later (by omega)
    · rw [Function.update_of_ne same]
      exact h j
  unfold Csma.idleNode
  dsimp only
  split_ifs
  · exact (h.checked k).succeed last
  · exact later ((h.checked k).collide k)
  · exact later (h.modify Node.countDown_statistics k)

/-- Each node is visited once in a slot, by induction on the nodes to visit. -/
theorem Recorded.idleNodes {l : List (Fin n)} (once : l.Nodup) (h : Recorded bound s)
    (unvisited : ∀ k ∈ l, bound k = time) :
    Recorded (fun k => if k ∈ l then time + 1 else bound k) (l.foldl (Csma.idleNode p time) s) := by
  induction l generalizing s bound with
  | nil => simpa using h
  | cons k rest ih =>
      rw [List.nodup_cons] at once
      have first := h.idleNode (p := p) (unvisited k List.mem_cons_self)
      have others := ih once.2 first fun j later => by
        rw [Function.update_of_ne fun same : j = k => once.1 (same ▸ later)]
        exact unvisited j (List.mem_cons_of_mem k later)
      intro j
      have visited := others j
      by_cases same : j = k
      · subst same
        simpa [once.1] using visited
      · simpa [same] using visited

theorem Recorded.slot (h : Recorded (fun _ => time) s) : Recorded (fun _ => time + 1) (slot p time s) := by
  have drawn := h.draws (p := p)
  unfold Csma.slot
  dsimp only
  split_ifs
  · exact fun k => (drawn.busySlot k).later (Nat.le_succ time)
  · have visited := drawn.idleNodes (p := p) (List.nodup_finRange n) fun _ _ => rfl
    simp only [List.mem_finRange, if_true] at visited
    exact visited

theorem simulateCSMA_recorded (p : Parameters) (istransmitting : Fin n → Bool) (t : Nat) :
    Recorded (fun _ => t) (simulateCSMA p istransmitting t) := by
  induction t with
  | zero => exact fun _ => ⟨rfl, rfl, rfl, List.Pairwise.nil, nofun⟩
  | succ t ih => exact ih.slot

end Statistics

section Totals
variable {n : Nat} {p : Parameters} {s : Sim n} {k : Fin n}

/-- Every collision that is counted once for all nodes is one of two nodes at least. -/
def Crowded (s : Sim n) : Prop := 2 * s.globalCollisionCounter ≤ s.collisionTotal

theorem collisionTotal_update {t : Sim n} {node : Node} (nodes : t.nodes = Function.update s.nodes k node) :
    t.collisionTotal + (s.nodes k).collisionCount = s.collisionTotal + node.collisionCount := by
  rw [Sim.collisionTotal, nodes]
  exact sum_update Node.collisionCount s.nodes k node

theorem collisionTotal_congr {t : Sim n} (same : t.tallies = s.tallies) : t.collisionTotal = s.collisionTotal :=
  Finset.sum_congr rfl fun k _ => congrFun (congrArg Tallies.collisions same) k

theorem Crowded.congr (h : Crowded s) {t : Sim n} (same : t.tallies = s.tallies) : Crowded t := by
  have counter : t.globalCollisionCounter = s.globalCollisionCounter := congrArg Tallies.counter same
  rw [Crowded, counter, collisionTotal_congr same]
  exact h

/-- The loop over the others adds what it finds. -/
theorem checked_total (k : Fin n) (s : Sim n) :
    ((List.finRange n).foldl (checkCollision p k) (s, 0)).1.collisionTotal =
      s.collisionTotal + ((List.finRange n).foldl (checkCollision p k) (s, 0)).2 := by
  refine List.foldlRecOn (motive := fun found : Sim n × Nat =>
    found.1.collisionTotal = s.collisionTotal + found.2) _ _ rfl fun found counted j _ => ?_
  by_cases hit : k ≠ j ∧ (found.1.nodes j).ready = true
  · obtain ⟨nodes, _, more⟩ := checkCollision_hit (p := p) hit
    have total := collisionTotal_update nodes
    have raised : ((found.1.nodes j).countCollision.performBackoff p.maxBackoff (p.rand found.1.drawn)).collisionCount =
        (found.1.nodes j).collisionCount + 1 := rfl
    omega
  · rw [checkCollision, if_neg hit]
    exact counted

theorem Crowded.idleNode (h : Crowded s) (time : Nat) (k : Fin n) : Crowded (idleNode p time s k) := by
  have total := checked_total (p := p) k s
  have counter := (checked_rest (p := p) (k := k) (s := s)).2
  unfold Crowded at h ⊢
  unfold Csma.idleNode
  dsimp only
  generalize (List.finRange n).foldl (checkCollision p k) (s, 0) = found at total counter
  split_ifs with ready none_
  · have tallies := (succeed_effect (p := p) time k found.1).1
    have same : (succeed p time k found.1).collisionTotal = found.1.collisionTotal :=
      Finset.sum_congr rfl fun j _ => congrFun (congrArg Tallies.collisions tallies) j
    change 2 * found.1.globalCollisionCounter ≤ _
    omega
  · have own := collisionTotal_update (collide_parts (p := p) k found.1).1
    have raised : ((found.1.nodes k).countCollision.performBackoff p.maxBackoff (p.rand found.1.drawn)).collisionCount =
        (found.1.nodes k).collisionCount + 1 := rfl
    change 2 * (found.1.globalCollisionCounter + 1) ≤ _
    omega
  · rw [collisionTotal_congr (modify_tallies Node.countDown_tally k s)]
    exact h

theorem Crowded.slot (h : Crowded s) (time : Nat) : Crowded (slot p time s) := by
  have drawn : Crowded (draws p s) := h.congr (draws_tallies s)
  unfold Csma.slot
  dsimp only
  split_ifs
  · exact drawn.congr (busySlot_tallies _)
  · exact List.foldlRecOn _ _ drawn fun s h k _ => h.idleNode time k

theorem simulateCSMA_crowded (p : Parameters) (istransmitting : Fin n → Bool) (t : Nat) :
    Crowded (simulateCSMA p istransmitting t) := by
  induction t with
  | zero => exact Nat.zero_le _
  | succ t ih => exact ih.slot t

end Totals

/-- After any number of slots each node's statistics agree, and the nodes' collisions are
at least two for each one of the global counter. -/
theorem statistics_agree (p : Parameters) {n : Nat} (istransmitting : Fin n → Bool) (t : Nat) :
    let s := simulateCSMA p istransmitting t
    (∀ k, (s.nodes k).collisionsBeforeSuccess.sum + s.countcollisions k = (s.nodes k).collisionCount ∧
      (s.nodes k).collisionsBeforeSuccess.length = (s.nodes k).successfulTransmissions ∧
      (s.nodes k).timeBeforeSuccess.length = (s.nodes k).successfulTransmissions ∧
      (s.nodes k).timeBeforeSuccess.Pairwise (· < ·)) ∧
    2 * s.globalCollisionCounter ≤ ∑ k, (s.nodes k).collisionCount := by
  intro s
  refine ⟨fun k => ?_, simulateCSMA_crowded p istransmitting t⟩
  have agree := simulateCSMA_recorded p istransmitting t k
  exact ⟨agree.collisions, agree.successes, agree.times, agree.increasing⟩

end NetworkOs.Csma
