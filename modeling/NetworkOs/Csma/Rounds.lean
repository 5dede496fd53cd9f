import NetworkOs.Csma.Countdowns

/-! Slots in which all nodes collide, in the arithmetic of `int`. As long as every backoff is of
one slot they go on to do so, and how many values they have drawn tells where the stream is. -/
namespace NetworkOs.Csma.Integers
open Machine Sweep

/-- A node that has collided this often and never succeeded. -/
def Node.collided (backoffInterval : Int) (collisionCount : Nat) : Node :=
  ⟨backoffInterval, collisionCount, 0, true, [], []⟩

/-- What `performBackoff` sets from this place of the stream. -/
def Parameters.backoffAt (p : Parameters) (collisionCount place : Nat) : Int :=
  (backoff p.maxBackoff collisionCount (p.rand place)).getD (p.undefined place)

/-- The collision of one node. -/
def Sim.hit {n : Nat} (p : Parameters) (s : Sim n) (k : Fin n) : Sim n := (s.countCollision k).performBackoff p k

def Node.hit (p : Parameters) (place : Nat) (node : Node) : Node :=
  node.countCollision.setBackoff (p.backoffAt (node.collisionCount + 1) place)

section Visits
variable {n : Nat} {p : Parameters} {s : Sim n} {j k : Fin n} {time : Nat} {l before after : List (Fin n)}

/-- Where nobody is ready the nodes are counted down. -/
theorem idleNodes_quiet (once : l.Nodup) (quiet : ∀ k ∈ l, ¬ (s.nodes k).ready = true) : l.foldl (idleNode p time) s =
    { s with nodes := fun k => if k ∈ l then (s.nodes k).countDown else s.nodes k } := by
  induction l generalizing s with
  | nil => simp
  | cons k rest ih =>
      rw [List.nodup_cons] at once
      have first : idleNode p time s k = s.modify Node.countDown k := if_neg (quiet k List.mem_cons_self)
      have others : ∀ j ∈ rest, (s.modify Node.countDown k).nodes j = s.nodes j := by
        intro j later
        have apart : j ≠ k := fun same => once.1 (same ▸ later)
        exact Function.update_of_ne apart _ _
      rw [List.foldl_cons, first, ih once.2 fun j later => by
        rw [others j later]
        exact quiet j (List.mem_cons_of_mem k later)]
      congr 1
      funext j
      by_cases own : j = k
      · subst own
        simp [once.1, Sim.modify]
      · simp [own, Sim.modify]

theorem idleSlot_quiet (quiet : ∀ k, ¬ (s.nodes k).ready = true) :
    idleSlot p time s = { s with nodes := fun k => (s.nodes k).countDown } := by
  rw [idleSlot, idleNodes_quiet (List.nodup_finRange n) fun k _ => quiet k]
  congr 1
  exact funext fun k => if_pos (List.mem_finRange k)

theorem not_ready_of_waiting {node : Node} (waiting : 1 ≤ node.backoffInterval) : ¬ node.ready = true := by
  rw [Node.ready_iff]
  omega

theorem checked_quiet (quiet : ∀ j, k ≠ j → ¬ (s.nodes j).ready = true) (count : Nat) :
    l.foldl (checkCollision p k) (s, count) = (s, count) := by
  induction l with
  | nil => rfl
  | cons j rest ih =>
      have first : checkCollision p k (s, count) j = (s, count) := if_neg fun hit => quiet j hit.1 hit.2
      rw [List.foldl_cons, first, ih]

/-- A node that is alone when the loop comes to it succeeds. -/
theorem idleSlot_alone (ready : (s.nodes k).ready = true) (earlier : ∀ j, j < k → 2 ≤ (s.nodes j).backoffInterval)
    (later : ∀ j, k < j → 1 ≤ (s.nodes j).backoffInterval) :
    ((idleSlot p time s).nodes k).successfulTransmissions = (s.nodes k).successfulTransmissions + 1 := by
  obtain ⟨before, after, order, first, last, onceBefore, onceAfter⟩ := finRange_split k
  have outside : k ∉ after := fun member => lt_irrefl k ((last k).mp member)
  let u := before.foldl (idleNode p time) s
  have nodes : ∀ j, u.nodes j = if j < k then (s.nodes j).countDown else s.nodes j := by
    intro j
    have quiet : ∀ j ∈ before, ¬ (s.nodes j).ready = true := fun j member =>
      not_ready_of_waiting (Int.le_trans (by decide) (earlier j ((first j).mp member)))
    change (before.foldl (idleNode p time) s).nodes j = _
    rw [idleNodes_quiet onceBefore quiet]
    simp only [first]
  have own : u.nodes k = s.nodes k := (nodes k).trans (if_neg (lt_irrefl k))
  have waits : ∀ j, k ≠ j → 1 ≤ (u.nodes j).backoffInterval := by
    intro j apart
    rw [nodes]
    rcases lt_or_gt_of_ne apart with more | less
    · rw [if_neg more.not_gt]
      exact later j more
    · have two := earlier j less
      rw [if_pos less, Node.countDown_waiting (by omega)]
      change 1 ≤ (s.nodes j).backoffInterval - 1
      omega
  have alone : idleNode p time u k = succeed p time k u := by
    rw [idleNode, own, if_pos ready, checked_quiet fun j apart => not_ready_of_waiting (waits j apart)]
    exact if_pos rfl
  have others : ∀ j, k ≠ j → (succeed p time k u).nodes j = u.nodes j := by
    intro j apart
    simp [succeed, Sim.drawTransmission, Sim.modify, apart.symm]
  have rest : ∀ j ∈ after, ¬ ((succeed p time k u).nodes j).ready = true := by
    intro j member
    have apart : k ≠ j := ((last j).mp member).ne
    rw [others j apart]
    exact not_ready_of_waiting (waits j apart)
  have split : idleSlot p time s = after.foldl (idleNode p time) (succeed p time k u) := by
    rw [idleSlot, order, List.foldl_append, List.foldl_cons, ← alone]
  rw [split, idleNodes_quiet onceAfter rest]
  dsimp only
  rw [if_neg outside]
  simp [succeed, Sim.drawTransmission, Sim.modify, Node.recordSuccess, Node.drawTransmission, own]

end Visits

/-- No node has succeeded, all have collided equally often, and so long they wait. -/
structure Spread {n : Nat} (backoffs : Fin n → Int) (collisions : Nat) (s : Sim n) : Prop where
  idle : s.channelBusy = false
  nodes : ∀ k, s.nodes k = .collided (backoffs k) collisions

/-- The first `i` nodes wait for one slot, the others are ready. -/
abbrev Even {n : Nat} (i collisions : Nat) (s : Sim n) : Prop :=
  Spread (fun k => if (k : Nat) < i then 1 else 0) collisions s

/-- What a slot makes of an even state when node `i` collides with all others: `first` draws the
value that comes next, and every node that is visited after `i` is counted down in the same slot. -/
structure Attempted {n : Nat} (p : Parameters) (i first : Fin n) (collisions : Nat) (place : Fin n → Nat) (s t : Sim n) :
    Prop where
  spread : Spread (fun k => p.backoffAt (collisions + 1) (place k) - if i < k then 1 else 0) (collisions + 1) t
  drawn : t.drawn = s.drawn + n
  apart : i ≠ first
  least : ∀ k, k ≠ i → first ≤ k
  start : place first = s.drawn
  later : ∀ k, k ≠ first → s.drawn < place k

section Rounds
variable {n : Nat} {p : Parameters} {s : Sim n} {collisions time : Nat}

theorem Spread.transmits {backoffs : Fin n → Int} (h : Spread backoffs collisions s) (k : Fin n) :
    (s.nodes k).istransmitting = true := by
  rw [h.nodes]
  rfl

/-- While all nodes wait they are counted down. -/
theorem Spread.waits (p : Parameters) (time : Nat) {backoffs : Fin n → Int} (h : Spread backoffs collisions s) (waiting : ∀ k, 1 ≤ backoffs k) :
    Spread (fun k => backoffs k - 1) collisions (idleSlot p time s) ∧ (idleSlot p time s).drawn = s.drawn := by
  have quiet : ∀ k, ¬ (s.nodes k).ready = true := by
    intro k
    rw [h.nodes]
    exact not_ready_of_waiting (waiting k)
  rw [idleSlot_quiet quiet]
  refine ⟨⟨h.idle, fun k => ?_⟩, rfl⟩
  change (s.nodes k).countDown = _
  rw [h.nodes]
  exact Node.countDown_waiting (waiting k)

/-- A node that is alone when the loop comes to it succeeds. -/
theorem Spread.succeeds {backoffs : Fin n → Int} {k : Fin n} (h : Spread backoffs collisions s) (ready : backoffs k = 0)
    (earlier : ∀ j, j < k → 2 ≤ backoffs j) (later : ∀ j, k < j → 1 ≤ backoffs j) :
    ((idleSlot p time s).nodes k).successfulTransmissions = 1 := by
  have backoff_ : ∀ j, (s.nodes j).backoffInterval = backoffs j := fun j => congrArg Node.backoffInterval (h.nodes j)
  have own : (s.nodes k).ready = true := Node.ready_iff.mpr ⟨(backoff_ k).trans ready, h.transmits k⟩
  rw [idleSlot_alone own (fun j lt => (backoff_ j).symm ▸ earlier j lt) fun j lt => (backoff_ j).symm ▸ later j lt, h.nodes]
  rfl

theorem countDown_collided (collisions : Nat) (b : Prop) [Decidable b] :
    (Node.collided (if b then 1 else 0) collisions).countDown = .collided 0 collisions := by
  split_ifs <;> rfl

theorem Even.settles {i : Fin n} {before : List (Fin n)} (h : Even i collisions s) (once : before.Nodup)
    (earlier : ∀ k, k ∈ before ↔ k < i) :
    before.foldl (idleNode p time) s = { s with nodes := fun _ => .collided 0 collisions } := by
  have quiet : ∀ k ∈ before, ¬ (s.nodes k).ready = true := by
    intro k member
    have lt : (k : Nat) < i := (earlier k).mp member
    rw [h.nodes, if_pos lt]
    exact not_ready_of_waiting le_rfl
  rw [idleNodes_quiet once quiet]
  congr 1
  funext k
  rw [h.nodes, countDown_collided]
  by_cases lt : k < i
  · rw [if_pos ((earlier k).mpr lt)]
  · have ge : ¬ (k : Nat) < i := lt
    rw [if_neg fun member => lt ((earlier k).mp member), if_neg ge]

theorem Attempted.even {i first : Fin n} {place : Fin n → Nat} {t : Sim n} (h : Attempted p i first collisions place s t)
    (least : ∀ place, p.backoffAt (collisions + 1) place = 1) : Even (i + 1) (collisions + 1) t := by
  refine ⟨h.spread.idle, fun k => (h.spread.nodes k).trans (congrArg (Node.collided · (collisions + 1)) ?_)⟩
  rw [least]
  by_cases lt : i < k
  · have ge : ¬ (k : Nat) < i + 1 := Nat.not_lt.mpr lt
    rw [if_pos lt, if_neg ge, Int.sub_self]
  · have le : (k : Nat) < i + 1 := Nat.lt_succ_of_le (not_lt.mp lt)
    rw [if_neg lt, if_pos le, Int.sub_zero]

end Rounds
end NetworkOs.Csma.Integers
