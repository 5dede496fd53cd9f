import NetworkOs.Csma.Slots

/-! The idle slot: at most one node attempts a transmission, the first one that is ready. -/
namespace NetworkOs.Csma
open Sweep

section Attempt
variable {n : Nat} {p : Parameters} {s : Sim n} {k : Fin n}

/-- The nodes that the loop over the others finds ready. -/
def collidingWith (k : Fin n) (s : Sim n) : Finset (Fin n) := {j | k ≠ j ∧ (s.nodes j).ready = true}

theorem checkCollision_other {found : Sim n × Nat} {i j : Fin n} (other : j ≠ i) :
    (checkCollision p k found i).1.nodes j = found.1.nodes j := by
  unfold checkCollision
  split_ifs
  · simp [Sim.modifyDrawing, Sim.modify, other]
  · rfl

theorem checked_count {l : List (Fin n)} (once : l.Nodup) (found : Sim n × Nat) :
    (l.foldl (checkCollision p k) found).2 =
      found.2 + l.countP fun j => k ≠ j ∧ (found.1.nodes j).ready = true := by
  induction l generalizing found with
  | nil => rfl
  | cons i rest ih =>
      rw [List.nodup_cons] at once
      have others : rest.countP (fun j => k ≠ j ∧ ((checkCollision p k found i).1.nodes j).ready = true) =
          rest.countP fun j => k ≠ j ∧ (found.1.nodes j).ready = true := by
        refine List.countP_congr fun j later => ?_
        rw [checkCollision_other fun same : j = i => once.1 (same ▸ later)]
      rw [List.foldl_cons, ih once.2, others, List.countP_cons]
      by_cases hit : k ≠ i ∧ (found.1.nodes i).ready = true
      · simp [checkCollision, hit]
        omega
      · simp [checkCollision, hit]

theorem checked_none (none_ : collidingWith k s = ∅) : (List.finRange n).foldl (checkCollision p k) (s, 0) = (s, 0) := by
  have miss : ∀ j, checkCollision p k (s, 0) j = (s, 0) := by
    intro j
    refine if_neg fun hit => ?_
    have member : j ∈ collidingWith k s := Finset.mem_filter.mpr ⟨Finset.mem_univ j, hit⟩
    rw [none_] at member
    exact absurd member (Finset.notMem_empty j)
  induction List.finRange n with
  | nil => rfl
  | cons j rest ih => rw [List.foldl_cons, miss, ih]

theorem checked_some (some_ : (collidingWith k s).Nonempty) :
    ((List.finRange n).foldl (checkCollision p k) (s, 0)).2 ≠ 0 := by
  obtain ⟨j, member⟩ := some_
  rw [checked_count (List.nodup_finRange n), Nat.zero_add]
  refine Nat.ne_of_gt (List.countP_pos_iff.mpr ⟨j, List.mem_finRange j, ?_⟩)
  exact decide_eq_true (Finset.mem_filter.mp member).2

theorem checked_nodes (j : Fin n) :
    (j ∈ collidingWith k s → ∃ random, ((List.finRange n).foldl (checkCollision p k) (s, 0)).1.nodes j =
      (s.nodes j).countCollision.performBackoff p.maxBackoff random) ∧
    (j ∉ collidingWith k s →
      ((List.finRange n).foldl (checkCollision p k) (s, 0)).1.nodes j = s.nodes j) := by
  let entry : Sim n × Nat → Fin n → Node := fun found => found.1.nodes
  have own : ∀ found i j, j ≠ i → entry (checkCollision p k found i) j = entry found j :=
    fun found i j other => checkCollision_other other
  obtain ⟨t, before, written⟩ := entry_of_mem own (List.nodup_finRange n) (List.mem_finRange j) (s, 0)
  change t.1.nodes j = s.nodes j at before
  constructor
  · intro member
    have hit := (Finset.mem_filter.mp member).2
    refine ⟨p.rand t.1.drawn, written.trans ?_⟩
    simp [entry, checkCollision, before, hit, Sim.modifyDrawing, Sim.modify]
  · intro outside
    have miss : ¬ (k ≠ j ∧ (s.nodes j).ready = true) := fun hit =>
      outside (Finset.mem_filter.mpr ⟨Finset.mem_univ j, hit⟩)
    refine written.trans ?_
    simp only [entry, checkCollision, before, if_neg miss]

theorem checked_rest : ((List.finRange n).foldl (checkCollision p k) (s, 0)).1.channel = s.channel ∧
    ((List.finRange n).foldl (checkCollision p k) (s, 0)).1.globalCollisionCounter = s.globalCollisionCounter := by
  refine Prod.mk.inj (foldl_keeps (f := fun found : Sim n × Nat => (found.1.channel, found.1.globalCollisionCounter))
    (fun found j => ?_) _ (s, 0))
  unfold checkCollision
  split_ifs <;> rfl

theorem Node.not_ready_of_performBackoff (maxBackoff random : Nat) (node : Node) :
    ¬ (node.performBackoff maxBackoff random).ready = true := by
  rw [Node.ready_iff]
  exact fun h => Nat.succ_ne_zero _ h.1

theorem idleNode_succeeds {time : Nat} (ready : (s.nodes k).ready = true) (alone : collidingWith k s = ∅) :
    idleNode p time s k = succeed p time k s := by
  unfold idleNode
  rw [if_pos ready, checked_none alone]
  rfl

theorem idleNode_collides {time : Nat} (ready : (s.nodes k).ready = true) (some_ : (collidingWith k s).Nonempty) :
    idleNode p time s k = collide p k ((List.finRange n).foldl (checkCollision p k) (s, 0)).1 := by
  unfold idleNode
  rw [if_pos ready]
  exact if_neg (checked_some some_)

theorem succeed_effect (time : Nat) (k : Fin n) (s : Sim n) :
    (succeed p time k s).tallies = s.tallies.after {k} ∅ ∧
      (succeed p time k s).channel = ⟨true, some k, s.transmissionTimer + 1, s.transmissionTime⟩ ∧
      ∀ j, j ≠ k → (succeed p time k s).nodes j = s.nodes j := by
  refine ⟨Tallies.ext (funext fun j => ?_) (funext fun j => ?_) rfl, rfl, fun j other => ?_⟩
  all_goals
    by_cases own : j = k
    · subst own
      simp_all [succeed, Sim.tallies, Tallies.after, Sim.modifyDrawing, Sim.modify, Node.recordSuccess,
        Node.drawTransmission]
    · simp [succeed, Sim.tallies, Tallies.after, Sim.modifyDrawing, Sim.modify, own]

/-- A collision counts for the node that attempts and for all that it finds; none of them
is ready afterwards. -/
theorem collide_effect : let t := collide p k ((List.finRange n).foldl (checkCollision p k) (s, 0)).1
    t.tallies = s.tallies.after ∅ (insert k (collidingWith k s)) ∧ t.channel = s.channel ∧
      ∀ j, ¬ (t.nodes j).ready = true := by
  obtain ⟨channel, counter⟩ := checked_rest (p := p) (k := k) (s := s)
  have nodes := checked_nodes (p := p) (k := k) (s := s)
  have self : k ∉ collidingWith k s := fun member => (Finset.mem_filter.mp member).2.1 rfl
  generalize ((List.finRange n).foldl (checkCollision p k) (s, 0)).1 = u at channel counter nodes
  have own : (collide p k u).nodes k = (s.nodes k).countCollision.performBackoff p.maxBackoff (p.rand u.drawn) := by
    simp [collide, Sim.modifyDrawing, Sim.modify, (nodes k).2 self]
  have others : ∀ j, j ≠ k → (collide p k u).nodes j = u.nodes j := by
    intro j other
    simp [collide, Sim.modifyDrawing, Sim.modify, other]
  have tally : ∀ j, ((collide p k u).nodes j).successfulTransmissions = (s.nodes j).successfulTransmissions ∧
      ((collide p k u).nodes j).collisionCount =
        (s.nodes j).collisionCount + if j ∈ insert k (collidingWith k s) then 1 else 0 := by
    intro j
    by_cases same : j = k
    · subst same
      rw [own, if_pos (Finset.mem_insert_self j _)]
      exact ⟨rfl, rfl⟩
    · rw [others j same]
      by_cases member : j ∈ collidingWith k s
      · obtain ⟨random, node⟩ := (nodes j).1 member
        rw [node, if_pos (Finset.mem_insert_of_mem member)]
        exact ⟨rfl, rfl⟩
      · rw [(nodes j).2 member, if_neg (by simp [same, member])]
        exact ⟨rfl, rfl⟩
  refine ⟨Tallies.ext ?_ ?_ ?_, channel, fun j => ?_⟩
  · exact funext fun j => (tally j).1
  · exact funext fun j => (tally j).2
  · change u.globalCollisionCounter + 1 = s.globalCollisionCounter + _
    rw [counter, if_pos (Finset.insert_nonempty k _)]
  · by_cases same : j = k
    · subst same
      rw [own]
      exact Node.not_ready_of_performBackoff _ _ _
    · rw [others j same]
      by_cases member : j ∈ collidingWith k s
      · obtain ⟨random, node⟩ := (nodes j).1 member
        rw [node]
        exact Node.not_ready_of_performBackoff _ _ _
      · rw [(nodes j).2 member]
        exact fun ready => member (Finset.mem_filter.mpr ⟨Finset.mem_univ j, Ne.symm same, ready⟩)

/-- The first node of the vector that is ready. -/
structure FirstReady (m : Fin n) (s : Sim n) : Prop where
  ready : (s.nodes m).ready = true
  first : ∀ j, j < m → ¬ (s.nodes j).ready = true

/-- A node that becomes ready when the loop counts its backoff down. -/
def CountsDownToReady (j : Fin n) (s : Sim n) : Prop :=
  (s.nodes j).backoffInterval = 1 ∧ (s.nodes j).istransmitting = true

instance (j : Fin n) (s : Sim n) : Decidable (CountsDownToReady j s) := instDecidableAnd

/-- The nodes that the attempt of `m` finds ready: the loop has counted down those before `m`. -/
def foundBy (m : Fin n) (s : Sim n) : Finset (Fin n) :=
  {j | m ≠ j ∧ ((s.nodes j).ready = true ∨ j < m ∧ CountsDownToReady j s)}

theorem exists_firstReady (some_ : ∃ k, (s.nodes k).ready = true) : ∃ m, FirstReady m s := by
  let ready : Finset (Fin n) := {k | (s.nodes k).ready = true}
  have nonempty : ready.Nonempty := by
    obtain ⟨k, ready_⟩ := some_
    exact ⟨k, Finset.mem_filter.mpr ⟨Finset.mem_univ k, ready_⟩⟩
  refine ⟨ready.min' nonempty, (Finset.mem_filter.mp (ready.min'_mem nonempty)).2, fun j earlier ready_ => ?_⟩
  exact absurd (ready.min'_le j (Finset.mem_filter.mpr ⟨Finset.mem_univ j, ready_⟩)) (not_le.mpr earlier)

theorem Node.countDown_ready {node : Node} (quiet : ¬ node.ready = true) :
    node.countDown.ready = true ↔ node.backoffInterval = 1 ∧ node.istransmitting = true := by
  rw [Node.ready_iff] at quiet ⊢
  unfold Node.countDown
  split_ifs with counting
  · refine and_congr_left fun _ => ?_
    change node.backoffInterval - 1 = 0 ↔ _
    omega
  · refine and_congr_left fun transmitting => ?_
    have zero : node.backoffInterval = 0 := by omega
    exact absurd ⟨zero, transmitting⟩ quiet

/-- Up to the first node that is ready the loop counts down. -/
theorem FirstReady.split (p : Parameters) (time : Nat) {m : Fin n} (h : FirstReady m s) : ∃ (u : Sim n) (after : List (Fin n)),
    u.tallies = s.tallies ∧ u.channel = s.channel ∧ (u.nodes m).ready = true ∧ collidingWith m u = foundBy m s ∧
      after.Nodup ∧ m ∉ after ∧ idleSlot p time s = after.foldl (idleNode p time) (idleNode p time u m) := by
  obtain ⟨before, after, order, earlier, later, onceBefore, onceAfter⟩ := finRange_split m
  have outside : m ∉ after := fun member => lt_irrefl m ((later m).mp member)
  have quiet : ∀ k ∈ before, ¬ (s.nodes k).ready = true := fun k member => h.first k ((earlier k).mp member)
  have effect := idleNodes_quiet_effect p time onceBefore quiet
  have nodes : ∀ j, (before.foldl (idleNode p time) s).nodes j =
      if j < m then (s.nodes j).countDown else s.nodes j := by
    intro j
    rw [idleNodes_quiet onceBefore quiet]
    simp only [earlier]
  refine ⟨before.foldl (idleNode p time) s, after, effect.1, effect.2, ?_, ?_, onceAfter, outside, ?_⟩
  · rw [nodes, if_neg (lt_irrefl m)]
    exact h.ready
  · ext j
    simp only [collidingWith, foundBy, Finset.mem_filter, Finset.mem_univ, true_and]
    refine and_congr_right fun apart => ?_
    rw [nodes]
    split_ifs with lt
    · have notReady := h.first j lt
      rw [Node.countDown_ready notReady]
      simp only [notReady, lt, CountsDownToReady, Bool.false_eq_true, false_or, true_and]
    · simp only [lt, false_and, or_false]
  · unfold idleSlot
    rw [order, List.foldl_append, List.foldl_cons]

theorem idleSlot_silent (p : Parameters) (time : Nat) (none_ : ∀ k, ¬ (s.nodes k).ready = true) :
    (idleSlot p time s).tallies = s.tallies ∧ (idleSlot p time s).channel = s.channel :=
  idleNodes_quiet_effect p time (List.nodup_finRange n) fun k _ => none_ k

theorem FirstReady.succeeds (p : Parameters) (time : Nat) {m : Fin n} (h : FirstReady m s) (alone : foundBy m s = ∅) :
    (idleSlot p time s).tallies = s.tallies.after {m} ∅ ∧
      (idleSlot p time s).channel = ⟨true, some m, s.transmissionTimer + 1, s.transmissionTime⟩ := by
  obtain ⟨u, after, tallies, channel, ready, found, once, outside, split⟩ := h.split p time
  rw [alone] at found
  obtain ⟨counted, taken, others⟩ := succeed_effect (p := p) time m u
  have quiet : ∀ j ∈ after, ¬ ((succeed p time m u).nodes j).ready = true := by
    intro j later ready_
    have apart : j ≠ m := fun same => outside (same ▸ later)
    rw [others j apart] at ready_
    have member : j ∈ collidingWith m u := Finset.mem_filter.mpr ⟨Finset.mem_univ j, apart.symm, ready_⟩
    rw [found] at member
    exact Finset.notMem_empty j member
  obtain ⟨later, free⟩ := idleNodes_quiet_effect p time once quiet
  rw [split, idleNode_succeeds ready found, later, free, counted, taken, tallies]
  refine ⟨rfl, ?_⟩
  rw [show u.transmissionTimer = s.transmissionTimer from congrArg Channel.timer channel,
    show u.transmissionTime = s.transmissionTime from congrArg Channel.time channel]

theorem FirstReady.collides (p : Parameters) (time : Nat) {m : Fin n} (h : FirstReady m s) (some_ : (foundBy m s).Nonempty) :
    (idleSlot p time s).tallies = s.tallies.after ∅ (insert m (foundBy m s)) ∧
      (idleSlot p time s).channel = s.channel := by
  obtain ⟨u, after, tallies, channel, ready, found, once, outside, split⟩ := h.split p time
  have others : (collidingWith m u).Nonempty := found ▸ some_
  obtain ⟨counted, kept, quiet⟩ := collide_effect (p := p) (k := m) (s := u)
  obtain ⟨later, free⟩ := idleNodes_quiet_effect p time once fun j _ => quiet j
  rw [split, idleNode_collides ready others, later, free, counted, kept, tallies, found, channel]
  exact ⟨rfl, rfl⟩

/-- What an idle slot can do to the tallies and the channel. -/
inductive IdleSlot (s v : Sim n) : Prop where
  | silent (tallies : v.tallies = s.tallies) (channel : v.channel = s.channel)
  | success (m : Fin n) (tallies : v.tallies = s.tallies.after {m} ∅)
      (channel : v.channel = { s.channel with busy := true, node := some m, timer := s.channel.timer + 1 })
  | collision (collided : Finset (Fin n)) (tallies : v.tallies = s.tallies.after ∅ collided)
      (channel : v.channel = s.channel)

theorem idleSlot_cases (p : Parameters) (time : Nat) (s : Sim n) : IdleSlot s (idleSlot p time s) := by
  by_cases some_ : ∃ k, (s.nodes k).ready = true
  · obtain ⟨m, first⟩ := exists_firstReady some_
    rcases (foundBy m s).eq_empty_or_nonempty with alone | others
    · obtain ⟨tallies, channel⟩ := first.succeeds p time alone
      exact .success m tallies channel
    · obtain ⟨tallies, channel⟩ := first.collides p time others
      exact .collision _ tallies channel
  · obtain ⟨tallies, channel⟩ := idleSlot_silent p time (not_exists.mp some_)
    exact .silent tallies channel

end Attempt
end NetworkOs.Csma
