import NetworkOs.Csma.Integers

/-! When the backoffs stay within their bounds and are counted down. -/
namespace NetworkOs.Csma.Integers
open Machine

/-- The call has a result between 1 and the bound for its collisions. -/
def Call.Proper (maxBackoff : Nat) (call : Call) : Prop :=
  ∃ value, call.value = some value ∧ 1 ≤ value ∧ value ≤ 2 ^ min call.collisionCount maxBackoff

/-- The shift stays below the bit of the sign, or reaches it with a small value. -/
def Call.Safe (maxBackoff : Nat) (call : Call) : Prop :=
  call.collisionCount ≤ 30 ∨ call.collisionCount = 31 ∧ call.random < 2 ^ maxBackoff

section Calls
variable {maxBackoff collisionCount : Nat} {random : Int}

theorem backoff_of_le (within : collisionCount ≤ 30) (bound : maxBackoff ≤ 30) (nonneg : 0 ≤ random) :
    backoff maxBackoff collisionCount random = some (random.tmod (2 ^ min collisionCount maxBackoff) + 1) := by
  have least : min ((2 : Int) ^ collisionCount) (2 ^ maxBackoff) = 2 ^ min collisionCount maxBackoff :=
    ((pow_right_mono₀ (by decide : (1 : Int) ≤ 2)).map_min).symm
  have positive : (0 : Int) < 2 ^ min collisionCount maxBackoff := by positivity
  have most : (2 : Int) ^ min collisionCount maxBackoff ≤ 2 ^ 30 :=
    pow_le_pow_right₀ (by decide) (min_le_of_left_le within)
  have below := Int.tmod_lt_of_pos random positive
  have low := Int.tmod_nonneg (2 ^ min collisionCount maxBackoff) nonneg
  simp only [backoff, shiftOne_of_le within, shiftOne_of_le bound, Option.bind_eq_bind, Option.bind_some, least,
    remainder_of_nonneg nonneg positive.ne']
  exact represented_of_range (by omega) (by unfold intMax; omega)

/-- The bit of the sign is the least `int`, and as a divisor changes nothing. -/
theorem backoff_31 (bound : maxBackoff ≤ 30) (nonneg : 0 ≤ random) (most : random ≤ intMax) :
    backoff maxBackoff 31 random = represented (random + 1) := by
  have positive : (0 : Int) < 2 ^ maxBackoff := by positivity
  have least : min (-2147483648) ((2 : Int) ^ maxBackoff) = -2147483648 := min_eq_left (by omega)
  have same : random.tmod (-2147483648) = random := by
    rw [Int.tmod_neg]
    exact Int.tmod_eq_of_lt nonneg (by unfold intMax at most; omega)
  simp only [backoff, shiftOne_of_le bound, Option.bind_eq_bind, Nat.cast_ofNat, shiftOne_31, Option.bind_some, least]
  rw [remainder_of_nonneg nonneg (by decide), same]
  rfl

theorem backoff_of_lt (wide : 31 < collisionCount) : backoff maxBackoff collisionCount random = none := by
  have undefined : shiftOne collisionCount = none := shiftOne_of_lt (by omega)
  simp only [backoff, undefined, Option.bind_eq_bind, Option.bind_none]

/-- What is known of a call: its result is the one of the expression. -/
structure Call.Logged (maxBackoff : Nat) (call : Call) : Prop where
  value : call.value = backoff maxBackoff call.collisionCount call.random
  nonneg : 0 ≤ call.random
  most : call.random ≤ intMax

variable {call : Call}

theorem Call.Logged.value_of_safe (logged : call.Logged maxBackoff) (bound : maxBackoff ≤ 30)
    (safe : call.Safe maxBackoff) :
    call.value = some (call.random.tmod (2 ^ min call.collisionCount maxBackoff) + 1) := by
  rw [logged.value]
  rcases safe with within | ⟨last, small⟩
  · exact backoff_of_le within bound logged.nonneg
  · have capped : min 31 maxBackoff = maxBackoff := min_eq_right (by omega)
    have largest : (2 : Int) ^ maxBackoff ≤ 2 ^ 30 := pow_le_pow_right₀ (by decide) bound
    have nonneg := logged.nonneg
    rw [last, backoff_31 bound nonneg logged.most, capped, Int.tmod_eq_of_lt nonneg small]
    exact represented_of_range (by omega) (by unfold intMax; omega)

theorem Call.Logged.proper_iff (logged : call.Logged maxBackoff) (bound : maxBackoff ≤ 30) :
    call.Proper maxBackoff ↔ call.Safe maxBackoff := by
  constructor
  · rintro ⟨result, defined, -, high⟩
    rw [logged.value] at defined
    rcases lt_trichotomy call.collisionCount 31 with less | last | more
    · exact .inl (Nat.le_of_lt_succ less)
    · rw [last, backoff_31 bound logged.nonneg logged.most, represented] at defined
      split_ifs at defined
      obtain rfl := Option.some.inj defined
      rw [last, min_eq_right (by omega)] at high
      exact .inr ⟨last, Int.lt_of_add_one_le high⟩
    · rw [backoff_of_lt more] at defined
      exact absurd defined.symm (Option.some_ne_none result)
  · intro safe
    have positive : (0 : Int) < 2 ^ min call.collisionCount maxBackoff := by positivity
    have low := Int.tmod_nonneg (2 ^ min call.collisionCount maxBackoff) logged.nonneg
    have below := Int.tmod_lt_of_pos call.random positive
    exact ⟨_, logged.value_of_safe bound safe, by omega, by omega⟩

theorem busyBackoff_eq {backoffChannelBusy : Int} (positive : 1 ≤ backoffChannelBusy) (most : backoffChannelBusy ≤ intMax)
    (nonneg : 0 ≤ random) : busyBackoff backoffChannelBusy random = some (random.tmod backoffChannelBusy + 1) := by
  have low := Int.tmod_nonneg backoffChannelBusy nonneg
  have below := Int.tmod_lt_of_pos random (lt_of_lt_of_le Int.zero_lt_one positive)
  have rest : remainder random backoffChannelBusy = some (random.tmod backoffChannelBusy) :=
    remainder_of_nonneg nonneg (by omega)
  simp only [busyBackoff, rest, Option.bind_eq_bind, Option.bind_some]
  exact represented_of_range (by omega) (by omega)

end Calls

section Invariant
variable {n : Nat} (p : Parameters)

/-- The log is that of the expression, and without an unsafe call no backoff is negative. -/
structure Sound (s : Sim n) : Prop where
  logged : ∀ call ∈ s.calls, call.Logged p.maxBackoff
  nonneg : (∀ call ∈ s.calls, call.Safe p.maxBackoff) → ∀ k, 0 ≤ (s.nodes k).backoffInterval

/-- What every statement of the simulation does: it adds to the log and keeps it sound. -/
structure Leads (s t : Sim n) : Prop where
  calls : s.calls <+: t.calls
  sound : Sound p s → Sound p t

end Invariant

section Statements
variable {n : Nat} {p : Parameters} {s t u : Sim n}

theorem Leads.refl (s : Sim n) : Leads p s s := ⟨List.prefix_refl _, id⟩

theorem Leads.trans (first : Leads p s t) (second : Leads p t u) : Leads p s u :=
  ⟨first.calls.trans second.calls, second.sound ∘ first.sound⟩

/-- A statement without a call of `performBackoff`. -/
theorem Leads.of_nodes (calls : t.calls = s.calls)
    (nonneg : ∀ k, 0 ≤ (s.nodes k).backoffInterval → 0 ≤ (t.nodes k).backoffInterval) : Leads p s t := by
  refine ⟨calls ▸ List.prefix_refl _, fun h => ⟨calls ▸ h.logged, fun safe k => nonneg k (h.nonneg ?_ k)⟩⟩
  rwa [calls] at safe

theorem leads_modify {f : Node → Node} (nonneg : ∀ node, 0 ≤ node.backoffInterval → 0 ≤ (f node).backoffInterval)
    (k : Fin n) (s : Sim n) : Leads p s (s.modify f k) := by
  refine .of_nodes rfl fun j before => ?_
  by_cases own : j = k
  · subst own
    simpa [Sim.modify] using nonneg _ before
  · simpa [Sim.modify, own] using before

theorem Node.countDown_nonneg (node : Node) (nonneg : 0 ≤ node.backoffInterval) : 0 ≤ node.countDown.backoffInterval := by
  unfold Node.countDown
  split_ifs
  · exact Int.sub_nonneg_of_le (by omega)
  · exact nonneg

theorem leads_drawTransmission (k : Fin n) (s : Sim n) : Leads p s (s.drawTransmission p k) := by
  refine (leads_modify (f := Node.drawTransmission p.transmits (p.rand s.drawn)) (fun _ nonneg => nonneg) k s).trans ?_
  exact .of_nodes rfl fun _ nonneg => nonneg

theorem leads_performBusyBackoff (k : Fin n) (s : Sim n) : Leads p s (s.performBusyBackoff p k) := by
  have nonneg := p.rand_nonneg s.drawn
  have low := Int.tmod_nonneg p.backoffChannelBusy nonneg
  unfold Sim.performBusyBackoff
  rw [busyBackoff_eq p.backoffChannelBusy_pos p.backoffChannelBusy_le nonneg]
  refine (leads_modify (fun _ _ => ?_) k s).trans (.of_nodes rfl fun _ before => before)
  exact Int.add_nonneg low (by decide)

theorem leads_countCollision (k : Fin n) (s : Sim n) : Leads p s (s.countCollision k) := by
  refine (leads_modify (f := Node.countCollision) (fun _ nonneg => nonneg) k s).trans ?_
  exact .of_nodes rfl fun _ nonneg => nonneg

theorem leads_performBackoff (k : Fin n) (s : Sim n) : Leads p s (s.performBackoff p k) := by
  let call : Call := ⟨(s.nodes k).collisionCount, p.rand s.drawn,
    backoff p.maxBackoff (s.nodes k).collisionCount (p.rand s.drawn)⟩
  have logged : call.Logged p.maxBackoff := ⟨rfl, p.rand_nonneg _, p.rand_le _⟩
  refine ⟨List.prefix_append _ _, fun h => ⟨fun c member => ?_, fun safe j => ?_⟩⟩
  · rcases List.mem_append.mp member with earlier | last
    · exact h.logged c earlier
    · exact List.mem_singleton.mp last ▸ logged
  · have before := h.nonneg fun c member => safe c (List.mem_append_left _ member)
    by_cases own : j = k
    · subst own
      have last := safe call (List.mem_append_right _ (List.mem_singleton.mpr rfl))
      obtain ⟨value, defined, positive, _⟩ := (logged.proper_iff p.maxBackoff_le).mpr last
      change backoff p.maxBackoff (s.nodes j).collisionCount (p.rand s.drawn) = some value at defined
      simp only [Sim.performBackoff, Sim.modify, Node.setBackoff, Function.update_self, defined, Option.getD_some]
      exact Int.le_trans (by decide) positive
    · simpa [Sim.performBackoff, Sim.modify, own] using before j

theorem foldl_leads {visit : Sim n → Fin n → Sim n} (leads : ∀ s k, Leads p s (visit s k)) (l : List (Fin n))
    (s : Sim n) : Leads p s (l.foldl visit s) := by
  induction l generalizing s with
  | nil => exact .refl s
  | cons k rest ih => exact (leads s k).trans (ih (visit s k))

theorem leads_drawNode (s : Sim n) (k : Fin n) : Leads p s (drawNode p s k) := by
  unfold drawNode
  split_ifs
  · exact .refl s
  · exact leads_drawTransmission k s

theorem leads_draws (s : Sim n) : Leads p s (draws p s) := foldl_leads leads_drawNode _ s

theorem leads_busyNode (s : Sim n) (k : Fin n) : Leads p s (busyNode p s k) := by
  unfold busyNode
  split_ifs
  · exact leads_performBusyBackoff k s
  · exact .refl s
  · exact leads_modify Node.countDown_nonneg k s

theorem leads_finishTransmission (s : Sim n) : Leads p s (finishTransmission p s) := by
  unfold finishTransmission
  split_ifs
  · exact .of_nodes rfl fun _ nonneg => nonneg
  · exact .refl s

theorem leads_busySlot (s : Sim n) : Leads p s (busySlot p s) := by
  let counted := { s with transmissionTimer := s.transmissionTimer + 1 }
  have first : Leads p s counted := .of_nodes rfl fun _ nonneg => nonneg
  exact (first.trans (foldl_leads leads_busyNode (List.finRange n) counted)).trans (leads_finishTransmission _)

theorem leads_checkCollision (k : Fin n) (found : Sim n × Nat) (other : Fin n) :
    Leads p found.1 (checkCollision p k found other).1 := by
  unfold checkCollision
  split_ifs
  · exact (leads_countCollision other _).trans (leads_performBackoff other _)
  · exact .refl _

theorem leads_checked (k : Fin n) (l : List (Fin n)) (found : Sim n × Nat) :
    Leads p found.1 (l.foldl (checkCollision p k) found).1 := by
  induction l generalizing found with
  | nil => exact .refl _
  | cons other rest ih => exact (leads_checkCollision k found other).trans (ih _)

theorem leads_succeed (time : Nat) (k : Fin n) (s : Sim n) : Leads p s (succeed p time k s) := by
  refine (leads_drawTransmission k s).trans ?_
  refine (leads_modify (f := Node.recordSuccess (s.countcollisions k) time) (fun _ nonneg => nonneg) k _).trans ?_
  exact .of_nodes rfl fun _ nonneg => nonneg

theorem leads_collide (k : Fin n) (s : Sim n) : Leads p s (collide p k s) := by
  refine ((leads_countCollision k s).trans (leads_performBackoff k _)).trans ?_
  exact .of_nodes rfl fun _ nonneg => nonneg

theorem leads_idleNode (time : Nat) (s : Sim n) (k : Fin n) : Leads p s (idleNode p time s k) := by
  have found := leads_checked (p := p) k (List.finRange n) (s, 0)
  unfold idleNode
  dsimp only
  split_ifs
  · exact found.trans (leads_succeed time k _)
  · exact found.trans (leads_collide k _)
  · exact leads_modify Node.countDown_nonneg k s

theorem leads_idleSlot (time : Nat) (s : Sim n) : Leads p s (idleSlot p time s) := foldl_leads (leads_idleNode time) _ s

theorem leads_slot (time : Nat) (s : Sim n) : Leads p s (slot p time s) := by
  refine (leads_draws s).trans ?_
  unfold slot
  dsimp only
  split_ifs
  · exact leads_busySlot _
  · exact leads_idleSlot time _

theorem leads_simulateCSMA (istransmitting : Fin n → Bool) (t i : Nat) :
    Leads p (simulateCSMA p istransmitting t) (simulateCSMA p istransmitting (t + i)) := by
  induction i with
  | zero => exact .refl _
  | succ i ih => exact ih.trans (leads_slot (t + i) _)

theorem simulateCSMA_sound (istransmitting : Fin n → Bool) (t : Nat) : Sound p (simulateCSMA p istransmitting t) := by
  have start_ : Sound p (start p istransmitting) :=
    ⟨fun _ none_ => absurd none_ List.not_mem_nil, fun _ _ => le_refl (0 : Int)⟩
  have run := (leads_simulateCSMA (p := p) istransmitting 0 t).sound start_
  rwa [Nat.zero_add] at run

end Statements

/-- The slot counts the backoff of the node down; at the end of it the node may collide again. -/
def CountsDown (before after : Node) : Prop :=
  after.backoffInterval = before.backoffInterval - 1 ∨
    before.backoffInterval = 1 ∧ before.collisionCount < after.collisionCount

/-- What the visits of other nodes can do to a node: nothing while it is not ready. -/
def Hit (before after : Node) : Prop :=
  after = before ∨ before.ready = true ∧ before.collisionCount < after.collisionCount

section Slots
variable {n : Nat} {p : Parameters} {s : Sim n} {j k : Fin n} {time : Nat}

theorem Hit.trans {a b c : Node} (first : Hit a b) (second : Hit b c) : Hit a c := by
  rcases first with rfl | ⟨free, more⟩
  · exact second
  · rcases second with rfl | ⟨_, more'⟩
    · exact .inr ⟨free, more⟩
    · exact .inr ⟨free, more.trans more'⟩

theorem Node.ready_iff {node : Node} : node.ready = true ↔ node.backoffInterval = 0 ∧ node.istransmitting = true := by
  simp [Node.ready, Node.attemptTransmission]

theorem Hit.eq_of_waiting {before after : Node} (hit : Hit before after) (waiting : 0 < before.backoffInterval) :
    after = before :=
  hit.resolve_right fun free => absurd (Node.ready_iff.mp free.1).1 waiting.ne'

theorem not_attempts {node : Node} (waiting : 0 < node.backoffInterval) : ¬ node.attemptTransmission = true := by
  simpa [Node.attemptTransmission] using waiting.ne'

theorem checkCollision_hit (found : Sim n × Nat) (other : Fin n) :
    Hit (found.1.nodes k) ((checkCollision p j found other).1.nodes k) := by
  unfold checkCollision
  split_ifs with collides
  · by_cases own : k = other
    · subst own
      refine .inr ⟨collides.2, ?_⟩
      simp [Sim.performBackoff, Sim.countCollision, Sim.modify, Node.setBackoff, Node.countCollision]
    · exact .inl (by simp [Sim.performBackoff, Sim.countCollision, Sim.modify, own])
  · exact .inl rfl

theorem checked_hit (l : List (Fin n)) (found : Sim n × Nat) :
    Hit (found.1.nodes k) ((l.foldl (checkCollision p j) found).1.nodes k) := by
  induction l generalizing found with
  | nil => exact .inl rfl
  | cons other rest ih => exact (checkCollision_hit found other).trans (ih _)

/-- The visit of another node. -/
theorem idleNode_hit (other : k ≠ j) : Hit (s.nodes k) ((idleNode p time s j).nodes k) := by
  have found := checked_hit (p := p) (j := j) (k := k) (List.finRange n) (s, 0)
  unfold idleNode
  dsimp only
  split_ifs
  · have same : ∀ s : Sim n, (succeed p time j s).nodes k = s.nodes k := fun s => by
      simp [succeed, Sim.drawTransmission, Sim.modify, other]
    rwa [same]
  · have same : ∀ s : Sim n, (collide p j s).nodes k = s.nodes k := fun s => by
      simp [collide, Sim.performBackoff, Sim.countCollision, Sim.modify, other]
    rwa [same]
  · exact .inl (by simp [Sim.modify, other])

theorem idleNodes_hit {l : List (Fin n)} (outside : k ∉ l) (s : Sim n) :
    Hit (s.nodes k) ((l.foldl (idleNode p time) s).nodes k) := by
  induction l generalizing s with
  | nil => exact .inl rfl
  | cons j rest ih =>
      rw [List.mem_cons, not_or] at outside
      exact (idleNode_hit outside.1).trans (ih outside.2 _)

theorem Node.countDown_waiting {node : Node} (waiting : 0 < node.backoffInterval) :
    node.countDown = { node with backoffInterval := node.backoffInterval - 1 } := if_pos waiting

/-- The loop visits the node once; the visits before and after that can hit it. -/
theorem idleSlot_visit (p : Parameters) (time : Nat) (k : Fin n) (s : Sim n) : ∃ u, Hit (s.nodes k) (u.nodes k) ∧
    Hit ((idleNode p time u k).nodes k) ((idleSlot p time s).nodes k) := by
  obtain ⟨before, after, order⟩ := List.append_of_mem (List.mem_finRange k)
  have once := order ▸ List.nodup_finRange n
  rw [List.nodup_append, List.nodup_cons] at once
  obtain ⟨_, ⟨later, _⟩, apart⟩ := once
  have earlier : k ∉ before := fun member => apart k member k List.mem_cons_self rfl
  refine ⟨before.foldl (idleNode p time) s, idleNodes_hit earlier s, ?_⟩
  unfold idleSlot
  rw [order, List.foldl_append, List.foldl_cons]
  exact idleNodes_hit later _

/-- A node that waits is counted down; those behind it can hit it when it waits no longer. -/
theorem idleSlot_countsDown (waiting : 0 < (s.nodes k).backoffInterval) :
    CountsDown (s.nodes k) ((idleSlot p time s).nodes k) := by
  obtain ⟨u, before, rest⟩ := idleSlot_visit p time k s
  have kept : u.nodes k = s.nodes k := before.eq_of_waiting waiting
  have visited : (idleNode p time u k).nodes k = (s.nodes k).countDown := by
    have quiet : ¬ (u.nodes k).ready = true := fun ready =>
      not_attempts (kept ▸ waiting) (Bool.and_eq_true_iff.mp ready).1
    unfold idleNode
    rw [if_neg quiet]
    simp [Sim.modify, kept]
  rw [visited, Node.countDown_waiting waiting] at rest
  rcases rest with same | ⟨free, more⟩
  · exact .inl (congrArg Node.backoffInterval same)
  · exact .inr ⟨Int.sub_eq_zero.mp (Node.ready_iff.mp free).1, more⟩

theorem busySlot_countsDown (waiting : 0 < (s.nodes k).backoffInterval) :
    CountsDown (s.nodes k) ((busySlot p s).nodes k) := by
  let counted := { s with transmissionTimer := s.transmissionTimer + 1 }
  have own : ∀ (s : Sim n) (i j : Fin n), j ≠ i → (busyNode p s i).nodes j = s.nodes j := by
    intro s i j other
    unfold busyNode
    split_ifs <;> simp [Sim.performBusyBackoff, Sim.modify, other]
  obtain ⟨t, before, visited⟩ := Sweep.entry_of_mem own (List.nodup_finRange n) (List.mem_finRange k) counted
  change t.nodes k = s.nodes k at before
  have finished : ∀ s : Sim n, (finishTransmission p s).nodes = s.nodes := by
    intro s
    unfold finishTransmission
    split_ifs <;> rfl
  unfold busySlot
  rw [finished, visited]
  unfold busyNode
  rw [if_neg fun attempts => not_attempts (before ▸ waiting) attempts.2]
  refine .inl ?_
  simp [Sim.modify, before, Node.countDown_waiting waiting]

theorem draws_backoff (s : Sim n) (k : Fin n) : ((draws p s).nodes k).backoffInterval = (s.nodes k).backoffInterval ∧
    ((draws p s).nodes k).collisionCount = (s.nodes k).collisionCount := by
  refine Prod.mk.inj (Sweep.foldl_keeps
    (f := fun s : Sim n => ((s.nodes k).backoffInterval, (s.nodes k).collisionCount)) (fun s j => ?_) (List.finRange n) s)
  unfold drawNode
  split_ifs
  · rfl
  · by_cases own : k = j
    · subst own
      simp [Sim.drawTransmission, Sim.modify, Node.drawTransmission]
    · simp [Sim.drawTransmission, Sim.modify, own]

/-- In any slot a backoff that is positive is counted down. -/
theorem slot_countsDown (waiting : 0 < (s.nodes k).backoffInterval) :
    CountsDown (s.nodes k) ((slot p time s).nodes k) := by
  obtain ⟨backoff_, count⟩ := draws_backoff (p := p) s k
  have drawn : ∀ node, CountsDown ((draws p s).nodes k) node → CountsDown (s.nodes k) node := by
    intro node h
    unfold CountsDown at h
    rwa [backoff_, count] at h
  refine drawn _ ?_
  unfold slot
  dsimp only
  split_ifs
  · exact busySlot_countsDown (backoff_ ▸ waiting)
  · exact idleSlot_countsDown (backoff_ ▸ waiting)

end Slots

/-- The backoffs are proper, never negative and counted down in a run exactly as long as no
call is made for more collisions than the shift can take. -/
theorem backoffs_proper_iff (p : Parameters) {n : Nat} (istransmitting : Fin n → Bool) (duration : Nat) :
    let s := simulateCSMA p istransmitting
    ((∀ call ∈ (s duration).calls, call.Proper p.maxBackoff) ∧
      (∀ t ≤ duration, ∀ k, 0 ≤ ((s t).nodes k).backoffInterval) ∧
      ∀ t < duration, ∀ k, ((s t).nodes k).backoffInterval ≠ 0 →
        CountsDown ((s t).nodes k) ((s (t + 1)).nodes k)) ↔
    ∀ call ∈ (s duration).calls, call.Safe p.maxBackoff := by
  intro s
  have logged := (simulateCSMA_sound (p := p) istransmitting duration).logged
  constructor
  · rintro ⟨proper, _⟩ call member
    exact ((logged call member).proper_iff p.maxBackoff_le).mp (proper call member)
  · intro safe
    have nonneg : ∀ t ≤ duration, ∀ k, 0 ≤ ((s t).nodes k).backoffInterval := by
      intro t within
      obtain ⟨i, rfl⟩ := Nat.exists_eq_add_of_le within
      have calls := (leads_simulateCSMA (p := p) istransmitting t i).calls
      exact (simulateCSMA_sound istransmitting t).nonneg fun call member => safe call (calls.subset member)
    refine ⟨fun call member => ((logged call member).proper_iff p.maxBackoff_le).mpr (safe call member), nonneg, ?_⟩
    intro t within k apart
    exact slot_countsDown (lt_of_le_of_ne (nonneg t within.le k) apart.symm)

/-- Every value drawn is zero, every node transmits, and the backoff of any collision is 1. -/
def constant : Parameters where
  maxBackoff := 10
  maxtransmissionTime := 1
  backoffChannelBusy := 1
  rand _ := 0
  transmits _ := true
  undefined _ := 0
  maxBackoff_le := by decide
  backoffChannelBusy_pos := by decide
  backoffChannelBusy_le := by decide
  rand_nonneg _ := by decide
  rand_le _ := by decide

/-- Two nodes that always transmit have collided 32 times each after 47 slots. -/
theorem shift_passes_width : ¬ ∀ (p : Parameters) {n : Nat} (istransmitting : Fin n → Bool) (duration : Nat),
    let s := simulateCSMA p istransmitting
    (∀ call ∈ (s duration).calls, call.Proper p.maxBackoff) ∧
      (∀ t ≤ duration, ∀ k, 0 ≤ ((s t).nodes k).backoffInterval) ∧
      ∀ t < duration, ∀ k, ((s t).nodes k).backoffInterval ≠ 0 →
        CountsDown ((s t).nodes k) ((s (t + 1)).nodes k) := by
  intro claim
  obtain ⟨proper, _⟩ := claim constant (fun _ : Fin 2 => true) 47
  have shifted : ((simulateCSMA constant (fun _ : Fin 2 => true) 47).calls.any fun call => call.value.isNone) = true := by
    decide +kernel
  obtain ⟨call, member, undefined⟩ := List.any_eq_true.mp shifted
  obtain ⟨value, defined, _⟩ := proper call member
  rw [defined] at undefined
  exact Bool.false_ne_true undefined

end NetworkOs.Csma.Integers
