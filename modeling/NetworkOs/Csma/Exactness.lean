import NetworkOs.Csma.Countdowns
import NetworkOs.Csma.Simulation

/-! As long as every call of `performBackoff` is safe, the simulation with `int` is the one
with exact values. -/
namespace NetworkOs.Csma.Integers
open Machine

def Node.exact (node : Node) : Csma.Node :=
  ⟨node.backoffInterval.toNat, node.collisionCount, node.successfulTransmissions, node.istransmitting,
    node.collisionsBeforeSuccess, node.timeBeforeSuccess⟩

def Sim.exact {n : Nat} (s : Sim n) : Csma.Sim n where
  nodes k := (s.nodes k).exact
  countcollisions := s.countcollisions
  channelbusynode := s.channelbusynode
  transmissionTime := s.transmissionTime.toNat
  channelBusy := s.channelBusy
  transmissionTimer := s.transmissionTimer
  globalCollisionCounter := s.globalCollisionCounter
  drawn := s.drawn

/-- The parameters for which the transmission time is defined too. -/
structure Timed extends Parameters where
  maxtransmissionTime_pos : 0 < maxtransmissionTime
  maxtransmissionTime_lt : maxtransmissionTime < intMax

def Timed.exact (p : Timed) : Csma.Parameters where
  maxBackoff := p.maxBackoff
  maxtransmissionTime := p.maxtransmissionTime.toNat
  backoffChannelBusy := p.backoffChannelBusy.toNat
  rand i := (p.rand i).toNat
  transmits r := p.transmits r
  maxBackoff_le := p.maxBackoff_le
  maxtransmissionTime_pos := Int.pos_iff_toNat_pos.mp p.maxtransmissionTime_pos
  backoffChannelBusy_pos := Int.pos_iff_toNat_pos.mp p.backoffChannelBusy_pos

section Values
variable {random divisor : Int}

theorem toNat_tmod (nonneg : 0 ≤ random) (positive : 0 < divisor) :
    random.tmod divisor = (random.toNat % divisor.toNat : Nat) := by
  rw [Int.tmod_eq_emod_of_nonneg nonneg]
  push_cast
  rw [Int.toNat_of_nonneg nonneg, Int.toNat_of_nonneg positive.le]

theorem toNat_tmod_succ (nonneg : 0 ≤ random) (positive : 0 < divisor) :
    (random.tmod divisor + 1).toNat = random.toNat % divisor.toNat + 1 := by
  rw [toNat_tmod nonneg positive]
  rfl

theorem toNat_backoff {maxBackoff : Nat} {call : Call} (bound : maxBackoff ≤ 30) (logged : call.Logged maxBackoff)
    (safe : call.Safe maxBackoff) (undefined : Int) :
    (call.value.getD undefined).toNat =
      call.random.toNat % min (2 ^ call.collisionCount) (2 ^ maxBackoff) + 1 := by
  have positive : (0 : Int) < 2 ^ min call.collisionCount maxBackoff := by positivity
  have power : ((2 : Int) ^ min call.collisionCount maxBackoff).toNat = min (2 ^ call.collisionCount) (2 ^ maxBackoff) := by
    rw [Int.toNat_pow_of_nonneg (by decide)]
    exact (pow_right_mono₀ (by decide : 1 ≤ 2)).map_min
  rw [logged.value_of_safe bound safe, Option.getD_some, toNat_tmod_succ logged.nonneg positive, power]

end Values

section Nodes
variable {node : Node}

theorem Node.countDown_exact (node : Node) : node.countDown.exact = node.exact.countDown := by
  unfold Node.countDown Csma.Node.countDown Node.exact
  dsimp only
  split_ifs
  · congr 1
    change (node.backoffInterval - 1).toNat = node.backoffInterval.toNat - 1
    omega
  all_goals first | rfl | omega

theorem Node.attemptTransmission_exact (nonneg : 0 ≤ node.backoffInterval) :
    node.exact.attemptTransmission = node.attemptTransmission := by
  unfold Csma.Node.attemptTransmission Node.attemptTransmission
  refine decide_eq_decide.mpr ?_
  change node.backoffInterval.toNat = 0 ↔ _
  omega

theorem Node.ready_exact (nonneg : 0 ≤ node.backoffInterval) : node.exact.ready = node.ready := by
  rw [Csma.Node.ready, Node.attemptTransmission_exact nonneg]
  rfl

end Nodes

section Statements
variable {n : Nat} {p : Timed} {s : Sim n}

/-- No call of the log goes beyond the shift. -/
def Safely (p : Timed) (s : Sim n) : Prop := ∀ call ∈ s.calls, call.Safe p.maxBackoff

theorem Safely.of_leads {t : Sim n} (safe : Safely p t) (leads : Leads p.toParameters s t) : Safely p s :=
  fun call member => safe call (leads.calls.subset member)

theorem modify_exact {f : Node → Node} {g : Csma.Node → Csma.Node} {k : Fin n}
    (same : (f (s.nodes k)).exact = g (s.nodes k).exact) : (s.modify f k).exact = s.exact.modify g k := by
  unfold Sim.modify Csma.Sim.modify Sim.exact
  congr 1
  funext j
  by_cases own : j = k
  · subst own
    simpa using same
  · simp [own]

theorem drawTransmission_exact (k : Fin n) (s : Sim n) :
    (s.drawTransmission p.toParameters k).exact =
      s.exact.modifyDrawing p.exact (Csma.Node.drawTransmission p.exact.transmits) k := by
  have same : ((s.nodes k).drawTransmission p.transmits (p.rand s.drawn)).exact =
      (s.nodes k).exact.drawTransmission p.exact.transmits (p.rand s.drawn).toNat := by
    simp only [Node.drawTransmission, toNat_tmod (p.rand_nonneg s.drawn) (by decide : (0 : Int) < 100)]
    rfl
  have modified := modify_exact same
  exact congrArg (fun e : Csma.Sim n => { e with drawn := s.drawn + 1 }) modified

theorem performBusyBackoff_exact (k : Fin n) (s : Sim n) :
    (s.performBusyBackoff p.toParameters k).exact =
      s.exact.modifyDrawing p.exact (Csma.Node.performBusyBackoff p.exact.backoffChannelBusy) k := by
  have nonneg := p.rand_nonneg s.drawn
  have same : ((s.nodes k).setBackoff ((p.rand s.drawn).tmod p.backoffChannelBusy + 1)).exact =
      (s.nodes k).exact.performBusyBackoff p.exact.backoffChannelBusy (p.rand s.drawn).toNat := by
    simp only [Node.setBackoff, Node.exact, toNat_tmod_succ nonneg p.backoffChannelBusy_pos]
    rfl
  unfold Sim.performBusyBackoff
  rw [busyBackoff_eq p.backoffChannelBusy_pos p.backoffChannelBusy_le nonneg]
  exact congrArg (fun e : Csma.Sim n => { e with drawn := s.drawn + 1 }) (modify_exact same)

theorem countCollision_exact (k : Fin n) (s : Sim n) : (s.countCollision k).exact =
    Csma.Sim.modify Csma.Node.countCollision k { s.exact with
      countcollisions := Function.update s.exact.countcollisions k (s.exact.countcollisions k + 1) } := by
  have modified : (s.modify Node.countCollision k).exact = s.exact.modify Csma.Node.countCollision k := modify_exact rfl
  exact congrArg (fun e : Csma.Sim n => { e with
    countcollisions := Function.update s.countcollisions k (s.countcollisions k + 1) }) modified

theorem performBackoff_exact {k : Fin n} (safe : Safely p (s.performBackoff p.toParameters k)) :
    (s.performBackoff p.toParameters k).exact =
      s.exact.modifyDrawing p.exact (Csma.Node.performBackoff p.exact.maxBackoff) k := by
  let call : Call := ⟨(s.nodes k).collisionCount, p.rand s.drawn,
    backoff p.maxBackoff (s.nodes k).collisionCount (p.rand s.drawn)⟩
  have logged : call.Logged p.maxBackoff := ⟨rfl, p.rand_nonneg _, p.rand_le _⟩
  have last := safe call (List.mem_append_right _ (List.mem_singleton.mpr rfl))
  have same : ((s.nodes k).setBackoff (call.value.getD (p.undefined s.drawn))).exact =
      (s.nodes k).exact.performBackoff p.exact.maxBackoff (p.rand s.drawn).toNat := by
    simp only [Node.setBackoff, Node.exact, toNat_backoff p.maxBackoff_le logged last]
    rfl
  exact congrArg (fun e : Csma.Sim n => { e with drawn := s.drawn + 1 }) (modify_exact same)

theorem transmissionTime_drawn (s : Sim n) : (s.drawTransmissionTime p.toParameters).transmissionTime =
    (p.rand s.drawn).tmod p.maxtransmissionTime + 2 := by
  have positive := p.maxtransmissionTime_pos
  have nonneg := p.rand_nonneg s.drawn
  have low := Int.tmod_nonneg p.maxtransmissionTime nonneg
  have below := Int.tmod_lt_of_pos (p.rand s.drawn) positive
  have most := p.maxtransmissionTime_lt
  simp only [Sim.drawTransmissionTime, remainder_of_nonneg nonneg positive.ne', Option.bind_some]
  rw [represented_of_range (by omega) (by omega), Option.getD_some]

theorem drawTransmissionTime_timed (s : Sim n) : 0 ≤ (s.drawTransmissionTime p.toParameters).transmissionTime := by
  rw [transmissionTime_drawn]
  exact Int.add_nonneg (Int.tmod_nonneg _ (p.rand_nonneg _)) (by decide)

theorem drawTransmissionTime_exact (s : Sim n) :
    (s.drawTransmissionTime p.toParameters).exact = s.exact.drawTransmissionTime p.exact := by
  unfold Sim.exact Csma.Sim.drawTransmissionTime
  congr 1
  rw [transmissionTime_drawn, toNat_tmod (p.rand_nonneg _) p.maxtransmissionTime_pos]
  rfl

theorem draws_transmissionTime (s : Sim n) : (draws p.toParameters s).transmissionTime = s.transmissionTime := by
  refine Sweep.foldl_keeps (f := Sim.transmissionTime) (fun s k => ?_) _ s
  unfold drawNode
  split_ifs <;> rfl

theorem busyNodes_transmissionTime (s : Sim n) :
    ((List.finRange n).foldl (busyNode p.toParameters) s).transmissionTime = s.transmissionTime := by
  refine Sweep.foldl_keeps (f := Sim.transmissionTime) (fun s k => ?_) _ s
  unfold busyNode
  split_ifs <;> rfl

theorem idleSlot_transmissionTime (time : Nat) (s : Sim n) :
    (idleSlot p.toParameters time s).transmissionTime = s.transmissionTime := by
  refine Sweep.foldl_keeps (f := Sim.transmissionTime) (fun s k => ?_) _ s
  have found :
      ((List.finRange n).foldl (checkCollision p.toParameters k) (s, 0)).1.transmissionTime = s.transmissionTime := by
    refine Sweep.foldl_keeps (f := fun found : Sim n × Nat => found.1.transmissionTime) (fun found other => ?_) _ (s, 0)
    unfold checkCollision
    split_ifs <;> rfl
  unfold idleNode
  dsimp only
  split_ifs
  · exact found
  · exact found
  · rfl

theorem slot_timed (time : Nat) (timed : 0 ≤ s.transmissionTime) :
    0 ≤ (slot p.toParameters time s).transmissionTime := by
  unfold slot
  dsimp only
  split_ifs
  · unfold busySlot finishTransmission
    split_ifs
    · exact drawTransmissionTime_timed _
    · rw [busyNodes_transmissionTime]
      exact le_of_le_of_eq timed (draws_transmissionTime s).symm
  · rw [idleSlot_transmissionTime, draws_transmissionTime]
    exact timed

/-- A loop is exact whose visits are. -/
theorem foldl_exact {visit : Sim n → Fin n → Sim n} {visit' : Csma.Sim n → Fin n → Csma.Sim n}
    (leads : ∀ s k, Leads p.toParameters s (visit s k))
    (same : ∀ s k, Sound p.toParameters s → Safely p (visit s k) → (visit s k).exact = visit' s.exact k)
    (l : List (Fin n)) (sound : Sound p.toParameters s) (safe : Safely p (l.foldl visit s)) :
    (l.foldl visit s).exact = l.foldl visit' s.exact := by
  induction l generalizing s with
  | nil => rfl
  | cons k rest ih =>
      have later := (leads s k).sound sound
      have safe_ : Safely p (visit s k) := safe.of_leads (foldl_leads leads rest (visit s k))
      rw [List.foldl_cons, List.foldl_cons, ih later safe, same s k sound safe_]

theorem draws_exact (sound : Sound p.toParameters s) (safe : Safely p (draws p.toParameters s)) :
    (draws p.toParameters s).exact = Csma.draws p.exact s.exact := by
  refine foldl_exact leads_drawNode (fun s k _ _ => ?_) _ sound safe
  unfold drawNode Csma.drawNode
  by_cases on : (s.nodes k).istransmitting = true
  · rw [if_pos on, if_pos (show (s.exact.nodes k).istransmitting = true from on)]
  · rw [if_neg on, if_neg (show ¬ (s.exact.nodes k).istransmitting = true from on)]
    exact drawTransmission_exact k s

theorem busyNode_exact {k : Fin n} (nonneg : 0 ≤ (s.nodes k).backoffInterval) :
    (busyNode p.toParameters s k).exact = Csma.busyNode p.exact s.exact k := by
  have attempts := Node.attemptTransmission_exact nonneg
  unfold busyNode Csma.busyNode
  change _ = if s.channelbusynode ≠ some k ∧ (s.nodes k).exact.attemptTransmission = true then
    if (s.nodes k).istransmitting = true then _ else _ else _
  rw [attempts]
  split_ifs
  · exact performBusyBackoff_exact k s
  · rfl
  · exact modify_exact (Node.countDown_exact _)

theorem finishTransmission_exact (time : 0 ≤ s.transmissionTime) :
    (finishTransmission p.toParameters s).exact = Csma.finishTransmission p.exact s.exact := by
  have last : s.exact.transmissionTimer = s.exact.transmissionTime ↔ (s.transmissionTimer : Int) = s.transmissionTime := by
    change s.transmissionTimer = s.transmissionTime.toNat ↔ _
    omega
  unfold finishTransmission Csma.finishTransmission
  rw [if_congr last rfl rfl]
  split_ifs
  · exact drawTransmissionTime_exact _
  · rfl

theorem busySlot_exact (sound : Sound p.toParameters s) (safe : Safely p (busySlot p.toParameters s))
    (time : 0 ≤ s.transmissionTime) : (busySlot p.toParameters s).exact = Csma.busySlot p.exact s.exact := by
  let counted := { s with transmissionTimer := s.transmissionTimer + 1 }
  let visited := (List.finRange n).foldl (busyNode p.toParameters) counted
  have safe_ : Safely p visited := safe.of_leads (leads_finishTransmission visited)
  have sound_ : Sound p.toParameters counted := ⟨sound.logged, sound.nonneg⟩
  have loop : visited.exact = (List.finRange n).foldl (Csma.busyNode p.exact) counted.exact :=
    foldl_exact leads_busyNode
      (fun s k sound safe => busyNode_exact (sound.nonneg (safe.of_leads (leads_busyNode s k)) k)) _ sound_ safe_
  have same : visited.transmissionTime = s.transmissionTime := busyNodes_transmissionTime counted
  unfold busySlot Csma.busySlot
  rw [finishTransmission_exact (le_of_le_of_eq time same.symm)]
  exact congrArg (Csma.finishTransmission p.exact) loop

theorem checkCollision_exact {k other : Fin n} {found : Sim n × Nat}
    (nonneg : 0 ≤ (found.1.nodes other).backoffInterval)
    (safe : Safely p (checkCollision p.toParameters k found other).1) :
    Csma.checkCollision p.exact k (found.1.exact, found.2) other =
      ((checkCollision p.toParameters k found other).1.exact, (checkCollision p.toParameters k found other).2) := by
  have ready : (found.1.exact.nodes other).ready = (found.1.nodes other).ready := Node.ready_exact nonneg
  unfold checkCollision at safe
  unfold checkCollision Csma.checkCollision
  dsimp only
  rw [ready]
  split_ifs at safe ⊢
  · rw [performBackoff_exact safe, countCollision_exact]
  · rfl

theorem checked_exact (k : Fin n) (l : List (Fin n)) (found : Sim n × Nat) (sound : Sound p.toParameters found.1)
    (safe : Safely p (l.foldl (checkCollision p.toParameters k) found).1) :
    l.foldl (Csma.checkCollision p.exact k) (found.1.exact, found.2) =
      ((l.foldl (checkCollision p.toParameters k) found).1.exact, (l.foldl (checkCollision p.toParameters k) found).2) := by
  induction l generalizing found with
  | nil => rfl
  | cons other rest ih =>
      have leads := leads_checkCollision (p := p.toParameters) k found other
      have safe_ := safe.of_leads (leads_checked k rest (checkCollision p.toParameters k found other))
      rw [List.foldl_cons, List.foldl_cons, checkCollision_exact (sound.nonneg (safe_.of_leads leads) other) safe_]
      exact ih _ (leads.sound sound) safe

theorem succeed_exact (time : Nat) (k : Fin n) (s : Sim n) :
    (succeed p.toParameters time k s).exact = Csma.succeed p.exact time k s.exact := by
  have recorded : ((s.drawTransmission p.toParameters k).modify (Node.recordSuccess (s.countcollisions k) time) k).exact =
      (s.drawTransmission p.toParameters k).exact.modify (Csma.Node.recordSuccess (s.countcollisions k) time) k :=
    modify_exact rfl
  rw [drawTransmission_exact] at recorded
  exact congrArg (fun e : Csma.Sim n => { e with
    countcollisions := Function.update s.countcollisions k 0
    channelBusy := true
    channelbusynode := some k
    transmissionTimer := s.transmissionTimer + 1 }) recorded

theorem collide_exact {k : Fin n} (safe : Safely p (collide p.toParameters k s)) :
    (collide p.toParameters k s).exact = Csma.collide p.exact k s.exact := by
  have backed := performBackoff_exact (s := s.countCollision k) (k := k) safe
  rw [countCollision_exact] at backed
  exact congrArg (fun e : Csma.Sim n => { e with globalCollisionCounter := s.globalCollisionCounter + 1 }) backed

theorem idleNode_exact {time : Nat} {k : Fin n} (sound : Sound p.toParameters s)
    (safe : Safely p (idleNode p.toParameters time s k)) :
    (idleNode p.toParameters time s k).exact = Csma.idleNode p.exact time s.exact k := by
  have nonneg := sound.nonneg (safe.of_leads (leads_idleNode time s k)) k
  have ready : (s.exact.nodes k).ready = (s.nodes k).ready := Node.ready_exact nonneg
  unfold idleNode at safe
  unfold idleNode Csma.idleNode
  dsimp only at safe ⊢
  rw [ready]
  split_ifs at safe with attempts alone
  · have found := checked_exact k (List.finRange n) (s, 0) sound (safe.of_leads (leads_succeed time k _))
    rw [if_pos attempts, if_pos attempts, if_pos alone, found, if_pos alone]
    exact succeed_exact time k _
  · have found := checked_exact k (List.finRange n) (s, 0) sound (safe.of_leads (leads_collide k _))
    rw [if_pos attempts, if_pos attempts, if_neg alone, found, if_neg alone]
    exact collide_exact safe
  · rw [if_neg attempts, if_neg attempts]
    exact modify_exact (Node.countDown_exact _)

theorem slot_exact {time : Nat} (sound : Sound p.toParameters s) (safe : Safely p (slot p.toParameters time s))
    (timed : 0 ≤ s.transmissionTime) : (slot p.toParameters time s).exact = Csma.slot p.exact time s.exact := by
  let u := draws p.toParameters s
  have sound_ : Sound p.toParameters u := (leads_draws s).sound sound
  unfold slot at safe
  unfold slot Csma.slot
  dsimp only at safe ⊢
  split_ifs at safe with busy
  · have drawn := draws_exact sound (safe.of_leads (leads_busySlot u))
    rw [if_pos busy, ← drawn, if_pos (show u.exact.channelBusy = true from busy)]
    exact busySlot_exact sound_ safe (le_of_le_of_eq timed (draws_transmissionTime s).symm)
  · have drawn := draws_exact sound (safe.of_leads (leads_idleSlot time u))
    rw [if_neg busy, ← drawn, if_neg (show ¬ u.exact.channelBusy = true from busy)]
    exact foldl_exact (leads_idleNode time) (fun _ _ sound safe => idleNode_exact sound safe) _ sound_ safe

end Statements

/-- The simulation with `int` follows the exact one as long as all its calls are safe. -/
theorem simulateCSMA_exact (p : Timed) {n : Nat} (istransmitting : Fin n → Bool) (duration : Nat)
    (safe : Safely p (simulateCSMA p.toParameters istransmitting duration)) :
    (simulateCSMA p.toParameters istransmitting duration).exact = Csma.simulateCSMA p.exact istransmitting duration := by
  have timed : ∀ t, 0 ≤ (simulateCSMA p.toParameters istransmitting t).transmissionTime := by
    intro t
    induction t with
    | zero => exact drawTransmissionTime_timed _
    | succ t ih => exact slot_timed t ih
  induction duration with
  | zero => exact drawTransmissionTime_exact _
  | succ t ih =>
      have before : Safely p (simulateCSMA p.toParameters istransmitting t) :=
        safe.of_leads (leads_slot t (simulateCSMA p.toParameters istransmitting t))
      have sound := simulateCSMA_sound (p := p.toParameters) istransmitting t
      exact (slot_exact sound safe (timed t)).trans (congrArg (Csma.slot p.exact t) (ih before))

end NetworkOs.Csma.Integers
