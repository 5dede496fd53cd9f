import NetworkOs.Library.Frames
import NetworkOs.Csma.Statistics

/-! The slots of a whole simulation, one after another, and what the printed statistics
tell of them. -/
namespace NetworkOs.Csma
open Frames Sweep

section Events
variable {n : Nat}

instance (s v : Sim n) (k : Fin n) : Decidable (Succeeds s v k) := Nat.decLt _ _

/-- The node that has succeeded between these states, or the kind of slot without one. -/
def event (s v : Sim n) : Event (Fin n) :=
  if s.channelBusy then .busy
  else
    match (List.finRange n).find? fun k => Succeeds s v k with
    | some k => .success k
    | none => if s.globalCollisionCounter < v.globalCollisionCounter then .collision else .silent

def timeline (p : Parameters) (istransmitting : Fin n → Bool) (t : Nat) : List (Event (Fin n)) :=
  (List.range t).map fun u => event (simulateCSMA p istransmitting u) (simulateCSMA p istransmitting (u + 1))

/-- The transmission that holds the channel, with the slots it has had. -/
def Channel.sending (channel : Channel n) : Option (Fin n × Nat) :=
  if channel.busy then channel.node.map fun k => (k, channel.timer) else none

variable {p : Parameters} {istransmitting : Fin n → Bool} {t time : Nat} {s v : Sim n}

theorem timeline_succ : timeline p istransmitting (t + 1) = timeline p istransmitting t ++
    [event (simulateCSMA p istransmitting t) (simulateCSMA p istransmitting (t + 1))] := by
  simp only [timeline, List.range_succ, List.map_append, List.map_singleton]

theorem length_timeline : (timeline p istransmitting t).length = t := by
  rw [timeline, List.length_map, List.length_range]

theorem event_busy (busy : s.channelBusy = true) : event s v = .busy := if_pos busy

theorem event_success {k : Fin n} (idle : s.channelBusy = false) (tallies : v.tallies = s.tallies.after {k} ∅) :
    event s v = .success k := by
  have found : (List.finRange n).find? (fun j => Succeeds s v j) = some k := by
    have some_ : ((List.finRange n).find? fun j => Succeeds s v j).isSome = true := by
      rw [List.find?_isSome]
      exact ⟨k, List.mem_finRange k, decide_eq_true ((succeeds_iff tallies k).mpr rfl)⟩
    obtain ⟨j, found⟩ := Option.isSome_iff_exists.mp some_
    have same := (succeeds_iff tallies j).mp (by simpa using List.find?_some found)
    rw [found, same]
  unfold event
  rw [idle, found]
  rfl

theorem event_of_no_success (idle : s.channelBusy = false) (none_ : ∀ k, ¬ Succeeds s v k) :
    event s v = if s.globalCollisionCounter < v.globalCollisionCounter then .collision else .silent := by
  have found : (List.finRange n).find? (fun k => Succeeds s v k) = none := by
    rw [List.find?_eq_none]
    exact fun k _ success => none_ k (of_decide_eq_true success)
  unfold event
  rw [idle, found]
  rfl

/-- What the event of a slot says of the channel and the tallies. -/
inductive Shows (s v : Sim n) : Event (Fin n) → Prop
  | busy (taken : s.channelBusy = true) (tallies : v.tallies = s.tallies) : Shows s v .busy
  | silent (idle : s.channelBusy = false) (tallies : v.tallies = s.tallies) (channel : v.channel = s.channel) :
      Shows s v .silent
  | collision (idle : s.channelBusy = false) (collided : Finset (Fin n)) (some_ : collided.Nonempty)
      (tallies : v.tallies = s.tallies.after ∅ collided) (channel : v.channel = s.channel) : Shows s v .collision
  | success (idle : s.channelBusy = false) (k : Fin n) (tallies : v.tallies = s.tallies.after {k} ∅)
      (channel : v.channel = { s.channel with busy := true, node := some k, timer := s.channel.timer + 1 }) :
      Shows s v (.success k)

theorem slot_shows (p : Parameters) (time : Nat) (s : Sim n) : Shows s (slot p time s) (event s (slot p time s)) := by
  cases state : s.channelBusy with
  | true =>
      rw [event_busy state]
      exact .busy state (slot_busy_tallies state)
  | false =>
      cases slot_idle_cases p time state with
      | silent tallies channel =>
          rw [event_of_no_success state (not_succeeds tallies), if_neg]
          · exact .silent state tallies channel
          · exact Nat.not_lt.mpr (congrArg Tallies.counter tallies).le
      | success k tallies channel =>
          rw [event_success state tallies]
          exact .success state k tallies channel
      | collision collided tallies channel =>
          have counter : (slot p time s).globalCollisionCounter =
              s.globalCollisionCounter + if collided.Nonempty then 1 else 0 := congrArg Tallies.counter tallies
          rw [event_of_no_success state (not_succeeds_of_collision tallies)]
          by_cases some_ : collided.Nonempty
          · rw [if_pos some_] at counter
            rw [if_pos (by omega)]
            exact .collision state collided some_ tallies channel
          · rw [if_neg some_] at counter
            rw [if_neg (by omega)]
            rw [Finset.not_nonempty_iff_eq_empty.mp some_] at tallies
            exact .silent state (tallies.trans (by simp [Tallies.after])) channel

theorem timeline_shows (p : Parameters) (istransmitting : Fin n → Bool) (t : Nat) :
    Shows (simulateCSMA p istransmitting t) (simulateCSMA p istransmitting (t + 1))
      (event (simulateCSMA p istransmitting t) (simulateCSMA p istransmitting (t + 1))) :=
  slot_shows p t _

end Events

section Blocks
variable {n : Nat} {p : Parameters} {istransmitting : Fin n → Bool} {t time : Nat} {s v : Sim n}

theorem busySlot_time_le (within : s.transmissionTime ≤ p.maxtransmissionTime + 1) :
    (busySlot p s).transmissionTime ≤ p.maxtransmissionTime + 1 := by
  have loop : ((List.finRange n).foldl (busyNode p)
      { s with transmissionTimer := s.transmissionTimer + 1 }).transmissionTime = s.transmissionTime := by
    refine foldl_keeps (f := Sim.transmissionTime) (fun s k => ?_) _ _
    unfold busyNode
    split_ifs <;> rfl
  unfold busySlot finishTransmission
  split_ifs
  · have drawn := Nat.mod_lt (p.rand ((List.finRange n).foldl (busyNode p)
      { s with transmissionTimer := s.transmissionTimer + 1 }).drawn) p.maxtransmissionTime_pos
    exact Nat.add_le_add_right drawn 1
  · exact loop.le.trans within

theorem slot_time_le (within : s.channel.time ≤ p.maxtransmissionTime + 1) :
    (slot p time s).channel.time ≤ p.maxtransmissionTime + 1 := by
  cases state : s.channelBusy with
  | true =>
      rw [slot_busy state]
      exact busySlot_time_le ((congrArg Channel.time (draws_channel s)).le.trans within)
  | false =>
      cases slot_idle_cases p time state with
      | silent _ channel => exact channel ▸ within
      | collision _ _ channel => exact channel ▸ within
      | success m _ channel => exact channel ▸ within

/-- The events so far, cut into blocks, and the state they have left. -/
structure Cut (p : Parameters) (events : List (Event (Fin n))) (blocks : List (Block (Fin n))) (s : Sim n) : Prop where
  regular : Regular s.channel
  time_le : s.channel.time ≤ p.maxtransmissionTime + 1
  held : s.channel.busy = true → s.channel.node.isSome = true
  reads : Reads 2 (p.maxtransmissionTime + 1) events blocks s.channel.sending

theorem Channel.sending_idle {channel : Channel n} (idle : channel.busy = false) : channel.sending = none := by
  rw [Channel.sending, idle]
  rfl

theorem Channel.sending_busy {channel : Channel n} {k : Fin n} (busy : channel.busy = true)
    (holder : channel.node = some k) : channel.sending = some (k, channel.timer) := by
  rw [Channel.sending, busy, holder]
  rfl

/-- One slot adds its event: a block, a transmission's first slot, or one more slot of it. -/
theorem Cut.slot {events : List (Event (Fin n))} {blocks : List (Block (Fin n))} (h : Cut p events blocks s) :
    ∃ blocks', Cut p (events ++ [event s (slot p time s)]) blocks' (slot p time s) := by
  have regular : Regular (Csma.slot p time s).channel := h.regular.slot
  have time_le : (Csma.slot p time s).channel.time ≤ p.maxtransmissionTime + 1 := slot_time_le h.time_le
  have reads := h.reads
  have shown := slot_shows p time s
  generalize event s (Csma.slot p time s) = slotEvent at shown ⊢
  cases shown with
  | silent idle _ channel =>
      rw [Channel.sending_idle idle] at reads
      exact ⟨_, regular, time_le, channel ▸ h.held, by
        rw [channel, Channel.sending_idle idle]
        exact reads.silent⟩
  | collision idle _ _ _ channel =>
      rw [Channel.sending_idle idle] at reads
      exact ⟨_, regular, time_le, channel ▸ h.held, by
        rw [channel, Channel.sending_idle idle]
        exact reads.collision⟩
  | success idle k _ channel =>
      rw [Channel.sending_idle idle] at reads
      refine ⟨blocks, regular, time_le, fun _ => by rw [channel]; rfl, ?_⟩
      rw [channel, Channel.sending_busy rfl rfl, h.regular.idle idle]
      exact reads.success k (Nat.lt_add_of_pos_left p.maxtransmissionTime_pos)
  | busy taken _ =>
      obtain ⟨k, holder⟩ := Option.isSome_iff_exists.mp (h.held taken)
      rw [Channel.sending_busy taken holder] at reads
      by_cases last : s.channel.timer + 1 = s.channel.time
      · obtain ⟨free, _, _⟩ := slot_busy_last p time taken last
        refine ⟨blocks ++ [.frame k (s.channel.timer + 1)], regular, time_le, fun busy => absurd (free.symm.trans busy) Bool.false_ne_true, ?_⟩
        rw [Channel.sending_idle free]
        exact reads.finish (last ▸ h.regular.time)
      · have counts := slot_busy_counts p time taken last
        have within := (h.regular.busy taken).2
        refine ⟨blocks, regular, time_le, fun _ => by rw [counts, holder]; rfl, ?_⟩
        have sending : (Csma.slot p time s).channel.sending = some (k, s.channel.timer + 1) := by
          rw [counts]
          exact Channel.sending_busy taken holder
        have bound := h.time_le
        rw [sending]
        exact reads.busy (by omega)

theorem exists_cut (p : Parameters) (istransmitting : Fin n → Bool) (t : Nat) :
    ∃ blocks, Cut p (timeline p istransmitting t) blocks (simulateCSMA p istransmitting t) := by
  induction t with
  | zero =>
      refine ⟨[], simulateCSMA_regular p istransmitting 0, ?_, nofun, .nil⟩
      exact Nat.add_le_add_right (Nat.mod_lt _ p.maxtransmissionTime_pos) 1
  | succ t ih =>
      obtain ⟨blocks, cut⟩ := ih
      rw [timeline_succ]
      exact cut.slot

theorem counts_concat (events : List (Event (Fin n))) (last e : Event (Fin n)) :
    (events ++ [last]).count e = events.count e + if last = e then 1 else 0 := by
  rw [List.count_append, List.count_singleton]
  simp only [beq_iff_eq]

/-- The counters count the events. -/
theorem timeline_counts (p : Parameters) (istransmitting : Fin n → Bool) (t : Nat) :
    (simulateCSMA p istransmitting t).globalCollisionCounter = (timeline p istransmitting t).count .collision ∧
      ∀ k, ((simulateCSMA p istransmitting t).nodes k).successfulTransmissions =
        (timeline p istransmitting t).count (.success k) := by
  induction t with
  | zero => exact ⟨rfl, fun _ => rfl⟩
  | succ t ih =>
      have shown := timeline_shows p istransmitting t
      rw [timeline_succ]
      simp only [counts_concat, ← ih.1, ← ih.2]
      generalize event _ _ = slotEvent at shown ⊢
      have step : ∀ {tallies : Tallies n}, (simulateCSMA p istransmitting (t + 1)).tallies = tallies →
          (simulateCSMA p istransmitting (t + 1)).globalCollisionCounter = tallies.counter ∧
            ∀ k, ((simulateCSMA p istransmitting (t + 1)).nodes k).successfulTransmissions = tallies.successes k :=
        fun same => ⟨congrArg Tallies.counter same, fun k => congrFun (congrArg Tallies.successes same) k⟩
      cases shown with
      | busy _ tallies =>
          obtain ⟨counter, successes⟩ := step tallies
          exact ⟨counter, successes⟩
      | silent _ tallies _ =>
          obtain ⟨counter, successes⟩ := step tallies
          exact ⟨counter, successes⟩
      | collision _ collided some_ tallies _ =>
          obtain ⟨counter, successes⟩ := step tallies
          refine ⟨counter.trans ?_, successes⟩
          simp [Tallies.after, Sim.tallies, some_]
      | success _ k tallies _ =>
          obtain ⟨counter, successes⟩ := step tallies
          refine ⟨counter, fun j => (successes j).trans ?_⟩
          simp [Tallies.after, Sim.tallies, eq_comm]

end Blocks

section Times
variable {n : Nat} {p : Parameters} {istransmitting : Fin n → Bool} {t time : Nat} {s v w : Sim n} {k : Fin n}

/-- Nothing but this time is added to the times that the nodes have recorded. -/
def Records (time : Nat) (s v : Sim n) : Prop :=
  ∀ k, ∃ m, (v.nodes k).timeBeforeSuccess = (s.nodes k).timeBeforeSuccess ++ List.replicate m time

theorem Records.of_same (same : ∀ k, (v.nodes k).timeBeforeSuccess = (s.nodes k).timeBeforeSuccess) :
    Records time s v := fun k => ⟨0, (same k).trans (List.append_nil _).symm⟩

theorem Records.trans (first : Records time s v) (second : Records time v w) : Records time s w := by
  intro k
  obtain ⟨m, earlier⟩ := first k
  obtain ⟨m', later⟩ := second k
  refine ⟨m + m', ?_⟩
  rw [later, earlier, List.append_assoc, List.replicate_append_replicate]

theorem Records.update {node : Node} (nodes : v.nodes = Function.update s.nodes k node)
    (own : ∃ m, node.timeBeforeSuccess = (s.nodes k).timeBeforeSuccess ++ List.replicate m time) :
    Records time s v := by
  intro j
  rw [nodes]
  by_cases same : j = k
  · subst same
    rw [Function.update_self]
    exact own
  · rw [Function.update_of_ne same]
    exact ⟨0, (List.append_nil _).symm⟩

theorem Records.modify {f : Node → Node} (same : ∀ node, (f node).timeBeforeSuccess = node.timeBeforeSuccess) :
    Records time s (s.modify f k) := .update rfl ⟨0, (same _).trans (List.append_nil _).symm⟩

theorem Records.foldl {visit : Sim n → Fin n → Sim n} (each : ∀ s k, Records time s (visit s k))
    (l : List (Fin n)) (s : Sim n) : Records time s (l.foldl visit s) := by
  induction l generalizing s with
  | nil => exact .of_same fun _ => rfl
  | cons k rest ih => exact (each s k).trans (ih _)

@[simp] theorem Node.countDown_times (node : Node) : node.countDown.timeBeforeSuccess = node.timeBeforeSuccess :=
  congrArg NodeStatistics.timeBeforeSuccess node.countDown_statistics

theorem draws_records : Records time s (draws p s) := by
  refine .foldl (fun s k => ?_) _ s
  unfold drawNode
  split_ifs
  · exact .of_same fun _ => rfl
  · exact .modify fun _ => rfl

theorem busySlot_records : Records time s (busySlot p s) := by
  have loop : ∀ s : Sim n, Records time s ((List.finRange n).foldl (busyNode p) s) := by
    refine .foldl (fun s k => ?_) _
    unfold busyNode
    split_ifs
    · exact .modify fun _ => rfl
    · exact .of_same fun _ => rfl
    · exact .modify Node.countDown_times
  refine (loop { s with transmissionTimer := s.transmissionTimer + 1 }).trans (.of_same fun k => ?_)
  unfold busySlot finishTransmission
  split_ifs <;> rfl

theorem checked_records (k : Fin n) (s : Sim n) :
    Records time s ((List.finRange n).foldl (checkCollision p k) (s, 0)).1 := by
  refine List.foldlRecOn (motive := fun found : Sim n × Nat => Records time s found.1) _ _
    (.of_same fun _ => rfl) fun found h j _ => ?_
  by_cases hit : k ≠ j ∧ (found.1.nodes j).ready = true
  · exact h.trans (.update (checkCollision_hit (p := p) hit).1 ⟨0, (List.append_nil _).symm⟩)
  · rw [checkCollision, if_neg hit]
    exact h

theorem succeed_records (k : Fin n) (s : Sim n) : Records time s (succeed p time k s) := by
  refine .update (k := k) (modify_modify _ _ k s) ⟨1, rfl⟩

theorem idleNode_records (s : Sim n) (k : Fin n) : Records time s (idleNode p time s k) := by
  unfold idleNode
  dsimp only
  split_ifs
  · exact (checked_records k s).trans (succeed_records k _)
  · exact (checked_records k s).trans (.update (collide_parts k _).1 ⟨0, (List.append_nil _).symm⟩)
  · exact .modify Node.countDown_times

theorem slot_records : Records time s (slot p time s) := by
  refine (draws_records (p := p)).trans ?_
  unfold slot
  dsimp only
  split_ifs
  · exact busySlot_records
  · exact .foldl idleNode_records _ _

/-- A node's times are the slots in which it has succeeded. -/
theorem timeline_times (p : Parameters) (istransmitting : Fin n → Bool) (t : Nat) (k : Fin n) :
    ((simulateCSMA p istransmitting t).nodes k).timeBeforeSuccess =
      (List.range t).filter fun u => Succeeds (simulateCSMA p istransmitting u) (simulateCSMA p istransmitting (u + 1)) k := by
  induction t with
  | zero => rfl
  | succ t ih =>
      have recorded : Records t (simulateCSMA p istransmitting t) (simulateCSMA p istransmitting (t + 1)) := slot_records
      obtain ⟨m, added⟩ := recorded k
      have before := (simulateCSMA_recorded p istransmitting t k).times
      have after := (simulateCSMA_recorded p istransmitting (t + 1) k).times
      change ((simulateCSMA p istransmitting t).nodes k).timeBeforeSuccess.length =
        ((simulateCSMA p istransmitting t).nodes k).successfulTransmissions at before
      change ((simulateCSMA p istransmitting (t + 1)).nodes k).timeBeforeSuccess.length =
        ((simulateCSMA p istransmitting (t + 1)).nodes k).successfulTransmissions at after
      rw [added, List.length_append, List.length_replicate, before] at after
      rw [added, ih, List.range_succ, List.filter_append]
      by_cases success : Succeeds (simulateCSMA p istransmitting t) (simulateCSMA p istransmitting (t + 1)) k
      · have once : ((simulateCSMA p istransmitting (t + 1)).nodes k).successfulTransmissions =
            ((simulateCSMA p istransmitting t).nodes k).successfulTransmissions + 1 :=
          (congrFun (congrArg Tallies.successes (slot_of_success success).2.1) k).trans (by simp [Tallies.after, Sim.tallies])
        rw [List.filter_singleton, decide_eq_true success, show m = 1 by omega]
        rfl
      · have none_ : m = 0 := by
          unfold Succeeds at success
          omega
        rw [List.filter_singleton, decide_eq_false success, none_]
        rfl

/-- Two successes are as far apart as the earlier one's transmission time. -/
theorem success_apart {j : Fin n} {u : Nat}
    (first : Succeeds (simulateCSMA p istransmitting t) (simulateCSMA p istransmitting (t + 1)) k)
    (second : Succeeds (simulateCSMA p istransmitting u) (simulateCSMA p istransmitting (u + 1)) j) (later : t < u) :
    t + (simulateCSMA p istransmitting t).transmissionTime ≤ u := by
  by_contra within
  obtain ⟨i, rfl⟩ := Nat.exists_eq_add_of_lt later
  have held := held_by_success first i (by omega)
  exact not_succeeds (slot_busy_tallies (congrArg Channel.busy held)) j second

end Times

/-- The slots of every run are silent ones, collisions and whole transmissions of between two
slots and one more than `maxtransmissionTime`. Only the last transmission can be cut, by the
end of the run, and then it holds the channel. The printed counters count these slots. -/
theorem runs_of_blocks (p : Parameters) {n : Nat} (istransmitting : Fin n → Bool) (t : Nat) :
    let s := simulateCSMA p istransmitting t
    (∃ (blocks : List (Block (Fin n))) (cut : List (Event (Fin n))),
      timeline p istransmitting t = blocks.flatMap Block.events ++ cut ∧
      (∀ k length, .frame k length ∈ blocks → 2 ≤ length ∧ length ≤ p.maxtransmissionTime + 1) ∧
      (s.channelBusy = false → cut = []) ∧
      (s.channelBusy = true → ∃ k slots, s.channelbusynode = some k ∧ cut = sent k slots ∧
        slots = s.transmissionTimer ∧ slots < s.transmissionTime)) ∧
    s.globalCollisionCounter = (timeline p istransmitting t).count .collision ∧
    ∀ k, (s.nodes k).successfulTransmissions = (timeline p istransmitting t).count (.success k) := by
  intro s
  refine ⟨?_, timeline_counts p istransmitting t⟩
  obtain ⟨blocks, cut⟩ := exists_cut p istransmitting t
  refine ⟨blocks, _, cut.reads.events, fun k length member => cut.reads.fits _ member, ?_, ?_⟩
  · intro idle
    rw [Channel.sending_idle idle]
    rfl
  · intro busy
    obtain ⟨k, holder⟩ := Option.isSome_iff_exists.mp (cut.held busy)
    refine ⟨k, s.transmissionTimer, holder, ?_, rfl, (cut.regular.busy busy).2⟩
    rw [Channel.sending_busy busy holder]
    rfl

/-- The printed times are the slots of the successes, for each node in their order and as many as its
successes. No two nodes print one time, and two times are apart by the transmission time of the
earlier. A success thus takes two slots at least, but for one that the end cuts, and a global
collision takes one. -/
theorem times_printed (p : Parameters) {n : Nat} (istransmitting : Fin n → Bool) (t : Nat) :
    let s := simulateCSMA p istransmitting
    (∀ k u, u ∈ ((s t).nodes k).timeBeforeSuccess ↔ u < t ∧ Succeeds (s u) (s (u + 1)) k) ∧
    (∀ k, ((s t).nodes k).timeBeforeSuccess.Pairwise (· < ·) ∧
      ((s t).nodes k).timeBeforeSuccess.length = ((s t).nodes k).successfulTransmissions) ∧
    (∀ j k u v, u ∈ ((s t).nodes j).timeBeforeSuccess → v ∈ ((s t).nodes k).timeBeforeSuccess →
      (u = v → j = k) ∧ (u < v → u + 2 ≤ v ∧ u + (s u).transmissionTime ≤ v)) ∧
    2 * ∑ k, ((s t).nodes k).successfulTransmissions + (s t).globalCollisionCounter ≤ t + 1 := by
  intro s
  have times : ∀ k u, u ∈ ((s t).nodes k).timeBeforeSuccess ↔ u < t ∧ Succeeds (s u) (s (u + 1)) k := by
    intro k u
    dsimp only [s]
    rw [timeline_times, List.mem_filter, List.mem_range, decide_eq_true_eq]
  refine ⟨times, fun k => ⟨?_, (simulateCSMA_recorded p istransmitting t k).times⟩, fun j k u v first second => ?_, ?_⟩
  · dsimp only [s]
    rw [timeline_times]
    exact List.pairwise_lt_range.filter _
  · obtain ⟨_, success⟩ := (times j u).mp first
    obtain ⟨_, success'⟩ := (times k v).mp second
    refine ⟨fun same => ?_, fun later => ?_⟩
    · subst same
      exact (succeeds_iff (slot_of_success success').2.1 j).mp success
    · have apart := success_apart success success' later
      have least := (simulateCSMA_regular p istransmitting u).time
      exact ⟨(Nat.add_le_add_left least u).trans apart, apart⟩
  · obtain ⟨blocks, cut⟩ := exists_cut p istransmitting t
    obtain ⟨collisions, successes⟩ := timeline_counts p istransmitting t
    have load := cut.reads.load_le (by omega)
    rw [countP_isSuccess, length_timeline, ← collisions] at load
    simp only [s, successes]
    exact load

end NetworkOs.Csma
