import NetworkOs.Csma.Attempts

/-! The channel over a whole simulation: who succeeds has it for the transmission time. -/
namespace NetworkOs.Csma

/-- The timer runs from one up to the transmission time, and rests at zero. -/
structure Regular {n : Nat} (channel : Channel n) : Prop where
  time : 2 ≤ channel.time
  idle : channel.busy = false → channel.timer = 0
  busy : channel.busy = true → 1 ≤ channel.timer ∧ channel.timer < channel.time

/-- The node succeeds between these states. -/
def Succeeds {n : Nat} (s v : Sim n) (k : Fin n) : Prop :=
  (s.nodes k).successfulTransmissions < (v.nodes k).successfulTransmissions

def Collides {n : Nat} (s v : Sim n) (k : Fin n) : Prop := (s.nodes k).collisionCount < (v.nodes k).collisionCount

section Channel
variable {n : Nat} {p : Parameters} {s v : Sim n} {time : Nat}

theorem slot_busy (busy : s.channelBusy = true) : slot p time s = busySlot p (draws p s) :=
  if_pos ((congrArg Channel.busy (draws_channel s)).trans busy)

theorem slot_idle (idle : s.channelBusy = false) : slot p time s = idleSlot p time (draws p s) := by
  refine if_neg fun busy => ?_
  rw [show (draws p s).channelBusy = s.channelBusy from congrArg Channel.busy (draws_channel s), idle] at busy
  exact Bool.false_ne_true busy

theorem slot_busy_tallies (busy : s.channelBusy = true) : (slot p time s).tallies = s.tallies := by
  rw [slot_busy busy, busySlot_tallies, draws_tallies]

theorem slot_busy_last (p : Parameters) (time : Nat) (busy : s.channelBusy = true) (last : s.channel.timer + 1 = s.channel.time) :
    (slot p time s).channel.busy = false ∧ (slot p time s).channel.timer = 0 ∧
      2 ≤ (slot p time s).channel.time := by
  rw [slot_busy busy]
  refine (busySlot_channel (draws p s)).1 ?_
  change (draws p s).channel.timer + 1 = (draws p s).channel.time
  rwa [draws_channel]

theorem slot_busy_counts (p : Parameters) (time : Nat) (busy : s.channelBusy = true) (more : s.channel.timer + 1 ≠ s.channel.time) :
    (slot p time s).channel = { s.channel with timer := s.channel.timer + 1 } := by
  rw [slot_busy busy, (busySlot_channel (draws p s)).2]
  · change { (draws p s).channel with timer := (draws p s).channel.timer + 1 } = _
    rw [draws_channel]
  · change (draws p s).channel.timer + 1 ≠ (draws p s).channel.time
    rwa [draws_channel]

theorem slot_idle_cases (p : Parameters) (time : Nat) (idle : s.channelBusy = false) : IdleSlot s (slot p time s) := by
  rw [slot_idle idle]
  cases idleSlot_cases p time (draws p s) with
  | silent tallies channel => exact .silent (tallies.trans (draws_tallies s)) (channel.trans (draws_channel s))
  | success m tallies channel =>
      rw [draws_tallies] at tallies
      rw [draws_channel] at channel
      exact .success m tallies channel
  | collision collided tallies channel =>
      rw [draws_tallies] at tallies
      exact .collision collided tallies (channel.trans (draws_channel s))

theorem Regular.slot (h : Regular s.channel) : Regular (slot p time s).channel := by
  cases state : s.channelBusy with
  | true =>
      by_cases last : s.channel.timer + 1 = s.channel.time
      · obtain ⟨free, zero, least⟩ := slot_busy_last p time state last
        exact ⟨least, fun _ => zero, fun busy => absurd (free.symm.trans busy) Bool.false_ne_true⟩
      · rw [slot_busy_counts p time state last]
        have within := (h.busy state).2
        refine ⟨h.time, fun idle => absurd (idle.symm.trans state) Bool.false_ne_true, fun _ => ⟨?_, ?_⟩⟩
        · exact Nat.le_add_left 1 _
        · exact lt_of_le_of_ne within last
  | false =>
      cases slot_idle_cases p time state with
      | silent _ channel => exact channel ▸ h
      | collision _ _ channel => exact channel ▸ h
      | success m _ channel =>
          rw [channel]
          refine ⟨h.time, nofun, fun _ => ⟨Nat.le_add_left 1 _, ?_⟩⟩
          change s.channel.timer + 1 < s.channel.time
          rw [h.idle state]
          exact h.time

theorem simulateCSMA_regular (p : Parameters) (istransmitting : Fin n → Bool) (t : Nat) :
    Regular (simulateCSMA p istransmitting t).channel := by
  induction t with
  | zero => exact ⟨Nat.le_add_left 2 _, fun _ => rfl, nofun⟩
  | succ t ih => exact ih.slot

theorem not_succeeds (same : v.tallies = s.tallies) (k : Fin n) : ¬ Succeeds s v k :=
  Nat.not_lt.mpr (congrFun (congrArg Tallies.successes same) k).le

theorem not_succeeds_of_collision {collided : Finset (Fin n)} (tallies : v.tallies = s.tallies.after ∅ collided)
    (k : Fin n) : ¬ Succeeds s v k :=
  Nat.not_lt.mpr (congrFun (congrArg Tallies.successes tallies) k).le

theorem succeeds_iff {m : Fin n} (tallies : v.tallies = s.tallies.after {m} ∅) (k : Fin n) :
    Succeeds s v k ↔ k = m := by
  have count : (v.nodes k).successfulTransmissions =
      (s.nodes k).successfulTransmissions + if k ∈ ({m} : Finset (Fin n)) then 1 else 0 :=
    congrFun (congrArg Tallies.successes tallies) k
  simp only [Finset.mem_singleton] at count
  unfold Succeeds
  split_ifs at count with same
  · exact iff_of_true (by omega) same
  · exact iff_of_false (by omega) same

theorem not_collides_of_success {m : Fin n} (tallies : v.tallies = s.tallies.after {m} ∅) (k : Fin n) :
    ¬ Collides s v k :=
  Nat.not_lt.mpr (congrFun (congrArg Tallies.collisions tallies) k).le

/-- A slot in which a node succeeds starts idle, and is a success of that node only. -/
theorem slot_of_success {k : Fin n} (success : Succeeds s (slot p time s) k) : s.channelBusy = false ∧
    (slot p time s).tallies = s.tallies.after {k} ∅ ∧
      (slot p time s).channel = { s.channel with busy := true, node := some k, timer := s.channel.timer + 1 } := by
  cases state : s.channelBusy with
  | true => exact absurd success (not_succeeds (slot_busy_tallies state) k)
  | false =>
      cases slot_idle_cases p time state with
      | silent tallies _ => exact absurd success (not_succeeds tallies k)
      | collision collided tallies _ => exact absurd success (not_succeeds_of_collision tallies k)
      | success m tallies channel =>
          have same := (succeeds_iff tallies k).mp success
          subst same
          exact ⟨rfl, tallies, channel⟩

end Channel

section Simulation
variable {n : Nat} {p : Parameters} {istransmitting : Fin n → Bool} {t : Nat} {k : Fin n}

theorem held_by_success
    (success : Succeeds (simulateCSMA p istransmitting t) (simulateCSMA p istransmitting (t + 1)) k) (i : Nat)
    (within : i + 1 < (simulateCSMA p istransmitting t).transmissionTime) :
    (simulateCSMA p istransmitting (t + (i + 1))).channel =
      ⟨true, some k, i + 1, (simulateCSMA p istransmitting t).transmissionTime⟩ := by
  induction i with
  | zero =>
      obtain ⟨idle, _, channel⟩ := slot_of_success success
      have rest := (simulateCSMA_regular p istransmitting t).idle idle
      rw [rest] at channel
      exact channel
  | succ i ih =>
      have before := ih (by omega)
      have counts := slot_busy_counts p (t + (i + 1)) (congrArg Channel.busy before)
        (by rw [before]; exact within.ne)
      rw [before] at counts
      exact counts

theorem freed_after_success
    (success : Succeeds (simulateCSMA p istransmitting t) (simulateCSMA p istransmitting (t + 1)) k) :
    (simulateCSMA p istransmitting (t + (simulateCSMA p istransmitting t).transmissionTime)).channelBusy = false := by
  have least := (simulateCSMA_regular p istransmitting t).time
  change 2 ≤ (simulateCSMA p istransmitting t).transmissionTime at least
  obtain ⟨i, time⟩ := Nat.exists_eq_add_of_le least
  have last := held_by_success success i (by omega)
  have freed := slot_busy_last p (t + (i + 1)) (congrArg Channel.busy last)
    (by rw [last, time]; change i + 1 + 1 = 2 + i; omega)
  rw [time, show t + (2 + i) = t + (i + 1) + 1 by omega]
  exact freed.1

end Simulation

/-- In each slot at most one node succeeds, without a collision and only when the channel
starts idle; the channel is then taken for the transmission time, and free after it. -/
theorem success_takes_channel (p : Parameters) {n : Nat} (istransmitting : Fin n → Bool) (t : Nat) :
    let s := simulateCSMA p istransmitting
    (∀ j k, Succeeds (s t) (s (t + 1)) j → Succeeds (s t) (s (t + 1)) k → j = k) ∧
    (∀ j, Succeeds (s t) (s (t + 1)) j → (∀ k, ¬ Collides (s t) (s (t + 1)) k) ∧
      (s (t + 1)).globalCollisionCounter = (s t).globalCollisionCounter) ∧
    ((s t).channelBusy = true → ∀ k, ¬ Succeeds (s t) (s (t + 1)) k) ∧
    ∀ k, Succeeds (s t) (s (t + 1)) k → 2 ≤ (s t).transmissionTime ∧
      (∀ u, t < u → u < t + (s t).transmissionTime → (s u).channelBusy = true) ∧
      (s (t + (s t).transmissionTime)).channelBusy = false ∧
      ∀ u, t < u → (∃ j, Succeeds (s u) (s (u + 1)) j) → t + (s t).transmissionTime ≤ u := by
  intro s
  have busy : ∀ k, Succeeds (s t) (s (t + 1)) k →
      ∀ u, t < u → u < t + (s t).transmissionTime → (s u).channelBusy = true := by
    intro k success u later within
    obtain ⟨i, rfl⟩ := Nat.exists_eq_add_of_lt later
    exact congrArg Channel.busy (held_by_success success i (by dsimp only [s] at within; omega))
  refine ⟨?_, ?_, ?_, fun k success => ⟨?_, busy k success, freed_after_success success, ?_⟩⟩
  · intro j k first second
    exact (succeeds_iff (slot_of_success second).2.1 j).mp first
  · intro j success
    have tallies := (slot_of_success success).2.1
    exact ⟨not_collides_of_success tallies, congrArg Tallies.counter tallies⟩
  · intro taken k
    exact not_succeeds (slot_busy_tallies taken) k
  · exact (simulateCSMA_regular p istransmitting t).time
  · rintro u later ⟨j, success'⟩
    by_contra within
    have taken := busy k success u later (not_le.mp within)
    exact not_succeeds (slot_busy_tallies taken) j success'

end NetworkOs.Csma
