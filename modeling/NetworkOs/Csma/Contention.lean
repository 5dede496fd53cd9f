import NetworkOs.Csma.Channel

/-! Contention in an idle slot. The attempt of the first node that is ready looks at
nodes whose backoff the loop has already counted down, and at nodes where it has not. -/
namespace NetworkOs.Csma

/-- The nodes that are ready in this slot. -/
def contenders {n : Nat} (s : Sim n) : Finset (Fin n) := {k | (s.nodes k).ready = true}

/-- The contention of the nodes `R` decides the slot from `s` to `v`. -/
structure Resolved {n : Nat} (R : Finset (Fin n)) (s v : Sim n) : Prop where
  nobody : R = ∅ → (∀ k, ¬ Succeeds s v k) ∧ v.tallies.collisions = s.tallies.collisions ∧
    v.tallies.counter = s.tallies.counter
  alone : ∀ k, R = {k} → Succeeds s v k ∧ v.tallies.collisions = s.tallies.collisions
  together : 2 ≤ R.card → (∀ k, ¬ Succeeds s v k) ∧
    (∀ k, v.tallies.collisions k = s.tallies.collisions k + if k ∈ R then 1 else 0) ∧
    v.tallies.counter = s.tallies.counter + 1

section Contention
variable {n : Nat} {p : Parameters} {s u v : Sim n} {m : Fin n}

theorem mem_contenders {k : Fin n} : k ∈ contenders s ↔ (s.nodes k).ready = true := by simp [contenders]

/-- Without nodes that count down to ready, the first contender finds the other contenders. -/
theorem FirstReady.insert_found (h : FirstReady m u) (none_ : ∀ j, j < m → ¬ CountsDownToReady j u) :
    insert m (foundBy m u) = contenders u := by
  ext j
  rw [Finset.mem_insert, mem_contenders]
  simp only [foundBy, Finset.mem_filter, Finset.mem_univ, true_and]
  constructor
  · rintro (rfl | ⟨_, ready | ⟨lt, counts⟩⟩)
    · exact h.ready
    · exact ready
    · exact absurd counts (none_ j lt)
  · intro ready
    by_cases same : j = m
    · exact .inl same
    · exact .inr ⟨Ne.symm same, .inl ready⟩

theorem not_mem_foundBy : m ∉ foundBy m u := fun member => (Finset.mem_filter.mp member).2.1 rfl

theorem resolved_of_silent (none_ : contenders u = ∅) (tallies : v.tallies = s.tallies) :
    Resolved (contenders u) s v := by
  refine ⟨fun _ => ⟨not_succeeds tallies, congrArg _ tallies, congrArg _ tallies⟩, fun k own => ?_, fun two => ?_⟩
  · rw [none_] at own
    exact absurd own.symm (Finset.singleton_ne_empty k)
  · rw [none_, Finset.card_empty] at two
    omega

theorem resolved_of_success (own : contenders u = {m}) (tallies : v.tallies = s.tallies.after {m} ∅) :
    Resolved (contenders u) s v := by
  refine ⟨fun none_ => ?_, fun k single => ?_, fun two => ?_⟩
  · rw [own] at none_
    exact absurd none_ (Finset.singleton_ne_empty m)
  · have same : m = k := Finset.singleton_injective (own.symm.trans single)
    have kept : v.tallies.collisions = (s.tallies.after {m} ∅).collisions := congrArg _ tallies
    exact ⟨(succeeds_iff tallies k).mpr same.symm, kept⟩
  · rw [own, Finset.card_singleton] at two
    omega

theorem resolved_of_collision (two : 2 ≤ (contenders u).card)
    (tallies : v.tallies = s.tallies.after ∅ (contenders u)) : Resolved (contenders u) s v := by
  have some_ : (contenders u).Nonempty := Finset.card_pos.mp (by omega)
  refine ⟨fun none_ => absurd none_ some_.ne_empty, fun k single => ?_, fun _ => ⟨?_, ?_, ?_⟩⟩
  · rw [single, Finset.card_singleton] at two
    omega
  · exact not_succeeds_of_collision tallies
  · exact congrFun (congrArg Tallies.collisions tallies)
  · rw [tallies]
    exact congrArg _ (if_pos some_)

/-- A node outside the contenders that is found collides with the first of them. -/
theorem not_resolved {j : Fin n} {collided : Finset (Fin n)} (h : FirstReady m u) (found : j ∈ collided)
    (outside : j ∉ contenders u) (tallies : v.tallies = s.tallies.after ∅ collided) :
    ¬ Resolved (contenders u) s v := by
  intro resolved
  have raised : v.tallies.collisions j = s.tallies.collisions j + 1 := by
    rw [tallies]
    exact congrArg _ (if_pos found)
  have member : m ∈ contenders u := mem_contenders.mpr h.ready
  rcases Nat.lt_or_ge (contenders u).card 2 with few | two
  · have single : (contenders u).card = 1 := by
      have some_ := Finset.card_pos.mpr ⟨m, member⟩
      omega
    obtain ⟨k, own⟩ := Finset.card_eq_one.mp single
    have kept := congrFun (resolved.alone k own).2 j
    omega
  · have kept := (resolved.together two).2.1 j
    rw [if_neg outside] at kept
    omega

/-- The idle slot is decided by its contenders exactly when no node before the first of
them counts down to ready. -/
theorem idleSlot_resolved {time : Nat} (same : u.tallies = s.tallies) :
    Resolved (contenders u) s (idleSlot p time u) ↔
      ∀ m, FirstReady m u → ∀ j, j < m → ¬ CountsDownToReady j u := by
  by_cases some_ : ∃ k, (u.nodes k).ready = true
  · obtain ⟨m, first⟩ := exists_firstReady some_
    have only : ∀ m', FirstReady m' u → m' = m := by
      intro m' other
      rcases lt_trichotomy m' m with lt | eq | gt
      · exact absurd other.ready (first.first m' lt)
      · exact eq
      · exact absurd first.ready (other.first m gt)
    constructor
    · intro resolved m' other j lt counts
      have eq := only m' other
      subst eq
      have found : j ∈ foundBy m' u :=
        Finset.mem_filter.mpr ⟨Finset.mem_univ j, lt.ne', .inr ⟨lt, counts⟩⟩
      have tallies := (first.collides p time ⟨j, found⟩).1
      rw [same] at tallies
      have outside : j ∉ contenders u := fun member => first.first j lt (mem_contenders.mp member)
      exact not_resolved first (Finset.mem_insert_of_mem found) outside tallies resolved
    · intro none_
      have contenders_ := first.insert_found (none_ m first)
      rcases (foundBy m u).eq_empty_or_nonempty with alone | others
      · have tallies := (first.succeeds p time alone).1
        rw [same] at tallies
        refine resolved_of_success (m := m) ?_ tallies
        rw [← contenders_, alone, insert_empty_eq]
      · have tallies := (first.collides p time others).1
        rw [same, contenders_] at tallies
        refine resolved_of_collision ?_ tallies
        rw [← contenders_, Finset.card_insert_of_notMem not_mem_foundBy]
        have more := Finset.card_pos.mpr others
        omega
  · refine iff_of_true (resolved_of_silent ?_ ?_) ?_
    · exact Finset.filter_eq_empty_iff.mpr fun k _ ready => some_ ⟨k, ready⟩
    · exact (idleSlot_silent p time (not_exists.mp some_)).1.trans same
    · exact fun m first => absurd ⟨m, first.ready⟩ some_

end Contention

/-- In every simulation, an idle slot is decided by the nodes that are ready after its
draw exactly when no node before the first of them counts down to ready. -/
theorem contention_resolved_iff (p : Parameters) {n : Nat} (istransmitting : Fin n → Bool) (t : Nat)
    (idle : (simulateCSMA p istransmitting t).channelBusy = false) :
    let s := simulateCSMA p istransmitting
    Resolved (contenders (draws p (s t))) (s t) (s (t + 1)) ↔
      ∀ m, FirstReady m (draws p (s t)) → ∀ j, j < m → ¬ CountsDownToReady j (draws p (s t)) := by
  intro s
  rw [show s (t + 1) = idleSlot p t (draws p (s t)) from slot_idle idle]
  exact idleSlot_resolved (draws_tallies (s t))

/-- Parameters under which every backoff is one slot long. -/
def shortest : Parameters where
  maxBackoff := 0
  maxtransmissionTime := 1
  backoffChannelBusy := 1
  rand _ := 0
  transmits _ := true
  maxBackoff_le := Nat.zero_le 30
  maxtransmissionTime_pos := Nat.one_pos
  backoffChannelBusy_pos := Nat.one_pos

/-- In the first slot no backoff has been drawn. -/
theorem contention_resolved_first :
    let s := simulateCSMA shortest fun _ : Fin 2 => true
    Resolved (contenders (draws shortest (s 0))) (s 0) (s 1) := by
  refine (contention_resolved_iff shortest (fun _ => true) 0 rfl).mpr fun m _ j _ counts => ?_
  have zero : ∀ j : Fin 2,
      ((draws shortest (simulateCSMA shortest (fun _ : Fin 2 => true) 0)).nodes j).backoffInterval = 0 := by
    decide
  exact Nat.zero_ne_one ((zero j).symm.trans counts.1)

/-- Two nodes collide in the first slot. In the second one the second node alone is ready,
but it finds the first one counted down. -/
theorem counted_down_collides :
    ¬ ∀ (p : Parameters) (n : Nat) (istransmitting : Fin n → Bool) (t : Nat),
      let s := simulateCSMA p istransmitting
      (s t).channelBusy = false → Resolved (contenders (draws p (s t))) (s t) (s (t + 1)) := by
  intro claim
  have resolved := claim shortest 2 (fun _ => true) 1 (by decide)
  have single : contenders (draws shortest (simulateCSMA shortest (fun _ : Fin 2 => true) 1)) = {1} := by decide
  have failed : ¬ Succeeds (simulateCSMA shortest (fun _ : Fin 2 => true) 1)
      (simulateCSMA shortest (fun _ : Fin 2 => true) 2) 1 := by
    unfold Succeeds
    decide
  exact failed (resolved.alone 1 single).1

end NetworkOs.Csma
