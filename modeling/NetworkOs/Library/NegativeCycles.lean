import Mathlib

/-! Walks that are given up where their weight reaches a cap. Either such a walk can be
led around a cycle that makes it lighter, or the weights of all of them have a lower bound. -/
namespace NegativeCycles

open Relation

variable {V : Type*} (link : V → V → ℤ → Prop) (cap : ℤ)

/-- A walk that has arrived somewhere with some weight goes on by one link, below the cap. -/
def Extends (a b : V × ℤ) : Prop := ∃ w, link a.1 b.1 w ∧ b.2 = a.2 + w ∧ b.2 < cap

/-- A walk from `s` comes back to a vertex with less weight than it had there. -/
def NegativeCycle (s : V) : Prop :=
  ∃ v d e, ReflTransGen (Extends link cap) (s, 0) (v, d) ∧ ReflTransGen (Extends link cap) (v, d) (v, e) ∧ e < d

/-- A walk without repetitions, with the list of its vertices. -/
inductive Trail (s : V) : List V → V → ℤ → Prop where
  | start : Trail s [s] s 0
  | step {l : List V} {u v : V} {d w : ℤ} (before : Trail s l u d) (last : link u v w) (below : d + w < cap)
      (new : v ∉ l) : Trail s (v :: l) v (d + w)

variable {link cap} {s u v : V} {d e : ℤ}

/-- A walk that was lighter all along can be extended the same way. -/
theorem Extends.lower (h : ReflTransGen (Extends link cap) (u, d) (v, e)) {k : ℤ} (lighter : 0 ≤ k) :
    ReflTransGen (Extends link cap) (u, d - k) (v, e - k) := by
  refine h.lift (fun a : V × ℤ => (a.1, a.2 - k)) ?_
  rintro a b ⟨w, step, sum, below⟩
  exact ⟨w, step, by dsimp only; omega, by dsimp only; omega⟩

/-- A cycle that makes the walk lighter can be repeated, until it weighs as little as wanted. -/
theorem NegativeCycle.unbounded (h : NegativeCycle link cap s) :
    ∃ v, ∀ bound, ∃ e < bound, ReflTransGen (Extends link cap) (s, 0) (v, e) := by
  obtain ⟨v, d, e, reached, cycle, lighter⟩ := h
  have around : ∀ n : ℕ, ReflTransGen (Extends link cap) (s, 0) (v, d - n * (d - e)) := by
    intro n
    induction n with
    | zero => simpa using reached
    | succ n ih =>
        have again := Extends.lower cycle (k := n * (d - e)) (mul_nonneg (Int.natCast_nonneg n) (by omega))
        have sum : e - n * (d - e) = d - (n + 1 : ℕ) * (d - e) := by push_cast; ring
        exact ih.trans (sum ▸ again)
  refine ⟨v, fun bound => ⟨d - (d - bound).toNat.succ * (d - e), ?_, around _⟩⟩
  have much : ((d - bound).toNat.succ : ℤ) * 1 ≤ (d - bound).toNat.succ * (d - e) :=
    mul_le_mul_of_nonneg_left (by omega) (by omega)
  omega

theorem Trail.nodup {l : List V} (h : Trail link cap s l v d) : l.Nodup := by
  induction h with
  | start => exact List.nodup_singleton s
  | step _ _ _ new ih => exact List.nodup_cons.mpr ⟨new, ih⟩

theorem Trail.subset {l : List V} {S : Finset V} (h : Trail link cap s l v d) (start : s ∈ S)
    (closed : ∀ {u v w}, link u v w → v ∈ S) : ∀ x ∈ l, x ∈ S := by
  induction h with
  | start => exact fun x member => List.mem_singleton.mp member ▸ start
  | step _ last _ _ ih =>
      intro x member
      rcases List.mem_cons.mp member with rfl | earlier
      · exact closed last
      · exact ih x earlier

/-- Each step of a trail loses at most `W`. -/
theorem Trail.weight {l : List V} {W : ℤ} (nonneg : 0 ≤ W) (weights : ∀ {u v w}, link u v w → -W ≤ w)
    (h : Trail link cap s l v d) : -(l.length * W) ≤ d := by
  induction h with
  | start => simpa using nonneg
  | @step l u v d w _ last _ _ ih =>
      have loss := weights last
      have length : ((v :: l).length : ℤ) * W = l.length * W + W := by
        rw [List.length_cons]; push_cast; ring
      omega

/-- A trail through `v` is one to `v` and an extension of that. -/
theorem Trail.cut {l : List V} (h : Trail link cap s l u d) (through : v ∈ l) :
    ∃ l' e, Trail link cap s l' v e ∧ ReflTransGen (Extends link cap) (v, e) (u, d) := by
  induction h with
  | start =>
      obtain rfl := List.mem_singleton.mp through
      exact ⟨[v], 0, .start, .refl⟩
  | @step l u x d w before last below new ih =>
      rcases List.mem_cons.mp through with rfl | earlier
      · exact ⟨v :: l, d + w, before.step last below new, .refl⟩
      · obtain ⟨l', e, trail, onwards⟩ := ih earlier
        exact ⟨l', e, trail, onwards.tail ⟨w, last, rfl, below⟩⟩

theorem Trail.reached {l : List V} (h : Trail link cap s l v d) :
    ReflTransGen (Extends link cap) (s, 0) (v, d) := by
  induction h with
  | start => exact .refl
  | step _ last below _ ih => exact ih.tail ⟨_, last, rfl, below⟩

/-- Without negative cycles the repetitions of a walk can be left out. -/
theorem exists_trail (none_ : ¬ NegativeCycle link cap s) {a : V × ℤ}
    (h : ReflTransGen (Extends link cap) (s, 0) a) : ∃ l e, Trail link cap s l a.1 e ∧ e ≤ a.2 := by
  induction h with
  | refl => exact ⟨[s], 0, .start, le_rfl⟩
  | @tail b c _ last ih =>
      obtain ⟨l, e, trail, lighter⟩ := ih
      obtain ⟨w, step, sum, below⟩ := last
      by_cases again : c.1 ∈ l
      · obtain ⟨l', f, first, onwards⟩ := trail.cut again
        have cycle := onwards.tail (c := (c.1, e + w)) ⟨w, step, rfl, by dsimp only; omega⟩
        have heavier : f ≤ e + w := not_lt.mp fun less => none_ ⟨c.1, f, e + w, first.reached, cycle, less⟩
        exact ⟨l', f, first, by omega⟩
      · exact ⟨c.1 :: l, e + w, trail.step step (by omega) again, by omega⟩

/-- On finitely many vertices, and with weights bounded from below, all walks are too. -/
theorem exists_bound (none_ : ¬ NegativeCycle link cap s) {S : Finset V} (start : s ∈ S)
    (closed : ∀ {u v w}, link u v w → v ∈ S) {W : ℤ} (weights : ∀ {u v w}, link u v w → -W ≤ w) :
    ∃ bound, ∀ v d, ReflTransGen (Extends link cap) (s, 0) (v, d) → bound ≤ d := by
  classical
  refine ⟨-(S.card * max W 0), fun v d h => ?_⟩
  obtain ⟨l, e, trail, lighter⟩ := exists_trail none_ h
  have weight := trail.weight (le_max_right W 0) fun link => (neg_le_neg (le_max_left W 0)).trans (weights link)
  have length : l.length ≤ S.card := by
    rw [← List.toFinset_card_of_nodup trail.nodup]
    refine Finset.card_le_card fun x member => trail.subset start closed x (List.mem_toFinset.mp member)
  have most : (l.length : ℤ) * max W 0 ≤ S.card * max W 0 :=
    mul_le_mul_of_nonneg_right (by exact_mod_cast length) (le_max_right W 0)
  have lighter : e ≤ d := lighter
  omega

end NegativeCycles
