import Mathlib

/-! Distances in a weighted directed graph, and what a labelling of its vertices
says about them where the links are relaxed. -/
namespace ShortestPath

variable {V : Type*} {link : V → V → ℤ → Prop}

/-- There is a walk from `s` of the given total weight to the given vertex. -/
inductive Walk (link : V → V → ℤ → Prop) (s : V) : V → ℤ → Prop where
  | nil : Walk link s s 0
  | snoc {u v : V} {d w : ℤ} (walk : Walk link s u d) (last : link u v w) : Walk link s v (d + w)

/-- The least weight of a walk from `s` to `v` is `d`. -/
structure IsDist (link : V → V → ℤ → Prop) (s v : V) (d : ℤ) : Prop where
  walk : Walk link s v d
  least : ∀ {d'}, Walk link s v d' → d ≤ d'

/-- A shortest walk to `v` can arrive by a link from `u`. -/
def Tight (link : V → V → ℤ → Prop) (s u v : V) : Prop :=
  ∃ d w, IsDist link s u d ∧ link u v w ∧ IsDist link s v (d + w)

def Nonneg (link : V → V → ℤ → Prop) : Prop := ∀ u v w, link u v w → 0 ≤ w

def Positive (link : V → V → ℤ → Prop) : Prop := ∀ u v w, link u v w → 0 < w

theorem Positive.nonneg (h : Positive link) : Nonneg link := fun u v w l => (h u v w l).le

theorem Walk.single {u v : V} {w : ℤ} (h : link u v w) : Walk link u v w := by
  simpa only [zero_add] using Walk.nil.snoc h

theorem Walk.append {s u v : V} {a b : ℤ} (h : Walk link s u a) (h' : Walk link u v b) :
    Walk link s v (a + b) := by
  induction h' with
  | nil => simpa only [add_zero] using h
  | snoc _ last ih =>
      rw [← add_assoc]
      exact ih.snoc last

theorem IsDist.unique {s v : V} {d d' : ℤ} (h : IsDist link s v d) (h' : IsDist link s v d') : d = d' :=
  le_antisymm (h.least h'.walk) (h'.least h.walk)

/-- A potential that no link raises by more than its weight bounds walks from below. -/
theorem Walk.potential_le {π : V → ℤ} (feasible : ∀ {u v w}, link u v w → π v ≤ π u + w)
    {s v : V} {d : ℤ} (h : Walk link s v d) : π v ≤ π s + d := by
  induction h with
  | nil => omega
  | snoc _ last ih =>
      have step := feasible last
      omega

theorem Walk.nonneg (costs : Nonneg link) {s v : V} {d : ℤ} (h : Walk link s v d) : 0 ≤ d := by
  induction h with
  | nil => exact le_rfl
  | snoc _ last ih => exact add_nonneg ih (costs _ _ _ last)

theorem isDist_self (costs : Nonneg link) (s : V) : IsDist link s s 0 := ⟨.nil, fun walk => walk.nonneg costs⟩

theorem IsDist.nonneg (costs : Nonneg link) {s v : V} {d : ℤ} (h : IsDist link s v d) : 0 ≤ d := h.walk.nonneg costs

theorem Walk.exists_isDist (costs : Nonneg link) {s v : V} {d : ℤ} (h : Walk link s v d) : ∃ e ≤ d, IsDist link s v e := by
  obtain ⟨e, walk, least⟩ := Int.exists_least_of_bdd (P := Walk link s v)
    ⟨0, fun _ walk => walk.nonneg costs⟩ ⟨d, h⟩
  exact ⟨e, least d h, walk, fun walk => least _ walk⟩

/-- A shortest walk to another vertex arrives by a link from a vertex it is shortest to. -/
theorem IsDist.last_link (costs : Nonneg link) {s v : V} {d : ℤ} (h : IsDist link s v d)
    (other : s ≠ v) :
    ∃ u e w, IsDist link s u e ∧ link u v w ∧ e + w = d := by
  cases h.walk with
  | nil => exact absurd rfl other
  | @snoc u _ e w walk last =>
      obtain ⟨e', shorter, dist⟩ := walk.exists_isDist costs
      have bound := h.least (dist.walk.snoc last)
      exact ⟨u, e', w, dist, last, by omega⟩

theorem IsDist.split (costs : Nonneg link) {s u v : V} {a b : ℤ} (h : IsDist link s v (a + b))
    (left : Walk link s u a) (right : Walk link u v b) : IsDist link s u a ∧ IsDist link u v b := by
  obtain ⟨a', shorter, dist⟩ := left.exists_isDist costs
  obtain ⟨b', shorter', dist'⟩ := right.exists_isDist costs
  have bound := h.least (dist.walk.append dist'.walk)
  obtain rfl : a' = a := by omega
  obtain rfl : b' = b := by omega
  exact ⟨dist, dist'⟩

/-- Where every link from a label below `k` is relaxed, no walk of weight below `k`
beats the label of its end. -/
theorem Walk.label_le (costs : Nonneg link) {D : V → ℤ} {k : ℤ} {s v : V} {d : ℤ} (start : D s ≤ 0)
    (relaxed : ∀ {u v w}, link u v w → D u < k → D v ≤ D u + w) (h : Walk link s v d) (below : d < k) :
    D v ≤ d := by
  induction h with
  | nil => exact start
  | snoc _ last ih =>
      have cost := costs _ _ _ last
      have before := ih (by omega)
      have step := relaxed last (by omega)
      omega

theorem IsDist.pos (costs : Positive link) {s v : V} {d : ℤ} (h : IsDist link s v d) (other : s ≠ v) : 0 < d := by
  obtain ⟨u, e, w, dist, last, rfl⟩ := h.last_link costs.nonneg other
  have start := dist.nonneg costs.nonneg
  have step := costs _ _ _ last
  omega

/-- With positive weights the walks of weight `k` itself are covered too. -/
theorem IsDist.label_le (costs : Positive link) {D : V → ℤ} {k : ℤ} {s v : V} {d : ℤ} (start : D s ≤ 0)
    (relaxed : ∀ {u v w}, link u v w → D u < k → D v ≤ D u + w) (h : IsDist link s v d) (upto : d ≤ k) :
    D v ≤ d := by
  by_cases same : s = v
  · subst same
    exact start.trans (h.nonneg costs.nonneg)
  · obtain ⟨u, e, w, dist, last, rfl⟩ := h.last_link costs.nonneg same
    have step := costs _ _ _ last
    have before := dist.walk.label_le costs.nonneg start relaxed (by omega)
    have after := relaxed last (by omega)
    omega

end ShortestPath
