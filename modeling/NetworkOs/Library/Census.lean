import Mathlib

/-! How many of finitely many threads are in a place, and how this number changes
when one thread moves. -/
namespace Census

variable {ι α : Type*} [Fintype ι] [DecidableEq ι]

/-- The number of threads whose state satisfies `p`. -/
def census (p : α → Prop) [DecidablePred p] (f : ι → α) : Nat :=
  (Finset.univ.filter fun k => p (f k)).card

variable {p : α → Prop} [DecidablePred p] {f : ι → α}

omit [DecidableEq ι] in
theorem census_pos_iff : 0 < census p f ↔ ∃ k, p (f k) := by
  rw [census, Finset.card_pos]
  constructor
  · rintro ⟨k, member⟩
    exact ⟨k, (Finset.mem_filter.mp member).2⟩
  · rintro ⟨k, holds⟩
    exact ⟨k, Finset.mem_filter.mpr ⟨Finset.mem_univ k, holds⟩⟩

omit [DecidableEq ι] in
theorem census_eq_zero_iff : census p f = 0 ↔ ∀ k, ¬ p (f k) := by
  rw [← not_exists, ← census_pos_iff]
  omega

omit [DecidableEq ι] in
theorem exists_not_of_lt (fewer : census p f < Fintype.card ι) : ∃ k, ¬ p (f k) := by
  by_contra! all
  have every : (Finset.univ.filter fun k => p (f k)) = Finset.univ :=
    Finset.filter_true_of_mem fun k _ => all k
  rw [census, every, Finset.card_univ] at fewer
  exact lt_irrefl _ fewer

omit [DecidableEq ι] in
theorem census_lt_card {k : ι} (outside : ¬ p (f k)) : census p f < Fintype.card ι :=
  Finset.card_lt_univ_of_notMem fun member => outside (Finset.mem_filter.mp member).2

omit [DecidableEq ι] in
theorem census_of_forall (all : ∀ k, p (f k)) : census p f = Fintype.card ι := by
  rw [census, Finset.filter_true_of_mem fun k _ => all k, Finset.card_univ]

omit [DecidableEq ι] in
/-- Two descriptions that agree on every thread count alike. -/
theorem census_congr {β : Type*} {q : β → Prop} [DecidablePred q] {g : ι → β}
    (same : ∀ k, p (f k) ↔ q (g k)) : census p f = census q g :=
  congrArg Finset.card (Finset.filter_congr fun k _ => same k)

/-- One thread moves: the others weigh what they did. -/
theorem sum_update (weight : α → Nat) (f : ι → α) (k : ι) (v : α) :
    ∑ i, weight (Function.update f k v i) + weight (f k) = ∑ i, weight (f i) + weight v := by
  have others : ∑ i ∈ Finset.univ.erase k, weight (Function.update f k v i) =
      ∑ i ∈ Finset.univ.erase k, weight (f i) := by
    refine Finset.sum_congr rfl fun i member => ?_
    rw [Function.update_of_ne (Finset.ne_of_mem_erase member)]
  have after := Finset.add_sum_erase Finset.univ (fun i => weight (Function.update f k v i)) (Finset.mem_univ k)
  have before := Finset.add_sum_erase Finset.univ (fun i => weight (f i)) (Finset.mem_univ k)
  rw [Function.update_self, others] at after
  omega

theorem census_update (k : ι) (v : α) :
    census p (Function.update f k v) + (if p (f k) then 1 else 0) = census p f + if p v then 1 else 0 := by
  rw [census, census, Finset.card_filter, Finset.card_filter]
  exact sum_update (fun a => if p a then 1 else 0) f k v

theorem census_enter {k : ι} {v : α} (outside : ¬ p (f k)) (inside : p v) :
    census p (Function.update f k v) = census p f + 1 := by
  have moved := census_update (p := p) (f := f) k v
  rwa [if_neg outside, if_pos inside] at moved

theorem census_leave {k : ι} {v : α} (inside : p (f k)) (outside : ¬ p v) :
    census p (Function.update f k v) + 1 = census p f := by
  have moved := census_update (p := p) (f := f) k v
  rwa [if_pos inside, if_neg outside] at moved

theorem census_stay {k : ι} {v : α} (same : p (f k) ↔ p v) :
    census p (Function.update f k v) = census p f := by
  have moved := census_update (p := p) (f := f) k v
  by_cases holds : p v
  · rw [if_pos (same.mpr holds), if_pos holds] at moved
    omega
  · rw [if_neg (mt same.mp holds), if_neg holds] at moved
    omega

end Census
