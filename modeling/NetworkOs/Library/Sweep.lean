import Mathlib

/-! A loop that visits indices one after another, where a visit writes the entry of its
own index only: each entry is written once, from the value it had before the loop. -/
namespace Sweep

variable {σ ι β : Type*} {visit : σ → ι → σ} {entry : σ → ι → β}

theorem foldl_keeps {γ : Type*} {f : σ → γ} (kept : ∀ s i, f (visit s i) = f s) (l : List ι) (s : σ) :
    f (l.foldl visit s) = f s := by
  induction l generalizing s with
  | nil => rfl
  | cons i rest ih => rw [List.foldl_cons, ih, kept]

theorem entry_of_not_mem (own : ∀ s i j, j ≠ i → entry (visit s i) j = entry s j) {l : List ι} {i : ι}
    (outside : i ∉ l) (s : σ) : entry (l.foldl visit s) i = entry s i := by
  induction l generalizing s with
  | nil => rfl
  | cons j rest ih =>
      rw [List.mem_cons, not_or] at outside
      rw [List.foldl_cons, ih outside.2, own s j i outside.1]

theorem entry_of_mem (own : ∀ s i j, j ≠ i → entry (visit s i) j = entry s j) {l : List ι} {i : ι}
    (once : l.Nodup) (member : i ∈ l) (s : σ) :
    ∃ t, entry t i = entry s i ∧ entry (l.foldl visit s) i = entry (visit t i) i := by
  induction l generalizing s with
  | nil => exact absurd member List.not_mem_nil
  | cons j rest ih =>
      rw [List.nodup_cons] at once
      rcases List.mem_cons.mp member with rfl | later
      · exact ⟨s, rfl, entry_of_not_mem own once.1 _⟩
      · obtain ⟨t, before, written⟩ := ih once.2 later (visit s j)
        have other : i ≠ j := fun same => once.1 (same ▸ later)
        exact ⟨t, before.trans (own s j i other), written⟩

/-- A loop over all indices, split at one of them. -/
theorem finRange_split {n : Nat} (k : Fin n) : ∃ before after, List.finRange n = before ++ k :: after ∧
    (∀ j, j ∈ before ↔ j < k) ∧ (∀ j, j ∈ after ↔ k < j) ∧ before.Nodup ∧ after.Nodup := by
  obtain ⟨before, after, order⟩ := List.append_of_mem (List.mem_finRange k)
  have once := order ▸ List.nodup_finRange n
  have sorted := order ▸ List.pairwise_lt_finRange n
  rw [List.nodup_append, List.nodup_cons] at once
  rw [List.pairwise_append, List.pairwise_cons] at sorted
  have all : ∀ j, j ∈ before ∨ j = k ∨ j ∈ after := fun j => by
    have member : j ∈ before ++ k :: after := order ▸ List.mem_finRange j
    simpa using member
  have earlier : ∀ j ∈ before, j < k := fun j member => sorted.2.2 j member k List.mem_cons_self
  have later : ∀ j ∈ after, k < j := sorted.2.1.1
  refine ⟨before, after, order, fun j => ⟨earlier j, fun lt => ?_⟩, fun j => ⟨later j, fun lt => ?_⟩, once.1, once.2.1.2⟩
  · rcases all j with member | rfl | member
    · exact member
    · exact absurd lt (lt_irrefl j)
    · exact absurd lt (later j member).not_gt
  · rcases all j with member | rfl | member
    · exact absurd lt (earlier j member).not_gt
    · exact absurd lt (lt_irrefl j)
    · exact member

end Sweep
