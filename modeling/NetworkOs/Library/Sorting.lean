import Mathlib.Order.Defs.Unbundled
import Mathlib.Order.RelClasses
import Mathlib.Data.List.Basic

/-! The contract of a library sort: it depends on a comparator that is a strict weak
ordering of the elements, and promises nothing for any other one. -/
namespace Sorting

variable {α : Type*} {comp : α → α → Bool} {l : List α}

/-- The comparator, restricted to the elements of the list, is a strict weak ordering. -/
def StrictWeakOn (comp : α → α → Bool) (l : List α) : Prop :=
  IsStrictWeakOrder {a // a ∈ l} fun a b => comp a b = true

/-- The elements of `l`, none of them behind one that it comes before. -/
structure Arranged (comp : α → α → Bool) (l sorted : List α) : Prop where
  perm : sorted.Perm l
  ordered : sorted.Pairwise fun a b => comp b a = false

/-- What a sort may leave behind, `none` where it runs past the array. -/
inductive Sorts (comp : α → α → Bool) (l : List α) : Option (List α) → Prop
  | arranged {sorted} : StrictWeakOn comp l → Arranged comp l sorted → Sorts comp l (some sorted)
  | undefined {outcome} : ¬ StrictWeakOn comp l → Sorts comp l outcome

/-- Every outcome is an arrangement of the elements exactly under the assumption of the sort. -/
theorem sorts_arranged_iff :
    (∀ outcome, Sorts comp l outcome → ∃ sorted, outcome = some sorted ∧ Arranged comp l sorted) ↔
      StrictWeakOn comp l := by
  constructor
  · intro arranged
    by_contra disorder
    obtain ⟨_, nothing, _⟩ := arranged none (.undefined disorder)
    exact nomatch nothing
  · intro order outcome left
    cases left with
    | arranged _ sorted => exact ⟨_, rfl, sorted⟩
    | undefined disorder => exact absurd order disorder

namespace StrictWeakOn

theorem nil (comp : α → α → Bool) : StrictWeakOn comp [] where
  irrefl a := absurd a.2 List.not_mem_nil
  trans a := absurd a.2 List.not_mem_nil
  incomp_trans a := absurd a.2 List.not_mem_nil

theorem irrefl (order : StrictWeakOn comp l) {a : α} (member : a ∈ l) : comp a a = false :=
  Bool.eq_false_iff.mpr (order.toIrrefl.irrefl ⟨a, member⟩)

theorem asymm (order : StrictWeakOn comp l) {a b : α} (member : a ∈ l) (member' : b ∈ l) (before : comp a b = true) :
    comp b a = false :=
  Bool.eq_false_iff.mpr fun after =>
    order.toIrrefl.irrefl ⟨a, member⟩ (order.toIsTrans.trans ⟨a, member⟩ ⟨b, member'⟩ ⟨a, member⟩ before after)

variable (order : StrictWeakOn comp l)
include order

/-- Where `b` does not come before `a`, nor `c` before `b`, `c` does not come before `a`. -/
theorem not_before_trans (a b c : {a // a ∈ l}) (first : ¬ comp b a = true) (second : ¬ comp c b = true) :
    ¬ comp c a = true := by
  intro last
  have apart : ¬ comp a b = true := fun before => second (order.toIsTrans.trans c a b last before)
  have apart' : ¬ comp b c = true := fun before => first (order.toIsTrans.trans b c a before last)
  exact (order.incomp_trans a b c ⟨apart, first⟩ ⟨apart', second⟩).2 last

theorem not_before_total (a b : {a // a ∈ l}) : ¬ comp b a = true ∨ ¬ comp a b = true := by
  refine or_iff_not_imp_right.mpr fun before => ?_
  rw [order.asymm a.2 b.2 (not_not.mp before)]
  exact Bool.false_ne_true

/-- The elements can be arranged. -/
theorem exists_sorts : ∃ outcome, Sorts comp l outcome := by
  let le : {a // a ∈ l} → {a // a ∈ l} → Bool := fun a b => !comp b a
  have perm : ((l.attach.mergeSort le).map Subtype.val).Perm l := by
    have kept := (List.mergeSort_perm l.attach le).map Subtype.val
    rwa [List.attach_map_subtype_val] at kept
  have ordered : ((l.attach.mergeSort le).map Subtype.val).Pairwise fun a b => comp b a = false := by
    rw [List.pairwise_map]
    refine (@List.pairwise_mergeSort _ le ?_ ?_ l.attach).imp fun before => by simpa [le] using before
    · intro a b c first second
      simp only [le, Bool.not_eq_true'] at first second ⊢
      simpa using order.not_before_trans a b c (by simpa using first) (by simpa using second)
    · intro a b
      simpa [le] using order.not_before_total a b
  exact ⟨_, .arranged order ⟨perm, ordered⟩⟩

end StrictWeakOn

end Sorting
