import Mathlib.Logic.Basic
import Mathlib.Tactic

/-! Mutexes of threads that move one at a time: who is between lock and unlock. -/
namespace Mutex

variable {ι : Type*} {i j : ι} {holder holder' : Option ι} {inside inside' : ι → Prop}

/-- The holder of the mutex is the thread inside, if there is one. -/
def Held (holder : Option ι) (inside : ι → Prop) : Prop := ∀ i, inside i ↔ holder = some i

/-- What a step of thread `i` does; `was` and `is` say whether it is inside before and after. -/
inductive Change (i : ι) (holder holder' : Option ι) (was is : Prop) : Prop where
  | keep (same : holder' = holder) (stays : is ↔ was)
  | lock (free : holder = none) (mine : holder' = some i) (enters : is)
  | unlock (inside : was) (free : holder' = none) (leaves : ¬ is)

theorem Held.change (h : Held holder inside) (change : Change i holder holder' (inside i) (inside' i))
    (others : ∀ j, j ≠ i → (inside' j ↔ inside j)) : Held holder' inside' := by
  intro j
  by_cases own : j = i
  · subst own
    cases change with
    | keep same stays => rw [same, stays, h]
    | lock _ mine enters => exact iff_of_true enters mine
    | unlock _ free leaves => exact iff_of_false leaves (by rw [free]; exact nofun)
  · rw [others j own, h]
    cases change with
    | keep same => rw [same]
    | lock free mine =>
        rw [free, mine]
        exact iff_of_false nofun fun eq => own (Option.some.inj eq).symm
    | unlock inside free =>
        rw [free, (h i).mp inside]
        exact iff_of_false (fun eq => own (Option.some.inj eq).symm) nofun

theorem Held.alone (h : Held holder inside) (first : inside i) (second : inside j) : i = j :=
  Option.some.inj (((h i).mp first).symm.trans ((h j).mp second))

/-- Nobody holds the mutex that the only thread inside has left. -/
theorem Held.freed (h : Held holder inside) (h' : Held holder' inside') (mine : inside i) (outside : ¬ inside' i)
    (others : ∀ j, j ≠ i → inside' j → inside j) : holder' = none := by
  rw [Option.eq_none_iff_forall_ne_some]
  intro j held
  have still := (h' j).mpr held
  by_cases own : j = i
  · exact outside (own ▸ still)
  · exact own (h.alone (others j own still) mine)

end Mutex
