import NetworkOs.Library.Sorting
import NetworkOs.Ecommerce.Scheduler

/-! The order of the worker threads: what `sort` may make of them under `comp_func`, and
which worker `find_thread` picks among sorted ones. -/
namespace NetworkOs.Ecommerce
open Runs Sorting

def compFunc (a b : WorkerThread) : Bool := a.priority ≥ b.priority

/-- Of the workers whose resources cover the request, the one at `place` has the highest priority. -/
structure Chosen (workers : List WorkerThread) (resources : List Int) (currRes : Int) (place : Nat) : Prop where
  inside : place < workers.length
  fits : currRes ≤ resources.getD place 0
  highest : ∀ k w, workers[k]? = some w → currRes ≤ resources.getD k 0 →
    w.priority ≤ (workers.get ⟨place, inside⟩).priority

/-- `comp_func` is an ordering that `sort` can rely on, the workers are sorted by it, and
every request goes to the first of the highest ones that it fits on. -/
structure Prioritised (workers : List WorkerThread) : Prop where
  order : StrictWeakOn compFunc workers
  ends : ∃ outcome, Sorts compFunc workers outcome
  sorts : ∀ outcome, Sorts compFunc workers outcome → ∃ sorted, outcome = some sorted ∧ sorted.Perm workers ∧
    (sorted.Pairwise fun a b => b.priority ≤ a.priority) ∧
    ∀ resources currRes place, resources.length = sorted.length →
      findThread resources currRes = some place → Chosen sorted resources currRes place

theorem compFunc_iff (a b : WorkerThread) : compFunc a b = true ↔ b.priority ≤ a.priority := decide_eq_true_iff

theorem compFunc_eq_false_iff (a b : WorkerThread) : compFunc a b = false ↔ a.priority < b.priority := by
  rw [Bool.eq_false_iff, ne_eq, compFunc_iff, not_le]

/-- Each comes before the other exactly if the priorities are equal. -/
theorem compFunc_both_iff (a b : WorkerThread) :
    (compFunc a b = true ∧ compFunc b a = true) ↔ a.priority = b.priority := by
  rw [compFunc_iff, compFunc_iff, and_comm]
  exact le_antisymm_iff.symm

/-- The place that is found is the first one that fits. -/
theorem findThread_first {resources : List Int} {currRes : Int} {place k : Nat}
    (found : findThread resources currRes = some place) (before : k < place) : resources.getD k 0 < currRes := by
  induction resources generalizing place k with
  | nil => exact nomatch found
  | cons r rest ih =>
      simp only [findThread] at found
      split_ifs at found with fits
      · obtain rfl := Option.some.inj found
        exact absurd before (Nat.not_lt_zero k)
      · obtain ⟨place, later, rfl⟩ := Option.map_eq_some_iff.mp found
        cases k with
        | zero => exact lt_of_not_ge fits
        | succ k => exact ih later (Nat.lt_of_succ_lt_succ before)

section Rounds
variable {workers : List WorkerThread} {reqArr : List Int} {s t : Sched}

/-- A round has one entry of resources for each worker. -/
def Matched (workers : List WorkerThread) (st : Sched) : Prop :=
  st.point = .forTest → st.workerResources.length = workers.length

theorem Matched.tick (h : Matched workers s) (taken : Ecommerce.tick workers reqArr s = some t) : Matched workers t := by
  cases tick_cases taken with
  | nextRound => exact fun _ => List.length_map _
  | endRound => exact fun impossible => nomatch impossible
  | execute inner => exact fun _ => (List.length_modify _ _ _).trans (h inner)
  | reject inner => exact fun _ => h inner
  | blocked inner => exact fun _ => h inner

theorem reached_matched (h : Reaches (tick workers reqArr) (start reqArr) t) : Matched workers t :=
  reaches_invariant (fun _ _ held taken => Matched.tick held taken) (fun impossible => Point.noConfusion impossible) h

end Rounds

section Sorted
variable {workers : List WorkerThread} (sorted : workers.Pairwise fun a b => b.priority ≤ a.priority)
include sorted

theorem findThread_chosen {resources : List Int} {currRes : Int} {place : Nat} (same : resources.length = workers.length)
    (found : findThread resources currRes = some place) : Chosen workers resources currRes place := by
  obtain ⟨bound, fits⟩ := findThread_some found
  have inside : place < workers.length := same ▸ bound
  refine ⟨inside, fits, fun k w held covers => ?_⟩
  obtain ⟨inside', rfl⟩ := List.getElem?_eq_some_iff.mp held
  rcases lt_trichotomy k place with before | rfl | after
  · exact absurd covers (not_le.mpr (findThread_first found before))
  · exact le_rfl
  · exact List.pairwise_iff_getElem.mp sorted place k inside inside' after

/-- In every round, each request that is executed goes to a worker of the highest priority
among those that can still take it. -/
theorem reached_chosen {reqArr : List Int} {st : Sched} {currRes : Int} {place : Nat}
    (h : Reaches (tick workers reqArr) (start reqArr) st) (point : st.point = .forTest)
    (found : findThread st.workerResources currRes = some place) :
    Chosen workers st.workerResources currRes place :=
  findThread_chosen sorted (reached_matched h point) found

end Sorted

/-- All of it follows from the first. -/
theorem prioritised_of_strictWeakOn {workers : List WorkerThread} (order : StrictWeakOn compFunc workers) :
    Prioritised workers := by
  refine ⟨order, order.exists_sorts, fun outcome left => ?_⟩
  obtain ⟨sorted, rfl, arranged⟩ := sorts_arranged_iff.mpr order outcome left
  have falling : sorted.Pairwise fun a b => b.priority ≤ a.priority :=
    arranged.ordered.imp fun before => ((compFunc_eq_false_iff _ _).mp before).le
  exact ⟨sorted, rfl, arranged.perm, falling, fun _ _ _ same found => findThread_chosen falling same found⟩

/-- A worker comes before itself, so that the ordering fails as soon as there is one. -/
theorem prioritised_iff (workers : List WorkerThread) : Prioritised workers ↔ workers = [] := by
  constructor
  · intro prioritised
    by_contra some_
    obtain ⟨w, member⟩ := List.exists_mem_of_ne_nil workers some_
    have reflexive : compFunc w w = true := (compFunc_iff w w).mpr le_rfl
    exact Bool.false_ne_true ((prioritised.order.irrefl member).symm.trans reflexive)
  · rintro rfl
    exact prioritised_of_strictWeakOn (.nil compFunc)

/-- Two workers of one priority come before each other. -/
theorem equal_priorities_unordered : ¬ ∀ workers : List WorkerThread, Prioritised workers := by
  intro claim
  let w : WorkerThread := ⟨1, 5⟩
  let w' : WorkerThread := ⟨1, 3⟩
  obtain ⟨before, before'⟩ := (compFunc_both_iff w w').mpr rfl
  have order := (claim [w, w']).order
  exact Bool.false_ne_true ((order.asymm (by simp) (by simp) before).symm.trans before')

end NetworkOs.Ecommerce
