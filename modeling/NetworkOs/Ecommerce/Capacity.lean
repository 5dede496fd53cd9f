import NetworkOs.Ecommerce.Scheduler

/-! Worker capacity over scheduling rounds. The loop keeps, for each worker, the
resources that are left in the round; the capacity bound follows from that
record only where each deduction covers the request it is made for. -/
namespace NetworkOs.Ecommerce
open Machine Runs

/-- The `resources_available` of the worker at position `place`. -/
def capacity (workers : List WorkerThread) (place : Nat) : Int :=
  (workers.map (·.resourcesAvailable)).getD place 0

/-- No worker is loaded above its resources in any round. -/
def WithinCapacity (workers : List WorkerThread) (st : Sched) : Prop :=
  ∀ r place, load st r place ≤ capacity workers place

/-- If the next tick executes the front request, the amount it deducts at
position `l` of the request list covers that request. -/
def DeductionCovers (workers : List WorkerThread) (reqArr : List Int) (st : Sched) : Prop :=
  ∀ e ∈ st.tempQueue.head?, st.point = .forTest → st.l < st.iterSize →
    findThread st.workerResources e.2 ≠ none → outOfValues workers e.2 ≠ -1 →
    e.2 ≤ reqArr.getD st.l 0

instance (workers : List WorkerThread) (reqArr : List Int) :
    DecidablePred (DeductionCovers workers reqArr) := fun st => by
  unfold DeductionCovers
  infer_instance

theorem load_execute (reqArr : List Int) (st : Sched) (j : Nat) (currRes : Int) (at_ r place : Nat) :
    load (execute reqArr st j currRes at_) r place =
      load st r place + if r = st.timeStamp ∧ place = at_ then currRes else 0 := by
  unfold load execute
  by_cases same : r = st.timeStamp ∧ place = at_
  · obtain ⟨rfl, rfl⟩ := same
    simp
  · have other : ¬(st.timeStamp = r ∧ at_ = place) := fun h => same ⟨h.1.symm, h.2.symm⟩
    simp [same, other]

theorem load_eq_zero {st : Sched} {r : Nat} (h : ∀ e ∈ st.executions, e.round ≠ r) (place : Nat) :
    load st r place = 0 := by
  have none : (st.executions.filter fun e => e.round = r ∧ e.place = place) = [] := by
    apply List.filter_eq_nil_iff.mpr
    intro e member
    simp [h e member]
  simp only [load, none, List.map_nil, List.sum_nil]

/-- What guarded ticks keep: the record of a running round never promises more
than the round's loads leave, and no round has run ahead of the time stamp. -/
structure RoundRecord (workers : List WorkerThread) (st : Sched) : Prop where
  within : WithinCapacity workers st
  left : st.point = .forTest →
    ∀ place, load st st.timeStamp place + st.workerResources.getD place 0 ≤ capacity workers place
  int : st.point = .forTest → ∀ place, st.workerResources.getD place 0 ≤ intMax
  demands : ∀ e ∈ st.tempQueue, 0 ≤ e.2
  rounds : ∀ e ∈ st.executions, e.round ≤ st.timeStamp
  fresh : st.point = .whileTest → ∀ e ∈ st.executions, e.round < st.timeStamp

section Guarded
variable {workers : List WorkerThread} {reqArr : List Int}
variable (resources : ∀ w ∈ workers, 0 ≤ w.resourcesAvailable ∧ w.resourcesAvailable ≤ intMax)
variable (requests : ∀ d ∈ reqArr, 0 ≤ d ∧ d ≤ intMax)

include resources in
theorem capacity_range (place : Nat) :
    0 ≤ capacity workers place ∧ capacity workers place ≤ intMax := by
  unfold capacity
  rw [List.getD_eq_getElem?_getD]
  cases found : (workers.map (·.resourcesAvailable))[place]? with
  | none => simp [intMax]
  | some r =>
      obtain ⟨w, member, rfl⟩ := List.mem_map.mp (List.mem_of_getElem? found)
      exact resources w member

include requests in
theorem getD_request_le (l : Nat) : reqArr.getD l 0 ≤ intMax := by
  rw [List.getD_eq_getElem?_getD]
  cases found : reqArr[l]? with
  | none => simp [intMax]
  | some d => exact (requests d (List.mem_of_getElem? found)).2

include resources requests in
theorem start_record : RoundRecord workers (start reqArr) := by
  refine ⟨?_, ?_, ?_, ?_, ?_, ?_⟩
  · intro r place
    simpa [load, start] using (capacity_range resources place).1
  · intro h; cases h
  · intro h; cases h
  · rintro ⟨j, d⟩ member
    obtain ⟨k, bound, same⟩ := List.mem_mapIdx.mp member
    obtain ⟨rfl, rfl⟩ := Prod.mk.inj same
    exact (requests _ (List.getElem_mem bound)).1
  · intro e member; cases member
  · intro _ e member; cases member

omit workers in
theorem getD_deducted {left : List Int} {place : Nat} (bound : place < left.length) (d : Int) (q : Nat) :
    (left.modify place fun r => int32 (r - d)).getD q 0 =
      if q = place then int32 (left.getD place 0 - d) else left.getD q 0 := by
  by_cases same : q = place
  · subst q
    simp [List.getD_eq_getElem?_getD, List.getElem?_eq_getElem bound]
  · have other : place ≠ q := fun h => same h.symm
    simp [List.getD_eq_getElem?_getD, same, other]

include requests in
theorem execute_record {st : Sched} {j : Nat} {currRes : Int} {rest : List (Nat × Int)} {place : Nat}
    (h : RoundRecord workers st) (point : st.point = .forTest)
    (queue : st.tempQueue = (j, currRes) :: rest)
    (found : findThread st.workerResources currRes = some place)
    (covers : currRes ≤ reqArr.getD st.l 0) :
    RoundRecord workers (execute reqArr st j currRes place) := by
  obtain ⟨bound, fits⟩ := findThread_some found
  have demand : 0 ≤ currRes := h.demands (j, currRes) (queue ▸ List.mem_cons_self)
  have deducted : int32 (st.workerResources.getD place 0 - reqArr.getD st.l 0) =
      st.workerResources.getD place 0 - reqArr.getD st.l 0 := by
    have upper := h.int point place
    have request := getD_request_le requests st.l
    apply int32_of_range <;> unfold intMax at * <;> omega
  refine ⟨?_, ?_, ?_, ?_, ?_, ?_⟩
  · -- the executed request still fits beside what the worker already serves
    intro r q
    rw [load_execute]
    split_ifs with here
    · obtain ⟨rfl, rfl⟩ := here
      have room := h.left point q
      omega
    · simpa using h.within r q
  · intro _ q
    have room := h.left point q
    change load (execute reqArr st j currRes place) st.timeStamp q +
      (st.workerResources.modify place fun r => int32 (r - reqArr.getD st.l 0)).getD q 0 ≤ _
    rw [load_execute, getD_deducted bound]
    by_cases same : q = place
    · subst q
      simp only [and_self, if_true, deducted]
      omega
    · simpa [same] using room
  · intro _ q
    change (st.workerResources.modify place fun r => int32 (r - reqArr.getD st.l 0)).getD q 0 ≤ intMax
    rw [getD_deducted bound]
    split_ifs with same
    · have upper := h.int point place
      omega
    · exact h.int point q
  · intro e member
    have member : e ∈ rest := by simpa [execute, queue] using member
    exact h.demands e (queue ▸ List.mem_cons_of_mem _ member)
  · intro e member
    rcases List.mem_append.mp member with old | new
    · exact h.rounds e old
    · obtain rfl := List.mem_singleton.mp new
      exact le_rfl
  · intro point'
    exact absurd (point.symm.trans point') (by simp)

include resources requests in
/-- A tick whose deduction covers the executed request keeps the record. -/
theorem tick_record {st t : Sched} (h : RoundRecord workers st)
    (covers : DeductionCovers workers reqArr st) (taken : tick workers reqArr st = some t) :
    RoundRecord workers t := by
  cases tick_cases taken with
  | nextRound point waiting =>
      refine ⟨h.within, ?_, ?_, h.demands, h.rounds, (fun point' => nomatch point')⟩
      · intro _ place
        have idle := load_eq_zero (fun e member => (h.fresh point e member).ne) place
        change load st st.timeStamp place + capacity workers place ≤ _
        omega
      · intro _ place
        exact (capacity_range resources place).2
  | endRound point done =>
      refine ⟨h.within, (fun point' => nomatch point'), (fun point' => nomatch point'), h.demands, ?_, ?_⟩
      · exact fun e member => Nat.le_succ_of_le (h.rounds e member)
      · exact fun _ e member => Nat.lt_succ_of_le (h.rounds e member)
  | @execute j currRes rest place point inside queue found normal =>
      have front : (j, currRes) ∈ st.tempQueue.head? := by simp [queue]
      have placed : findThread st.workerResources currRes ≠ none := by simp [found]
      exact execute_record requests h point queue found
        (covers (j, currRes) front point inside placed normal)
  | @reject j currRes rest point inside queue abnormal =>
      refine ⟨h.within, h.left, h.int, ?_, h.rounds, h.fresh⟩
      intro e member
      have member : e ∈ rest := by simpa [reject, queue] using member
      exact h.demands e (queue ▸ List.mem_cons_of_mem _ member)
  | blocked point inside queue found normal =>
      exact ⟨h.within, h.left, h.int, h.demands, h.rounds, h.fresh⟩

include resources requests in
/-- In a run whose every deduction covers the request it is made for, no round
ever loads a worker above its resources. -/
theorem covered_run_within_capacity {st : Sched}
    (h : Relation.ReflTransGen
      (GuardedTick (tick workers reqArr) (DeductionCovers workers reqArr)) (start reqArr) st) :
    WithinCapacity workers st := by
  have preserved : ∀ s t, RoundRecord workers s → DeductionCovers workers reqArr s →
      tick workers reqArr s = some t → RoundRecord workers t :=
    fun _ _ record covers taken => tick_record resources requests record covers taken
  exact (guarded_invariant preserved (start_record resources requests) h).within

end Guarded

/-- Three rounds on one worker in which every deduction covers its request. -/
theorem covered_run_descending :
    ∃ st, Relation.ReflTransGen
      (GuardedTick (tick [⟨1, 6⟩] [5, 4, 3]) (DeductionCovers [⟨1, 6⟩] [5, 4, 3]))
        (start [5, 4, 3]) st ∧ Finished st ∧ WithinCapacity [⟨1, 6⟩] st := by
  obtain ⟨st, run⟩ : ∃ st, guardedIterate (tick [⟨1, 6⟩] [5, 4, 3])
      (DeductionCovers [⟨1, 6⟩] [5, 4, 3]) 12 (start [5, 4, 3]) = some st :=
    Option.isSome_iff_exists.mp (by decide)
  have finished : (guardedIterate (tick [⟨1, 6⟩] [5, 4, 3])
      (DeductionCovers [⟨1, 6⟩] [5, 4, 3]) 12 (start [5, 4, 3])).map
        (fun st => (st.point, st.tempQueue)) = some (.whileTest, []) := by decide
  rw [run, Option.map_some, Option.some.injEq, Prod.mk.injEq] at finished
  have reached := guarded_of_iterate run
  exact ⟨st, reached, finished, covered_run_within_capacity (by decide) (by decide) reached⟩

/-- Three requests on one worker: the second round deducts 1 and 6 where it
executes 6 and 5, and loads a worker of 6 with 11. -/
theorem stale_deduction_overloads :
    ¬ ∀ (workers : List WorkerThread) (reqArr : List Int),
      (∀ w ∈ workers, 0 ≤ w.resourcesAvailable ∧ w.resourcesAvailable ≤ intMax) →
      (∀ d ∈ reqArr, 0 ≤ d ∧ d ≤ intMax) →
      ∀ st, Reaches (tick workers reqArr) (start reqArr) st → WithinCapacity workers st := by
  intro claim
  let workers : List WorkerThread := [⟨1, 6⟩]
  let reqArr : List Int := [1, 6, 5]
  obtain ⟨st, run⟩ : ∃ st, iterate (tick workers reqArr) 9 (start reqArr) = some st :=
    Option.isSome_iff_exists.mp (by decide)
  have eleven : (iterate (tick workers reqArr) 9 (start reqArr)).map (load · 1 0) = some 11 := by
    decide
  have bound := claim workers reqArr (by decide) (by decide) st (reaches_of_iterate run) 1 0
  rw [run, Option.map_some, Option.some.injEq] at eleven
  rw [eleven] at bound
  exact absurd bound (by decide)

end NetworkOs.Ecommerce
