import NetworkOs.Ecommerce.Statistics

/-! The turnaround times and the rejections. A rejection leaves the mark -1 in `wt_time`, and a later
round that overwrites it makes the program count a turnaround for a request it has rejected. -/
namespace NetworkOs.Ecommerce
open Machine Runs

/-- The weight of a request that is marked as rejected. -/
def mark (t : Int) : Nat := if t = -1 then 1 else 0

/-- How many requests have left in the second round. -/
def secondRound (st : Sched) : Nat :=
  st.executions.countP (fun e => e.round = 1) + st.rejections.countP fun r => r.1 = 1

/-- The rejections of the first round whose marks the second one has overwritten. -/
def lost (st : Sched) : Nat := st.rejections.countP fun r => r.1 = 0 ∧ r.2 < secondRound st

/-- Where the marks of the rejections are, round by round. -/
inductive Marks (reqArr : List Int) (st : Sched) : Prop where
  | first (stamp : st.timeStamp = 0 ∨ st.timeStamp = 1 ∧ st.point = .whileTest)
      (rounds : ∀ e ∈ st.executions, e.round = 0) (rejected : ∀ r ∈ st.rejections, r.1 = 0)
      (marked : ∀ p, st.wtTime.getD p 0 = -1 ↔ (0, p) ∈ st.rejections)
      (all : reported mark st = st.rejections.length)
  | second (stamp : st.timeStamp = 1) (point : st.point = .forTest)
      (place : secondRound st + reqArr.length = st.executions.length + st.rejections.length + st.iterSize)
      (marked : ∀ p, secondRound st ≤ p → (st.wtTime.getD p 0 = -1 ↔ (0, p) ∈ st.rejections))
      (all : reported mark st + lost st = st.rejections.length)
  | third (stamp : st.timeStamp = 2) (point : st.point = .whileTest)
      (all : reported mark st + lost st = st.rejections.length)
  | later (stamp : 2 < st.timeStamp ∨ st.timeStamp = 2 ∧ st.point = .forTest)

section Counts
variable {workers : List WorkerThread} {reqArr : List Int} {st : Sched} {o : Nat}

/-- Whoever has left was executed or rejected. -/
theorem Served.departed (h : Served workers reqArr st o) : st.executions.length + st.rejections.length = o := by
  have executed := congrArg List.length h.executed
  have rejected := congrArg List.length h.rejected
  have both := List.length_eq_length_filter_add (l := List.range o) (Normal workers reqArr ·)
  rw [List.length_map] at executed rejected
  rw [List.length_range] at both
  simp only [decide_not] at executed rejected
  omega

theorem Served.mem_rejections (h : Served workers reqArr st o) {r : Nat × Nat} (member : r ∈ st.rejections) :
    r.2 < o := by
  have rejected : r.2 ∈ st.rejections.map Prod.snd := List.mem_map_of_mem member
  rw [h.rejected] at rejected
  exact List.mem_range.mp (List.mem_filter.mp rejected).1

theorem Served.not_rejected (h : Served workers reqArr st o) (round : Nat) : (round, o) ∉ st.rejections :=
  fun member => lt_irrefl o (h.mem_rejections member)

theorem Served.nodup_rejections (h : Served workers reqArr st o) : st.rejections.Nodup := by
  refine List.Nodup.of_map Prod.snd ?_
  rw [h.rejected]
  exact List.nodup_range.filter _

theorem countP_succ (rejections : List (Nat × Nat)) (m : Nat) :
    rejections.countP (fun r => r.1 = 0 ∧ r.2 < m + 1) =
      rejections.countP (fun r => r.1 = 0 ∧ r.2 < m) + rejections.count (0, m) := by
  induction rejections with
  | nil => rfl
  | cons r rest ih =>
      obtain ⟨round, j⟩ := r
      rw [List.countP_cons, List.countP_cons, List.count_cons, ih]
      by_cases zero : round = 0
      · rcases lt_trichotomy j m with less | same | more
        · have other : j ≠ m := less.ne
          simp [zero, less, less.trans (Nat.lt_succ_self m), other]
          omega
        · simp [zero, same]
          omega
        · have other : j ≠ m := more.ne'
          have notLess : ¬ j < m + 1 := by omega
          simp [zero, more.not_gt, notLess, other]
      · simp [zero]

theorem secondRound_zero (rounds : ∀ e ∈ st.executions, e.round = 0) (rejected : ∀ r ∈ st.rejections, r.1 = 0) :
    secondRound st = 0 := by
  have executed : st.executions.countP (fun e => e.round = 1) = 0 :=
    List.countP_eq_zero.mpr fun e member => by simp [rounds e member]
  have refused : st.rejections.countP (fun r => r.1 = 1) = 0 :=
    List.countP_eq_zero.mpr fun r member => by simp [rejected r member]
  exact congrArg₂ (· + ·) executed refused

theorem lost_zero (nobody : secondRound st = 0) : lost st = 0 := by
  rw [lost, nobody]
  exact List.countP_eq_zero.mpr fun r _ => by simp

end Counts

section Steps
variable {workers : List WorkerThread} {reqArr : List Int} {st t : Sched} {o : Nat}

theorem stamp_zero (stamp : st.timeStamp = 0 ∨ st.timeStamp = 1 ∧ st.point = .whileTest)
    (point : st.point = .forTest) : st.timeStamp = 0 := by
  rcases stamp with zero | ⟨-, point'⟩
  · exact zero
  · exact absurd (point'.symm.trans point) (by simp)

theorem Marks.nextRound (h : Marks reqArr st) (served : Served workers reqArr st o) (point : st.point = .whileTest) :
    Marks reqArr (nextRound workers st) := by
  cases h with
  | first stamp rounds rejected marked all =>
      rcases stamp with zero | ⟨one, -⟩
      · exact .first (.inl zero) rounds rejected marked all
      · have nobody : secondRound (Ecommerce.nextRound workers st) = 0 := secondRound_zero rounds rejected
        refine .second one rfl ?_ (fun p _ => marked p) ?_
        · rw [nobody]
          change 0 + reqArr.length = st.executions.length + st.rejections.length + st.tempQueue.length
          rw [served.departed, served.queue_length]
          have handled := served.handled
          omega
        · rw [lost_zero nobody]
          exact all
  | second _ point' => exact absurd (point.symm.trans point') (by simp)
  | third stamp _ all => exact .later (.inr ⟨stamp, rfl⟩)
  | later stamp =>
      rcases stamp with many | ⟨-, point'⟩
      · exact .later (.inl many)
      · exact absurd (point.symm.trans point') (by simp)

theorem Marks.endRound (h : Marks reqArr st) (point : st.point = .forTest) :
    Marks reqArr { st with point := .whileTest, timeStamp := st.timeStamp + 1 } := by
  cases h with
  | first stamp rounds rejected marked all =>
      exact .first (.inr ⟨congrArg (· + 1) (stamp_zero stamp point), rfl⟩) rounds rejected marked all
  | second stamp _ place marked all => exact .third (congrArg (· + 1) stamp) rfl all
  | third _ point' => exact absurd (point'.symm.trans point) (by simp)
  | later stamp =>
      refine .later (.inl ?_)
      change 2 < st.timeStamp + 1
      omega

/-- In the first round the position is the index of the request. -/
theorem Phase.position (h : Phase workers reqArr st o) (point : st.point = .forTest) (stamp : st.timeStamp = 0)
    (bound : o < reqArr.length) (schedule : reqArr.length - o + st.l = st.iterSize) : st.l = o := by
  cases h with
  | start point' => exact absurd (point'.symm.trans point) (by simp)
  | firstRound _ _ size => omega
  | served point' => exact absurd (point'.symm.trans point) (by simp)
  | between point' => exact absurd (point'.symm.trans point) (by simp)
  | laterRound _ later => omega

theorem mark_eq_zero {t : Int} (unmarked : t ≠ -1) : mark t = 0 := if_neg unmarked

theorem mark_entry {times : List Int} {rejections : List (Nat × Nat)} {p : Nat}
    (marked : times.getD p 0 = -1 ↔ (0, p) ∈ rejections) (nodup : rejections.Nodup) :
    mark (times.getD p 0) = rejections.count (0, p) := by
  rw [nodup.count, mark]
  exact if_congr marked rfl rfl

section SecondRound
variable (reqArr) (stamp : st.timeStamp = 1) (j place : Nat) (currRes : Int)
include stamp

theorem secondRound_execute : secondRound (execute reqArr st j currRes place) = secondRound st + 1 := by
  simp [secondRound, execute, stamp]
  omega

theorem secondRound_reject : secondRound (reject st j currRes) = secondRound st + 1 := by
  simp [secondRound, reject, stamp]
  omega

/-- Whoever leaves in the second round takes the place of one request of the first. -/
theorem lost_execute :
    lost (execute reqArr st j currRes place) = lost st + st.rejections.count (0, secondRound st) := by
  rw [lost, secondRound_execute reqArr stamp]
  exact countP_succ st.rejections (secondRound st)

theorem lost_reject : lost (reject st j currRes) = lost st + st.rejections.count (0, secondRound st) := by
  rw [lost, secondRound_reject stamp]
  change (st.rejections ++ [(st.timeStamp, j)]).countP _ = _
  rw [List.countP_append, countP_succ, stamp]
  rfl

end SecondRound

/-- What is stored over the mark of a rejection makes it one of those that are lost. -/
theorem Marks.execute (h : Marks reqArr st) (served : Served workers reqArr st o) (phase : Phase workers reqArr st o)
    (point : st.point = .forTest) (bound : o < reqArr.length) (schedule : reqArr.length - o + st.l = st.iterSize)
    (inside : st.l < st.wtTime.length) (place : Nat) (currRes : Int) :
    Marks reqArr (execute reqArr st o currRes place) := by
  have stored : reported mark (Ecommerce.execute reqArr st o currRes place) + mark (st.wtTime.getD st.l 0) =
      reported mark st + mark st.timeStamp := execute_reported reqArr o place currRes inside
  have departed := served.departed
  rw [mark_eq_zero (t := st.timeStamp) (by omega), Nat.add_zero] at stored
  cases h with
  | first stamp rounds rejected marked all =>
      have zero := stamp_zero stamp point
      have position := phase.position point zero bound schedule
      have fresh := served.not_rejected 0
      have unmarked : st.wtTime.getD st.l 0 ≠ -1 := position ▸ mt (marked o).mp fresh
      rw [mark_eq_zero unmarked, Nat.add_zero] at stored
      refine .first (.inl zero) (fun e member => ?_) rejected (fun p => ?_) (stored.trans all)
      · rcases List.mem_append.mp member with old | new
        · exact rounds e old
        · exact List.mem_singleton.mp new ▸ zero
      · change (st.wtTime.set st.l st.timeStamp).getD p 0 = -1 ↔ (0, p) ∈ st.rejections
        by_cases same : st.l = p
        · subst same
          rw [getD_set_self inside]
          exact iff_of_false (by omega) (position ▸ fresh)
        · rw [getD_set_ne same]
          exact marked p
  | second stamp _ place' marked all =>
      have position : secondRound st = st.l := by omega
      have next_ := secondRound_execute reqArr stamp o place currRes
      have more := lost_execute reqArr stamp o place currRes
      rw [position] at next_ more
      rw [mark_entry (marked st.l position.le) served.nodup_rejections] at stored
      refine .second stamp point ?_ (fun p later => ?_) ?_
      · rw [next_]
        simp only [Ecommerce.execute, List.length_append, List.length_singleton]
        omega
      · change (st.wtTime.set st.l st.timeStamp).getD p 0 = -1 ↔ (0, p) ∈ st.rejections
        rw [next_] at later
        rw [getD_set_ne (by omega)]
        exact marked p (by omega)
      · rw [more]
        change _ = st.rejections.length
        omega
  | third _ point' => exact absurd (point'.symm.trans point) (by simp)
  | later stamp => exact .later stamp

theorem Marks.reject (h : Marks reqArr st) (served : Served workers reqArr st o) (phase : Phase workers reqArr st o)
    (point : st.point = .forTest) (bound : o < reqArr.length) (schedule : reqArr.length - o + st.l = st.iterSize)
    (inside : st.l < st.wtTime.length) (currRes : Int) : Marks reqArr (reject st o currRes) := by
  have stored : reported mark (Ecommerce.reject st o currRes) + mark (st.wtTime.getD st.l 0) =
      reported mark st + 1 := sum_set st.wtTime inside (-1)
  have departed := served.departed
  have length : (Ecommerce.reject st o currRes).rejections.length = st.rejections.length + 1 := by
    simp [Ecommerce.reject]
  cases h with
  | first stamp rounds rejected marked all =>
      have zero := stamp_zero stamp point
      have position := phase.position point zero bound schedule
      have fresh := served.not_rejected 0
      have unmarked : st.wtTime.getD st.l 0 ≠ -1 := position ▸ mt (marked o).mp fresh
      rw [mark_eq_zero unmarked, Nat.add_zero] at stored
      refine .first (.inl zero) rounds (fun r member => ?_) (fun p => ?_) (by rw [stored, all, length])
      · rcases List.mem_append.mp member with old | new
        · exact rejected r old
        · exact List.mem_singleton.mp new ▸ zero
      · change (st.wtTime.set st.l (-1)).getD p 0 = -1 ↔ (0, p) ∈ st.rejections ++ [(st.timeStamp, o)]
        rw [List.mem_append, List.mem_singleton, zero]
        by_cases same : st.l = p
        · subst same
          rw [getD_set_self inside]
          exact iff_of_true rfl (.inr (by rw [position]))
        · rw [getD_set_ne same, marked p]
          refine ⟨.inl, fun either => either.resolve_right fun new => same ?_⟩
          rw [position, (Prod.mk.inj new).2]
  | second stamp _ place marked all =>
      have position : secondRound st = st.l := by omega
      have next_ := secondRound_reject stamp o currRes
      have more := lost_reject stamp o currRes
      rw [position] at next_ more
      rw [mark_entry (marked st.l position.le) served.nodup_rejections] at stored
      refine .second stamp point ?_ (fun p later => ?_) (by omega)
      · rw [next_, length]
        simp only [Ecommerce.reject]
        omega
      · change (st.wtTime.set st.l (-1)).getD p 0 = -1 ↔ (0, p) ∈ st.rejections ++ [(st.timeStamp, o)]
        rw [next_] at later
        rw [getD_set_ne (by omega), List.mem_append, List.mem_singleton, stamp]
        refine (marked p (by omega)).trans ⟨.inl, fun either => either.resolve_right fun new => ?_⟩
        exact absurd (Prod.mk.inj new).1 (by decide)
  | third _ point' => exact absurd (point'.symm.trans point) (by simp)
  | later stamp => exact .later stamp

theorem Marks.blocked (h : Marks reqArr st) : Marks reqArr { st with l := st.l + 1 } := by
  cases h with
  | first stamp rounds rejected marked all => exact .first stamp rounds rejected marked all
  | second stamp point place marked all => exact .second stamp point place marked all
  | third stamp point all => exact .third stamp point all
  | later stamp => exact .later stamp

/-- What every tick keeps. -/
structure Marked (workers : List WorkerThread) (reqArr : List Int) (st : Sched) : Prop where
  tallied : Tallied workers reqArr Int.toNat st
  marks : Marks reqArr st
  least : ∀ t ∈ st.wtTime, -1 ≤ t
  most : reported mark st ≤ st.rejections.length
  counted : st.rejected = st.rejections.length

theorem Marked.tick (h : Marked workers reqArr st) (able : ∃ w ∈ workers, 0 ≤ w.resourcesAvailable)
    (taken : tick workers reqArr st = some t) : Marked workers reqArr t := by
  have tallied := h.tallied.tick toNat_weight able taken
  obtain ⟨o, served, phase⟩ := h.tallied.phase
  have within : st.l < st.iterSize → st.l < st.wtTime.length := fun inside =>
    inside.trans_le (h.tallied.size.trans_eq served.times.symm)
  cases tick_cases taken with
  | nextRound point waiting => exact ⟨tallied, h.marks.nextRound served point, h.least, h.most, h.counted⟩
  | endRound point done => exact ⟨tallied, h.marks.endRound point, h.least, h.most, h.counted⟩
  | @execute j _ _ place point inside queue found normal =>
      obtain ⟨bound, rfl, rfl, _⟩ := served.front queue
      have schedule := served.on_schedule point (.inr (found ▸ Option.some_ne_none place))
      have stored := execute_reported (f := mark) reqArr j place (reqArr.getD j 0) (within inside)
      rw [mark_eq_zero (t := st.timeStamp) (by omega)] at stored
      refine ⟨tallied, h.marks.execute served phase point bound schedule (within inside) _ _, fun t member => ?_, ?_,
        h.counted⟩
      · rcases List.mem_or_eq_of_mem_set member with old | rfl
        · exact h.least t old
        · omega
      · have most := h.most
        change _ ≤ st.rejections.length
        omega
  | @reject j _ _ point inside queue abnormal =>
      obtain ⟨bound, rfl, rfl, _⟩ := served.front queue
      have schedule := served.on_schedule point (.inl (not_not.mpr abnormal))
      have stored : reported mark (Ecommerce.reject st j (reqArr.getD j 0)) + mark (st.wtTime.getD st.l 0) =
          reported mark st + 1 := sum_set st.wtTime (within inside) (-1)
      have length : (Ecommerce.reject st j (reqArr.getD j 0)).rejections.length = st.rejections.length + 1 := by
        simp [Ecommerce.reject]
      refine ⟨tallied, h.marks.reject served phase point bound schedule (within inside) _, fun t member => ?_, ?_, ?_⟩
      · rcases List.mem_or_eq_of_mem_set member with old | rfl
        · exact h.least t old
        · exact le_rfl
      · have most := h.most
        omega
      · rw [length, ← h.counted]
        rfl
  | blocked point inside queue found => exact ⟨tallied, h.marks.blocked, h.least, h.most, h.counted⟩

end Steps

namespace Input
variable (input : Input)

/-- The number that is printed of requests rejected. -/
def rejected (finals : Nat → Sched) : Nat := ∑ i ∈ Finset.range input.services.length, (finals i).rejected

/-- The rejections whose marks are overwritten. -/
def lost (finals : Nat → Sched) : Nat := ∑ i ∈ Finset.range input.services.length, Ecommerce.lost (finals i)

end Input

section Ends
variable {workers : List WorkerThread} {reqArr : List Int} {st : Sched}

theorem Marks.short (h : Marks reqArr st) (finished : Finished st) (stamp : st.timeStamp ≤ 2) :
    reported mark st + lost st = st.rejections.length := by
  cases h with
  | first _ rounds rejected _ all => rw [lost_zero (secondRound_zero rounds rejected), Nat.add_zero, all]
  | second _ point => exact absurd (finished.1.symm.trans point) (by simp)
  | third _ _ all => exact all
  | later many =>
      rcases many with more | ⟨-, point⟩
      · omega
      · exact absurd (finished.1.symm.trans point) (by simp)

end Ends

section Program
variable {input : Input} {finals : Nat → Sched}

/-- The marks that are still there at the end. -/
def Input.marks (input : Input) (finals : Nat → Sched) : Nat :=
  ∑ i ∈ Finset.range input.services.length, reported mark (finals i)

end Program

end NetworkOs.Ecommerce
