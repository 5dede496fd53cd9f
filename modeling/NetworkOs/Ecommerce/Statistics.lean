import NetworkOs.Ecommerce.Arrivals

/-! The statistics at the end. Each is taken from `wt_time`, where later rounds overwrite the times
of earlier ones: what is reported is never too much, and right for services of two rounds at most. -/
namespace NetworkOs.Ecommerce
open Machine Runs

/-- A way to weigh waiting times, of which those above 0 count. -/
structure Weight (f : Int → Nat) : Prop where
  zero : ∀ t ≤ 0, f t = 0
  one : 0 < f 1

/-- What is reported: the weight of the times in `wt_time`. -/
def reported (f : Int → Nat) (st : Sched) : Nat := (st.wtTime.map f).sum

/-- The weight of the rounds in which the requests were executed. -/
def actual (f : Int → Nat) (st : Sched) : Nat := (st.executions.map fun e => f e.round).sum

/-- How the two compare, round by round. The third round, if there is one, overwrites a time
of the second one with its first request. -/
inductive Tally (f : Int → Nat) (st : Sched) : Prop where
  | first (stamp : st.timeStamp = 0 ∨ st.timeStamp = 1 ∧ st.point = .whileTest) (times : ∀ t ∈ st.wtTime, t ≤ 0)
      (rounds : ∀ e ∈ st.executions, e.round = 0)
  | second (stamp : st.timeStamp = 1) (point : st.point = .forTest) (equal : reported f st = actual f st)
      (some_ : 0 < st.iterSize) (untouched : ∀ p, st.l ≤ p → st.wtTime.getD p 0 ≤ 0)
      (head : 0 < st.l → st.wtTime.getD 0 0 = 1)
  | third (stamp : st.timeStamp = 2) (equal : reported f st = actual f st) (head : st.wtTime.getD 0 0 = 1)
      (begins : st.point = .forTest → st.l = 0 ∧ 0 < st.iterSize)
  | later (stamp : 2 < st.timeStamp ∨ st.timeStamp = 2 ∧ st.point = .forTest) (less : reported f st < actual f st)

section Sums
variable {f : Int → Nat} {st : Sched}

theorem sum_set (times : List Int) {i : Nat} (inside : i < times.length) (t : Int) :
    ((times.set i t).map f).sum + f (times.getD i 0) = (times.map f).sum + f t := by
  induction times generalizing i with
  | nil => exact absurd inside (Nat.not_lt_zero i)
  | cons head rest ih =>
      cases i with
      | zero =>
          simp only [List.set_cons_zero, List.map_cons, List.sum_cons, List.getD_cons_zero]
          omega
      | succ i =>
          have tail := ih (Nat.lt_of_succ_lt_succ inside)
          simp only [List.set_cons_succ, List.map_cons, List.sum_cons, List.getD_cons_succ]
          omega

theorem sum_zero (weight : Weight f) {times : List Int} (none_ : ∀ t ∈ times, t ≤ 0) : (times.map f).sum = 0 := by
  rw [List.sum_eq_zero_iff]
  intro n member
  obtain ⟨t, own, rfl⟩ := List.mem_map.mp member
  exact weight.zero t (none_ t own)

theorem actual_zero (weight : Weight f) (rounds : ∀ e ∈ st.executions, e.round = 0) : actual f st = 0 := by
  rw [actual, List.sum_eq_zero_iff]
  intro n member
  obtain ⟨e, own, rfl⟩ := List.mem_map.mp member
  rw [rounds e own]
  exact weight.zero 0 le_rfl

theorem getD_le_zero {times : List Int} (none_ : ∀ t ∈ times, t ≤ 0) (p : Nat) : times.getD p 0 ≤ 0 := by
  rw [List.getD_eq_getElem?_getD]
  cases found : times[p]? with
  | none => exact le_rfl
  | some t => exact none_ t (List.mem_of_getElem? found)

/-- A time that is stored replaces the one that was there. -/
theorem execute_reported (reqArr : List Int) (j place : Nat) (currRes : Int) (inside : st.l < st.wtTime.length) :
    reported f (execute reqArr st j currRes place) + f (st.wtTime.getD st.l 0) = reported f st + f st.timeStamp :=
  sum_set st.wtTime inside st.timeStamp

theorem execute_actual (reqArr : List Int) (j place : Nat) (currRes : Int) :
    actual f (execute reqArr st j currRes place) = actual f st + f st.timeStamp := by
  simp [actual, execute]

theorem reject_reported (weight : Weight f) (j : Nat) (currRes : Int) (inside : st.l < st.wtTime.length) :
    reported f (reject st j currRes) + f (st.wtTime.getD st.l 0) = reported f st := by
  have stored := sum_set (f := f) st.wtTime inside (-1)
  rwa [weight.zero (-1) (by decide), Nat.add_zero] at stored

end Sums

section Service
variable {workers : List WorkerThread} {reqArr : List Int} {f : Int → Nat} {st t : Sched} {o : Nat}

/-- With the first request of a later round the workers are fresh, and it fits. -/
theorem Phase.begins (h : Phase workers reqArr st o) (point : st.point = .forTest) (stamp : 0 < st.timeStamp)
    (zero : st.l = 0) : Normal workers reqArr o ∧ st.workerResources = workers.map (·.resourcesAvailable) := by
  cases h with
  | start point' => exact absurd (point'.symm.trans point) (by simp)
  | firstRound _ stamp' => omega
  | served point' => exact absurd (point'.symm.trans point) (by simp)
  | between point' => exact absurd (point'.symm.trans point) (by simp)
  | laterRound _ _ _ _ _ _ begin_ => exact (begin_ zero).2

theorem Phase.not_blocked (h : Phase workers reqArr st o) (able : ∃ w ∈ workers, 0 ≤ w.resourcesAvailable)
    (point : st.point = .forTest) (stamp : 0 < st.timeStamp)
    (blocked : findThread st.workerResources (reqArr.getD o 0) = none) : st.l ≠ 0 := by
  intro zero
  obtain ⟨normal, fresh⟩ := h.begins point stamp zero
  exact findThread_fresh able normal (fresh ▸ blocked)

theorem Tally.nextRound (h : Tally f st) (weight : Weight f) (point : st.point = .whileTest)
    (waiting : st.tempQueue ≠ []) : Tally f (nextRound workers st) := by
  cases h with
  | first stamp times rounds =>
      rcases stamp with zero | ⟨one, -⟩
      · exact .first (.inl zero) times rounds
      · refine .second one rfl ?_ (List.length_pos_of_ne_nil waiting) (fun p _ => getD_le_zero times p) ?_
        · exact (sum_zero weight times).trans (actual_zero weight rounds).symm
        · exact fun positive => absurd positive (Nat.lt_irrefl 0)
  | second _ point' => exact absurd (point.symm.trans point') (by simp)
  | third stamp equal head => exact .third stamp equal head fun _ => ⟨rfl, List.length_pos_of_ne_nil waiting⟩
  | later stamp less =>
      rcases stamp with many | ⟨-, point'⟩
      · exact .later (.inl many) less
      · exact absurd (point.symm.trans point') (by simp)

theorem Tally.endRound (h : Tally f st) (point : st.point = .forTest) (done : st.iterSize ≤ st.l) :
    Tally f { st with point := .whileTest, timeStamp := st.timeStamp + 1 } := by
  cases h with
  | first stamp times rounds =>
      rcases stamp with zero | ⟨-, point'⟩
      · exact .first (.inr ⟨congrArg (· + 1) zero, rfl⟩) times rounds
      · exact absurd (point'.symm.trans point) (by simp)
  | second stamp _ equal some_ _ head =>
      exact .third (congrArg (· + 1) stamp) equal (head (some_.trans_le done)) (fun point' => nomatch point')
  | third _ _ _ begins =>
      obtain ⟨zero, some_⟩ := begins point
      omega
  | later stamp less =>
      refine .later (.inl ?_) less
      change 2 < st.timeStamp + 1
      omega

theorem Tally.execute (h : Tally f st) (weight : Weight f) (point : st.point = .forTest)
    (inside : st.l < st.wtTime.length) (j place : Nat) (currRes : Int) :
    Tally f (execute reqArr st j currRes place) := by
  have stored := execute_reported (f := f) reqArr j place currRes inside
  have ran : actual f (Ecommerce.execute reqArr st j currRes place) = actual f st + f st.timeStamp :=
    execute_actual reqArr j place currRes
  cases h with
  | first stamp times rounds =>
      have zero : st.timeStamp = 0 := by
        rcases stamp with zero | ⟨-, point'⟩
        · exact zero
        · exact absurd (point'.symm.trans point) (by simp)
      refine .first (.inl zero) (fun t member => ?_) fun e member => ?_
      · rcases List.mem_or_eq_of_mem_set member with old | rfl
        · exact times t old
        · rw [zero]
          exact le_rfl
      · rcases List.mem_append.mp member with old | new
        · exact rounds e old
        · exact List.mem_singleton.mp new ▸ zero
  | second stamp _ equal some_ untouched head =>
      rw [weight.zero _ (untouched st.l le_rfl), Nat.add_zero] at stored
      refine .second stamp point (by rw [stored, ran, equal]) some_ (fun p later => ?_) fun _ => ?_
      · change (st.wtTime.set st.l st.timeStamp).getD p 0 ≤ 0
        change st.l + 1 ≤ p at later
        rw [getD_set_ne (by omega)]
        exact untouched p (by omega)
      · change (st.wtTime.set st.l st.timeStamp).getD 0 0 = 1
        by_cases zero : st.l = 0
        · rw [zero, getD_set_self (by omega), stamp]
          rfl
        · rw [getD_set_ne zero]
          exact head (by omega)
  | third stamp equal head begins =>
      have one := weight.one
      obtain ⟨zero, -⟩ := begins point
      rw [zero, head] at stored
      refine .later (.inr ⟨stamp, point⟩) ?_
      omega
  | later stamp less => exact .later stamp (by omega)

/-- A rejection stores no time. -/
theorem Tally.reject (h : Tally f st) (weight : Weight f) (phase : Phase workers reqArr st o)
    (point : st.point = .forTest) (inside : st.l < st.wtTime.length) (abnormal : ¬ Normal workers reqArr o)
    (currRes : Int) : Tally f (reject st o currRes) := by
  have stored := reject_reported weight o currRes inside
  have began : 0 < st.timeStamp → st.l ≠ 0 := fun stamp zero => abnormal (phase.begins point stamp zero).1
  cases h with
  | first stamp times rounds =>
      refine .first stamp (fun t member => ?_) rounds
      rcases List.mem_or_eq_of_mem_set member with old | rfl
      · exact times t old
      · decide
  | second stamp _ equal some_ untouched head =>
      have positive : st.l ≠ 0 := began (by omega)
      rw [weight.zero _ (untouched st.l le_rfl), Nat.add_zero] at stored
      refine .second stamp point (stored.trans equal) some_ (fun p later => ?_) fun _ => ?_
      · change (st.wtTime.set st.l (-1)).getD p 0 ≤ 0
        change st.l + 1 ≤ p at later
        rw [getD_set_ne (by omega)]
        exact untouched p (by omega)
      · change (st.wtTime.set st.l (-1)).getD 0 0 = 1
        rw [getD_set_ne positive]
        exact head (by omega)
  | third stamp _ _ begins => exact absurd (begins point).1 (began (by omega))
  | later stamp less =>
      refine .later stamp ?_
      change _ < actual f st
      omega

theorem Tally.blocked (h : Tally f st) (point : st.point = .forTest) (began : 0 < st.timeStamp → st.l ≠ 0) :
    Tally f { st with l := st.l + 1 } := by
  cases h with
  | first stamp times rounds => exact .first stamp times rounds
  | second stamp _ equal some_ untouched head =>
      have positive : st.l ≠ 0 := began (by omega)
      exact .second stamp point equal some_ (fun p later => untouched p (Nat.le_of_succ_le later))
        fun _ => head (Nat.pos_of_ne_zero positive)
  | third stamp _ _ begins => exact absurd (begins point).1 (began (by omega))
  | later stamp less => exact .later stamp less

/-- What every tick keeps. -/
structure Tallied (workers : List WorkerThread) (reqArr : List Int) (f : Int → Nat) (st : Sched) : Prop where
  phase : ∃ o, Served workers reqArr st o ∧ Phase workers reqArr st o
  size : st.iterSize ≤ reqArr.length
  tally : Tally f st

theorem Tallied.tick (h : Tallied workers reqArr f st) (weight : Weight f)
    (able : ∃ w ∈ workers, 0 ≤ w.resourcesAvailable) (taken : tick workers reqArr st = some t) :
    Tallied workers reqArr f t := by
  refine ⟨tick_phase able h.phase taken, ?_, ?_⟩
  · obtain ⟨o, served, -⟩ := h.phase
    cases tick_cases taken with
    | nextRound =>
        change st.tempQueue.length ≤ _
        rw [served.queue_length]
        exact Nat.sub_le _ _
    | endRound => exact h.size
    | execute => exact h.size
    | reject => exact h.size
    | blocked => exact h.size
  · obtain ⟨o, served, phase⟩ := h.phase
    have within : st.l < st.iterSize → st.l < st.wtTime.length := fun inside =>
      inside.trans_le (h.size.trans_eq served.times.symm)
    cases tick_cases taken with
    | nextRound point waiting => exact h.tally.nextRound weight point waiting
    | endRound point done => exact h.tally.endRound point done
    | execute point inside => exact h.tally.execute weight point (within inside) _ _ _
    | reject point inside queue abnormal =>
        obtain ⟨_, rfl, rfl, _⟩ := served.front queue
        exact h.tally.reject weight phase point (within inside) (not_not.mpr abnormal) _
    | blocked point inside queue found =>
        obtain ⟨_, rfl, rfl, _⟩ := served.front queue
        exact h.tally.blocked point fun stamp => phase.not_blocked able point stamp found

end Service

/-- What the program has read: the workers of each service in the order in which `sort` has left them,
whichever that is, and the requests. The transaction type of each, an index into the services, is
one that exists. -/
structure Input where
  services : List (List WorkerThread)
  requests : List (Nat × Int)
  known : ∀ r ∈ requests, r.1 < services.length

namespace Input
variable (input : Input)

def workers (i : Nat) : List WorkerThread := input.services.getD i []

/-- The loop that fills `req_arr`. -/
def reqArr : List (List Int) :=
  input.requests.foldl (fun reqArr r => reqArr.modify r.1 (· ++ [r.2])) (List.replicate input.services.length [])

/-- The scheduling loops of all services have come to these ends. -/
def Ends (finals : Nat → Sched) : Prop := ∀ i < input.services.length,
  Reaches (tick (input.workers i) (input.reqArr.getD i [])) (start (input.reqArr.getD i [])) (finals i) ∧
    Finished (finals i)

/-- The number that is printed of requests that were forced to wait. -/
def waits (finals : Nat → Sched) : Nat := ∑ i ∈ Finset.range input.services.length, Ecommerce.waits (finals i)

/-- The requests that were executed in a later round than the first one. -/
def waited (finals : Nat → Sched) : Nat :=
  ∑ i ∈ Finset.range input.services.length, (finals i).executions.countP fun e => 0 < e.round

end Input

section Program
variable {input : Input} {finals : Nat → Sched} {f : Int → Nat}

/-- Every waiting request weighs 1. -/
def waiting (t : Int) : Nat := if 0 < t then 1 else 0

theorem toNat_weight : Weight Int.toNat := ⟨fun _ none_ => Int.toNat_of_nonpos none_, by decide⟩

end Program

end NetworkOs.Ecommerce
