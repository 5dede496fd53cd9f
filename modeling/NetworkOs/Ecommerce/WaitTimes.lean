import NetworkOs.Ecommerce.Scheduler

/-! Waiting times. The loop stores a request's round at its position within
that round, so the stored times are the requests' own only where the whole
list is served in the first round. -/
namespace NetworkOs.Ecommerce
open Machine Runs

/-- The code's own test that some worker could serve request `j` at all. -/
def Normal (workers : List WorkerThread) (reqArr : List Int) (j : Nat) : Prop :=
  outOfValues workers (reqArr.getD j 0) ≠ -1

instance (workers : List WorkerThread) (reqArr : List Int) :
    DecidablePred (Normal workers reqArr) := fun _ => inferInstanceAs (Decidable (_ ≠ _))

/-- Every time stored under an index is that of the round which executed the
request of this index, and -1 marks the rejected requests and no others. -/
def WaitsRecorded (reqArr : List Int) (st : Sched) : Prop :=
  ∀ j < reqArr.length,
    ((∃ e ∈ st.executions, e.request = j) ∨ j ∈ st.rejections.map Prod.snd) ∧
    (∀ e ∈ st.executions, e.request = j → st.wtTime.getD j 0 = e.round) ∧
    (st.wtTime.getD j 0 = -1 ↔ j ∈ st.rejections.map Prod.snd)

/-- The reported number of requests that were forced to wait. -/
def waits (st : Sched) : Nat := st.wtTime.countP fun t => 0 < t

/-- First fit from the resources `left` places every demand that is not out of
values, each on what the demands before it have left over. -/
def FitsOneRound (workers : List WorkerThread) : List Int → List Int → Prop
  | _, [] => True
  | left, d :: rest =>
      if outOfValues workers d = -1 then FitsOneRound workers left rest
      else
        match findThread left d with
        | none => False
        | some place => FitsOneRound workers (left.modify place fun r => int32 (r - d)) rest

theorem outOfValues_ne_iff (workers : List WorkerThread) (value : Int) :
    outOfValues workers value ≠ -1 ↔ value ≤ highest workers := by
  unfold outOfValues
  split_ifs with h <;> simp [h, ge_iff_le] at *

theorem highest_attained {workers : List WorkerThread} (able : ∃ w ∈ workers, 0 ≤ w.resourcesAvailable) :
    ∃ w ∈ workers, highest workers ≤ w.resourcesAvailable := by
  have fold : ∀ (ws : List WorkerThread) (h : Int),
      (ws.foldl (fun h w => if h < w.resourcesAvailable then w.resourcesAvailable else h) h = h ∧
        ∀ w ∈ ws, w.resourcesAvailable ≤ h) ∨
      ∃ w ∈ ws, ws.foldl (fun h w => if h < w.resourcesAvailable then w.resourcesAvailable else h) h =
        w.resourcesAvailable := by
    intro ws
    induction ws with
    | nil => intro h; exact .inl ⟨rfl, by simp⟩
    | cons w ws ih =>
        intro h
        rw [List.foldl_cons]
        split_ifs with larger
        · rcases ih w.resourcesAvailable with ⟨same, _⟩ | ⟨v, member, same⟩
          · exact .inr ⟨w, List.mem_cons_self, same⟩
          · exact .inr ⟨v, List.mem_cons_of_mem _ member, same⟩
        · rcases ih h with ⟨same, bound⟩ | ⟨v, member, same⟩
          · refine .inl ⟨same, ?_⟩
            intro v member
            rcases List.mem_cons.mp member with rfl | later
            · exact not_lt.mp larger
            · exact bound v later
          · exact .inr ⟨v, List.mem_cons_of_mem _ member, same⟩
  rcases fold workers 0 with ⟨same, _⟩ | ⟨w, member, same⟩
  · obtain ⟨w, member, nonneg⟩ := able
    exact ⟨w, member, by rw [highest, same]; exact nonneg⟩
  · exact ⟨w, member, by rw [highest, same]⟩

theorem findThread_fresh {workers : List WorkerThread} (able : ∃ w ∈ workers, 0 ≤ w.resourcesAvailable)
    {value : Int} (normal : outOfValues workers value ≠ -1) :
    findThread (workers.map (·.resourcesAvailable)) value ≠ none := by
  intro none_
  obtain ⟨w, member, top⟩ := highest_attained able
  have below := (findThread_none_iff _ value).mp none_ _ (List.mem_map_of_mem member)
  have fits := (outOfValues_ne_iff workers value).mp normal
  omega

@[simp] theorem length_enqueue (reqArr : List Int) : (enqueue reqArr).length = reqArr.length := by
  simp [enqueue]

theorem drop_enqueue {reqArr : List Int} {o : Nat} (h : o < reqArr.length) :
    (enqueue reqArr).drop o = (o, reqArr.getD o 0) :: (enqueue reqArr).drop (o + 1) := by
  rw [List.drop_eq_getElem_cons (by simpa using h)]
  simp [enqueue, List.getD_eq_getElem?_getD, List.getElem?_eq_getElem h]

/-- The front request fits on no worker as the round stands. -/
def FrontBlocked (workers : List WorkerThread) (reqArr : List Int) (st : Sched) (o : Nat) : Prop :=
  o < reqArr.length ∧ Normal workers reqArr o ∧
    findThread st.workerResources (reqArr.getD o 0) = none

/-- After `o` requests have left the queue: what is queued, executed and rejected. -/
structure Served (workers : List WorkerThread) (reqArr : List Int) (st : Sched) (o : Nat) : Prop where
  queue : st.tempQueue = (enqueue reqArr).drop o
  handled : o ≤ reqArr.length
  times : st.wtTime.length = reqArr.length
  executed : st.executions.map (·.request) = (List.range o).filter (Normal workers reqArr ·)
  rejected : st.rejections.map Prod.snd = (List.range o).filter (¬Normal workers reqArr ·)
  progress : st.point = .forTest →
    reqArr.length - o + st.l = st.iterSize ∨ FrontBlocked workers reqArr st o

section Service
variable {workers : List WorkerThread} {reqArr : List Int}

theorem start_served : Served workers reqArr (start reqArr) 0 := by
  refine ⟨rfl, Nat.zero_le _, ?_, rfl, rfl, ?_⟩
  · simp [start]
  · intro h; cases h

theorem Served.front {st : Sched} {o j : Nat} {currRes : Int} {rest : List (Nat × Int)}
    (h : Served workers reqArr st o) (queue : st.tempQueue = (j, currRes) :: rest) :
    o < reqArr.length ∧ j = o ∧ currRes = reqArr.getD o 0 ∧ rest = (enqueue reqArr).drop (o + 1) := by
  have bound : o < reqArr.length := by
    by_contra past
    have empty : st.tempQueue = [] := by
      rw [h.queue, List.drop_eq_nil_iff, length_enqueue]
      omega
    rw [empty] at queue
    cases queue
  have same := queue.symm.trans (h.queue.trans (drop_enqueue bound))
  simp only [List.cons.injEq, Prod.mk.injEq] at same
  exact ⟨bound, same.1.1, same.1.2, same.2⟩

theorem Served.queue_empty_iff {st : Sched} {o : Nat} (h : Served workers reqArr st o) :
    st.tempQueue = [] ↔ o = reqArr.length := by
  rw [h.queue, List.drop_eq_nil_iff, length_enqueue]
  have := h.handled
  omega

theorem Served.queue_length {st : Sched} {o : Nat} (h : Served workers reqArr st o) :
    st.tempQueue.length = reqArr.length - o := by
  rw [h.queue, List.length_drop, length_enqueue]

theorem Served.nextRound {st : Sched} {o : Nat} (h : Served workers reqArr st o) :
    Served workers reqArr (nextRound workers st) o := by
  refine ⟨h.queue, h.handled, h.times, h.executed, h.rejected, fun _ => .inl ?_⟩
  change reqArr.length - o + 0 = st.tempQueue.length
  rw [h.queue_length, Nat.add_zero]

theorem Served.endRound {st : Sched} {o : Nat} (h : Served workers reqArr st o) :
    Served workers reqArr { st with point := .whileTest, timeStamp := st.timeStamp + 1 } o :=
  ⟨h.queue, h.handled, h.times, h.executed, h.rejected, (fun point => nomatch point)⟩

/-- A front that is about to leave is not blocked, so the round is on schedule. -/
theorem Served.on_schedule {st : Sched} {o : Nat} (h : Served workers reqArr st o)
    (point : st.point = .forTest)
    (leaves : ¬Normal workers reqArr o ∨ findThread st.workerResources (reqArr.getD o 0) ≠ none) :
    reqArr.length - o + st.l = st.iterSize := by
  rcases h.progress point with progress | ⟨_, normal, blocked⟩
  · exact progress
  · rcases leaves with abnormal | placed
    · exact absurd normal abnormal
    · exact absurd blocked placed

theorem Served.execute {st : Sched} {o place : Nat} {rest : List (Nat × Int)}
    (h : Served workers reqArr st o) (point : st.point = .forTest)
    (queue : st.tempQueue = (o, reqArr.getD o 0) :: rest)
    (found : findThread st.workerResources (reqArr.getD o 0) = some place)
    (normal : Normal workers reqArr o) :
    Served workers reqArr (execute reqArr st o (reqArr.getD o 0) place) (o + 1) := by
  obtain ⟨bound, _, _, later⟩ := h.front queue
  have schedule := h.on_schedule point (.inr (found ▸ Option.some_ne_none place))
  refine ⟨?_, bound, ?_, ?_, ?_, fun _ => .inl ?_⟩
  · simp [Ecommerce.execute, queue, later]
  · simpa [Ecommerce.execute] using h.times
  · simp [Ecommerce.execute, h.executed, List.range_succ, normal]
  · simpa [Ecommerce.execute, List.range_succ, normal] using h.rejected
  · change reqArr.length - (o + 1) + (st.l + 1) = st.iterSize
    omega

theorem Served.reject {st : Sched} {o : Nat} {rest : List (Nat × Int)}
    (h : Served workers reqArr st o) (point : st.point = .forTest)
    (queue : st.tempQueue = (o, reqArr.getD o 0) :: rest) (abnormal : ¬Normal workers reqArr o) :
    Served workers reqArr (reject st o (reqArr.getD o 0)) (o + 1) := by
  obtain ⟨bound, _, _, later⟩ := h.front queue
  have schedule := h.on_schedule point (.inl abnormal)
  refine ⟨?_, bound, ?_, ?_, ?_, fun _ => .inl ?_⟩
  · simp [Ecommerce.reject, queue, later]
  · simpa [Ecommerce.reject] using h.times
  · simpa [Ecommerce.reject, List.range_succ, abnormal] using h.executed
  · simp [Ecommerce.reject, h.rejected, List.range_succ, abnormal]
  · change reqArr.length - (o + 1) + (st.l + 1) = st.iterSize
    omega

theorem Served.blocked {st : Sched} {o : Nat} (h : Served workers reqArr st o)
    (front : FrontBlocked workers reqArr st o) :
    Served workers reqArr { st with l := st.l + 1 } o :=
  ⟨h.queue, h.handled, h.times, h.executed, h.rejected, fun _ => .inr front⟩

/-- The value the loop stores for request `j` while the first round runs. -/
def firstTime (workers : List WorkerThread) (reqArr : List Int) (j : Nat) : Int :=
  if Normal workers reqArr j then 0 else -1

/-- Where the loop stands after `o` requests: the first round keeps position and
index together; every later round starts by overwriting the time at position 0. -/
inductive Phase (workers : List WorkerThread) (reqArr : List Int) (st : Sched) (o : Nat) : Prop
  | start : st.point = .whileTest → st.timeStamp = 0 → o = 0 → st.executions = [] →
      Phase workers reqArr st o
  | firstRound : st.point = .forTest → st.timeStamp = 0 → st.iterSize = reqArr.length →
      (∀ e ∈ st.executions, e.round = 0) →
      (∀ j < o, st.wtTime.getD j 0 = firstTime workers reqArr j) →
      (FitsOneRound workers (workers.map (·.resourcesAvailable)) reqArr ↔
        FitsOneRound workers st.workerResources (reqArr.drop o)) →
      (o = 0 → st.workerResources = workers.map (·.resourcesAvailable)) →
      Phase workers reqArr st o
  | served : st.point = .whileTest → o = reqArr.length →
      (∀ e ∈ st.executions, e.round = 0) →
      (∀ j < o, st.wtTime.getD j 0 = firstTime workers reqArr j) →
      FitsOneRound workers (workers.map (·.resourcesAvailable)) reqArr →
      Phase workers reqArr st o
  | between : st.point = .whileTest → 0 < st.timeStamp → 0 < o →
      ¬FitsOneRound workers (workers.map (·.resourcesAvailable)) reqArr →
      (∀ e ∈ st.executions, e.request = 0 → e.round = 0) →
      (o < reqArr.length → Normal workers reqArr o) →
      (o = reqArr.length → 0 < st.wtTime.getD 0 0) →
      Phase workers reqArr st o
  | laterRound : st.point = .forTest → 0 < st.timeStamp → 0 < o → 0 < st.iterSize →
      ¬FitsOneRound workers (workers.map (·.resourcesAvailable)) reqArr →
      (∀ e ∈ st.executions, e.request = 0 → e.round = 0) →
      (st.l = 0 → o < reqArr.length ∧ Normal workers reqArr o ∧
        st.workerResources = workers.map (·.resourcesAvailable)) →
      (0 < st.l → 0 < st.wtTime.getD 0 0) →
      Phase workers reqArr st o

theorem fitsOneRound_drop {left : List Int} {o : Nat} (bound : o < reqArr.length) :
    FitsOneRound workers left (reqArr.drop o) ↔
      if outOfValues workers (reqArr.getD o 0) = -1 then FitsOneRound workers left (reqArr.drop (o + 1))
      else ∃ place, findThread left (reqArr.getD o 0) = some place ∧
        FitsOneRound workers (left.modify place fun r => int32 (r - reqArr.getD o 0))
          (reqArr.drop (o + 1)) := by
  have same : reqArr.getD o 0 = reqArr[o] := by
    simp [List.getD_eq_getElem?_getD, List.getElem?_eq_getElem bound]
  rw [List.drop_eq_getElem_cons bound, same, FitsOneRound]
  split_ifs
  · exact Iff.rfl
  · cases found : findThread left reqArr[o] with
    | none => simp
    | some place => simp

theorem FrontBlocked.not_fits {st : Sched} {o : Nat} (h : FrontBlocked workers reqArr st o) :
    ¬FitsOneRound workers st.workerResources (reqArr.drop o) := by
  obtain ⟨bound, normal, blocked⟩ := h
  rw [fitsOneRound_drop bound, if_neg normal, blocked]
  rintro ⟨place, found, _⟩
  cases found

theorem getD_set_ne {times : List Int} {i j : Nat} (h : i ≠ j) (t : Int) :
    (times.set i t).getD j 0 = times.getD j 0 := by
  simp [List.getD_eq_getElem?_getD, h]

theorem getD_set_self {times : List Int} {i : Nat} (h : i < times.length) (t : Int) :
    (times.set i t).getD i 0 = t := by
  simp [List.getD_eq_getElem?_getD, h]

theorem firstTimes_set {st : Sched} {o : Nat} {t : Int} (served : Served workers reqArr st o)
    (bound : o < reqArr.length) (value : t = firstTime workers reqArr o)
    (times : ∀ j < o, st.wtTime.getD j 0 = firstTime workers reqArr j) :
    ∀ j < o + 1, (st.wtTime.set o t).getD j 0 = firstTime workers reqArr j := by
  intro j below
  rcases Nat.lt_succ_iff_lt_or_eq.mp below with earlier | rfl
  · rw [getD_set_ne (Nat.ne_of_gt earlier), times j earlier]
  · rw [getD_set_self (served.times ▸ bound), value]

theorem nextRound_phase {st : Sched} {o : Nat} (served : Served workers reqArr st o)
    (phase : Phase workers reqArr st o) (point : st.point = .whileTest) (waiting : st.tempQueue ≠ []) :
    Phase workers reqArr (nextRound workers st) o := by
  have left : o < reqArr.length :=
    lt_of_le_of_ne served.handled fun all => waiting (served.queue_empty_iff.mpr all)
  cases phase with
  | start _ stamp zero none_ =>
      subst zero
      refine .firstRound rfl stamp ?_ ?_ ?_ ?_ fun _ => rfl
      · change st.tempQueue.length = reqArr.length
        rw [served.queue_length, Nat.sub_zero]
      · intro e member
        exact absurd member (by simp [nextRound, none_])
      · intro j below; exact absurd below (Nat.not_lt_zero j)
      · rw [List.drop_zero]; exact Iff.rfl
  | firstRound point' => exact absurd (point.symm.trans point') (by simp)
  | served _ all => exact absurd all (Nat.ne_of_lt left)
  | between _ stamp some_ unfit first normal _ =>
      refine .laterRound rfl stamp some_ ?_ unfit first (fun _ => ⟨left, normal left, rfl⟩) ?_
      · change 0 < st.tempQueue.length
        exact List.length_pos_of_ne_nil waiting
      · intro started; exact absurd started (Nat.lt_irrefl 0)
  | laterRound point' => exact absurd (point.symm.trans point') (by simp)

/-- A round ends with the queue empty or with a blocked front. -/
theorem endRound_phase {st : Sched} {o : Nat} (served : Served workers reqArr st o)
    (phase : Phase workers reqArr st o) (able : ∃ w ∈ workers, 0 ≤ w.resourcesAvailable)
    (point : st.point = .forTest) (done : st.iterSize ≤ st.l) :
    Phase workers reqArr { st with point := .whileTest, timeStamp := st.timeStamp + 1 } o := by
  have handled := served.handled
  have normal : o < reqArr.length → Normal workers reqArr o := by
    intro left
    rcases served.progress point with progress | front
    · omega
    · exact front.2.1
  cases phase with
  | start point' => exact absurd (point'.symm.trans point) (by simp)
  | firstRound _ stamp size rounds times fits fresh =>
      by_cases all : o = reqArr.length
      · refine .served rfl all rounds times (fits.mpr ?_)
        rw [all, List.drop_length, FitsOneRound]
        trivial
      · -- something is left over, so the front was blocked when the round ended
        have front : FrontBlocked workers reqArr st o := by
          rcases served.progress point with progress | front
          · omega
          · exact front
        have some_ : 0 < o := by
          refine Nat.pos_of_ne_zero fun zero => ?_
          exact findThread_fresh able front.2.1 (fresh zero ▸ front.2.2)
        exact .between rfl (Nat.succ_pos _) some_ (fun whole => front.not_fits (fits.mp whole))
          (fun e member _ => rounds e member) normal (fun same => absurd same all)
  | served point' => exact absurd (point'.symm.trans point) (by simp)
  | between point' => exact absurd (point'.symm.trans point) (by simp)
  | laterRound _ stamp some_ size unfit first _ time =>
      exact .between rfl (Nat.succ_pos _) some_ unfit first normal
        (fun _ => time (Nat.lt_of_lt_of_le size done))

/-- Storing a positive round number at position `l > 0`, or at 0 itself, leaves a
positive time at position 0. -/
theorem positive_first_time {st : Sched} {o : Nat} {t : Int} (served : Served workers reqArr st o)
    (bound : o < reqArr.length) (written : st.l = 0 → 0 < t)
    (time : 0 < st.l → 0 < st.wtTime.getD 0 0) : 0 < (st.wtTime.set st.l t).getD 0 0 := by
  by_cases zero : st.l = 0
  · rw [zero, getD_set_self (served.times ▸ Nat.zero_lt_of_lt bound)]
    exact written zero
  · rw [getD_set_ne zero]
    exact time (Nat.pos_of_ne_zero zero)

theorem execute_phase {st : Sched} {o place : Nat} {rest : List (Nat × Int)}
    (served : Served workers reqArr st o) (phase : Phase workers reqArr st o)
    (point : st.point = .forTest) (queue : st.tempQueue = (o, reqArr.getD o 0) :: rest)
    (found : findThread st.workerResources (reqArr.getD o 0) = some place)
    (normal : Normal workers reqArr o) :
    Phase workers reqArr (execute reqArr st o (reqArr.getD o 0) place) (o + 1) := by
  have bound := (served.front queue).1
  have schedule := served.on_schedule point (.inr (found ▸ Option.some_ne_none place))
  cases phase with
  | start point' => exact absurd (point'.symm.trans point) (by simp)
  | firstRound _ stamp size rounds times fits fresh =>
      have position : st.l = o := by omega
      refine .firstRound point stamp size ?_ ?_ (fits.trans ?_) (fun zero => nomatch zero)
      · intro e member
        rcases List.mem_append.mp member with old | new
        · exact rounds e old
        · obtain rfl := List.mem_singleton.mp new
          exact stamp
      · change ∀ j < o + 1, (st.wtTime.set st.l st.timeStamp).getD j 0 = _
        rw [position, stamp]
        exact firstTimes_set served bound (by simp [firstTime, normal]) times
      · -- here position and index agree, so the deduction is the request's own demand
        rw [fitsOneRound_drop bound, if_neg normal]
        change _ ↔ FitsOneRound workers
          (st.workerResources.modify place fun r => int32 (r - reqArr.getD st.l 0)) _
        rw [position]
        constructor
        · rintro ⟨other, also, later⟩
          obtain rfl : other = place := Option.some.inj (also.symm.trans found)
          exact later
        · exact fun later => ⟨place, found, later⟩
  | served point' => exact absurd (point'.symm.trans point) (by simp)
  | between point' => exact absurd (point'.symm.trans point) (by simp)
  | laterRound _ stamp some_ size unfit first begin_ time =>
      refine .laterRound point stamp (Nat.succ_pos o) size unfit ?_ (fun zero => nomatch zero) fun _ => ?_
      · intro e member same
        rcases List.mem_append.mp member with old | new
        · exact first e old same
        · obtain rfl := List.mem_singleton.mp new
          exact absurd same (Nat.ne_of_gt some_)
      · exact positive_first_time served bound (fun _ => Int.natCast_pos.mpr stamp) time

theorem reject_phase {st : Sched} {o : Nat} {rest : List (Nat × Int)}
    (served : Served workers reqArr st o) (phase : Phase workers reqArr st o)
    (point : st.point = .forTest) (queue : st.tempQueue = (o, reqArr.getD o 0) :: rest)
    (abnormal : ¬Normal workers reqArr o) :
    Phase workers reqArr (reject st o (reqArr.getD o 0)) (o + 1) := by
  have bound := (served.front queue).1
  have schedule := served.on_schedule point (.inl abnormal)
  cases phase with
  | start point' => exact absurd (point'.symm.trans point) (by simp)
  | firstRound _ stamp size rounds times fits fresh =>
      have position : st.l = o := by omega
      refine .firstRound point stamp size rounds ?_ (fits.trans ?_) (fun zero => nomatch zero)
      · change ∀ j < o + 1, (st.wtTime.set st.l (-1)).getD j 0 = _
        rw [position]
        exact firstTimes_set served bound (by simp [firstTime, abnormal]) times
      · rw [fitsOneRound_drop bound, if_pos (not_not.mp abnormal)]
        exact Iff.rfl
  | served point' => exact absurd (point'.symm.trans point) (by simp)
  | between point' => exact absurd (point'.symm.trans point) (by simp)
  | laterRound _ stamp some_ size unfit first begin_ time =>
      refine .laterRound point stamp (Nat.succ_pos o) size unfit first (fun zero => nomatch zero) fun _ => ?_
      -- the front of a later round has been blocked before, so it is not rejected first
      exact positive_first_time served bound (fun zero => absurd (begin_ zero).2.1 abnormal) time

theorem blocked_phase {st : Sched} {o : Nat} (phase : Phase workers reqArr st o)
    (able : ∃ w ∈ workers, 0 ≤ w.resourcesAvailable) (point : st.point = .forTest)
    (front : FrontBlocked workers reqArr st o) :
    Phase workers reqArr { st with l := st.l + 1 } o := by
  cases phase with
  | start point' => exact absurd (point'.symm.trans point) (by simp)
  | firstRound _ stamp size rounds times fits fresh =>
      exact .firstRound point stamp size rounds times fits fresh
  | served point' => exact absurd (point'.symm.trans point) (by simp)
  | between point' => exact absurd (point'.symm.trans point) (by simp)
  | laterRound _ stamp some_ size unfit first begin_ time =>
      refine .laterRound point stamp some_ size unfit first (fun zero => nomatch zero) fun _ => ?_
      refine time (Nat.pos_of_ne_zero fun zero => ?_)
      obtain ⟨_, normal, fresh⟩ := begin_ zero
      exact findThread_fresh able normal (fresh ▸ front.2.2)

theorem tick_phase (able : ∃ w ∈ workers, 0 ≤ w.resourcesAvailable) {st t : Sched}
    (h : ∃ o, Served workers reqArr st o ∧ Phase workers reqArr st o)
    (taken : tick workers reqArr st = some t) :
    ∃ o, Served workers reqArr t o ∧ Phase workers reqArr t o := by
  obtain ⟨o, served, phase⟩ := h
  cases tick_cases taken with
  | nextRound point waiting =>
      exact ⟨o, served.nextRound, nextRound_phase served phase point waiting⟩
  | endRound point done =>
      exact ⟨o, served.endRound, endRound_phase served phase able point done⟩
  | execute point inside queue found normal =>
      obtain ⟨_, rfl, rfl, _⟩ := served.front queue
      exact ⟨_, served.execute point queue found normal,
        execute_phase served phase point queue found normal⟩
  | reject point inside queue abnormal =>
      obtain ⟨_, rfl, rfl, _⟩ := served.front queue
      exact ⟨_, served.reject point queue (not_not.mpr abnormal),
        reject_phase served phase point queue (not_not.mpr abnormal)⟩
  | blocked point inside queue found normal =>
      obtain ⟨bound, rfl, rfl, _⟩ := served.front queue
      exact ⟨_, served.blocked ⟨bound, normal, found⟩, blocked_phase phase able point ⟨bound, normal, found⟩⟩

theorem reaches_phase (able : ∃ w ∈ workers, 0 ≤ w.resourcesAvailable) {st : Sched}
    (h : Reaches (tick workers reqArr) (start reqArr) st) :
    ∃ o, Served workers reqArr st o ∧ Phase workers reqArr st o :=
  reaches_invariant (fun _ _ => tick_phase able) ⟨0, start_served, .start rfl rfl rfl rfl⟩ h

/-- Inside a round the front exists, so the loop body runs; unless the front is
blocked it leaves the queue. -/
theorem tick_inside {st : Sched} {o : Nat} (served : Served workers reqArr st o)
    (point : st.point = .forTest) (inside : st.l < st.iterSize) :
    ∃ t, tick workers reqArr st = some t ∧ t.point = .forTest ∧ t.l = st.l + 1 ∧
      t.iterSize = st.iterSize ∧ t.tempQueue.length ≤ st.tempQueue.length ∧
      (¬FrontBlocked workers reqArr st o → t.tempQueue.length < st.tempQueue.length) := by
  have bound : o < reqArr.length := by
    rcases served.progress point with progress | front
    · omega
    · exact front.1
  have queue := served.queue.trans (drop_enqueue bound)
  rw [tick_front point inside queue]
  refine ⟨_, rfl, ?_⟩
  by_cases abnormal : outOfValues workers (reqArr.getD o 0) = -1
  · rw [if_pos abnormal]
    exact ⟨point, rfl, rfl, by simp [reject, queue], fun _ => by simp [reject, queue]⟩
  · rw [if_neg abnormal]
    cases found : findThread st.workerResources (reqArr.getD o 0) with
    | some place =>
        exact ⟨point, rfl, rfl, by simp [execute, queue], fun _ => by simp [execute, queue]⟩
    | none =>
        exact ⟨point, rfl, rfl, le_rfl, fun free => absurd ⟨bound, abnormal, found⟩ free⟩

/-- A running round reaches its end, with no request put back into the queue. -/
theorem round_ends (able : ∃ w ∈ workers, 0 ≤ w.resourcesAvailable) {st : Sched}
    (h : ∃ o, Served workers reqArr st o ∧ Phase workers reqArr st o) (point : st.point = .forTest) :
    ∃ t, Reaches (tick workers reqArr) st t ∧ t.point = .whileTest ∧
      t.tempQueue.length ≤ st.tempQueue.length := by
  induction remaining : st.iterSize - st.l generalizing st with
  | zero =>
      have done : ¬st.l < st.iterSize := by omega
      refine ⟨{ st with point := .whileTest, timeStamp := st.timeStamp + 1 }, ?_, rfl, le_rfl⟩
      exact .head (by simp [tick, point, done]) (.refl _)
  | succ k ih =>
      obtain ⟨o, served, phase⟩ := h
      obtain ⟨t, taken, point', l', size, shorter, _⟩ := tick_inside served point (by omega)
      obtain ⟨u, later, final, shorter'⟩ :=
        ih (tick_phase able ⟨o, served, phase⟩ taken) point' (by omega)
      exact ⟨u, .head taken later, final, shorter'.trans shorter⟩

/-- Each round serves its front request, so the loop ends. -/
theorem scheduling_ends (able : ∃ w ∈ workers, 0 ≤ w.resourcesAvailable) :
    ∃ st, Reaches (tick workers reqArr) (start reqArr) st ∧ Finished st := by
  have from_test : ∀ (n : Nat) (st : Sched),
      (∃ o, Served workers reqArr st o ∧ Phase workers reqArr st o) → st.point = .whileTest →
      st.tempQueue.length = n → ∃ t, Reaches (tick workers reqArr) st t ∧ Finished t := by
    intro n
    induction n using Nat.strong_induction_on with
    | _ n ih =>
        intro st h point size
        by_cases empty : st.tempQueue = []
        · exact ⟨st, .refl st, point, empty⟩
        · have entered : tick workers reqArr st = some (nextRound workers st) := by
            simp [tick, point, empty]
          obtain ⟨o, served, phase⟩ := tick_phase able h entered
          have nonempty : 0 < (nextRound workers st).iterSize := List.length_pos_of_ne_nil empty
          obtain ⟨t, taken, point', _, _, _, shorter⟩ := tick_inside served rfl nonempty
          have free : ¬FrontBlocked workers reqArr (nextRound workers st) o :=
            fun front => findThread_fresh able front.2.1 front.2.2
          have inv := tick_phase able ⟨o, served, phase⟩ taken
          obtain ⟨u, later, point'', shorter'⟩ := round_ends able inv point'
          have less : u.tempQueue.length < n := by
            have := shorter free
            simp only [nextRound, size] at this
            omega
          have inv' : ∃ o, Served workers reqArr u o ∧ Phase workers reqArr u o :=
            reaches_invariant (fun _ _ => tick_phase able) inv later
          obtain ⟨v, last, finished⟩ := ih _ less u inv' point'' rfl
          exact ⟨v, .head entered (.head taken (later.trans last)), finished⟩
  exact from_test _ (start reqArr) ⟨0, start_served, .start rfl rfl rfl rfl⟩ rfl rfl

theorem Served.handled_iff {st : Sched} {o : Nat} (h : Served workers reqArr st o) (j : Nat) :
    (j ∈ st.executions.map (·.request) ↔ j < o ∧ Normal workers reqArr j) ∧
      (j ∈ st.rejections.map Prod.snd ↔ j < o ∧ ¬Normal workers reqArr j) := by
  rw [h.executed, h.rejected]
  simp

theorem first_round_recorded {st : Sched} (h : Served workers reqArr st reqArr.length)
    (rounds : ∀ e ∈ st.executions, e.round = 0)
    (times : ∀ j < reqArr.length, st.wtTime.getD j 0 = firstTime workers reqArr j) :
    WaitsRecorded reqArr st := by
  intro j bound
  obtain ⟨executed, rejected⟩ := h.handled_iff j
  by_cases normal : Normal workers reqArr j
  · refine ⟨.inl (List.mem_map.mp (executed.mpr ⟨bound, normal⟩)), ?_, ?_⟩
    · intro e member _
      rw [times j bound, rounds e member]
      simp [firstTime, normal]
    · rw [times j bound, rejected]
      simp [firstTime, normal]
  · refine ⟨.inr (rejected.mpr ⟨bound, normal⟩), ?_, ?_⟩
    · intro e member same
      exact absurd (executed.mp (List.mem_map.mpr ⟨e, member, same⟩)).2 normal
    · rw [times j bound, rejected]
      simp [firstTime, normal, bound]

/-- A positive time at position 0 is not the time of request 0, which either ran
in round 0 or was rejected. -/
theorem later_round_misrecorded {st : Sched} {o : Nat} (h : Served workers reqArr st o)
    (some_ : 0 < o) (first : ∀ e ∈ st.executions, e.request = 0 → e.round = 0)
    (time : 0 < st.wtTime.getD 0 0) : ¬WaitsRecorded reqArr st := by
  intro recorded
  obtain ⟨_, round, reject⟩ := recorded 0 (Nat.lt_of_lt_of_le some_ h.handled)
  obtain ⟨executed, rejected⟩ := h.handled_iff 0
  by_cases normal : Normal workers reqArr 0
  · obtain ⟨e, member, same⟩ := List.mem_map.mp (executed.mpr ⟨some_, normal⟩)
    have stored := round e member same
    rw [first e member same] at stored
    simp only [Nat.cast_zero] at stored
    omega
  · have stored := reject.mpr (rejected.mpr ⟨some_, normal⟩)
    omega

theorem first_round_waits {st : Sched} (h : Served workers reqArr st reqArr.length)
    (rounds : ∀ e ∈ st.executions, e.round = 0)
    (times : ∀ j < reqArr.length, st.wtTime.getD j 0 = firstTime workers reqArr j) :
    waits st = st.executions.countP fun e => 0 < e.round := by
  have none_waits : waits st = 0 := by
    apply List.countP_eq_zero.mpr
    intro t member
    obtain ⟨j, bound, rfl⟩ := List.mem_iff_getElem.mp member
    have value := times j (h.times ▸ bound)
    rw [List.getD_eq_getElem?_getD, List.getElem?_eq_getElem bound, Option.getD_some] at value
    rw [value]
    unfold firstTime
    split_ifs <;> decide
  rw [none_waits, eq_comm]
  apply List.countP_eq_zero.mpr
  intro e member
  simp [rounds e member]

/-- The loop ends, and it ends with every waiting time recorded under its own
request (and the waiting requests counted right) exactly when first fit places
all demands that are not out of values within the first round. -/
theorem waits_recorded_iff_fits_one_round (able : ∃ w ∈ workers, 0 ≤ w.resourcesAvailable) :
    (∃ st, Reaches (tick workers reqArr) (start reqArr) st ∧ Finished st) ∧
    ∀ st, Reaches (tick workers reqArr) (start reqArr) st → Finished st →
      ((WaitsRecorded reqArr st ∧ waits st = st.executions.countP fun e => 0 < e.round) ↔
        FitsOneRound workers (workers.map (·.resourcesAvailable)) reqArr) := by
  refine ⟨scheduling_ends able, ?_⟩
  intro st reached finished
  obtain ⟨o, served, phase⟩ := reaches_phase able reached
  obtain rfl := served.queue_empty_iff.mp finished.2
  cases phase with
  | start _ _ zero none_ =>
      have empty : reqArr = [] := List.length_eq_zero_iff.mp zero
      subst empty
      have noTimes : st.wtTime = [] := List.length_eq_zero_iff.mp served.times
      refine ⟨fun _ => trivial, fun _ => ⟨fun j bound => absurd bound (Nat.not_lt_zero j), ?_⟩⟩
      simp [waits, noTimes, none_]
  | firstRound point => exact absurd (finished.1.symm.trans point) (by simp)
  | served _ _ rounds times fits =>
      exact ⟨fun _ => fits, fun _ =>
        ⟨first_round_recorded served rounds times, first_round_waits served rounds times⟩⟩
  | between _ _ some_ unfit first _ time =>
      exact ⟨fun recorded => absurd recorded.1 (later_round_misrecorded served some_ first (time rfl)),
        fun fits => absurd fits unfit⟩
  | laterRound point => exact absurd (finished.1.symm.trans point) (by simp)

end Service

/-- Two workers serve the first two requests and reject the third in one round. -/
theorem waits_recorded_two_workers :
    ∃ st, Reaches (tick [⟨2, 5⟩, ⟨1, 4⟩] [5, 4, 9]) (start [5, 4, 9]) st ∧ Finished st ∧
      WaitsRecorded [5, 4, 9] st := by
  have able : ∃ w ∈ [(⟨2, 5⟩ : WorkerThread), ⟨1, 4⟩], 0 ≤ w.resourcesAvailable :=
    ⟨⟨2, 5⟩, by decide, by decide⟩
  have exact_run := @waits_recorded_iff_fits_one_round _ [5, 4, 9] able
  obtain ⟨⟨st, reached, finished⟩, exact_⟩ := exact_run
  have fits : FitsOneRound [⟨2, 5⟩, ⟨1, 4⟩] [5, 4] [5, 4, 9] := by
    simp [FitsOneRound, outOfValues, highest, findThread, int32]
  exact ⟨st, reached, finished, ((exact_ st reached finished).mpr fits).1⟩

/-- Two requests of 6 on a worker of 6: the second runs in round 1, and its time
is stored under index 0. -/
theorem second_round_overwrites_first :
    ¬ ∀ (workers : List WorkerThread) (reqArr : List Int),
      (∃ w ∈ workers, 0 ≤ w.resourcesAvailable) →
      ∀ st, Reaches (tick workers reqArr) (start reqArr) st → Finished st →
        WaitsRecorded reqArr st := by
  intro claim
  let workers : List WorkerThread := [⟨1, 6⟩]
  let reqArr : List Int := [6, 6]
  obtain ⟨st, run⟩ : ∃ st, iterate (tick workers reqArr) 7 (start reqArr) = some st :=
    Option.isSome_iff_exists.mp (by decide)
  have final : (iterate (tick workers reqArr) 7 (start reqArr)).map
      (fun st => (st.point, st.tempQueue, st.wtTime, st.executions)) =
        some (.whileTest, [], [1, 0], [⟨0, 0, 0, 6⟩, ⟨1, 0, 1, 6⟩]) := by decide
  rw [run, Option.map_some, Option.some.injEq] at final
  simp only [Prod.mk.injEq] at final
  obtain ⟨point, queue, times, executions⟩ := final
  have able : ∃ w ∈ workers, 0 ≤ w.resourcesAvailable := ⟨⟨1, 6⟩, by decide, by decide⟩
  have recorded := claim workers reqArr able st (reaches_of_iterate run) ⟨point, queue⟩ 0 (by decide)
  have stored := recorded.2.1 ⟨0, 0, 0, 6⟩ (executions ▸ by decide) rfl
  rw [times] at stored
  exact absurd stored (by decide)

end NetworkOs.Ecommerce
