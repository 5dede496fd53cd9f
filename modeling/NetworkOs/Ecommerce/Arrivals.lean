import NetworkOs.Ecommerce.WaitTimes

/-! The order in which requests leave the queue. Every round serves at least the request
it starts with, because a demand that is not out of values fits on a fresh worker. -/
namespace NetworkOs.Ecommerce
open Machine Runs

/-- The requests that the logs have gained from `st` to `t`. -/
def leaving (st t : Sched) : List Nat :=
  (t.executions.drop st.executions.length).map (·.request) ++
    (t.rejections.drop st.rejections.length).map Prod.snd

/-- The requests that are executed or rejected in `n` ticks, one tick after the other. -/
def departures (workers : List WorkerThread) (reqArr : List Int) : Nat → Sched → List Nat
  | 0, _ => []
  | n + 1, st => (tick workers reqArr st).elim [] fun t => leaving st t ++ departures workers reqArr n t

/-- The demand is above the resources of every worker. -/
def TooLarge (workers : List WorkerThread) (reqArr : List Int) (j : Nat) : Prop :=
  ∀ w ∈ workers, w.resourcesAvailable < reqArr.getD j 0

instance (workers : List WorkerThread) (reqArr : List Int) : DecidablePred (TooLarge workers reqArr) :=
  fun _ => inferInstanceAs (Decidable (∀ _ ∈ _, _))

/-- After `o` requests have left there were no more rounds than that, and a round that is
past its first pass has served one. -/
structure Timely (workers : List WorkerThread) (st : Sched) (o : Nat) : Prop where
  stamp : st.timeStamp ≤ o
  counted : st.rejected = st.rejections.length
  opened : st.point = .forTest → 0 < st.iterSize ∧
    (st.l = 0 → st.workerResources = workers.map (·.resourcesAvailable)) ∧ (0 < st.l → st.timeStamp < o)

section Service
variable {workers : List WorkerThread} {reqArr : List Int}

theorem le_highest {w : WorkerThread} (member : w ∈ workers) : w.resourcesAvailable ≤ highest workers := by
  have fold : ∀ (ws : List WorkerThread) (h : Int),
      h ≤ ws.foldl (fun h w => if h < w.resourcesAvailable then w.resourcesAvailable else h) h ∧
        ∀ w ∈ ws, w.resourcesAvailable ≤
          ws.foldl (fun h w => if h < w.resourcesAvailable then w.resourcesAvailable else h) h := by
    intro ws
    induction ws with
    | nil => exact fun h => ⟨le_rfl, fun w member => absurd member List.not_mem_nil⟩
    | cons v ws ih =>
        intro h
        rw [List.foldl_cons]
        obtain ⟨base, bound⟩ := ih (if h < v.resourcesAvailable then v.resourcesAvailable else h)
        have both : h ≤ (if h < v.resourcesAvailable then v.resourcesAvailable else h) ∧
            v.resourcesAvailable ≤ (if h < v.resourcesAvailable then v.resourcesAvailable else h) := by
          split_ifs <;> omega
        refine ⟨both.1.trans base, fun w member => ?_⟩
        rcases List.mem_cons.mp member with rfl | later
        · exact both.2.trans base
        · exact bound w later
  exact (fold workers 0).2 w member

/-- The test of the code rejects exactly the demands that no worker has resources for. -/
theorem normal_iff (able : ∃ w ∈ workers, 0 ≤ w.resourcesAvailable) (j : Nat) :
    Normal workers reqArr j ↔ ¬ TooLarge workers reqArr j := by
  rw [Normal, outOfValues_ne_iff]
  constructor
  · intro fits large
    obtain ⟨w, member, top⟩ := highest_attained able
    have above := large w member
    omega
  · intro some_
    unfold TooLarge at some_
    push Not at some_
    obtain ⟨w, member, covers⟩ := some_
    exact covers.trans (le_highest member)

theorem start_timely : Timely workers (start reqArr) 0 :=
  ⟨le_rfl, rfl, fun point => absurd point (by simp [start])⟩

/-- One tick: at most the front request leaves. -/
theorem tick_departs (able : ∃ w ∈ workers, 0 ≤ w.resourcesAvailable) {st t : Sched} {o : Nat}
    (served : Served workers reqArr st o) (timely : Timely workers st o) (taken : tick workers reqArr st = some t) :
    ∃ k, Served workers reqArr t (o + k) ∧ Timely workers t (o + k) ∧ leaving st t = List.range' o k := by
  cases tick_cases taken with
  | nextRound point waiting =>
      refine ⟨0, served.nextRound, ⟨timely.stamp, timely.counted, fun _ => ?_⟩, by simp [leaving, nextRound]⟩
      exact ⟨List.length_pos_of_ne_nil waiting, fun _ => rfl, fun started => absurd started (lt_irrefl 0)⟩
  | endRound point done =>
      obtain ⟨size, _, progress⟩ := timely.opened point
      refine ⟨0, served.endRound, ⟨?_, timely.counted, fun again => absurd again (by simp)⟩, by simp [leaving]⟩
      exact progress (by omega)
  | execute point inside queue found normal =>
      obtain ⟨_, rfl, rfl, _⟩ := served.front queue
      refine ⟨1, served.execute point queue found normal, ⟨?_, timely.counted, fun _ => ?_⟩, by simp [leaving, execute]⟩
      · exact timely.stamp.trans (Nat.le_succ _)
      · exact ⟨(timely.opened point).1, fun zero => absurd zero (Nat.succ_ne_zero _),
          fun _ => Nat.lt_succ_of_le timely.stamp⟩
  | reject point inside queue abnormal =>
      obtain ⟨_, rfl, rfl, _⟩ := served.front queue
      refine ⟨1, served.reject point queue (not_not.mpr abnormal), ⟨?_, ?_, fun _ => ?_⟩, by simp [leaving, reject]⟩
      · exact timely.stamp.trans (Nat.le_succ _)
      · simp [reject, timely.counted]
      · exact ⟨(timely.opened point).1, fun zero => absurd zero (Nat.succ_ne_zero _),
          fun _ => Nat.lt_succ_of_le timely.stamp⟩
  | blocked point inside queue found normal =>
      obtain ⟨bound, rfl, rfl, _⟩ := served.front queue
      obtain ⟨size, fresh, progress⟩ := timely.opened point
      refine ⟨0, served.blocked ⟨bound, normal, found⟩, ⟨timely.stamp, timely.counted, fun _ => ?_⟩, by simp [leaving]⟩
      refine ⟨size, fun zero => absurd zero (Nat.succ_ne_zero _), fun _ => progress (Nat.pos_of_ne_zero fun zero => ?_)⟩
      -- the first front of a round finds a worker
      exact findThread_fresh able normal (fresh zero ▸ found)

/-- A run of ticks: the requests leave one after the other. -/
theorem iterate_departs (able : ∃ w ∈ workers, 0 ≤ w.resourcesAvailable) {n : Nat} {st t : Sched} {o : Nat}
    (served : Served workers reqArr st o) (timely : Timely workers st o)
    (ran : iterate (tick workers reqArr) n st = some t) :
    ∃ k, Served workers reqArr t (o + k) ∧ Timely workers t (o + k) ∧
      departures workers reqArr n st = List.range' o k := by
  induction n generalizing st o with
  | zero => exact ⟨0, Option.some.inj ran ▸ served, Option.some.inj ran ▸ timely, rfl⟩
  | succ n ih =>
      obtain ⟨u, taken, later⟩ := Option.bind_eq_some_iff.mp ran
      obtain ⟨k, served', timely', first⟩ := tick_departs able served timely taken
      obtain ⟨k', served'', timely'', rest⟩ := ih served' timely' later
      rw [Nat.add_assoc] at served'' timely''
      refine ⟨k + k', served'', timely'', ?_⟩
      rw [departures, taken, Option.elim_some, first, rest, List.range'_append_1]

/-- The machine stops at the end of the `while` only. -/
theorem finished_of_stuck {st : Sched} {o : Nat} (served : Served workers reqArr st o)
    (stuck : tick workers reqArr st = none) : Finished st := by
  cases point : st.point with
  | whileTest =>
      by_contra waiting
      have nonempty : st.tempQueue ≠ [] := fun empty => waiting ⟨point, empty⟩
      simp [tick, point, nonempty] at stuck
  | forTest =>
      by_cases inside : st.l < st.iterSize
      · obtain ⟨t, taken, _⟩ := tick_inside served point inside
        exact absurd (stuck.symm.trans taken) (by simp)
      · simp [tick, point, inside] at stuck

/-- The loop ends after at most as many rounds as there are requests, and no pass before
finds the queue empty. Every request leaves once, in arrival order; rejected are those
that are too large for every worker, each counted once. -/
theorem requests_leave_in_order (able : ∃ w ∈ workers, 0 ≤ w.resourcesAvailable) :
    (∀ st, Reaches (tick workers reqArr) (start reqArr) st → tick workers reqArr st = none → Finished st) ∧
    ∃ n st, iterate (tick workers reqArr) n (start reqArr) = some st ∧ Finished st ∧
      st.timeStamp ≤ reqArr.length ∧
      departures workers reqArr n (start reqArr) = List.range reqArr.length ∧
      st.executions.map (·.request) = (List.range reqArr.length).filter (¬ TooLarge workers reqArr ·) ∧
      st.rejections.map Prod.snd = (List.range reqArr.length).filter (TooLarge workers reqArr ·) ∧
      st.rejected = ((List.range reqArr.length).filter (TooLarge workers reqArr ·)).length := by
  constructor
  · intro st reached stuck
    obtain ⟨o, served, _⟩ := reaches_phase able reached
    exact finished_of_stuck served stuck
  · have ends : ∃ st, Reaches (tick workers reqArr) (start reqArr) st ∧ Finished st := scheduling_ends able
    obtain ⟨st, reached, finished⟩ := ends
    obtain ⟨n, ran⟩ := reached.iterate
    obtain ⟨k, served, timely, departed⟩ := iterate_departs able start_served start_timely ran
    rw [Nat.zero_add] at served timely
    obtain rfl := served.queue_empty_iff.mp finished.2
    have executed := served.executed
    have rejected := served.rejected
    simp only [normal_iff able, not_not] at executed rejected
    refine ⟨n, st, ran, finished, timely.stamp, ?_, executed, rejected, ?_⟩
    · rw [departed, List.range_eq_range']
    · rw [timely.counted, ← rejected, List.length_map]

end Service

/-- A demand below zero, one that waits and one that no worker can serve. -/
theorem requests_leave_in_order_two_workers :
    ∃ n st, iterate (tick [⟨2, 5⟩, ⟨1, -4⟩] [5, 3, 9, -1]) n (start [5, 3, 9, -1]) = some st ∧ Finished st ∧
      departures [⟨2, 5⟩, ⟨1, -4⟩] [5, 3, 9, -1] n (start [5, 3, 9, -1]) = [0, 1, 2, 3] ∧ st.rejected = 1 := by
  have able : ∃ w ∈ [(⟨2, 5⟩ : WorkerThread), ⟨1, -4⟩], 0 ≤ w.resourcesAvailable :=
    ⟨⟨2, 5⟩, by decide, by decide⟩
  have leave := @requests_leave_in_order _ [5, 3, 9, -1] able
  obtain ⟨_, n, st, ran, finished, _, departed, _, _, rejected⟩ := leave
  refine ⟨n, st, ran, finished, departed, rejected.trans ?_⟩
  decide

end NetworkOs.Ecommerce
