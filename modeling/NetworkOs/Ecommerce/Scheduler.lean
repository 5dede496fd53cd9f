import Mathlib
import NetworkOs.Library.Machine
import NetworkOs.Library.Runs

/-! The scheduling loop of one service of the e-commerce application. The
`while` over the queue and the `for` over one round are one machine whose
program point tells which of the two tests comes next. -/
namespace NetworkOs.Ecommerce
open Machine

structure WorkerThread where
  priority : Int
  resourcesAvailable : Int
deriving Repr, DecidableEq

/-- The first worker whose remaining resources cover the request, `none` for -1. -/
def findThread : List Int → Int → Option Nat
  | [], _ => none
  | r :: rest, currRes => if currRes ≤ r then some 0 else (findThread rest currRes).map (· + 1)

/-- `queue_erase` drops the first entry that asks for the amount `a`. -/
def queueErase : List (Nat × Int) → Int → List (Nat × Int)
  | [], _ => []
  | e :: rest, a => if e.2 = a then rest else e :: queueErase rest a

/-- The largest `resources_available`, with 0 as the starting value. -/
def highest (workers : List WorkerThread) : Int :=
  workers.foldl (fun h w => if h < w.resourcesAvailable then w.resourcesAvailable else h) 0

def outOfValues (workers : List WorkerThread) (value : Int) : Int :=
  if highest workers ≥ value then 1 else -1

/-- What the loop prints about an executed request, with the round it ran in
and the request's own index, which the queue entry carries. -/
structure Execution where
  round : Nat
  place : Nat
  request : Nat
  demand : Int
deriving Repr, DecidableEq

/-- Program points of the scheduling loop. -/
inductive Point where
  | whileTest
  | forTest
deriving Repr, DecidableEq

structure Sched where
  point : Point
  timeStamp : Nat
  count : Nat
  l : Nat
  iterSize : Nat
  workerResources : List Int
  tempQueue : List (Nat × Int)
  wtTime : List Int
  rejected : Nat
  executions : List Execution
  rejections : List (Nat × Nat)
deriving Repr, DecidableEq

/-- The queue pairs each demand with its index in the service's request list. -/
def enqueue (reqArr : List Int) : List (Nat × Int) :=
  reqArr.mapIdx fun j d => (j, d)

/-- The state before the `while`, after `make_default` has filled `wt_time`. -/
def start (reqArr : List Int) : Sched where
  point := .whileTest
  timeStamp := 0
  count := 1
  l := 0
  iterSize := 0
  workerResources := []
  tempQueue := enqueue reqArr
  wtTime := reqArr.map fun _ => 0
  rejected := 0
  executions := []
  rejections := []

/-- The branch that executes the front request on worker `place`. The amount
taken from the worker is read at position `l` of the request list. -/
def execute (reqArr : List Int) (st : Sched) (j : Nat) (currRes : Int) (place : Nat) : Sched :=
  { st with
    wtTime := st.wtTime.set st.l st.timeStamp
    tempQueue := queueErase st.tempQueue currRes
    workerResources := st.workerResources.modify place fun r => int32 (r - reqArr.getD st.l 0)
    count := st.count + 1
    executions := st.executions ++ [⟨st.timeStamp, place, j, currRes⟩]
    l := st.l + 1 }

/-- The branch for a demand above every worker's resources. -/
def reject (st : Sched) (j : Nat) (currRes : Int) : Sched :=
  { st with
    wtTime := st.wtTime.set st.l (-1)
    tempQueue := queueErase st.tempQueue currRes
    count := st.count + 1
    rejected := st.rejected + 1
    rejections := st.rejections ++ [(st.timeStamp, j)]
    l := st.l + 1 }

/-- One pass through the body of the `for`; `none` reads the front of an empty queue. -/
def iteration (workers : List WorkerThread) (reqArr : List Int) (st : Sched) : Option Sched :=
  match st.tempQueue with
  | [] => none
  | (j, currRes) :: _ =>
      let abnormal := outOfValues workers currRes
      match findThread st.workerResources currRes with
      | some place =>
          if abnormal ≠ -1 then some (execute reqArr st j currRes place)
          else some (reject st j currRes)
      | none =>
          if abnormal = -1 then some (reject st j currRes)
          else some { st with l := st.l + 1 }

/-- The body of the `while` up to its `for`: every worker is fresh again. -/
def nextRound (workers : List WorkerThread) (st : Sched) : Sched :=
  { st with
    point := .forTest
    iterSize := st.tempQueue.length
    workerResources := workers.map (·.resourcesAvailable)
    l := 0 }

def tick (workers : List WorkerThread) (reqArr : List Int) (st : Sched) : Option Sched :=
  match st.point with
  | .whileTest => if st.tempQueue = [] then none else some (nextRound workers st)
  | .forTest =>
      if st.l < st.iterSize then iteration workers reqArr st
      else some { st with point := .whileTest, timeStamp := st.timeStamp + 1 }

/-- What one tick can do. -/
inductive Tick (workers : List WorkerThread) (reqArr : List Int) (st : Sched) : Sched → Prop
  | nextRound : st.point = .whileTest → st.tempQueue ≠ [] →
      Tick workers reqArr st (nextRound workers st)
  | endRound : st.point = .forTest → st.iterSize ≤ st.l →
      Tick workers reqArr st { st with point := .whileTest, timeStamp := st.timeStamp + 1 }
  | execute {j currRes rest place} : st.point = .forTest → st.l < st.iterSize →
      st.tempQueue = (j, currRes) :: rest → findThread st.workerResources currRes = some place →
      outOfValues workers currRes ≠ -1 →
      Tick workers reqArr st (execute reqArr st j currRes place)
  | reject {j currRes rest} : st.point = .forTest → st.l < st.iterSize →
      st.tempQueue = (j, currRes) :: rest → outOfValues workers currRes = -1 →
      Tick workers reqArr st (reject st j currRes)
  | blocked {j currRes rest} : st.point = .forTest → st.l < st.iterSize →
      st.tempQueue = (j, currRes) :: rest → findThread st.workerResources currRes = none →
      outOfValues workers currRes ≠ -1 →
      Tick workers reqArr st { st with l := st.l + 1 }

theorem tick_cases {workers : List WorkerThread} {reqArr : List Int} {st t : Sched}
    (h : tick workers reqArr st = some t) : Tick workers reqArr st t := by
  unfold tick at h
  cases point : st.point with
  | whileTest =>
      simp only [point] at h
      split_ifs at h with empty
      exact Option.some.inj h ▸ .nextRound point empty
  | forTest =>
      simp only [point] at h
      split_ifs at h with inside
      · unfold iteration at h
        cases queue : st.tempQueue with
        | nil => simp [queue] at h
        | cons e rest =>
            obtain ⟨j, currRes⟩ := e
            simp only [queue] at h
            cases found : findThread st.workerResources currRes with
            | some place =>
                simp only [found] at h
                split_ifs at h with normal
                · exact Option.some.inj h ▸ .execute point inside queue found normal
                · exact Option.some.inj h ▸ .reject point inside queue (not_not.mp normal)
            | none =>
                simp only [found] at h
                split_ifs at h with abnormal
                · exact Option.some.inj h ▸ .reject point inside queue abnormal
                · rw [← queue] at h
                  exact Option.some.inj h ▸ .blocked point inside queue found abnormal
      · exact Option.some.inj h ▸ .endRound point (Nat.le_of_not_lt inside)

theorem tick_front {workers : List WorkerThread} {reqArr : List Int} {st : Sched} {j : Nat}
    {currRes : Int} {rest : List (Nat × Int)} (point : st.point = .forTest)
    (inside : st.l < st.iterSize) (queue : st.tempQueue = (j, currRes) :: rest) :
    tick workers reqArr st = some (
      if outOfValues workers currRes = -1 then reject st j currRes
      else match findThread st.workerResources currRes with
        | some place => execute reqArr st j currRes place
        | none => { st with l := st.l + 1 }) := by
  have body : tick workers reqArr st = iteration workers reqArr st := by
    simp only [tick, point, inside, if_true]
  rw [body]
  unfold iteration
  split
  · next empty => rw [empty] at queue; cases queue
  · next j' currRes' rest' front =>
      obtain ⟨⟨rfl, rfl⟩, rfl⟩ : (j' = j ∧ currRes' = currRes) ∧ rest' = rest := by
        simpa using front.symm.trans queue
      cases findThread st.workerResources currRes' <;>
        by_cases abnormal : outOfValues workers currRes' = -1 <;> simp [abnormal]

@[simp] theorem queueErase_front (j : Nat) (a : Int) (rest : List (Nat × Int)) :
    queueErase ((j, a) :: rest) a = rest := by
  simp [queueErase]

theorem findThread_some {resources : List Int} {currRes : Int} {place : Nat}
    (h : findThread resources currRes = some place) :
    place < resources.length ∧ currRes ≤ resources.getD place 0 := by
  induction resources generalizing place with
  | nil => cases h
  | cons r rest ih =>
      simp only [findThread] at h
      split_ifs at h with fits
      · obtain rfl := Option.some.inj h
        exact ⟨Nat.zero_lt_succ _, fits⟩
      · obtain ⟨k, found, rfl⟩ := Option.map_eq_some_iff.mp h
        obtain ⟨bound, covers⟩ := ih found
        exact ⟨Nat.succ_lt_succ bound, by simpa using covers⟩

theorem findThread_none_iff (resources : List Int) (currRes : Int) :
    findThread resources currRes = none ↔ ∀ r ∈ resources, r < currRes := by
  induction resources with
  | nil => simp [findThread]
  | cons r rest ih =>
      by_cases fits : currRes ≤ r
      · simp [findThread, fits]
      · simp [findThread, fits, ih, lt_of_not_ge fits]

/-- The loop has ended: the `while` test has found the queue empty. -/
def Finished (st : Sched) : Prop := st.point = .whileTest ∧ st.tempQueue = []

/-- The demands executed on worker `place` in round `r`, added up. -/
def load (st : Sched) (r place : Nat) : Int :=
  ((st.executions.filter fun e => e.round = r ∧ e.place = place).map (·.demand)).sum

end NetworkOs.Ecommerce
