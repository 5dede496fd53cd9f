import NetworkOs.Exam.Delivery

/-! Bounded queues. The parent asks for the answers in the order of the students, who
send them in any order: the answers of the others can fill the queue before the one
that the parent waits for. -/
namespace NetworkOs.Exam
open Runs Mailbox Census

/-- The first `k` students have taken their copies of the first question. -/
structure Distributed (k : Nat) (s : State n) : Prop where
  parent : s.parent = .sending 0 k
  queues : s.sendQueue = [] ∧ s.recvQueue = []
  taken : ∀ k' : Fin n, (k' : Nat) < k → ∃ msg, (s.students k').place = .answering msg ∧ msg.msgtype = k' + 1
  rounds : ∀ k', (s.students k').j = 0
  waiting : ∀ k' : Fin n, k ≤ k' → (s.students k').place = .receiving

/-- The parent waits for the first student, and the `m` students after it have answered. -/
structure Answered (m : Nat) (s : State n) : Prop where
  parent : ∃ c, s.parent = .collecting 0 c 0
  sendQueue : s.sendQueue = []
  recvQueue : s.recvQueue.length = m ∧ ∀ msg ∈ s.recvQueue, msg.msgtype ≠ 1
  replied : ∀ k : Fin n, 1 ≤ (k : Nat) → (k : Nat) ≤ m → (s.students k).place = .receiving ∧ (s.students k).j = 1
  holding : ∀ k : Fin n, (k : Nat) = 0 ∨ m < k →
    (s.students k).j = 0 ∧ ∃ msg, (s.students k).place = .answering msg ∧ msg.msgtype = k + 1

section Blocked
variable {n : Nat} {setup : Setup} {s : State n}

theorem Distributed.step (some_ : 0 < setup.numQuestions) (room : setup.sendCapacity.atLeast 1) {k : Nat}
    (h : Distributed k s) (more : k < n) :
    ∃ t, Reached (Exam.step setup) s t ∧ Distributed (k + 1) t := by
  have fits : setup.sendCapacity.hasRoom s.sendQueue = true :=
    Capacity.hasRoom_of_atLeast (h.queues.1.symm ▸ room)
  have send := step_post h.parent more fits 0
  let own : Fin n := ⟨k, more⟩
  have queue : (sendQuestion 0 k s).sendQueue = [⟨1, question 0⟩] := by simp [sendQuestion, h.queues.1]
  have read : receive MsgBuff.msgtype (((sendQuestion 0 k s).students own).j + 1) (sendQuestion 0 k s).sendQueue =
      some (⟨1, question 0⟩, []) := by
    have round : ((sendQuestion 0 k s).students own).j = 0 := h.rounds own
    rw [queue, round]
    rfl
  have place : ((sendQuestion 0 k s).students own).place = .receiving := h.waiting own le_rfl
  have take := step_take place (lt_of_eq_of_lt (h.rounds own) some_ : _ < setup.numQuestions) read 0 []
  refine ⟨_, ((Reached.refl s).snoc send).snoc take, rfl, ⟨rfl, h.queues.2⟩, ?_, ?_, ?_⟩
  · intro k' earlier
    by_cases same : k' = own
    · subst same
      exact ⟨⟨k + 1, [generateAnswer 0]⟩, by simp [receiveQuestion, own], rfl⟩
    · have apart : (k' : Nat) ≠ k := fun eq => same (Fin.ext eq)
      simpa [receiveQuestion, same, sendQuestion] using h.taken k' (by omega)
  · intro k'
    by_cases same : k' = own
    · subst same
      simpa [receiveQuestion, sendQuestion] using h.rounds own
    · simpa [receiveQuestion, same, sendQuestion] using h.rounds k'
  · intro k' later
    have apart : k' ≠ own := fun eq => by
      rw [eq] at later
      exact absurd later (Nat.not_succ_le_self k)
    simpa [receiveQuestion, apart, sendQuestion] using h.waiting k' (by omega)

theorem Distributed.all (some_ : 0 < setup.numQuestions) (room : setup.sendCapacity.atLeast 1) (k : Nat)
    (le : k ≤ n) : ∃ t, Reached (Exam.step setup) (start setup n) t ∧ Distributed k t := by
  induction k with
  | zero =>
      refine ⟨_, .refl _, ?_, ⟨rfl, rfl⟩, ?_, fun _ => rfl, fun _ _ => rfl⟩
      · exact if_pos some_
      · exact fun k' earlier => absurd earlier (Nat.not_lt_zero _)
  | succ k ih =>
      obtain ⟨t, reached, distributed⟩ := ih (by omega)
      obtain ⟨u, reached', distributed'⟩ := distributed.step some_ room (by omega)
      exact ⟨u, reached.trans reached', distributed'⟩

theorem Answered.step {m : Nat} (h : Answered m s) {limit : Nat} (bounded : setup.recvCapacity = some limit)
    (room : m < limit) (more : m + 1 < n) :
    ∃ t, Reached (Exam.step setup) s t ∧ Answered (m + 1) t := by
  let own : Fin n := ⟨m + 1, more⟩
  obtain ⟨round, msg, place, type⟩ := h.holding own (.inr (Nat.lt_succ_self m))
  have fits : setup.recvCapacity.hasRoom s.recvQueue = true := by
    rw [bounded]
    exact decide_eq_true (h.recvQueue.1.symm ▸ room)
  refine ⟨_, (Reached.refl s).snoc (step_reply place fits 0 []), h.parent, h.sendQueue, ⟨?_, ?_⟩, ?_, ?_⟩
  · simp [sendAnswer, h.recvQueue.1]
  · intro msg' member
    rcases List.mem_append.mp member with old | new
    · exact h.recvQueue.2 msg' old
    · rw [List.mem_singleton.mp new, type]
      exact Nat.succ_ne_zero m ∘ Nat.succ.inj
  · intro k low high
    by_cases same : k = own
    · subst same
      simp [sendAnswer, round]
    · have apart : (k : Nat) ≠ m + 1 := fun eq => same (Fin.ext eq)
      simpa [sendAnswer, same] using h.replied k low (by omega)
  · intro k other
    have apart : k ≠ own := by
      rintro rfl
      rcases other with zero | later
      · exact Nat.succ_ne_zero m zero
      · exact lt_irrefl _ later
    simpa [sendAnswer, apart] using h.holding k (other.imp_right fun later => by omega)

theorem Answered.all {limit : Nat} (bounded : setup.recvCapacity = some limit) (h : Answered 0 s) (m : Nat)
    (room : m ≤ limit) (less : m < n) : ∃ t, Reached (Exam.step setup) s t ∧ Answered m t := by
  induction m with
  | zero => exact ⟨s, .refl s, h⟩
  | succ m ih =>
      obtain ⟨t, reached, answered⟩ := ih (by omega) (by omega)
      obtain ⟨u, reached', answered'⟩ := answered.step bounded room less
      exact ⟨u, reached.trans reached', answered'⟩

theorem Distributed.draw (h : Distributed n s) :
    ∃ t, Reached (Exam.step setup) s t ∧ Answered 0 t := by
  refine ⟨_, (Reached.refl s).snoc (step_draw h.parent (lt_irrefl n) 0), ⟨_, rfl⟩, h.queues.1, ⟨?_, ?_⟩, ?_, ?_⟩
  · exact congrArg List.length h.queues.2
  · intro msg member
    rw [show (drawAnswer 0 (generateAnswer 0) s).recvQueue = [] from h.queues.2] at member
    exact absurd member List.not_mem_nil
  · exact fun k low high => absurd (low.trans high) (Nat.not_succ_le_zero 0)
  · exact fun k _ => ⟨h.rounds k, h.taken k k.isLt⟩

/-- With the queue full of other answers, nobody can move: the parent waits for the first
student, which waits for a place in the queue. -/
theorem Answered.stuck {limit : Nat} (bounded : setup.recvCapacity = some limit) (less : limit < n)
    (h : Answered limit s) : Stuck (Exam.step setup) s := by
  have full : setup.recvCapacity.hasRoom s.recvQueue = false := by
    rw [bounded]
    exact decide_eq_false (h.recvQueue.1.symm ▸ lt_irrefl limit)
  intro m
  cases m with
  | parent randomNumber =>
      obtain ⟨c, place⟩ := h.parent
      let first : Fin n := ⟨0, by omega⟩
      have empty : channel MsgBuff.msgtype (first + 1) s.recvQueue = [] := by
        refine List.eq_nil_iff_forall_not_mem.mpr fun msg member => ?_
        obtain ⟨queued, type⟩ := mem_channel.mp member
        exact h.recvQueue.2 msg queued type
      refine Option.not_isSome_iff_eq_none.mp fun moves => ?_
      exact (step_collect_isSome (k := first) place randomNumber).mp moves empty
  | student k randomNumber beyond =>
      by_cases replied : 1 ≤ (k : Nat) ∧ (k : Nat) ≤ limit
      · have place := (h.replied k replied.1 replied.2).1
        simp [Exam.step, studentStep, place, h.sendQueue, receive]
      · obtain ⟨_, msg, place, _⟩ := h.holding k (by omega)
        simp [Exam.step, studentStep, place, full]

end Blocked

/-- The exam runs to its end under every order of the processes exactly when there are no
questions or the queue of answers can hold one answer of each student. -/
theorem never_stuck_iff {n numQuestions sendLimit recvLimit : Nat} (sendRoom : 1 ≤ sendLimit) :
    (∀ (moves : List (Move n)) (s : State n),
        run (step ⟨numQuestions, some sendLimit, some recvLimit⟩)
          (start ⟨numQuestions, some sendLimit, some recvLimit⟩ n) moves = some s →
        s.parent ≠ .grading → ¬ Stuck (step ⟨numQuestions, some sendLimit, some recvLimit⟩) s) ↔
      numQuestions = 0 ∨ n ≤ recvLimit := by
  have atLeast : ∀ {limit k : Nat}, k ≤ limit → Capacity.atLeast (some limit) k :=
    fun le limit' eq => Option.some.inj eq ▸ le
  constructor
  · intro free
    by_contra neither
    push Not at neither
    let setup : Setup := ⟨numQuestions, some sendLimit, some recvLimit⟩
    have bounded : setup.recvCapacity = some recvLimit := rfl
    obtain ⟨t, reached, distributed⟩ : ∃ t, Reached (step setup) (start setup n) t ∧ Distributed n t :=
      Distributed.all (Nat.pos_of_ne_zero neither.1) (atLeast sendRoom) n le_rfl
    obtain ⟨u, reached', answered⟩ : ∃ u, Reached (step setup) t u ∧ Answered 0 u := distributed.draw
    obtain ⟨v, reached'', full⟩ := answered.all bounded recvLimit le_rfl neither.2
    obtain ⟨moves, ran⟩ := (reached.trans reached').trans reached''
    obtain ⟨c, place⟩ := full.parent
    exact free moves v ran (place ▸ nofun) (full.stuck bounded neither.2)
  · intro enough moves s ran going stuck
    have h := run_conducted ran
    rcases enough with noQuestion | fits
    · have round := h.graded.round
      cases place : s.parent with
      | sending i j =>
          rw [place] at round
          exact absurd (noQuestion ▸ round.1) (Nat.not_lt_zero i)
      | collecting i c j =>
          rw [place] at round
          exact absurd (noQuestion ▸ round.1) (Nat.not_lt_zero i)
      | grading => exact going place
    · obtain ⟨m, moves_⟩ := h.moves (atLeast sendRoom) (atLeast fits) going
      rw [stuck m] at moves_
      exact Bool.false_ne_true moves_

theorem never_stuck_iff_two :
    ∃ s : State 2, run (step ⟨1, some 1, some 2⟩) (start ⟨1, some 1, some 2⟩ 2)
        [.parent 0, .student 0 0 [], .parent 0, .student 1 0 [], .student 1 0 []] = some s ∧
      ¬ Stuck (step ⟨1, some 1, some 2⟩) s := by
  let moves : List (Move 2) := [.parent 0, .student 0 0 [], .parent 0, .student 1 0 [], .student 1 0 []]
  obtain ⟨s, ran⟩ : ∃ s, run (step ⟨1, some 1, some 2⟩) (start ⟨1, some 1, some 2⟩ 2) moves = some s :=
    Option.isSome_iff_exists.mp (by decide)
  have place : (run (step ⟨1, some 1, some 2⟩) (start ⟨1, some 1, some 2⟩ 2) moves).map State.parent =
      some (.sending 0 2) := by decide
  rw [ran, Option.map_some, Option.some.injEq] at place
  exact ⟨s, ran, (never_stuck_iff (by decide)).mpr (.inr (by decide)) moves s ran (place ▸ nofun)⟩

/-- Two students and room for one answer: the second student answers first. -/
theorem first_answer_shut_out :
    ¬ ∀ (n numQuestions sendLimit recvLimit : Nat), 1 ≤ sendLimit → 1 ≤ recvLimit →
      ∀ (moves : List (Move n)) (s : State n),
        run (step ⟨numQuestions, some sendLimit, some recvLimit⟩)
          (start ⟨numQuestions, some sendLimit, some recvLimit⟩ n) moves = some s →
        s.parent ≠ .grading → ¬ Stuck (step ⟨numQuestions, some sendLimit, some recvLimit⟩) s := by
  intro claim
  let setup : Setup := ⟨1, some 1, some 1⟩
  let moves : List (Move 2) :=
    [.parent 0, .student 0 0 [], .parent 0, .student 1 0 [], .parent 0, .student 1 0 []]
  obtain ⟨s, ran⟩ : ∃ s, run (step setup) (start setup 2) moves = some s :=
    Option.isSome_iff_exists.mp (by decide)
  have waiting : (run (step setup) (start setup 2) moves).map (fun s => (s.parent, s.sendQueue, s.recvQueue,
      (s.students 0).place, (s.students 1).place)) =
      some (.collecting 0 65 0, [], [⟨2, [65]⟩], .answering ⟨1, [65]⟩, .receiving) := by decide
  rw [ran, Option.map_some, Option.some.injEq] at waiting
  simp only [Prod.mk.injEq] at waiting
  obtain ⟨parent, sent, queued, first, second⟩ := waiting
  refine claim 2 1 1 1 le_rfl le_rfl moves s ran (parent ▸ nofun) fun m => ?_
  cases m with
  | parent randomNumber => simp [step, parentStep, parent, queued, receive]
  | student k randomNumber beyond =>
      fin_cases k
      · simp [step, studentStep, first, queued, Capacity.hasRoom]
      · simp [step, studentStep, second, sent, receive]

end NetworkOs.Exam
