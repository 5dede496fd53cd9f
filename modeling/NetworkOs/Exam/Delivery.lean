import NetworkOs.Exam.Rounds

/-! Progress of the exam, and what it has come to when the parent starts grading. -/
namespace NetworkOs.Exam
open Runs Mailbox Census

/-- The queue can hold this many messages. -/
def Capacity.atLeast (capacity : Capacity) (k : Nat) : Prop := ∀ limit, capacity = some limit → k ≤ limit

/-- The number of steps a parent has behind it in this place. -/
def ParentAt.steps (setup : Setup) (n : Nat) : ParentAt → Nat
  | .sending i j => i * (2 * n + 2) + j
  | .collecting i _ j => i * (2 * n + 2) + (n + 1 + j)
  | .grading => setup.numQuestions * (2 * n + 2)

def Student.steps (st : Student) : Nat :=
  match st.place with
  | .receiving => 2 * st.j
  | .answering _ => 2 * st.j + 1

/-- The number of steps behind the whole exam. -/
def progress (setup : Setup) (s : State n) : Nat := s.parent.steps setup n + ∑ k, (s.students k).steps

section Progress
variable {n : Nat} {setup : Setup} {s t : State n}

theorem Capacity.hasRoom_of_atLeast {capacity : Capacity} {queue : List MsgBuff}
    (holds : capacity.atLeast (queue.length + 1)) : capacity.hasRoom queue = true := by
  cases capacity with
  | none => rfl
  | some limit => exact decide_eq_true (holds limit rfl)

theorem Conducted.recorded_le (h : Conducted setup s) (k : Fin n) :
    asked setup k s.parent + (channel MsgBuff.msgtype (k + 1) s.recvQueue).length +
      (s.students k).place.unsent.length = (s.students k).received.length := by
  have answers := congrArg List.length (h.answers.answers k)
  simp only [List.length_append, List.length_map, h.graded.sizes, (h.sitting k).answers] at answers
  exact answers

theorem move_of_copy {k : Fin n} (place : (s.students k).place = .receiving)
    (more : (s.students k).j < setup.numQuestions)
    (copy : channel MsgBuff.msgtype ((s.students k).j + 1) s.sendQueue ≠ []) :
    (step setup s (.student k 0 [])).isSome := by
  obtain ⟨⟨msg, rest⟩, read⟩ := Option.isSome_iff_exists.mp (receive_isSome copy)
  exact Option.isSome_iff_exists.mpr ⟨_, step_take place more read 0 []⟩

theorem Conducted.waits (h : Conducted setup s) {k : Fin n} {i : Nat} (round : asked setup k s.parent = i)
    (size : (s.students k).received.length = i) :
    (s.students k).place = .receiving ∧ (s.students k).j = i := by
  have recorded := h.recorded_le k
  have held := (h.sitting k).place
  cases place : (s.students k).place with
  | receiving =>
      rw [place] at held
      exact ⟨rfl, held.symm.trans size⟩
  | answering msg =>
      rw [place] at recorded
      simp only [StudentAt.unsent, List.length_singleton] at recorded
      omega

/-- A copy in the queue is one of the current question: all students have taken theirs
of the earlier ones. -/
theorem Conducted.copy_current (h : Conducted setup s) {i j i' : Nat} (place : s.parent = .sending i j)
    (copy : channel MsgBuff.msgtype (i' + 1) s.sendQueue ≠ []) : i' = i := by
  have copies := List.length_pos_iff.mpr copy
  have count := h.questions.counts i'
  rw [place, posted] at count
  by_contra other
  by_cases earlier : i' < i
  · have all : census (fun st : Student => i' < st.received.length) s.students = Fintype.card (Fin n) := by
      refine census_of_forall fun k => ?_
      have recorded := h.recorded_le k
      rw [place, asked] at recorded
      omega
    rw [if_pos earlier, all, Fintype.card_fin] at count
    omega
  · rw [if_neg earlier, if_neg other] at count
    omega

/-- A full queue holds a copy that a student is waiting for. -/
theorem Conducted.move_queued (h : Conducted setup s) {i j : Nat} (place : s.parent = .sending i j)
    {m : MsgBuff} (queued : m ∈ s.sendQueue) : ∃ m, (Exam.step setup s m).isSome := by
  have round := h.graded.round
  rw [place] at round
  obtain ⟨i', rfl⟩ := h.questions.texts m queued
  have copy : channel MsgBuff.msgtype (i' + 1) s.sendQueue ≠ [] :=
    List.ne_nil_of_mem (mem_channel.mpr ⟨queued, rfl⟩)
  have copies := List.length_pos_iff.mpr copy
  obtain rfl := h.copy_current place copy
  have count := h.questions.counts i'
  rw [place, posted, if_neg (lt_irrefl _), if_pos rfl] at count
  obtain ⟨k, notTaken⟩ : ∃ k, ¬ i' < (s.students k).received.length :=
    exists_not_of_lt (p := fun st : Student => i' < st.received.length) (by
      have posted_ := round.2.1
      rw [Fintype.card_fin]
      omega)
  have recorded := h.recorded_le k
  rw [place, asked] at recorded
  obtain ⟨receiving, own⟩ := h.waits (k := k) (by rw [place, asked]) (by omega)
  exact ⟨_, move_of_copy receiving (own.symm ▸ round.1) (own.symm ▸ copy)⟩

/-- While the parent sends, either a copy fits or a student can take one. -/
theorem Conducted.move_sending (h : Conducted setup s) (room : setup.sendCapacity.atLeast 1) {i j : Nat}
    (place : s.parent = .sending i j) : ∃ m, (Exam.step setup s m).isSome := by
  by_cases more : j < n
  · by_cases fits : setup.sendCapacity.hasRoom s.sendQueue = true
    · exact ⟨.parent 0, Option.isSome_iff_exists.mpr ⟨_, step_post place more fits 0⟩⟩
    · obtain ⟨m, queued⟩ : ∃ m, m ∈ s.sendQueue := by
        refine List.exists_mem_of_ne_nil _ fun empty => fits ?_
        refine Capacity.hasRoom_of_atLeast ?_
        rwa [empty]
      exact h.move_queued place queued
  · exact ⟨.parent 0, Option.isSome_iff_exists.mpr ⟨_, step_draw place more 0⟩⟩

/-- In round `i` no student is further than its answer to question `i`. -/
theorem Conducted.queued_le_one (h : Conducted setup s) {i j : Nat} {c : UInt8}
    (place : s.parent = .collecting i c j) (k : Fin n) :
    (channel MsgBuff.msgtype (k + 1) s.recvQueue).length ≤ 1 := by
  have later := h.questions.counts (i + 1)
  rw [place, posted, if_neg (by omega)] at later
  have nobody := census_eq_zero_iff.mp (Nat.eq_zero_of_add_eq_zero_left later) k
  have recorded := h.recorded_le k
  rw [place, asked] at recorded
  split_ifs at recorded <;> omega

/-- While the parent waits for a student, the other students' answers leave a place. -/
theorem Conducted.queue_lt (h : Conducted setup s) {i j : Nat} {c : UInt8}
    (place : s.parent = .collecting i c j) (k : Fin n)
    (none_ : channel MsgBuff.msgtype (k + 1) s.recvQueue = []) : s.recvQueue.length < n := by
  have injective : Function.Injective fun k : Fin n => (k : Nat) + 1 :=
    fun a b same => Fin.ext (Nat.succ.inj same)
  have size := length_eq_sum injective h.answers.types
  have fewer : ∑ k' : Fin n, (channel MsgBuff.msgtype (k' + 1) s.recvQueue).length < ∑ _ : Fin n, 1 := by
    refine Finset.sum_lt_sum (fun k' _ => h.queued_le_one place k') ⟨k, Finset.mem_univ k, ?_⟩
    rw [none_]
    exact Nat.one_pos
  rw [Finset.sum_const, Finset.card_univ, Fintype.card_fin, smul_eq_mul, mul_one] at fewer
  exact size ▸ fewer

/-- A student that has not taken the question of the round finds a copy of it. -/
theorem Conducted.copy_left (h : Conducted setup s) {i j : Nat} {c : UInt8}
    (place : s.parent = .collecting i c j) {k : Fin n} (size : (s.students k).received.length = i) :
    channel MsgBuff.msgtype (i + 1) s.sendQueue ≠ [] := by
  intro empty
  have count := h.questions.counts i
  rw [place, posted, if_pos le_rfl, empty, List.length_nil, zero_add] at count
  have outside : ¬ i < (s.students k).received.length := by omega
  have fewer := census_lt_card (p := fun st : Student => i < st.received.length) outside
  rw [count, Fintype.card_fin] at fewer
  exact lt_irrefl n fewer

theorem Conducted.move_collecting (h : Conducted setup s) (room : setup.recvCapacity.atLeast n) {i j : Nat}
    {c : UInt8} (place : s.parent = .collecting i c j) : ∃ m, (Exam.step setup s m).isSome := by
  by_cases more : j < n
  · let k : Fin n := ⟨j, more⟩
    by_cases none_ : channel MsgBuff.msgtype (k + 1) s.recvQueue = []
    · have recorded := h.recorded_le k
      have round : asked setup k s.parent = i := by rw [place, asked, if_neg (lt_irrefl j)]
      have parent := h.graded.round
      rw [place] at parent
      cases held : (s.students k).place with
      | receiving =>
          rw [round, none_, held] at recorded
          obtain ⟨receiving, own⟩ := h.waits round recorded.symm
          have copy := h.copy_left place recorded.symm
          exact ⟨_, move_of_copy receiving (own.symm ▸ parent.1) (own.symm ▸ copy)⟩
      | answering msg =>
          have fits : setup.recvCapacity.hasRoom s.recvQueue = true :=
            Capacity.hasRoom_of_atLeast fun limit bounded => (h.queue_lt place k none_).trans_le (room limit bounded)
          exact ⟨.student k 0 [], Option.isSome_iff_exists.mpr ⟨_, step_reply held fits 0 []⟩⟩
    · exact ⟨.parent 0, (step_collect_isSome (k := k) place 0).mpr none_⟩
  · exact ⟨.parent 0, Option.isSome_iff_exists.mpr ⟨_, step_next place more 0⟩⟩

/-- Before the parent has all answers some process can move, if the answers of all
students fit into their queue. -/
theorem Conducted.moves (h : Conducted setup s) (sendRoom : setup.sendCapacity.atLeast 1)
    (recvRoom : setup.recvCapacity.atLeast n) (going : s.parent ≠ .grading) : ∃ m, (Exam.step setup s m).isSome := by
  cases place : s.parent with
  | sending i j => exact h.move_sending sendRoom place
  | collecting i c j => exact h.move_collecting recvRoom place
  | grading => exact absurd place going

theorem Conducted.progress (h : Conducted setup s) (taken : Taken setup s t) :
    Exam.progress setup t = Exam.progress setup s + 1 := by
  have round := h.graded.round
  have moved : ∀ (k : Fin n) (st : Student), st.steps = (s.students k).steps + 1 →
      ∑ k', (Function.update s.students k st k').steps = ∑ k', (s.students k').steps + 1 := by
    intro k st more
    have weighed := sum_update Student.steps s.students k st
    omega
  cases taken with
  | @post i j place more =>
      simp only [Exam.progress, sendQuestion, place, ParentAt.steps]
      omega
  | @draw i j c place all =>
      rw [place] at round
      have whole : j = n := le_antisymm round.2.1 all
      simp only [Exam.progress, drawAnswer, place, ParentAt.steps]
      omega
  | @collect i c k msg rest place read =>
      simp only [Exam.progress, recordAnswer, place, ParentAt.steps]
      omega
  | @next i j c place all =>
      rw [place] at round
      have whole : j = n := le_antisymm round.2.1 all
      have steps : (atQuestion setup (i + 1)).steps setup n = (i + 1) * (2 * n + 2) := by
        rcases atQuestion_cases round.1 with ⟨at_, _⟩ | ⟨at_, last⟩
        · rw [at_, ParentAt.steps, Nat.add_zero]
        · rw [at_, ParentAt.steps, ← last]
      have expand : (i + 1) * (2 * n + 2) = i * (2 * n + 2) + (2 * n + 2) := Nat.succ_mul _ _
      simp only [Exam.progress, place]
      rw [steps, ParentAt.steps]
      omega
  | @take k msg rest answer beyond place more read =>
      have later := moved k { s.students k with
        place := .answering ⟨k + 1, answer :: beyond⟩
        received := (s.students k).received ++ [((s.students k).j + 1, msg.msgtext)]
        answers := (s.students k).answers ++ [answer] } (by simp only [Student.steps, place])
      change s.parent.steps setup n + _ = s.parent.steps setup n + _ + 1
      rw [Nat.add_assoc, ← later]
      rfl
  | @reply k msg place =>
      have later := moved k { s.students k with place := .receiving, j := (s.students k).j + 1 }
        (by simp only [Student.steps, place]; omega)
      change s.parent.steps setup n + _ = s.parent.steps setup n + _ + 1
      rw [Nat.add_assoc, ← later]
      rfl

/-- What the exam has come to when the parent starts grading. -/
structure Finished (setup : Setup) (s : State n) : Prop where
  students : ∀ k, (s.students k).place = .receiving ∧ (s.students k).j = setup.numQuestions
  received : ∀ k, (s.students k).received = (List.range setup.numQuestions).map fun i => (i + 1, question i)
  recorded : ∀ k, s.recorded k = (s.students k).answers
  sizes : s.correct.length = setup.numQuestions ∧ ∀ k, (s.recorded k).length = setup.numQuestions
  grades : ∀ k, s.grades k = agreements (s.students k).answers s.correct
  queues : s.sendQueue = [] ∧ s.recvQueue = []

theorem Conducted.finished (h : Conducted setup s) (done : s.parent = .grading) : Finished setup s := by
  have whole : ∀ k, (s.students k).received.length = setup.numQuestions ∧
      channel MsgBuff.msgtype (k + 1) s.recvQueue = [] ∧ (s.students k).place.unsent = [] := by
    intro k
    have recorded := h.recorded_le k
    have most := (h.sitting k).length_le
    rw [done, asked] at recorded
    exact ⟨by omega, List.eq_nil_of_length_eq_zero (by omega), List.eq_nil_of_length_eq_zero (by omega)⟩
  have recorded : ∀ k, s.recorded k = (s.students k).answers := by
    intro k
    have answers := h.answers.answers k
    rwa [(whole k).2.1, (whole k).2.2, List.map_nil, List.append_nil, List.append_nil] at answers
  have round := h.graded.round
  rw [done] at round
  refine ⟨?_, ?_, recorded, ⟨round, ?_⟩, ?_, ?_, ?_⟩
  · exact fun k => h.waits (by rw [done, asked]) (whole k).1
  · intro k
    have lines := (h.sitting k).lines
    rwa [(whole k).1] at lines
  · intro k
    rw [h.graded.sizes, done, asked]
  · intro k
    rw [← recorded]
    exact h.graded.grades k
  · refine List.eq_nil_iff_forall_not_mem.mpr fun m queued => ?_
    obtain ⟨i, rfl⟩ := h.questions.texts m queued
    have copies : 0 < (channel MsgBuff.msgtype (i + 1) s.sendQueue).length :=
      List.length_pos_of_mem (mem_channel.mpr ⟨queued, rfl⟩)
    have count := h.questions.counts i
    rw [done, posted] at count
    split_ifs at count with asked_
    · have all : census (fun st : Student => i < st.received.length) s.students = Fintype.card (Fin n) :=
        census_of_forall fun k => (whole k).1.symm ▸ asked_
      rw [all, Fintype.card_fin] at count
      omega
    · omega
  · refine List.eq_nil_iff_forall_not_mem.mpr fun m queued => ?_
    obtain ⟨k, type⟩ := h.answers.types m queued
    have member := mem_channel.mpr ⟨queued, type⟩
    rw [(whole k).2.1] at member
    exact List.not_mem_nil member

theorem Sitting.received_initial {k : Nat} {st : Student} (h : Sitting setup k st) :
    st.received <+: (List.range setup.numQuestions).map fun i => (i + 1, question i) := by
  rw [h.lines]
  refine List.IsPrefix.map _ ?_
  obtain ⟨more, eq⟩ := Nat.exists_eq_add_of_le h.length_le
  rw [eq, List.range_add]
  exact List.prefix_append _ _

theorem Conducted.progress_le (h : Conducted setup s) :
    Exam.progress setup s ≤ setup.numQuestions * (4 * n + 2) := by
  have students : ∑ k, (s.students k).steps ≤ ∑ _ : Fin n, 2 * setup.numQuestions := by
    refine Finset.sum_le_sum fun k _ => ?_
    have held := (h.sitting k).place
    have bound := (h.sitting k).bound
    unfold Student.steps
    cases place : (s.students k).place with
    | receiving => exact Nat.mul_le_mul_left 2 bound
    | answering msg =>
        rw [place] at held
        obtain ⟨_, more, _⟩ := held
        simp only
        omega
  have parent : s.parent.steps setup n ≤ setup.numQuestions * (2 * n + 2) := by
    have round := h.graded.round
    cases place : s.parent with
    | grading => exact le_rfl
    | sending i j =>
        rw [place] at round
        have rounds := Nat.mul_le_mul_right (2 * n + 2) round.1
        rw [Nat.succ_mul] at rounds
        have within := round.2.1
        rw [ParentAt.steps]
        omega
    | collecting i c j =>
        rw [place] at round
        have rounds := Nat.mul_le_mul_right (2 * n + 2) round.1
        rw [Nat.succ_mul] at rounds
        have within := round.2.1
        rw [ParentAt.steps]
        omega
  rw [Finset.sum_const, Finset.card_univ, Fintype.card_fin, smul_eq_mul] at students
  calc Exam.progress setup s
      ≤ setup.numQuestions * (2 * n + 2) + n * (2 * setup.numQuestions) := Nat.add_le_add parent students
    _ = setup.numQuestions * (4 * n + 2) := by ring

end Progress

/-- With unbounded queues and whatever the order of the processes: students receive the
questions in order and the parent records their answers in order; every run ends after
boundedly many steps, and it ends with the parent grading, all questions answered,
recorded and graded, and no message left. -/
theorem every_answer_graded {n : Nat} {setup : Setup} (sends : setup.sendCapacity = none)
    (recvs : setup.recvCapacity = none) {moves : List (Move n)} {s : State n}
    (ran : run (step setup) (start setup n) moves = some s) :
    (∀ k, (s.students k).received <+: (List.range setup.numQuestions).map fun i => (i + 1, question i)) ∧
      (∀ k, s.recorded k <+: (s.students k).answers) ∧
      (s.parent = .grading → Finished setup s) ∧
      (Stuck (step setup) s → s.parent = .grading) ∧
      moves.length ≤ setup.numQuestions * (4 * n + 2) := by
  have h := run_conducted ran
  refine ⟨fun k => (h.sitting k).received_initial, ?_, h.finished, ?_, ?_⟩
  · intro k
    rw [← h.answers.answers k, List.append_assoc]
    exact List.prefix_append _ _
  · intro stuck
    by_contra going
    have unbounded : ∀ k, Capacity.atLeast none k := fun k limit bounded => nomatch bounded
    obtain ⟨m, moves_⟩ := h.moves (sends ▸ unbounded 1) (recvs ▸ unbounded n) going
    rw [stuck m] at moves_
    exact Bool.false_ne_true moves_
  · have counted : progress setup s = progress setup (start setup n) + moves.length := by
      refine run_length (P := Conducted setup) ?_ (start_conducted setup n) ran
      exact fun s m t h taken => ⟨h.step taken, h.progress (taken_of_step taken)⟩
    have bound := h.progress_le
    omega

/-- One question for two students, of which the second one answers first. -/
theorem every_answer_graded_two :
    ∃ s : State 2, run (step ⟨1, none, none⟩) (start ⟨1, none, none⟩ 2)
        [.parent 0, .parent 0, .student 1 0 [], .student 1 0 [], .parent 4, .student 0 3 [], .student 0 0 [],
          .parent 0, .parent 0, .parent 0] = some s ∧ Finished ⟨1, none, none⟩ s ∧ s.grades 1 = 1 := by
  let moves : List (Move 2) := [.parent 0, .parent 0, .student 1 0 [], .student 1 0 [], .parent 4,
    .student 0 3 [], .student 0 0 [], .parent 0, .parent 0, .parent 0]
  obtain ⟨s, ran⟩ : ∃ s, run (step ⟨1, none, none⟩) (start ⟨1, none, none⟩ 2) moves = some s :=
    Option.isSome_iff_exists.mp (by decide)
  have final : (run (step ⟨1, none, none⟩) (start ⟨1, none, none⟩ 2) moves).map
      (fun s => (s.parent, s.grades 1)) = some (.grading, 1) := by decide
  rw [ran, Option.map_some, Option.some.injEq, Prod.mk.injEq] at final
  exact ⟨s, ran, (every_answer_graded rfl rfl ran).2.2.1 final.1, final.2⟩

end NetworkOs.Exam
