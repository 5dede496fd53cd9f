import NetworkOs.Exam.Transcript

/-! The schedules behind the transcripts. The parent sends all copies of a question first, and
a student sends its answer just before it is read, so that every mixture of lines has a run. -/
namespace NetworkOs.Exam
open Runs Mailbox Mixing

section Backward
variable {n : Nat} {setup : Setup} {s : State n} {i j : Nat} {paper : Paper n} {base : Fin n → Nat}
  {left : Finset (Fin n)} {rest text : List (Line n)}

/-- In round `i` of a schedule where a student sends its answer just before it is read: the
students in `left` have not received the question, and the answers of the first `j` are read. -/
structure Sits (i : Nat) (paper : Paper n) (base : Fin n → Nat) (left : Finset (Fin n)) (j : Nat) (s : State n) :
    Prop where
  sendQueue : s.sendQueue = List.replicate left.card ⟨i + 1, question i⟩
  recvQueue : s.recvQueue = []
  waiting : ∀ k ∈ left, j ≤ k ∧ (s.students k).place = .receiving ∧ (s.students k).j = i
  thinking : ∀ k ∉ left, j ≤ k →
    (s.students k).place = .answering ⟨k + 1, [paper.answers k]⟩ ∧ (s.students k).j = i
  answered : ∀ k : Fin n, (k : Nat) < j → (s.students k).place = .receiving ∧ (s.students k).j = i + 1
  grades : ∀ k, s.grades k = base k + if (k : Nat) < j ∧ paper.agrees k then 1 else 0

/-- Between two rounds. -/
structure Rested (i : Nat) (base : Fin n → Nat) (s : State n) : Prop where
  sendQueue : s.sendQueue = []
  recvQueue : s.recvQueue = []
  students : ∀ k, (s.students k).place = .receiving ∧ (s.students k).j = i
  grades : ∀ k, s.grades k = base k

theorem Sits.take (h : Sits i paper base left j s) (drawn : paper.Drawn) (more : i < setup.numQuestions) {k : Fin n}
    (waits : k ∈ left) : ∃ t, Writes (step setup) lines s [studentLine i k] t ∧ t.parent = s.parent ∧
      Sits i paper base (left.erase k) j t := by
  obtain ⟨randomNumber, answer⟩ := drawn.2 k
  obtain ⟨later, place, own⟩ := h.waiting k waits
  obtain ⟨size, card⟩ : ∃ size, left.card = size + 1 := Nat.exists_eq_succ_of_ne_zero (Finset.card_ne_zero_of_mem waits)
  have read : receive MsgBuff.msgtype ((s.students k).j + 1) s.sendQueue =
      some (⟨i + 1, question i⟩, List.replicate size ⟨i + 1, question i⟩) := by
    rw [h.sendQueue, card, List.replicate_succ, own, receive, if_pos rfl]
  have taken : step setup s (.student k randomNumber []) = some _ := step_take place (own ▸ more) read randomNumber []
  have prints : lines s (.student k randomNumber []) = [studentLine i k] := by
    simp only [lines, place]
    rw [read, own]
    rfl
  refine ⟨_, .one taken prints, rfl, ?_⟩
  refine ⟨?_, h.recvQueue, fun k' member => ?_, fun k' outside from_ => ?_, fun k' read' => ?_, h.grades⟩
  · rw [Finset.card_erase_of_mem waits, card]
    rfl
  · obtain ⟨other, old⟩ := Finset.mem_erase.mp member
    simp only [receiveQuestion, Function.update_of_ne other]
    exact h.waiting k' old
  · by_cases same : k' = k
    · subst same
      simp only [receiveQuestion, Function.update_self, answer]
      exact ⟨trivial, own⟩
    · simp only [receiveQuestion, Function.update_of_ne same]
      exact h.thinking k' (fun old => outside (Finset.mem_erase.mpr ⟨same, old⟩)) from_
  · have other : k' ≠ k := by
      rintro rfl
      omega
    simp only [receiveQuestion, Function.update_of_ne other]
    exact h.answered k' read'

theorem Sits.draw (h : Sits i paper base left 0 s) (drawn : paper.Drawn) (place : s.parent = .sending i n) :
    ∃ t, Writes (step setup) lines s [.correct (i + 1) paper.correct] t ∧ t.parent = .collecting i paper.correct 0 ∧
      Sits i paper base left 0 t := by
  obtain ⟨randomNumber, correct⟩ := drawn.1
  have prints : lines s (.parent randomNumber) = [.correct (i + 1) paper.correct] := by
    simp only [lines, place, lt_irrefl, if_false, correct]
  refine ⟨_, .one (step_draw place (lt_irrefl n) randomNumber) prints, ?_, ?_⟩
  · rw [correct]
    rfl
  · exact ⟨h.sendQueue, h.recvQueue, h.waiting, h.thinking, h.answered, h.grades⟩

theorem Sits.recorded {k : Fin n} (h : Sits i paper base left k s) (outside : k ∉ left) :
    Sits i paper base left (k + 1)
      (recordAnswer i paper.correct k ⟨k + 1, [paper.answers k]⟩ [] (sendAnswer k ⟨k + 1, [paper.answers k]⟩ s)) := by
  have own := (h.thinking k outside le_rfl).2
  refine ⟨h.sendQueue, rfl, fun k' member => ?_, fun k' outside' from_ => ?_, fun k' read' => ?_, fun k' => ?_⟩
  · obtain ⟨later, waits⟩ := h.waiting k' member
    have other : k' ≠ k := fun same => outside (same ▸ member)
    refine ⟨by omega, ?_⟩
    simp only [recordAnswer, sendAnswer, Function.update_of_ne other]
    exact waits
  · have other : k' ≠ k := by
      rintro rfl
      omega
    simp only [recordAnswer, sendAnswer, Function.update_of_ne other]
    exact h.thinking k' outside' (by omega)
  · by_cases same : k' = k
    · subst same
      simp only [recordAnswer, sendAnswer, Function.update_self, own]
      exact ⟨trivial, trivial⟩
    · simp only [recordAnswer, sendAnswer, Function.update_of_ne same]
      exact h.answered k' (by omega)
  · have grade := h.grades k'
    by_cases same : k' = k
    · subst same
      rw [if_neg fun both => lt_irrefl _ both.1] at grade
      by_cases agrees : paper.answers k' = paper.correct
      · simp [recordAnswer, sendAnswer, MsgBuff.answer, Paper.agrees, agrees, grade]
      · simp [recordAnswer, sendAnswer, MsgBuff.answer, Paper.agrees, agrees, grade]
    · have place' : (k' : Nat) < k + 1 ↔ (k' : Nat) < k := by omega
      simp only [recordAnswer, sendAnswer, Function.update_of_ne same, place']
      exact grade

/-- A student sends its answer, and the parent reads it. -/
theorem Sits.answer {k : Fin n} (h : Sits i paper base left k s) (room : setup.recvCapacity.atLeast 1)
    (place : s.parent = .collecting i paper.correct k) (outside : k ∉ left) :
    ∃ t, Writes (step setup) lines s [.answered k (i + 1) (paper.answers k)] t ∧
      t.parent = .collecting i paper.correct (k + 1) ∧ Sits i paper base left (k + 1) t := by
  have thinks := (h.thinking k outside le_rfl).1
  have fits : setup.recvCapacity.hasRoom s.recvQueue = true := by
    rw [h.recvQueue]
    exact Capacity.hasRoom_of_atLeast room
  have sent : step setup s (.student k 0 []) = some _ := step_reply thinks fits 0 []
  have silent : lines s (.student k 0 []) = [] := by simp only [lines, thinks]
  let msg : MsgBuff := ⟨k + 1, [paper.answers k]⟩
  let u : State n := sendAnswer k msg s
  have parent : u.parent = .collecting i paper.correct k := place
  have queue : u.recvQueue = [msg] := congrArg (· ++ [msg]) h.recvQueue
  have read : receive MsgBuff.msgtype (k + 1) u.recvQueue = some (msg, []) := by
    rw [queue, receive, if_pos rfl]
  have taken : step setup u (.parent 0) = some (recordAnswer i paper.correct k msg [] u) := by
    simp only [step, parentStep, parent, k.isLt, dif_pos, read, Option.map_some]
  have prints : lines u (.parent 0) = [.answered k (i + 1) (paper.answers k)] := by
    simp only [lines, parent, k.isLt, dif_pos, read, Option.map_some, Option.toList_some]
    rfl
  exact ⟨_, (Writes.one sent silent).trans (.one taken prints), rfl, h.recorded outside⟩

/-- The rest of a round, once the correct answer is drawn. -/
theorem Sits.collects (room : setup.recvCapacity.atLeast 1) (drawn : paper.Drawn) (more : i < setup.numQuestions)
    (mixes : Mixes (studentLine i) Line.Awaits left rest text) (tail : rest = paper.answerLines i j) (within : j ≤ n)
    (place : s.parent = .collecting i paper.correct j) (h : Sits i paper base left j s) :
    ∃ t, Writes (step setup) lines s text t ∧ t.parent = .collecting i paper.correct n ∧ Sits i paper base ∅ n t := by
  induction mixes generalizing s j with
  | done =>
      by_cases last : j < n
      · rw [answerLines_cons paper i ⟨j, last⟩] at tail
        exact absurd tail (by simp)
      · obtain rfl : j = n := by omega
        exact ⟨s, .refl s, place, h⟩
  | follower waits later ih =>
      obtain ⟨u, first, parent, sits⟩ := h.take drawn more waits
      obtain ⟨t, then_, done⟩ := ih tail within (parent.trans place) sits
      exact ⟨t, first.trans then_, done⟩
  | leader ready later ih =>
      by_cases last : j < n
      · have answers := answerLines_cons paper i ⟨j, last⟩
        rw [answers] at tail
        obtain ⟨rfl, behind⟩ := List.cons.inj tail
        have outside : (⟨j, last⟩ : Fin n) ∉ _ := fun waits => ready _ waits ⟨_, _, rfl⟩
        obtain ⟨u, first, parent, sits⟩ := Sits.answer (k := ⟨j, last⟩) h room place outside
        obtain ⟨t, then_, done⟩ := ih behind last parent sits
        exact ⟨t, first.trans then_, done⟩
      · rw [answerLines_all paper i (not_lt.mp last)] at tail
        exact absurd tail (by simp)

/-- A round, once all copies of its question are sent. -/
theorem Sits.round (room : setup.recvCapacity.atLeast 1) (drawn : paper.Drawn) (more : i < setup.numQuestions)
    (mixes : Mixes (studentLine i) Line.Awaits left rest text) (whole : rest = paper.parentLines i)
    (place : s.parent = .sending i n) (h : Sits i paper base left 0 s) :
    ∃ t, Writes (step setup) lines s text t ∧ t.parent = .collecting i paper.correct n ∧ Sits i paper base ∅ n t := by
  induction mixes generalizing s with
  | done => exact absurd whole (by simp [Paper.parentLines])
  | follower waits later ih =>
      obtain ⟨u, first, parent, sits⟩ := h.take drawn more waits
      obtain ⟨t, then_, done⟩ := ih whole (parent.trans place) sits
      exact ⟨t, first.trans then_, done⟩
  | leader ready later ih =>
      obtain ⟨rfl, tail⟩ := List.cons.inj whole
      obtain ⟨u, first, parent, sits⟩ := h.draw drawn place
      obtain ⟨t, then_, done⟩ := Sits.collects room drawn more later tail (Nat.zero_le n) parent sits
      exact ⟨t, first.trans then_, done⟩

/-- The parent sends its copies before any of them is received. -/
theorem Rested.posts (h : Rested i base s) (room : setup.sendCapacity.atLeast n) (place : s.parent = .sending i 0)
    (within : j ≤ n) : ∃ t, Writes (step setup) lines s [] t ∧ t.parent = .sending i j ∧
      t.sendQueue = List.replicate j ⟨i + 1, question i⟩ ∧ t.recvQueue = [] ∧ t.students = s.students ∧
      t.grades = s.grades := by
  induction j with
  | zero => exact ⟨s, .refl s, place, h.sendQueue, h.recvQueue, rfl, rfl⟩
  | succ j ih =>
      obtain ⟨u, first, parent, queue, kept⟩ := ih (Nat.le_of_succ_le within)
      have fits : setup.sendCapacity.hasRoom u.sendQueue = true := by
        refine Capacity.hasRoom_of_atLeast fun limit bounded => ?_
        rw [queue, List.length_replicate]
        exact within.trans (room limit bounded)
      have silent : lines u (.parent 0) = [] := by
        simp only [lines, parent]
        exact if_pos within
      refine ⟨sendQuestion i j u, first.trans (.one (step_post parent within fits 0) silent), rfl, ?_, kept⟩
      simp only [sendQuestion, queue]
      exact List.replicate_succ'.symm

theorem Rested.round (h : Rested i base s) (sendRoom : setup.sendCapacity.atLeast n)
    (recvRoom : setup.recvCapacity.atLeast 1) (drawn : paper.Drawn) (more : i < setup.numQuestions)
    (place : s.parent = .sending i 0) (round : Round i paper text) :
    ∃ t, Writes (step setup) lines s text t ∧ t.parent = atQuestion setup (i + 1) ∧
      Rested (i + 1) (fun k => base k + if paper.agrees k then 1 else 0) t := by
  obtain ⟨u, posts, parent, queue, answers, students, grades⟩ := h.posts sendRoom place le_rfl
  have sits : Sits i paper base Finset.univ 0 u := by
    refine ⟨?_, answers, fun k _ => ⟨Nat.zero_le _, students ▸ h.students k⟩, fun k outside => ?_,
      fun k read => absurd read (Nat.not_lt_zero _), fun k => ?_⟩
    · rw [queue, Finset.card_univ, Fintype.card_fin]
    · exact absurd (Finset.mem_univ k) outside
    · rw [grades, h.grades k, if_neg fun both => Nat.not_lt_zero _ both.1, Nat.add_zero]
  obtain ⟨v, prints, parent', sits'⟩ := Sits.round recvRoom drawn more round rfl parent sits
  have taken : step setup v (.parent 0) = some _ := step_next parent' (lt_irrefl n) 0
  have silent : lines v (.parent 0) = [] := by
    simp only [lines, parent', lt_irrefl, dif_neg, not_false_eq_true]
  have written_ := (posts.trans prints).trans (.one taken silent)
  rw [List.nil_append, List.append_nil] at written_
  refine ⟨_, written_, rfl, sits'.sendQueue, sits'.recvQueue, fun k => sits'.answered k k.isLt, fun k => ?_⟩
  have grade := sits'.grades k
  simp only [k.isLt, true_and] at grade
  exact grade

theorem writes_rounds (sendRoom : setup.sendCapacity.atLeast n) (recvRoom : setup.recvCapacity.atLeast 1)
    {papers : List (Paper n)} (rounds : Rounds papers text) (drawn : ∀ paper ∈ papers, paper.Drawn)
    (within : papers.length ≤ setup.numQuestions) :
    ∃ t, Writes (step setup) lines (Exam.start setup n) text t ∧ t.parent = atQuestion setup papers.length ∧
      Rested papers.length (fun k => papers.countP (Paper.agrees k)) t := by
  induction rounds with
  | none => exact ⟨_, .refl _, rfl, rfl, rfl, fun k => ⟨rfl, rfl⟩, fun k => rfl⟩
  | @next papers paper text more before round ih =>
      rw [List.length_append, List.length_singleton] at within ⊢
      obtain ⟨u, first, parent, rested⟩ :=
        ih (fun paper member => drawn paper (List.mem_append_left _ member)) (Nat.le_of_succ_le within)
      rw [atQuestion, if_pos (Nat.lt_of_succ_le within)] at parent
      obtain ⟨t, then_, done, rested'⟩ := rested.round sendRoom recvRoom
        (drawn paper (List.mem_append_right _ (List.mem_singleton.mpr rfl))) within parent round
      refine ⟨t, first.trans then_, done, rested'.sendQueue, rested'.recvQueue, rested'.students, fun k => ?_⟩
      rw [rested'.grades k, List.countP_append, List.countP_singleton]

end Backward

/-- What the exam can print up to the grades, and which grades with it, if all copies of a question
fit into their queue: the lines of the questions in their order, each round mixed in any way in
which students receive a question before their answers are read; and the grade of each
student for the answers that agree with the correct ones. -/
theorem transcripts_iff {n : Nat} {setup : Setup} (sendRoom : setup.sendCapacity.atLeast n)
    (recvRoom : setup.recvCapacity.atLeast 1) (text : List (Line n)) (letters : Fin n → Letter) :
    (∃ moves s, run (step setup) (start setup n) moves = some s ∧ s.parent = .grading ∧
      written (step setup) lines (start setup n) moves = text ∧ finalGrades setup s = letters) ↔
    ∃ papers : List (Paper n), papers.length = setup.numQuestions ∧ (∀ paper ∈ papers, paper.Drawn) ∧
      Rounds papers text ∧
      ∀ k, letters k = finalGrade (percentage setup.numQuestions (papers.countP (Paper.agrees k))) := by
  constructor
  · rintro ⟨moves, s, ran, done, rfl, rfl⟩
    obtain ⟨papers, length, drawn, rounds, grades⟩ := run_told ran done
    refine ⟨papers, length, drawn, rounds, fun k => ?_⟩
    rw [finalGrades, grades k]
  · rintro ⟨papers, length, drawn, rounds, grades⟩
    obtain ⟨t, ⟨moves, ran, prints⟩, place, rested⟩ := writes_rounds sendRoom recvRoom rounds drawn length.le
    refine ⟨moves, t, ran, ?_, prints, funext fun k => ?_⟩
    · rw [place, atQuestion, if_neg (by omega)]
    · rw [finalGrades, rested.grades k, grades k]

/-- One question, to which the first student finds the answer and the second one does not. -/
def oneRight : Paper 2 := ⟨generateAnswer 0, fun k => generateAnswer k⟩

/-- The second student reads the question before all others. -/
theorem transcripts_iff_two : ∃ moves, ∃ s : State 2,
    run (step ⟨1, none, none⟩) (start ⟨1, none, none⟩ 2) moves = some s ∧ s.parent = .grading ∧
      written (step ⟨1, none, none⟩) lines (start ⟨1, none, none⟩ 2) moves =
        [studentLine 0 1, .correct 1 65, studentLine 0 0, .answered 0 1 65, .answered 1 1 66] ∧
      finalGrades ⟨1, none, none⟩ s = ![.A, .F] := by
  have unbounded : ∀ k, Capacity.atLeast none k := fun k limit bounded => absurd bounded (by simp)
  have nobody : ((Finset.univ : Finset (Fin 2)).erase 1).erase 0 = ∅ := by decide
  have answers : Mixes (studentLine 0) Line.Awaits (((Finset.univ : Finset (Fin 2)).erase 1).erase 0)
      (oneRight.answerLines 0 0) [.answered 0 1 65, .answered 1 1 66] := by
    rw [nobody]
    exact .leader (by simp) (.leader (by simp) .done)
  have round : Round 0 oneRight
      [studentLine 0 1, .correct 1 65, studentLine 0 0, .answered 0 1 65, .answered 1 1 66] :=
    .follower (Finset.mem_univ 1) (.leader (fun k _ => by simp [Line.Awaits]) (.follower (by decide) answers))
  refine (transcripts_iff (unbounded 2) (unbounded 1) _ _).mpr ⟨[oneRight], rfl, ?_, .next .none round, fun k => ?_⟩
  · intro paper member
    obtain rfl := List.mem_singleton.mp member
    exact ⟨⟨0, rfl⟩, fun k => ⟨k, rfl⟩⟩
  · have first : [oneRight].countP (Paper.agrees 0) = 1 := by decide
    have second : [oneRight].countP (Paper.agrees 1) = 0 := by decide
    fin_cases k
    · norm_num [first, percentage, finalGrade]
    · norm_num [second, percentage, finalGrade]

end NetworkOs.Exam
