import NetworkOs.Library.Mixing
import NetworkOs.Library.Outputs
import NetworkOs.Exam.Delivery
import NetworkOs.Exam.Grades

/-! What the processes of the exam print, all of them to one terminal. The lines of different
questions never mix; within a question the students' lines come in any order between the
parent's, each in front of the answer that is read of its student. -/
namespace NetworkOs.Exam
open Runs Mailbox Census Mixing

/-- The lines printed before the grades. -/
inductive Line (n : Nat) where
  /-- `Student k + 1 received question j: text` -/
  | received (k : Fin n) (j : Nat) (text : Str)
  /-- `Question i correct answer c` -/
  | correct (i : Nat) (c : UInt8)
  /-- `Student k + 1 answered question i: answer` -/
  | answered (k : Fin n) (i : Nat) (answer : UInt8)
deriving DecidableEq, Repr

/-- What a step prints. -/
def lines {n : Nat} (s : State n) : Move n → List (Line n)
  | .parent randomNumber =>
      match s.parent with
      | .sending i j => if j < n then [] else [.correct (i + 1) (generateAnswer randomNumber)]
      | .collecting i _ j =>
          if student : j < n then
            ((receive MsgBuff.msgtype (j + 1) s.recvQueue).map fun taken =>
              .answered ⟨j, student⟩ (i + 1) taken.1.answer).toList
          else []
      | .grading => []
  | .student k _ _ =>
      match (s.students k).place with
      | .receiving => ((receive MsgBuff.msgtype ((s.students k).j + 1) s.sendQueue).map fun taken =>
          .received k ((s.students k).j + 1) taken.1.msgtext).toList
      | .answering _ => []

/-- What is drawn for one question: the correct answer, and an answer by each student. -/
structure Paper (n : Nat) where
  correct : UInt8
  answers : Fin n → UInt8

namespace Paper
variable {n : Nat}

def Drawn (paper : Paper n) : Prop :=
  (∃ randomNumber, paper.correct = generateAnswer randomNumber) ∧
    ∀ k, ∃ randomNumber, paper.answers k = generateAnswer randomNumber

/-- The parent's lines about the answers to question `i`, from student `j` on. -/
def answerLines (paper : Paper n) (i j : Nat) : List (Line n) :=
  ((List.finRange n).drop j).map fun k => .answered k (i + 1) (paper.answers k)

def parentLines (paper : Paper n) (i : Nat) : List (Line n) :=
  .correct (i + 1) paper.correct :: paper.answerLines i 0

/-- The student has given the correct answer. -/
def agrees (k : Fin n) (paper : Paper n) : Bool := paper.answers k == paper.correct

end Paper

/-- The line of a student that has received question `i`. -/
def studentLine {n : Nat} (i : Nat) (k : Fin n) : Line n := .received k (i + 1) (question i)

/-- An answer is read after its student has received the question. -/
def Line.Awaits {n : Nat} (line : Line n) (k : Fin n) : Prop := ∃ i answer, line = .answered k i answer

/-- The lines about question `i`. -/
def Round {n : Nat} (i : Nat) (paper : Paper n) (text : List (Line n)) : Prop :=
  Mixes (studentLine i) Line.Awaits Finset.univ (paper.parentLines i) text

/-- The lines about the questions one after the other. -/
inductive Rounds {n : Nat} : List (Paper n) → List (Line n) → Prop where
  | none : Rounds [] []
  | next {papers : List (Paper n)} {paper : Paper n} {text more : List (Line n)} (before : Rounds papers text)
      (round : Round papers.length paper more) : Rounds (papers ++ [paper]) (text ++ more)

section Steps
variable {n : Nat} (setup : Setup) (s : State n)

/-- What a step does and prints. -/
inductive Shown : State n → List (Line n) → Prop where
  | post {i j : Nat} (place : s.parent = .sending i j) (more : j < n) : Shown (sendQuestion i j s) []
  | draw {i j : Nat} (randomNumber : Nat) (place : s.parent = .sending i j) (all : n ≤ j) :
      Shown (drawAnswer i (generateAnswer randomNumber) s) [.correct (i + 1) (generateAnswer randomNumber)]
  | collect {i : Nat} {c : UInt8} {k : Fin n} {msg : MsgBuff} {rest : List MsgBuff}
      (place : s.parent = .collecting i c k)
      (read : receive MsgBuff.msgtype (k + 1) s.recvQueue = some (msg, rest)) :
      Shown (recordAnswer i c k msg rest s) [.answered k (i + 1) msg.answer]
  | next {i j : Nat} {c : UInt8} (place : s.parent = .collecting i c j) (all : n ≤ j) :
      Shown { s with parent := atQuestion setup (i + 1) } []
  | take {k : Fin n} {msg : MsgBuff} {rest : List MsgBuff} (randomNumber : Nat) (beyond : Str)
      (place : (s.students k).place = .receiving) (more : (s.students k).j < setup.numQuestions)
      (read : receive MsgBuff.msgtype ((s.students k).j + 1) s.sendQueue = some (msg, rest)) :
      Shown (receiveQuestion k (generateAnswer randomNumber) beyond msg rest s)
        [.received k ((s.students k).j + 1) msg.msgtext]
  | reply {k : Fin n} {msg : MsgBuff} (place : (s.students k).place = .answering msg) : Shown (sendAnswer k msg s) []

variable {setup s} {t : State n}

theorem shown_of_step {m : Move n} (taken : step setup s m = some t) : Shown setup s t (lines s m) := by
  cases m with
  | parent randomNumber =>
      change parentStep setup randomNumber s = some t at taken
      unfold parentStep at taken
      unfold lines
      cases place : s.parent with
      | sending i j =>
          simp only [place] at taken
          by_cases more : j < n
          · simp only [more, if_true] at taken ⊢
            split_ifs at taken
            exact Option.some.inj taken ▸ .post place more
          · simp only [more, if_false] at taken ⊢
            exact Option.some.inj taken ▸ .draw _ place (not_lt.mp more)
      | collecting i c j =>
          simp only [place] at taken
          by_cases more : j < n
          · simp only [more, dif_pos] at taken ⊢
            obtain ⟨⟨msg, rest⟩, read, rfl⟩ := Option.map_eq_some_iff.mp taken
            rw [read]
            exact .collect (k := ⟨j, more⟩) place read
          · simp only [more, dif_neg, not_false_eq_true] at taken ⊢
            exact Option.some.inj taken ▸ .next place (not_lt.mp more)
      | grading => simp [place] at taken
  | student k randomNumber beyond =>
      change studentStep setup k randomNumber beyond s = some t at taken
      unfold studentStep at taken
      unfold lines
      cases place : (s.students k).place with
      | receiving =>
          simp only [place] at taken
          split_ifs at taken with more
          obtain ⟨⟨msg, rest⟩, read, rfl⟩ := Option.map_eq_some_iff.mp taken
          simp only [place, read]
          exact .take _ beyond place more read
      | answering msg =>
          simp only [place] at taken ⊢
          split_ifs at taken
          exact Option.some.inj taken ▸ .reply place

end Steps

section Forward
variable {n : Nat} {setup : Setup} {s t : State n} {i j : Nat} {c : UInt8} {text out : List (Line n)}

/-- The students whose line about question `i` is still to come. -/
def unread (s : State n) (i : Nat) : Finset (Fin n) :=
  Finset.univ.filter fun k => (s.students k).received.length ≤ i

/-- The answers to question `i` are those on the paper, as far as there are any. -/
def Agrees (s : State n) (i : Nat) (paper : Paper n) : Prop :=
  ∀ k, i < (s.students k).received.length → (s.students k).answers.getD i 0 = paper.answers k

/-- The papers of the questions that are through hold what was drawn for them. -/
structure Filled (s : State n) (papers : List (Paper n)) : Prop where
  correct : s.correct.take papers.length = papers.map (·.correct)
  answers : ∀ k, (s.students k).answers.take papers.length = papers.map (·.answers k)

/-- What has been printed fits to the place of the parent. -/
inductive Told (setup : Setup) (s : State n) (text : List (Line n)) : Prop where
  | sending {i j : Nat} {papers : List (Paper n)} {before now : List (Line n)} (place : s.parent = .sending i j)
      (filled : Filled s papers) (length : papers.length = i) (rounds : Rounds papers before)
      (begins : ∀ paper, Agrees s i paper → Begins (studentLine i) Line.Awaits Finset.univ (paper.parentLines i) now
        (unread s i) (paper.parentLines i)) (eq : text = before ++ now)
  | collecting {i j : Nat} {c : UInt8} {papers : List (Paper n)} {before now : List (Line n)}
      (place : s.parent = .collecting i c j)
      (filled : Filled s papers) (length : papers.length = i) (rounds : Rounds papers before)
      (begins : ∀ paper, paper.correct = c → Agrees s i paper →
        Begins (studentLine i) Line.Awaits Finset.univ (paper.parentLines i) now (unread s i) (paper.answerLines i j))
      (eq : text = before ++ now)
  | grading {papers : List (Paper n)} (place : s.parent = .grading) (filled : Filled s papers)
      (length : papers.length = setup.numQuestions) (rounds : Rounds papers text)

/-- All that is drawn is drawn by `generate_answer`. -/
structure Drawn (s : State n) : Prop where
  correct : ∀ a ∈ s.correct, ∃ randomNumber, a = generateAnswer randomNumber
  answers : ∀ k, ∀ a ∈ (s.students k).answers, ∃ randomNumber, a = generateAnswer randomNumber

theorem answerLines_cons (paper : Paper n) (i : Nat) (k : Fin n) :
    paper.answerLines i k = .answered k (i + 1) (paper.answers k) :: paper.answerLines i (k + 1) := by
  unfold Paper.answerLines
  rw [List.drop_eq_getElem_cons (by simp), List.map_cons]
  simp

theorem answerLines_all (paper : Paper n) (i : Nat) (all : n ≤ j) : paper.answerLines i j = [] := by
  unfold Paper.answerLines
  rw [List.drop_eq_nil_iff.mpr (by simpa using all), List.map_nil]

theorem mem_unread {k : Fin n} : k ∈ unread s i ↔ (s.students k).received.length ≤ i := by simp [unread]

/-- A student that takes a question takes the one the parent asks. -/
theorem Conducted.take_current (h : Conducted setup s) {k : Fin n} {msg : MsgBuff} {rest : List MsgBuff}
    (place : (s.students k).place = .receiving)
    (read : receive MsgBuff.msgtype ((s.students k).j + 1) s.sendQueue = some (msg, rest)) :
    msg = ⟨(s.students k).j + 1, question (s.students k).j⟩ ∧ (s.students k).received.length = (s.students k).j ∧
      0 < posted setup n (s.students k).j s.parent ∧ asked setup k s.parent ≤ (s.students k).j := by
  have size := (h.sitting k).place
  rw [place] at size
  obtain ⟨-, head, -⟩ := receive_some read
  have count := h.questions.counts (s.students k).j
  rw [head, List.length_cons] at count
  have recorded := h.recorded_le k
  exact ⟨h.questions.text read, size, by omega, by omega⟩

theorem Told.post (h : Told setup s text) (place : s.parent = .sending i j) : Told setup (sendQuestion i j s) text := by
  cases h with
  | sending place' filled length rounds begins eq =>
      obtain ⟨rfl, rfl⟩ := ParentAt.sending.inj (place.symm.trans place')
      exact .sending rfl ⟨filled.correct, filled.answers⟩ length rounds begins eq
  | collecting place' => exact absurd (place.symm.trans place') (by simp)
  | grading place' => exact absurd (place.symm.trans place') (by simp)

theorem Told.draw (h : Told setup s text) (conducted : Conducted setup s) (place : s.parent = .sending i j)
    (c : UInt8) : Told setup (drawAnswer i c s) (text ++ [.correct (i + 1) c]) := by
  have round := conducted.graded.round
  rw [place] at round
  have size : s.correct.length = i := round.2.2
  cases h with
  | sending place' filled length rounds begins eq =>
      obtain ⟨rfl, rfl⟩ := ParentAt.sending.inj (place.symm.trans place')
      refine .collecting rfl ⟨?_, filled.answers⟩ length rounds (fun paper same agrees => ?_)
        (by rw [eq, List.append_assoc])
      · change (s.correct ++ [c]).take _ = _
        rw [List.take_append_of_le_length (by omega), filled.correct]
      · have begun := begins paper agrees
        rw [Paper.parentLines, same] at begun ⊢
        exact begun.leader fun k _ => by simp [Line.Awaits]
  | collecting place' => exact absurd (place.symm.trans place') (by simp)
  | grading place' => exact absurd (place.symm.trans place') (by simp)

/-- The answer that is read is the one its student has given to this question. -/
theorem Conducted.read_answer (h : Conducted setup s) {k : Fin n} {msg : MsgBuff} {rest : List MsgBuff}
    (place : s.parent = .collecting i c k)
    (read : receive MsgBuff.msgtype (k + 1) s.recvQueue = some (msg, rest)) :
    i < (s.students k).received.length ∧ (s.students k).answers.getD i 0 = msg.answer := by
  obtain ⟨-, head, -⟩ := receive_some read
  have recorded := h.recorded_le k
  have size := h.graded.sizes k
  rw [place, asked, if_neg (lt_irrefl _)] at recorded size
  rw [head, List.length_cons] at recorded
  refine ⟨by omega, ?_⟩
  rw [← h.answers.answers k, head, List.getD_eq_getElem?_getD, List.append_assoc,
    List.getElem?_append_right size.le, size, Nat.sub_self]
  rfl

theorem Told.collect (h : Told setup s text) (conducted : Conducted setup s) {k : Fin n} {msg : MsgBuff}
    {rest : List MsgBuff} (place : s.parent = .collecting i c k)
    (read : receive MsgBuff.msgtype (k + 1) s.recvQueue = some (msg, rest)) :
    Told setup (recordAnswer i c k msg rest s) (text ++ [.answered k (i + 1) msg.answer]) := by
  obtain ⟨own, answer⟩ := conducted.read_answer place read
  cases h with
  | sending place' => exact absurd (place.symm.trans place') (by simp)
  | collecting place' filled length rounds begins eq =>
      obtain ⟨rfl, rfl, rfl⟩ := ParentAt.collecting.inj (place.symm.trans place')
      refine .collecting rfl ⟨filled.correct, filled.answers⟩ length rounds (fun paper same agrees => ?_)
        (by rw [eq, List.append_assoc])
      have given : paper.answers k = msg.answer := (agrees k own).symm.trans answer
      have begun := begins paper same agrees
      rw [answerLines_cons, given] at begun
      refine begun.leader fun k' waiting => ?_
      rintro ⟨i', answer', line⟩
      obtain ⟨rfl, -⟩ := Line.answered.inj line
      exact absurd (mem_unread.mp waiting) (not_le.mpr own)
  | grading place' => exact absurd (place.symm.trans place') (by simp)

theorem take_succ_getD {α : Type*} {xs : List α} {i : Nat} (inside : i < xs.length) (default : α) :
    xs.take (i + 1) = xs.take i ++ [xs.getD i default] := by
  rw [List.take_succ_eq_append_getElem inside, List.getD_eq_getElem _ _ inside]

/-- No student has received a question that the parent has not sent. -/
theorem Conducted.unread_all (h : Conducted setup s) (place : s.parent = .sending i 0) : unread s i = Finset.univ := by
  have count := h.questions.counts i
  rw [place, posted, if_neg (lt_irrefl i), if_pos rfl] at count
  have nobody := census_eq_zero_iff.mp (Nat.eq_zero_of_add_eq_zero_left count)
  refine Finset.filter_true_of_mem fun k _ => ?_
  exact not_lt.mp (nobody k)

theorem Told.next (h : Told setup s text) (conducted : Conducted setup s)
    (kept : Conducted setup { s with parent := atQuestion setup (i + 1) })
    (place : s.parent = .collecting i c j) (all : n ≤ j) :
    Told setup { s with parent := atQuestion setup (i + 1) } text := by
  have round := conducted.graded.round
  rw [place] at round
  obtain ⟨more, -, drawn, correct, size⟩ := round
  have received : ∀ k : Fin n, i < (s.students k).received.length := by
    intro k
    have recorded := conducted.recorded_le k
    rw [place, asked, if_pos (k.isLt.trans_le all)] at recorded
    omega
  cases h with
  | sending place' => exact absurd (place.symm.trans place') (by simp)
  | @collecting _ _ _ papers before now place' filled length rounds begins eq =>
      obtain ⟨rfl, rfl, rfl⟩ := ParentAt.collecting.inj (place.symm.trans place')
      let paper : Paper n := ⟨c, fun k => (s.students k).answers.getD i 0⟩
      have noneLeft : unread s i = ∅ := by
        refine Finset.filter_false_of_mem fun k _ => ?_
        exact not_le.mpr (received k)
      have begun := begins paper rfl fun k _ => rfl
      rw [noneLeft, answerLines_all paper i all] at begun
      have rounds' : Rounds (papers ++ [paper]) (before ++ now) := .next rounds (length ▸ begun.whole)
      have filled' : Filled { s with parent := atQuestion setup (i + 1) } (papers ++ [paper]) := by
        refine ⟨?_, fun k => ?_⟩
        · have known := filled.correct
          rw [length, correct, List.take_append_of_le_length size.ge, List.take_of_length_le size.le] at known
          rw [List.length_append, List.length_singleton, length, List.map_append, ← known]
          change s.correct.take (i + 1) = drawn ++ [c]
          rw [correct, List.take_of_length_le (by simp [size])]
        · have inside : i < (s.students k).answers.length := by
            rw [(conducted.sitting k).answers]
            exact received k
          have known := filled.answers k
          rw [length] at known
          rw [List.length_append, List.length_singleton, length, List.map_append, ← known]
          exact take_succ_getD inside 0
      have length' : (papers ++ [paper]).length = i + 1 := by rw [List.length_append, List.length_singleton, length]
      have following : i + 1 ≤ setup.numQuestions := more
      rcases atQuestion_cases following with ⟨next_, -⟩ | ⟨last, whole⟩
      · refine .sending next_ filled' length' rounds' (fun paper' _ => ?_) (eq.trans (List.append_nil _).symm)
        rw [kept.unread_all next_]
        exact .refl _ _
      · exact .grading last filled' (length'.trans whole) (eq ▸ rounds')
  | grading place' => exact absurd (place.symm.trans place') (by simp)

section Take
variable {k : Fin n} {msg : MsgBuff} {rest : List MsgBuff} {a : UInt8} {beyond : Str}

theorem unread_take (size : (s.students k).received.length = i) :
    unread (receiveQuestion k a beyond msg rest s) i = (unread s i).erase k := by
  ext k'
  rw [Finset.mem_erase, mem_unread, mem_unread]
  by_cases same : k' = k
  · subst same
    simp [receiveQuestion, size]
  · simp [receiveQuestion, same]

/-- A paper with the new answer has the ones that were there. -/
theorem agrees_take (size : (s.students k).received.length = i) {paper : Paper n}
    (agrees : Agrees (receiveQuestion k a beyond msg rest s) i paper) : Agrees s i paper := by
  intro k' own
  have other : k' ≠ k := by
    rintro rfl
    omega
  have given := agrees k'
  simp only [receiveQuestion, Function.update_of_ne other] at given
  exact given own

theorem Filled.take {papers : List (Paper n)} (h : Filled s papers)
    (inside : papers.length ≤ (s.students k).answers.length) :
    Filled (receiveQuestion k a beyond msg rest s) papers := by
  refine ⟨h.correct, fun k' => ?_⟩
  by_cases same : k' = k
  · subst same
    simp only [receiveQuestion, Function.update_self]
    rw [List.take_append_of_le_length inside, h.answers]
  · simp only [receiveQuestion, Function.update_of_ne same]
    exact h.answers k'

theorem Told.take (h : Told setup s text) (conducted : Conducted setup s)
    (place : (s.students k).place = .receiving)
    (read : receive MsgBuff.msgtype ((s.students k).j + 1) s.sendQueue = some (msg, rest)) :
    Told setup (receiveQuestion k a beyond msg rest s) (text ++ [.received k ((s.students k).j + 1) msg.msgtext]) := by
  obtain ⟨rfl, size, sent, reached⟩ := conducted.take_current place read
  have answers := (conducted.sitting k).answers
  cases h with
  | sending parent filled length rounds begins eq =>
      rw [parent, posted] at sent
      rw [parent, asked] at reached
      have current : (s.students k).j = _ := le_antisymm (by split_ifs at sent <;> omega) reached
      rw [current] at size ⊢
      refine .sending parent (filled.take (by omega)) length rounds (fun paper agrees => ?_)
        (by rw [eq, List.append_assoc])
      rw [unread_take size]
      exact (begins paper (agrees_take size agrees)).follower (mem_unread.mpr size.le)
  | collecting parent filled length rounds begins eq =>
      rw [parent, posted] at sent
      rw [parent, asked] at reached
      have current : (s.students k).j = _ :=
        le_antisymm (by split_ifs at sent <;> omega) (by split_ifs at reached <;> omega)
      rw [current] at size ⊢
      refine .collecting parent (filled.take (by omega)) length rounds (fun paper same agrees => ?_)
        (by rw [eq, List.append_assoc])
      rw [unread_take size]
      exact (begins paper same (agrees_take size agrees)).follower (mem_unread.mpr size.le)
  | grading parent =>
      rw [parent, posted] at sent
      rw [parent, asked] at reached
      split_ifs at sent <;> omega

end Take

theorem Told.reply (h : Told setup s text) {k : Fin n} (msg : MsgBuff) : Told setup (sendAnswer k msg s) text := by
  have same : ∀ k', ((sendAnswer k msg s).students k').received = (s.students k').received ∧
      ((sendAnswer k msg s).students k').answers = (s.students k').answers := by
    intro k'
    by_cases own : k' = k
    · subst own
      simp [sendAnswer]
    · simp [sendAnswer, own]
  have left : ∀ i, unread (sendAnswer k msg s) i = unread s i := by
    intro i
    unfold unread
    simp only [(same _).1]
  have agree : ∀ i paper, Agrees (sendAnswer k msg s) i paper ↔ Agrees s i paper := by
    intro i paper
    unfold Agrees
    simp only [(same _).1, (same _).2]
  have full : ∀ papers, Filled s papers → Filled (sendAnswer k msg s) papers := by
    intro papers filled
    exact ⟨filled.correct, fun k' => (same k').2 ▸ filled.answers k'⟩
  cases h with
  | sending place filled length rounds begins eq =>
      refine .sending place (full _ filled) length rounds (fun paper agrees => ?_) eq
      rw [left]
      exact begins paper ((agree _ paper).mp agrees)
  | collecting place filled length rounds begins eq =>
      refine .collecting place (full _ filled) length rounds (fun paper drawn agrees => ?_) eq
      rw [left]
      exact begins paper drawn ((agree _ paper).mp agrees)
  | grading place filled length rounds => exact .grading place (full _ filled) length rounds

theorem Told.step (h : Told setup s text) (conducted : Conducted setup s) (kept : Conducted setup t)
    (shown : Shown setup s t out) : Told setup t (text ++ out) := by
  cases shown with
  | post place more => exact (List.append_nil text).symm ▸ h.post place
  | draw randomNumber place all => exact h.draw conducted place _
  | collect place read => exact h.collect conducted place read
  | next place all => exact (List.append_nil text).symm ▸ h.next conducted kept place all
  | take randomNumber beyond place more read => exact h.take conducted place read
  | reply place => exact (List.append_nil text).symm ▸ h.reply _

theorem start_told (setup : Setup) (n : Nat) : Told setup (start setup n) [] := by
  have conducted := start_conducted setup n
  have filled : Filled (start setup n) [] := ⟨rfl, fun k => rfl⟩
  rcases atQuestion_cases (Nat.zero_le setup.numQuestions) with ⟨place, -⟩ | ⟨place, whole⟩
  · refine .sending place filled rfl .none (fun paper _ => ?_) rfl
    rw [conducted.unread_all place]
    exact .refl _ _
  · exact .grading place filled whole .none

theorem Drawn.step (h : Drawn s) (shown : Shown setup s t out) : Drawn t := by
  cases shown with
  | post place more => exact ⟨h.correct, h.answers⟩
  | draw randomNumber place all =>
      refine ⟨fun a member => ?_, h.answers⟩
      rcases List.mem_append.mp member with old | new
      · exact h.correct a old
      · exact ⟨randomNumber, List.mem_singleton.mp new⟩
  | collect place read => exact ⟨h.correct, h.answers⟩
  | next place all => exact ⟨h.correct, h.answers⟩
  | @take k msg rest randomNumber beyond place more read =>
      refine ⟨h.correct, fun k' a member => ?_⟩
      by_cases same : k' = k
      · subst same
        simp only [receiveQuestion, Function.update_self] at member
        rcases List.mem_append.mp member with old | new
        · exact h.answers k' a old
        · exact ⟨randomNumber, List.mem_singleton.mp new⟩
      · simp only [receiveQuestion, Function.update_of_ne same] at member
        exact h.answers k' a member
  | @reply k msg place =>
      refine ⟨h.correct, fun k' a member => h.answers k' a ?_⟩
      by_cases same : k' = k
      · subst same
        simpa only [sendAnswer, Function.update_self] using member
      · simpa only [sendAnswer, Function.update_of_ne same] using member

theorem agreements_papers (k : Fin n) (papers : List (Paper n)) :
    agreements (papers.map (·.answers k)) (papers.map (·.correct)) = papers.countP (Paper.agrees k) := by
  rw [agreements, List.zip_map', List.countP_map]
  rfl

/-- A run to the grading has printed the lines of papers that were drawn, and their grades. -/
theorem run_told {moves : List (Move n)} (ran : run (step setup) (Exam.start setup n) moves = some s)
    (done : s.parent = .grading) : ∃ papers : List (Paper n), papers.length = setup.numQuestions ∧
      (∀ paper ∈ papers, paper.Drawn) ∧ Rounds papers (written (Exam.step setup) lines (Exam.start setup n) moves) ∧
      ∀ k, s.grades k = papers.countP (Paper.agrees k) := by
  have kept : Conducted setup s ∧ Told setup s (written (Exam.step setup) lines (Exam.start setup n) moves) ∧
      Drawn s := by
    refine written_invariant (P := fun s text => Conducted setup s ∧ Told setup s text ∧ Drawn s) ?_
      ⟨start_conducted setup n, start_told setup n, fun a member => absurd member List.not_mem_nil,
        fun k a member => absurd member List.not_mem_nil⟩ ran
    rintro s m t text ⟨conducted, told, drawn⟩ taken
    have shown := shown_of_step taken
    have next_ := conducted.step taken
    exact ⟨next_, told.step conducted next_ shown, drawn.step shown⟩
  obtain ⟨conducted, told, drawn⟩ := kept
  have finished := conducted.finished done
  cases told with
  | sending place => exact absurd (done.symm.trans place) (by simp)
  | collecting place => exact absurd (done.symm.trans place) (by simp)
  | @grading papers place filled length rounds =>
      have correct : s.correct = papers.map (·.correct) := by
        rw [← filled.correct, List.take_of_length_le (by rw [finished.sizes.1, length])]
      have answers : ∀ k, (s.students k).answers = papers.map (·.answers k) := by
        intro k
        rw [← filled.answers k, List.take_of_length_le (by rw [← finished.recorded k, finished.sizes.2 k, length])]
      refine ⟨papers, length, fun paper member => ⟨?_, fun k => ?_⟩, rounds, fun k => ?_⟩
      · exact drawn.correct _ (correct ▸ List.mem_map_of_mem member)
      · exact drawn.answers k _ (answers k ▸ List.mem_map_of_mem member)
      · rw [finished.grades k, answers k, correct, agreements_papers]

end Forward

end NetworkOs.Exam
