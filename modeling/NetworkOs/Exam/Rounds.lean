import NetworkOs.Library.Census
import NetworkOs.Exam.Processes

/-! What holds between any two steps of the exam: where the copies of a question and
the answers of a student are, and in which round. -/
namespace NetworkOs.Exam
open Runs Mailbox Census

/-- How many copies of question `i` the parent has sent. -/
def posted (setup : Setup) (n : Nat) (i : Nat) : ParentAt → Nat
  | .sending i' j => if i < i' then n else if i = i' then j else 0
  | .collecting i' _ _ => if i ≤ i' then n else 0
  | .grading => if i < setup.numQuestions then n else 0

/-- How many answers of student `k` the parent has recorded. -/
def asked (setup : Setup) (k : Nat) : ParentAt → Nat
  | .sending i _ => i
  | .collecting i _ j => if k < j then i + 1 else i
  | .grading => setup.numQuestions

/-- The number of questions on which the answers agree with the correct ones. -/
def agreements (answers correct : List UInt8) : Nat := (answers.zip correct).countP fun p => p.1 == p.2

/-- The answer a student has generated and not yet sent. -/
def StudentAt.unsent : StudentAt → List UInt8
  | .receiving => []
  | .answering msg => [msg.answer]

/-- A student's own view: it has received the questions in order, one for each round. -/
structure Sitting (setup : Setup) (k : Nat) (st : Student) : Prop where
  lines : st.received = (List.range st.received.length).map fun i => (i + 1, question i)
  answers : st.answers.length = st.received.length
  bound : st.j ≤ setup.numQuestions
  place : match st.place with
    | .receiving => st.received.length = st.j
    | .answering msg => st.received.length = st.j + 1 ∧ st.j < setup.numQuestions ∧ msg.msgtype = k + 1

/-- Each copy of a question is in the queue or with the student that took it. -/
structure Questions (setup : Setup) (s : State n) : Prop where
  texts : ∀ m ∈ s.sendQueue, ∃ i, m = ⟨i + 1, question i⟩
  counts : ∀ i, (channel MsgBuff.msgtype (i + 1) s.sendQueue).length +
    census (fun st => i < st.received.length) s.students = posted setup n i s.parent

/-- Each answer of a student is recorded, in the queue, or still with the student. -/
structure Answers (s : State n) : Prop where
  types : ∀ m ∈ s.recvQueue, ∃ k : Fin n, m.msgtype = k + 1
  answers : ∀ k : Fin n, s.recorded k ++ (channel MsgBuff.msgtype (k + 1) s.recvQueue).map MsgBuff.answer ++
    (s.students k).place.unsent = (s.students k).answers

/-- Where the parent is within a round, and which correct answers it has drawn. -/
def InRound (setup : Setup) (n : Nat) (correct : List UInt8) : ParentAt → Prop
  | .sending i j => i < setup.numQuestions ∧ j ≤ n ∧ correct.length = i
  | .collecting i c j => i < setup.numQuestions ∧ j ≤ n ∧ ∃ drawn, correct = drawn ++ [c] ∧ drawn.length = i
  | .grading => correct.length = setup.numQuestions

/-- The parent has recorded and graded what its round says. -/
structure Graded (setup : Setup) (s : State n) : Prop where
  sizes : ∀ k : Fin n, (s.recorded k).length = asked setup k s.parent
  grades : ∀ k, s.grades k = agreements (s.recorded k) s.correct
  round : InRound setup n s.correct s.parent

structure Conducted (setup : Setup) (s : State n) : Prop where
  sitting : ∀ k : Fin n, Sitting setup k (s.students k)
  questions : Questions setup s
  answers : Answers s
  graded : Graded setup s

section Agreements
variable {xs ys : List UInt8} {a c : UInt8}

theorem agreements_drawn (short : xs.length ≤ ys.length) (c : UInt8) :
    agreements xs (ys ++ [c]) = agreements xs ys := by
  obtain ⟨before, after, rfl, same⟩ : ∃ before after, ys = before ++ after ∧ before.length = xs.length :=
    ⟨ys.take xs.length, ys.drop xs.length, (List.take_append_drop _ _).symm, by simpa using short⟩
  have cut : ∀ more, xs.zip (before ++ more) = xs.zip before := by
    intro more
    have whole : (xs ++ []).zip (before ++ more) = xs.zip before ++ [].zip more := List.zip_append same.symm
    simpa using whole
  rw [agreements, agreements, List.append_assoc, cut, cut]

theorem agreements_recorded (same : xs.length = ys.length) (a c : UInt8) :
    agreements (xs ++ [a]) (ys ++ [c]) = if a = c then agreements xs ys + 1 else agreements xs ys := by
  rw [agreements, List.zip_append same, List.countP_append]
  by_cases equal : a = c <;> simp [agreements, equal]

end Agreements

section Steps
variable {n : Nat} {setup : Setup} {s t : State n}

theorem Sitting.length_le {k : Nat} {st : Student} (h : Sitting setup k st) :
    st.received.length ≤ setup.numQuestions := by
  have place := h.place
  have bound := h.bound
  cases held : st.place with
  | receiving =>
      rw [held] at place
      change st.received.length = st.j at place
      omega
  | answering msg =>
      rw [held] at place
      change st.received.length = st.j + 1 ∧ _ at place
      omega

theorem atQuestion_cases {i : Nat} (le : i ≤ setup.numQuestions) :
    atQuestion setup i = .sending i 0 ∧ i < setup.numQuestions ∨
      atQuestion setup i = .grading ∧ i = setup.numQuestions := by
  unfold atQuestion
  split_ifs with more
  · exact .inl ⟨rfl, more⟩
  · exact .inr ⟨rfl, by omega⟩

theorem posted_atQuestion {i : Nat} (le : i ≤ setup.numQuestions) (n i' : Nat) :
    posted setup n i' (atQuestion setup i) = if i' < i then n else 0 := by
  rcases atQuestion_cases le with ⟨place, _⟩ | ⟨place, rfl⟩
  · rw [place, posted]
    split_ifs <;> rfl
  · rw [place, posted]

theorem asked_atQuestion {i : Nat} (le : i ≤ setup.numQuestions) (k : Nat) :
    asked setup k (atQuestion setup i) = i := by
  rcases atQuestion_cases le with ⟨place, _⟩ | ⟨place, rfl⟩ <;> rw [place, asked]

theorem inRound_atQuestion {correct : List UInt8} (le : correct.length ≤ setup.numQuestions) (n : Nat) :
    InRound setup n correct (atQuestion setup correct.length) := by
  rcases atQuestion_cases le with ⟨place, more⟩ | ⟨place, all⟩
  · rw [place]
    exact ⟨more, Nat.zero_le n, rfl⟩
  · rw [place]
    exact all

theorem start_conducted (setup : Setup) (n : Nat) : Conducted setup (start setup n) := by
  refine ⟨fun k => ⟨rfl, rfl, Nat.zero_le _, rfl⟩, ⟨?_, ?_⟩, ⟨?_, fun k => rfl⟩, ⟨?_, fun k => rfl, ?_⟩⟩
  · simp [start]
  · intro i
    have nobody : census (fun st : Student => i < st.received.length) (start setup n).students = 0 :=
      census_eq_zero_iff.mpr fun k => Nat.not_lt_zero i
    rw [nobody]
    exact (posted_atQuestion (Nat.zero_le _) n i).symm
  · simp [start]
  · exact fun k => (asked_atQuestion (Nat.zero_le _) k).symm
  · have none_ : ([] : List UInt8).length ≤ setup.numQuestions := Nat.zero_le _
    exact inRound_atQuestion none_ n

theorem Conducted.post (h : Conducted setup s) {i j : Nat} (place : s.parent = .sending i j) (more : j < n) :
    Conducted setup (sendQuestion i j s) := by
  have round := h.graded.round
  rw [place] at round
  refine ⟨h.sitting, ⟨?_, ?_⟩, ⟨h.answers.types, h.answers.answers⟩, ⟨?_, h.graded.grades, ⟨round.1, more, round.2.2⟩⟩⟩
  · intro m member
    rcases List.mem_append.mp member with old | new
    · exact h.questions.texts m old
    · exact ⟨i, List.mem_singleton.mp new⟩
  · intro i'
    have count := h.questions.counts i'
    rw [place, posted] at count
    change (channel MsgBuff.msgtype (i' + 1) (s.sendQueue ++ [⟨i + 1, question i⟩])).length +
      census (fun st => i' < st.received.length) s.students = posted setup n i' (.sending i (j + 1))
    rw [posted]
    by_cases same : i' = i
    · subst same
      have posted_ := congrArg List.length (@channel_post_same _ _ _ MsgBuff.msgtype ⟨i' + 1, question i'⟩ s.sendQueue)
      rw [List.length_append] at posted_
      rw [posted_]
      simp only [lt_irrefl, if_true, if_false, List.length_singleton] at count ⊢
      omega
    · have other : MsgBuff.msgtype ⟨i + 1, question i⟩ ≠ i' + 1 := fun eq => same (Nat.succ.inj eq).symm
      rw [channel_post_other other]
      simpa only [same, if_false] using count
  · intro k
    have size := h.graded.sizes k
    rwa [place] at size

theorem Conducted.draw (h : Conducted setup s) {i j : Nat} (c : UInt8) (place : s.parent = .sending i j)
    (all : n ≤ j) : Conducted setup (drawAnswer i c s) := by
  have round := h.graded.round
  rw [place] at round
  obtain ⟨more, le, drawn⟩ := round
  have sizes : ∀ k : Fin n, (s.recorded k).length = i := by
    intro k
    have size := h.graded.sizes k
    rwa [place] at size
  refine ⟨h.sitting, ⟨h.questions.texts, ?_⟩, ⟨h.answers.types, h.answers.answers⟩, ⟨?_, ?_, ?_⟩⟩
  · intro i'
    have count := h.questions.counts i'
    have whole : j = n := by omega
    rw [place, posted] at count
    change _ = posted setup n i' (.collecting i c 0)
    rw [posted]
    refine count.trans ?_
    split_ifs <;> omega
  · intro k
    change (s.recorded k).length = if (k : Nat) < 0 then i + 1 else i
    rw [if_neg (Nat.not_lt_zero _), sizes]
  · intro k
    change s.grades k = agreements (s.recorded k) (s.correct ++ [c])
    rw [agreements_drawn (by rw [sizes, drawn]) c]
    exact h.graded.grades k
  · exact ⟨more, Nat.zero_le n, s.correct, rfl, drawn⟩

theorem Answers.collect (h : Answers s) {i : Nat} {c : UInt8} {k : Fin n} {msg : MsgBuff} {rest : List MsgBuff}
    (read : receive MsgBuff.msgtype (k + 1) s.recvQueue = some (msg, rest)) :
    Answers (recordAnswer i c k msg rest s) := by
  obtain ⟨_, head, others, subset⟩ := receive_some read
  refine ⟨fun m member => h.types m (subset m member), fun k' => ?_⟩
  have answers := h.answers k'
  by_cases same : k' = k
  · subst same
    rw [head] at answers
    simpa [recordAnswer] using answers
  · have other : (k' : Nat) + 1 ≠ k + 1 := fun eq => same (Fin.ext (Nat.succ.inj eq))
    rw [← others _ other] at answers
    simpa [recordAnswer, same] using answers

/-- The answer that is recorded is compared with the correct one, which was drawn last. -/
theorem Graded.collect (h : Graded setup s) {i : Nat} {c : UInt8} {k : Fin n} (msg : MsgBuff)
    (rest : List MsgBuff) (place : s.parent = .collecting i c k) :
    Graded setup (recordAnswer i c k msg rest s) := by
  have round := h.round
  rw [place] at round
  obtain ⟨more, _, drawn, correct, size⟩ := round
  have sizes : ∀ k' : Fin n, (s.recorded k').length = if (k' : Nat) < k then i + 1 else i := by
    intro k'
    have size := h.sizes k'
    rwa [place] at size
  have own : (s.recorded k).length = drawn.length := by rw [sizes, if_neg (lt_irrefl _), size]
  refine ⟨?_, ?_, ⟨more, k.isLt, drawn, correct, size⟩⟩
  · intro k'
    change (Function.update s.recorded k (s.recorded k ++ [msg.answer]) k').length =
      if (k' : Nat) < k + 1 then i + 1 else i
    by_cases same : k' = k
    · subst same
      rw [Function.update_self, if_pos (Nat.lt_succ_self _), List.length_append, own, size]
      rfl
    · rw [Function.update_of_ne same, sizes]
      have apart : (k' : Nat) ≠ k := fun eq => same (Fin.ext eq)
      exact if_congr (by omega) rfl rfl
  · intro k'
    change Function.update s.grades k (if msg.answer = c then s.grades k + 1 else s.grades k) k' =
      agreements (Function.update s.recorded k (s.recorded k ++ [msg.answer]) k') s.correct
    by_cases same : k' = k
    · subst same
      have before : s.grades k' = agreements (s.recorded k') drawn := by
        rw [h.grades, correct, agreements_drawn own.le]
      rw [Function.update_self, Function.update_self, correct, agreements_recorded own, before]
    · rw [Function.update_of_ne same, Function.update_of_ne same]
      exact h.grades k'

theorem Conducted.collect (h : Conducted setup s) {i : Nat} {c : UInt8} {k : Fin n} {msg : MsgBuff}
    {rest : List MsgBuff} (place : s.parent = .collecting i c k)
    (read : receive MsgBuff.msgtype (k + 1) s.recvQueue = some (msg, rest)) :
    Conducted setup (recordAnswer i c k msg rest s) := by
  refine ⟨h.sitting, ⟨h.questions.texts, fun i' => ?_⟩, h.answers.collect read, h.graded.collect msg rest place⟩
  have count := h.questions.counts i'
  rwa [place] at count

theorem Conducted.next (h : Conducted setup s) {i j : Nat} {c : UInt8} (place : s.parent = .collecting i c j)
    (all : n ≤ j) : Conducted setup { s with parent := atQuestion setup (i + 1) } := by
  have round := h.graded.round
  rw [place] at round
  obtain ⟨more, _, drawn, correct, size⟩ := round
  refine ⟨h.sitting, ⟨h.questions.texts, ?_⟩, ⟨h.answers.types, h.answers.answers⟩, ⟨?_, h.graded.grades, ?_⟩⟩
  · intro i'
    have count := h.questions.counts i'
    rw [place, posted] at count
    refine count.trans ((posted_atQuestion more n i').trans ?_).symm
    exact if_congr Nat.lt_succ_iff rfl rfl
  · intro k
    have size' := h.graded.sizes k
    rw [place, asked, if_pos (k.isLt.trans_le all)] at size'
    exact size'.trans (asked_atQuestion more k).symm
  · have length : s.correct.length = i + 1 := by rw [correct, List.length_append, size, List.length_singleton]
    change InRound setup n s.correct (atQuestion setup (i + 1))
    rw [← length]
    exact inRound_atQuestion (by omega) n

theorem Questions.text (h : Questions setup s) {i : Nat} {msg : MsgBuff} {rest : List MsgBuff}
    (read : receive MsgBuff.msgtype (i + 1) s.sendQueue = some (msg, rest)) : msg = ⟨i + 1, question i⟩ := by
  obtain ⟨type, head, _, _⟩ := receive_some read
  have member : msg ∈ s.sendQueue := (mem_channel.mp (head ▸ List.mem_cons_self)).1
  obtain ⟨i', rfl⟩ := h.texts msg member
  rw [Nat.succ.inj type]

/-- The copy that leaves the queue is one more question received. -/
theorem Questions.take (h : Questions setup s) {k : Fin n} {msg : MsgBuff} {rest : List MsgBuff}
    (answer : UInt8) (beyond : Str) (size : (s.students k).received.length = (s.students k).j)
    (read : receive MsgBuff.msgtype ((s.students k).j + 1) s.sendQueue = some (msg, rest)) :
    Questions setup (receiveQuestion k answer beyond msg rest s) := by
  obtain ⟨_, head, others, subset⟩ := receive_some read
  have queue : (receiveQuestion k answer beyond msg rest s).sendQueue = rest := rfl
  refine ⟨fun m member => h.texts m (subset m member), fun i => Eq.trans ?_ (h.counts i)⟩
  by_cases same : i = (s.students k).j
  · subst same
    have entered : census (fun st : Student => (s.students k).j < st.received.length)
        (receiveQuestion k answer beyond msg rest s).students =
        census (fun st : Student => (s.students k).j < st.received.length) s.students + 1 :=
      census_enter (by omega) (by simp [size])
    rw [head, List.length_cons, entered, queue]
    omega
  · have stayed : census (fun st : Student => i < st.received.length)
        (receiveQuestion k answer beyond msg rest s).students =
        census (fun st : Student => i < st.received.length) s.students :=
      census_stay (by simp; omega)
    have other : i + 1 ≠ (s.students k).j + 1 := fun eq => same (Nat.succ.inj eq)
    rw [stayed, queue, others _ other]

theorem Conducted.take (h : Conducted setup s) {k : Fin n} {msg : MsgBuff} {rest : List MsgBuff}
    (answer : UInt8) (beyond : Str) (place : (s.students k).place = .receiving)
    (more : (s.students k).j < setup.numQuestions)
    (read : receive MsgBuff.msgtype ((s.students k).j + 1) s.sendQueue = some (msg, rest)) :
    Conducted setup (receiveQuestion k answer beyond msg rest s) := by
  have sitting := h.sitting k
  have size := sitting.place
  rw [place] at size
  change (s.students k).received.length = (s.students k).j at size
  refine ⟨?_, h.questions.take answer beyond size read, ⟨h.answers.types, ?_⟩,
    ⟨h.graded.sizes, h.graded.grades, h.graded.round⟩⟩
  · intro k'
    by_cases same : k' = k
    · subst same
      simp only [receiveQuestion, Function.update_self]
      refine ⟨?_, ?_, sitting.bound, ?_, more, rfl⟩
      · rw [List.length_append, List.length_singleton, List.range_succ, List.map_append, ← sitting.lines,
          h.questions.text read, size]
        rfl
      · simp [sitting.answers]
      · simp [size]
    · simpa [receiveQuestion, same] using h.sitting k'
  · intro k'
    have answers := h.answers.answers k'
    by_cases same : k' = k
    · subst same
      simp only [place, StudentAt.unsent, List.append_nil] at answers
      simp [receiveQuestion, StudentAt.unsent, MsgBuff.answer, answers]
    · simpa [receiveQuestion, same] using answers

theorem Conducted.reply (h : Conducted setup s) {k : Fin n} {msg : MsgBuff}
    (place : (s.students k).place = .answering msg) : Conducted setup (sendAnswer k msg s) := by
  have sitting := h.sitting k
  have held := sitting.place
  rw [place] at held
  obtain ⟨size, more, type⟩ := held
  refine ⟨?_, ⟨h.questions.texts, ?_⟩, ⟨?_, ?_⟩, ⟨h.graded.sizes, h.graded.grades, h.graded.round⟩⟩
  · intro k'
    by_cases same : k' = k
    · subst same
      simp only [sendAnswer, Function.update_self]
      exact ⟨sitting.lines, sitting.answers, more, size⟩
    · simpa [sendAnswer, same] using h.sitting k'
  · intro i
    refine Eq.trans (congrArg _ ?_) (h.questions.counts i)
    exact census_stay Iff.rfl
  · intro m member
    rcases List.mem_append.mp member with old | new
    · exact h.answers.types m old
    · exact ⟨k, List.mem_singleton.mp new ▸ type⟩
  · intro k'
    have answers := h.answers.answers k'
    by_cases same : k' = k
    · subst same
      rw [place] at answers
      simp only [sendAnswer, Function.update_self, ← type, channel_post_same, List.map_append, List.map_cons,
        List.map_nil, StudentAt.unsent, List.append_nil] at answers ⊢
      rwa [← List.append_assoc]
    · have other : msg.msgtype ≠ (k' : Nat) + 1 := by
        intro eq
        exact same (Fin.ext (Nat.succ.inj (eq.symm.trans type)))
      simpa [sendAnswer, same, channel_post_other other] using answers

theorem Conducted.step (h : Conducted setup s) {m : Move n} (taken : step setup s m = some t) :
    Conducted setup t := by
  cases taken_of_step taken with
  | post place more => exact h.post place more
  | draw c place all => exact h.draw c place all
  | collect place read => exact h.collect place read
  | next place all => exact h.next place all
  | take answer beyond place more read => exact h.take answer beyond place more read
  | reply place => exact h.reply place

/-- Whatever the order of the processes, by induction on the moves. -/
theorem run_conducted {moves : List (Move n)} (ran : run (Exam.step setup) (start setup n) moves = some s) :
    Conducted setup s :=
  run_invariant (fun _ _ _ h taken => h.step taken) (start_conducted setup n) ran

end Steps
end NetworkOs.Exam
