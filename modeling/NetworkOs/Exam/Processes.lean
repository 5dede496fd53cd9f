import NetworkOs.Library.Schedules
import NetworkOs.Library.Mailbox
import NetworkOs.Text

/-! The online exam: a parent and any number of students that share a queue of questions
and a queue of answers. A step is one call of `msgsnd` or `msgrcv` with the local work
around it, or the parent's draw of a correct answer. -/
namespace NetworkOs.Exam
open Runs Mailbox

structure MsgBuff where
  msgtype : Nat
  msgtext : Str
deriving DecidableEq, Repr

/-- How much a queue may hold, `none` without a bound. -/
abbrev Capacity := Option Nat

def Capacity.hasRoom (capacity : Capacity) (queue : List MsgBuff) : Bool :=
  match capacity with
  | none => true
  | some limit => queue.length < limit

structure Setup where
  numQuestions : Nat
  sendCapacity : Capacity
  recvCapacity : Capacity

/-- A student waits for its next question, or has an answer to send. -/
inductive StudentAt where
  | receiving
  | answering (msg : MsgBuff)
deriving DecidableEq, Repr

/-- A student in round `j` of its loop, with the lines it has printed and the answers
it has generated. -/
structure Student where
  j : Nat
  place : StudentAt
  received : List (Nat × Str)
  answers : List UInt8
deriving DecidableEq, Repr

/-- The place of the parent: round `i`, and the copy to send or the student to ask next. -/
inductive ParentAt where
  | sending (i j : Nat)
  | collecting (i : Nat) (correctAnswer : UInt8) (j : Nat)
  | grading
deriving DecidableEq, Repr

/-- The queues, the processes, and what the parent has drawn, recorded and graded. -/
structure State (n : Nat) where
  sendQueue : List MsgBuff
  recvQueue : List MsgBuff
  parent : ParentAt
  correct : List UInt8
  recorded : Fin n → List UInt8
  grades : Fin n → Nat
  students : Fin n → Student

/-- `random_number % 4 + 'A'`. -/
def generateAnswer (randomNumber : Nat) : UInt8 := UInt8.ofNat (randomNumber % 4 + 65)

/-- `"Question " + to_string(i + 1) + "?"`. -/
def question (i : Nat) : Str := ascii ("Question ".toList ++ (toString (i + 1)).toList ++ ['?'])

/-- `msg.msgtext[0]`. -/
def MsgBuff.answer (msg : MsgBuff) : UInt8 := msg.msgtext.headD 0

section Steps
variable {n : Nat} (setup : Setup)

/-- The test of the parent's loop over the questions. -/
def atQuestion (i : Nat) : ParentAt := if i < setup.numQuestions then .sending i 0 else .grading

/-- The processes after the forks. -/
def start (n : Nat) : State n where
  sendQueue := []
  recvQueue := []
  parent := atQuestion setup 0
  correct := []
  recorded _ := []
  grades _ := 0
  students _ := ⟨0, .receiving, [], []⟩

/-- One `msgsnd` of question `i`. -/
def sendQuestion (i j : Nat) (s : State n) : State n :=
  { s with sendQueue := s.sendQueue ++ [⟨i + 1, question i⟩], parent := .sending i (j + 1) }

def drawAnswer (i : Nat) (correctAnswer : UInt8) (s : State n) : State n :=
  { s with correct := s.correct ++ [correctAnswer], parent := .collecting i correctAnswer 0 }

/-- One `msgrcv` of the parent, with the comparison of the answer. -/
def recordAnswer (i : Nat) (correctAnswer : UInt8) (k : Fin n) (msg : MsgBuff) (rest : List MsgBuff)
    (s : State n) : State n :=
  { s with
    recvQueue := rest
    recorded := Function.update s.recorded k (s.recorded k ++ [msg.answer])
    grades := Function.update s.grades k
      (if msg.answer = correctAnswer then s.grades k + 1 else s.grades k)
    parent := .collecting i correctAnswer (k + 1) }

/-- The parent's step; `randomNumber` is what `generate_answer` draws, if it is called. -/
def parentStep (randomNumber : Nat) (s : State n) : Option (State n) :=
  match s.parent with
  | .sending i j =>
      if j < n then
        if setup.sendCapacity.hasRoom s.sendQueue then some (sendQuestion i j s) else none
      else some (drawAnswer i (generateAnswer randomNumber) s)
  | .collecting i correctAnswer j =>
      if student : j < n then
        (receive MsgBuff.msgtype (j + 1) s.recvQueue).map fun taken =>
          recordAnswer i correctAnswer ⟨j, student⟩ taken.1 taken.2 s
      else some { s with parent := atQuestion setup (i + 1) }
  | .grading => none

/-- One `msgrcv` of student `i`, which prints the question and generates an answer.
`strcpy` copies the answer and, as no NUL follows it, the bytes `beyond` behind it. -/
def receiveQuestion (i : Fin n) (answer : UInt8) (beyond : Str) (msg : MsgBuff) (rest : List MsgBuff)
    (s : State n) : State n :=
  let st := s.students i
  { s with
    sendQueue := rest
    students := Function.update s.students i
      { st with
        place := .answering ⟨i + 1, answer :: beyond⟩
        received := st.received ++ [(st.j + 1, msg.msgtext)]
        answers := st.answers ++ [answer] } }

/-- One `msgsnd` of student `i`. -/
def sendAnswer (i : Fin n) (msg : MsgBuff) (s : State n) : State n :=
  { s with
    recvQueue := s.recvQueue ++ [msg]
    students := Function.update s.students i
      { s.students i with place := .receiving, j := (s.students i).j + 1 } }

def studentStep (i : Fin n) (randomNumber : Nat) (beyond : Str) (s : State n) : Option (State n) :=
  match (s.students i).place with
  | .receiving =>
      if (s.students i).j < setup.numQuestions then
        (receive MsgBuff.msgtype ((s.students i).j + 1) s.sendQueue).map fun taken =>
          receiveQuestion i (generateAnswer randomNumber) beyond taken.1 taken.2 s
      else none
  | .answering msg =>
      if setup.recvCapacity.hasRoom s.recvQueue then some (sendAnswer i msg s) else none

/-- Which process moves, with the values it draws. -/
inductive Move (n : Nat) where
  | parent (randomNumber : Nat)
  | student (i : Fin n) (randomNumber : Nat) (beyond : Str)
deriving DecidableEq, Repr

def step (s : State n) : Move n → Option (State n)
  | .parent randomNumber => parentStep setup randomNumber s
  | .student i randomNumber beyond => studentStep setup i randomNumber beyond s

/-- What a step can be. -/
inductive Taken (s : State n) : State n → Prop where
  | post {i j : Nat} (place : s.parent = .sending i j) (more : j < n) : Taken s (sendQuestion i j s)
  | draw {i j : Nat} (correctAnswer : UInt8) (place : s.parent = .sending i j) (all : n ≤ j) :
      Taken s (drawAnswer i correctAnswer s)
  | collect {i : Nat} {correctAnswer : UInt8} {k : Fin n} {msg : MsgBuff} {rest : List MsgBuff}
      (place : s.parent = .collecting i correctAnswer k)
      (read : receive MsgBuff.msgtype (k + 1) s.recvQueue = some (msg, rest)) :
      Taken s (recordAnswer i correctAnswer k msg rest s)
  | next {i j : Nat} {correctAnswer : UInt8} (place : s.parent = .collecting i correctAnswer j) (all : n ≤ j) :
      Taken s { s with parent := atQuestion setup (i + 1) }
  | take {k : Fin n} {msg : MsgBuff} {rest : List MsgBuff} (answer : UInt8) (beyond : Str)
      (place : (s.students k).place = .receiving) (more : (s.students k).j < setup.numQuestions)
      (read : receive MsgBuff.msgtype ((s.students k).j + 1) s.sendQueue = some (msg, rest)) :
      Taken s (receiveQuestion k answer beyond msg rest s)
  | reply {k : Fin n} {msg : MsgBuff} (place : (s.students k).place = .answering msg) :
      Taken s (sendAnswer k msg s)

variable {setup}

theorem taken_of_step {s t : State n} {m : Move n} (taken : step setup s m = some t) : Taken setup s t := by
  cases m with
  | parent randomNumber =>
      change parentStep setup randomNumber s = some t at taken
      unfold parentStep at taken
      cases place : s.parent with
      | sending i j =>
          simp only [place] at taken
          split_ifs at taken with more
          · exact Option.some.inj taken ▸ .post place more
          · exact Option.some.inj taken ▸ .draw _ place (not_lt.mp more)
      | collecting i correctAnswer j =>
          simp only [place] at taken
          split_ifs at taken with more
          · obtain ⟨⟨msg, rest⟩, read, rfl⟩ := Option.map_eq_some_iff.mp taken
            exact .collect (k := ⟨j, more⟩) place read
          · exact Option.some.inj taken ▸ .next place (not_lt.mp more)
      | grading => simp [place] at taken
  | student i randomNumber beyond =>
      change studentStep setup i randomNumber beyond s = some t at taken
      unfold studentStep at taken
      cases place : (s.students i).place with
      | receiving =>
          simp only [place] at taken
          split_ifs at taken with more
          obtain ⟨⟨msg, rest⟩, read, rfl⟩ := Option.map_eq_some_iff.mp taken
          exact .take _ beyond place more read
      | answering msg =>
          simp only [place] at taken
          split_ifs at taken
          exact Option.some.inj taken ▸ .reply place

variable {s : State n}

theorem step_post {i j : Nat} (place : s.parent = .sending i j) (more : j < n)
    (room : setup.sendCapacity.hasRoom s.sendQueue = true) (randomNumber : Nat) :
    step setup s (.parent randomNumber) = some (sendQuestion i j s) := by
  simp only [step, parentStep, place, more, room, if_true]

theorem step_draw {i j : Nat} (place : s.parent = .sending i j) (all : ¬ j < n) (randomNumber : Nat) :
    step setup s (.parent randomNumber) = some (drawAnswer i (generateAnswer randomNumber) s) := by
  simp only [step, parentStep, place, all, if_false]

theorem step_next {i j : Nat} {c : UInt8} (place : s.parent = .collecting i c j) (all : ¬ j < n)
    (randomNumber : Nat) :
    step setup s (.parent randomNumber) = some { s with parent := atQuestion setup (i + 1) } := by
  simp only [step, parentStep, place, all]
  rfl

theorem step_collect_isSome {i : Nat} {c : UInt8} {k : Fin n} (place : s.parent = .collecting i c k)
    (randomNumber : Nat) : (step setup s (.parent randomNumber)).isSome ↔
      channel MsgBuff.msgtype (k + 1) s.recvQueue ≠ [] := by
  simp only [step, parentStep, place, k.isLt, dif_pos, Option.isSome_map]
  rw [Option.isSome_iff_ne_none, ne_eq, receive_none]

theorem step_take {k : Fin n} {msg : MsgBuff} {rest : List MsgBuff} (place : (s.students k).place = .receiving)
    (more : (s.students k).j < setup.numQuestions)
    (read : receive MsgBuff.msgtype ((s.students k).j + 1) s.sendQueue = some (msg, rest))
    (randomNumber : Nat) (beyond : Str) : step setup s (.student k randomNumber beyond) =
      some (receiveQuestion k (generateAnswer randomNumber) beyond msg rest s) := by
  simp only [step, studentStep, place, more, if_true, read, Option.map_some]

theorem step_reply {k : Fin n} {msg : MsgBuff} (place : (s.students k).place = .answering msg)
    (room : setup.recvCapacity.hasRoom s.recvQueue = true) (randomNumber : Nat) (beyond : Str) :
    step setup s (.student k randomNumber beyond) = some (sendAnswer k msg s) := by
  simp only [step, studentStep, place, room, if_true]

end Steps
end NetworkOs.Exam
