import NetworkOs.Exam.Processes
import Mathlib.Data.Rat.Cast.Order
import Mathlib.Tactic.Linarith
import Mathlib.Tactic.NormNum
import Mathlib.Tactic.FieldSimp

/-! The letter grades: what the parent makes of `grades` once all questions are through. -/
namespace NetworkOs.Exam

inductive Letter where
  | F | D | C | B | A
deriving DecidableEq, Repr

def Letter.rank : Letter → Nat
  | .F => 0 | .D => 1 | .C => 2 | .B => 3 | .A => 4

/-- `F, D, C, B, A`, from the worst to the best. -/
instance : LE Letter := ⟨fun a b => a.rank ≤ b.rank⟩

instance (a b : Letter) : Decidable (a ≤ b) := inferInstanceAs (Decidable (a.rank ≤ b.rank))

/-- `temp`, without the rounding of `double`. -/
def percentage (numQuestions grade : Nat) : ℚ := (grade : ℚ) / numQuestions * 100

def finalGrade (temp : ℚ) : Letter :=
  if temp ≥ 50 then .A
  else if temp ≥ 40 ∧ temp ≤ 49 then .B
  else if temp ≥ 30 ∧ temp ≤ 39 then .C
  else if temp ≥ 20 ∧ temp ≤ 29 then .D
  else .F

/-- The loop over the students behind the questions. -/
def finalGrades {n : Nat} (setup : Setup) (s : State n) (i : Fin n) : Letter :=
  finalGrade (percentage setup.numQuestions (s.grades i))

/-- The percentage lies between two intervals of the grading, where only the `else` is left. -/
def BetweenGrades (numQuestions grade : Nat) : Prop :=
  (29 * numQuestions < 100 * grade ∧ 100 * grade < 30 * numQuestions) ∨
  (39 * numQuestions < 100 * grade ∧ 100 * grade < 40 * numQuestions) ∨
  (49 * numQuestions < 100 * grade ∧ 100 * grade < 50 * numQuestions)

instance (numQuestions grade : Nat) : Decidable (BetweenGrades numQuestions grade) :=
  inferInstanceAs (Decidable (_ ∨ _ ∨ _))

theorem letter_le_iff (a b : Letter) : a ≤ b ↔ a.rank ≤ b.rank := Iff.rfl

theorem percentage_eq (numQuestions grade : Nat) :
    percentage numQuestions grade = ((100 * grade : Nat) : ℚ) / numQuestions := by
  push_cast [percentage]
  ring

section Exact
variable {numQuestions : Nat} (some_question : 1 ≤ numQuestions)
include some_question

theorem le_percentage_iff (k grade : Nat) :
    (k : ℚ) ≤ percentage numQuestions grade ↔ k * numQuestions ≤ 100 * grade := by
  have positive : (0 : ℚ) < numQuestions := by exact_mod_cast some_question
  rw [percentage_eq, le_div_iff₀ positive]
  exact_mod_cast Iff.rfl

theorem percentage_le_iff (k grade : Nat) :
    percentage numQuestions grade ≤ k ↔ 100 * grade ≤ k * numQuestions := by
  have positive : (0 : ℚ) < numQuestions := by exact_mod_cast some_question
  rw [percentage_eq, div_le_iff₀ positive]
  exact_mod_cast Iff.rfl

theorem finalGrade_rank (grade : Nat) :
    (finalGrade (percentage numQuestions grade)).rank =
      if 100 * grade < 20 * numQuestions ∨ BetweenGrades numQuestions grade then 0
      else if 100 * grade < 30 * numQuestions then 1
      else if 100 * grade < 40 * numQuestions then 2
      else if 100 * grade < 50 * numQuestions then 3 else 4 := by
  have least := fun k => le_percentage_iff some_question k grade
  have most := fun k => percentage_le_iff some_question k grade
  have h20 := least 20; have h29 := most 29
  have h30 := least 30; have h39 := most 39
  have h40 := least 40; have h49 := most 49
  have h50 := least 50
  push_cast at h20 h29 h30 h39 h40 h49 h50
  simp only [finalGrade, BetweenGrades, ge_iff_le, h20, h29, h30, h39, h40, h49, h50]
  grind [Letter.rank]

/-- Without the gaps the intervals follow each other in the order of the letters. -/
theorem finalGrade_mono {g₁ g₂ : Nat} (h : g₁ ≤ g₂) (covered : ¬ BetweenGrades numQuestions g₂) :
    finalGrade (percentage numQuestions g₁) ≤ finalGrade (percentage numQuestions g₂) := by
  rw [letter_le_iff, finalGrade_rank some_question, finalGrade_rank some_question]
  have ordered : 100 * g₁ ≤ 100 * g₂ := Nat.mul_le_mul_left 100 h
  by_cases failed : 100 * g₂ < 20 * numQuestions
  · rw [if_pos (.inl (lt_of_le_of_lt ordered failed))]
    exact Nat.zero_le _
  · rw [if_neg (show ¬ (100 * g₂ < 20 * numQuestions ∨ BetweenGrades numQuestions g₂) by tauto)]
    split <;> split_ifs <;> omega

/-- In a gap the grade falls to `F`, so that only an `F` is not better. -/
theorem finalGrade_gap {g₁ g₂ : Nat} (gap : BetweenGrades numQuestions g₂) :
    finalGrade (percentage numQuestions g₁) ≤ finalGrade (percentage numQuestions g₂) ↔
      100 * g₁ < 20 * numQuestions ∨ BetweenGrades numQuestions g₁ := by
  rw [letter_le_iff, finalGrade_rank some_question, finalGrade_rank some_question,
    if_pos (show 100 * g₂ < 20 * numQuestions ∨ BetweenGrades numQuestions g₂ from .inr gap)]
  by_cases failed : 100 * g₁ < 20 * numQuestions ∨ BetweenGrades numQuestions g₁
  · simp [failed]
  · rw [if_neg failed]
    simp only [failed, iff_false]
    split_ifs <;> omega

end Exact

/-- The grades of an exam as a whole are monotone exactly if none of them can fall
into a gap. -/
theorem scale_monotone_iff {numQuestions : Nat} (some_question : 1 ≤ numQuestions) :
    (∀ g₁ g₂, g₁ ≤ g₂ → g₂ ≤ numQuestions →
      finalGrade (percentage numQuestions g₁) ≤ finalGrade (percentage numQuestions g₂)) ↔
      ∀ g ≤ numQuestions, ¬ BetweenGrades numQuestions g := by
  constructor
  · intro monotone g answered gap
    -- no gap is wide enough for a fraction with a small denominator, so a `D` lies below it
    have below : 29 * numQuestions / 100 ≤ g := by
      unfold BetweenGrades at gap
      omega
    rcases (finalGrade_gap some_question gap).mp (monotone _ _ below answered) with failed | between
    · unfold BetweenGrades at gap
      omega
    · unfold BetweenGrades at between
      omega
  · intro covered g₁ g₂ ordered answered
    exact finalGrade_mono some_question ordered (covered g₂ answered)

/-- Two students of one exam, as the parent grades them. -/
theorem finalGrades_mono {n : Nat} (setup : Setup) (s : State n) (some_question : 1 ≤ setup.numQuestions)
    {i k : Fin n} (ordered : s.grades i ≤ s.grades k)
    (covered : ¬ BetweenGrades setup.numQuestions (s.grades k)) :
    finalGrades setup s i ≤ finalGrades setup s k :=
  finalGrade_mono some_question ordered covered

/-- A larger count of correct answers has the worse grade exactly if its percentage lies
between two intervals of the grading and that of the smaller count lies in one of them. -/
theorem better_grade_iff {numQuestions g₁ g₂ : Nat} (some_question : 1 ≤ numQuestions)
    (ordered : g₁ ≤ g₂) (_answered : g₂ ≤ numQuestions) :
    finalGrade (percentage numQuestions g₁) ≤ finalGrade (percentage numQuestions g₂) ↔
      ¬ (BetweenGrades numQuestions g₂ ∧ 20 * numQuestions ≤ 100 * g₁ ∧ ¬ BetweenGrades numQuestions g₁) := by
  by_cases gap : BetweenGrades numQuestions g₂
  · rw [finalGrade_gap some_question gap]
    constructor
    · rintro (failed | between) ⟨-, passed, covered⟩
      · omega
      · exact covered between
    · intro h
      by_contra other
      push Not at other
      exact h ⟨gap, other.1, other.2⟩
  · exact iff_of_true (finalGrade_mono some_question ordered gap) fun h => gap h.1

theorem better_grade_iff_ten :
    finalGrade (percentage 10 2) ≤ finalGrade (percentage 10 3) ↔
      ¬ (BetweenGrades 10 3 ∧ 20 * 10 ≤ 100 * 2 ∧ ¬ BetweenGrades 10 2) :=
  better_grade_iff (by decide) (by decide) (by decide)

/-- Four of 17 answers are a `D`, five of them are an `F`. -/
theorem grade_falls_in_gap :
    ¬ ∀ numQuestions g₁ g₂ : Nat, 1 ≤ numQuestions → g₁ ≤ g₂ → g₂ ≤ numQuestions →
      finalGrade (percentage numQuestions g₁) ≤ finalGrade (percentage numQuestions g₂) := by
  intro monotone
  have fallen := monotone 17 4 5 (by decide) (by decide) (by decide)
  exact absurd ((finalGrade_gap (by decide) (by decide)).mp fallen) (by decide)

end NetworkOs.Exam
