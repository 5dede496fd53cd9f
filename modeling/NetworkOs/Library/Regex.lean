import Mathlib.Logic.Function.Basic
import Mathlib.Data.List.Infix
import Mathlib.Tactic

/-! Regular expressions with the backtracking semantics of ECMAScript. A pattern is run
with a continuation, which is called at each position where the pattern can end, in the
order of preference, until one call succeeds. -/
namespace Regex

variable {α β : Type*}

/-- How far a match has come, and what the groups have captured. -/
structure Position (α : Type*) where
  taken : List α
  rest : List α
  groups : Nat → Option (List α)

inductive Pattern (α : Type*) where
  | oneOf (p : α → Bool)
  | seq (r q : Pattern α)
  | optional (r : Pattern α)
  | many (r : Pattern α)
  | atLeastOne (r : Pattern α)
  | group (n : Nat) (r : Pattern α)
  | start
  | finish

namespace Position

def advance (x : Position α) (u w : List α) : Position α := { x with taken := x.taken ++ u, rest := w }

def capture (x : Position α) (n : Nat) (text : List α) : Position α :=
  { x with groups := Function.update x.groups n (some text) }

/-- The groups inside a repeated pattern are reset with each repetition. -/
def clear (x : Position α) (ns : List Nat) : Position α :=
  { x with groups := fun i => if i ∈ ns then none else x.groups i }

@[simp] theorem clear_nil (x : Position α) : x.clear [] = x := by simp [clear]

@[simp] theorem rest_clear (x : Position α) (ns : List Nat) : (x.clear ns).rest = x.rest := rfl

@[simp] theorem taken_clear (x : Position α) (ns : List Nat) : (x.clear ns).taken = x.taken := rfl

@[simp] theorem rest_advance (x : Position α) (u w : List α) : (x.advance u w).rest = w := rfl

@[simp] theorem taken_advance (x : Position α) (u w : List α) : (x.advance u w).taken = x.taken ++ u := rfl

@[simp] theorem groups_advance (x : Position α) (u w : List α) : (x.advance u w).groups = x.groups := rfl

@[simp] theorem rest_capture (x : Position α) (n : Nat) (text : List α) : (x.capture n text).rest = x.rest := rfl

@[simp] theorem groups_capture (x : Position α) (n : Nat) (text : List α) :
    (x.capture n text).groups = Function.update x.groups n (some text) := rfl

@[simp] theorem advance_nil (x : Position α) : x.advance [] x.rest = x := by simp [advance]

@[simp] theorem advance_advance (x : Position α) (u w u' w' : List α) :
    (x.advance u w).advance u' w' = x.advance (u ++ u') w' := by simp [advance]

end Position

/-- A pattern is tried once more, at most `n` times, before the continuation is called.
A repetition that takes nothing fails. -/
def repeated (m : (Position α → Option β) → Position α → Option β) (ns : List Nat) (k : Position α → Option β) :
    Nat → Position α → Option β
  | 0, x => k x
  | n + 1, x =>
      (m (fun y => if y.rest.length < x.rest.length then repeated m ns k n y else none) (x.clear ns)).or (k x)

namespace Pattern

def groups : Pattern α → List Nat
  | oneOf _ | start | finish => []
  | seq r q => r.groups ++ q.groups
  | optional r | many r | atLeastOne r => r.groups
  | group n r => n :: r.groups

def run : Pattern α → (Position α → Option β) → Position α → Option β
  | oneOf p, k, x =>
      match x.rest with
      | [] => none
      | c :: w => if p c then k (x.advance [c] w) else none
  | seq r q, k, x => r.run (q.run k) x
  | optional r, k, x => repeated r.run r.groups k 1 x
  -- every repetition takes something, so there are at most as many as characters left
  | many r, k, x => repeated r.run r.groups k x.rest.length x
  | atLeastOne r, k, x => r.run (fun y => repeated r.run r.groups k y.rest.length y) (x.clear r.groups)
  | group n r, k, x => r.run (fun y => k (y.capture n (y.taken.drop x.taken.length))) x
  | start, k, x => if x.taken.isEmpty then k x else none
  | finish, k, x => if x.rest.isEmpty then k x else none

/-- The pattern of a fixed text. -/
def literal [DecidableEq α] (c : α) : List α → Pattern α
  | [] => oneOf (· = c)
  | d :: cs => seq (oneOf (· = c)) (literal d cs)

/-- The captured groups when the pattern matches the whole text. -/
def fullMatch (r : Pattern α) (text : List α) : Option (Nat → Option (List α)) :=
  r.run (fun y => if y.rest.isEmpty then some y.groups else none) ⟨[], text, fun _ => none⟩

section Runs
variable {p : α → Bool} {k : Position α → Option β} {x : Position α} {c : α} {u w : List α}

theorem run_oneOf (rest : x.rest = c :: w) : (oneOf p).run k x = if p c then k (x.advance [c] w) else none := by
  simp only [run, rest]

theorem run_oneOf_none (stop : ∀ c ∈ x.rest.head?, p c = false) : (oneOf p).run k x = none := by
  cases rest : x.rest with
  | nil => simp only [run, rest]
  | cons c w =>
      rw [run_oneOf rest, stop c (by rw [rest]; rfl)]
      exact if_neg Bool.false_ne_true

/-- A repeated class takes all it can, where the continuation fails as long as more can
be taken. -/
theorem repeated_oneOf {n : Nat} (stay : ∀ y c, y.rest.head? = some c → p c = true → k y = none)
    (enough : x.rest.length ≤ n) : repeated (oneOf p).run [] k n x =
      k (x.advance (x.rest.takeWhile p) (x.rest.dropWhile p)) := by
  generalize rest : x.rest = w at enough
  induction w generalizing x n with
  | nil =>
      have here : x.advance [] [] = x := (congrArg (x.advance []) rest.symm).trans x.advance_nil
      rw [List.takeWhile_nil, List.dropWhile_nil, here]
      cases n with
      | zero => rfl
      | succ n => rw [repeated, Position.clear_nil, run_oneOf_none (by simp [rest]), Option.none_or]
  | cons c w ih =>
      obtain ⟨n, rfl⟩ : ∃ m, n = m + 1 := ⟨n - 1, by simp at enough; omega⟩
      rw [repeated, Position.clear_nil, run_oneOf rest]
      by_cases more : p c = true
      · have shorter : w.length < x.rest.length := by simp [rest]
        rw [if_pos more, stay x c (by rw [rest]; rfl) more, Option.or_none, Position.rest_advance, if_pos shorter,
          ih rfl (by simpa using enough), Position.advance_advance, List.takeWhile_cons_of_pos more,
          List.dropWhile_cons_of_pos more, List.singleton_append]
      · rw [if_neg more, Option.none_or, List.takeWhile_cons_of_neg more, List.dropWhile_cons_of_neg more, ← rest,
          Position.advance_nil]

theorem run_many_oneOf (stay : ∀ y c, y.rest.head? = some c → p c = true → k y = none) :
    (many (oneOf p)).run k x = k (x.advance (x.rest.takeWhile p) (x.rest.dropWhile p)) :=
  repeated_oneOf stay le_rfl

/-- One character of the class and then as many as there are. -/
theorem run_atLeastOne (stay : ∀ y c, y.rest.head? = some c → p c = true → k y = none)
    (some_ : x.rest.takeWhile p ≠ []) : (atLeastOne (oneOf p)).run k x =
      k (x.advance (x.rest.takeWhile p) (x.rest.dropWhile p)) := by
  cases rest : x.rest with
  | nil => exact absurd (by rw [rest, List.takeWhile_nil]) some_
  | cons c w =>
      have first : p c = true := by
        by_contra other
        exact some_ (by rw [rest, List.takeWhile_cons_of_neg other])
      rw [run, groups, Position.clear_nil, run_oneOf rest, if_pos first, repeated_oneOf stay le_rfl,
        Position.rest_advance, Position.advance_advance, List.takeWhile_cons_of_pos first,
        List.dropWhile_cons_of_pos first, List.singleton_append]

theorem run_atLeastOne_none (stop : ∀ c ∈ x.rest.head?, p c = false) : (atLeastOne (oneOf p)).run k x = none := by
  rw [run, groups, Position.clear_nil]
  exact run_oneOf_none stop

theorem run_literal [DecidableEq α] {cs : List α} (rest : x.rest = c :: cs ++ w) :
    (literal c cs).run k x = k (x.advance (c :: cs) w) := by
  induction cs generalizing c x with
  | nil =>
      have rest : x.rest = c :: w := rest
      rw [literal, run_oneOf rest, if_pos (decide_eq_true rfl)]
  | cons d cs ih =>
      have rest : x.rest = c :: (d :: cs ++ w) := rest
      rw [literal, run, run_oneOf rest, if_pos (decide_eq_true rfl)]
      exact (ih rfl).trans (by rw [Position.advance_advance, List.singleton_append])

theorem run_literal_none [DecidableEq α] {cs : List α} (other : ¬ c :: cs <+: x.rest) :
    (literal c cs).run k x = none := by
  induction cs generalizing c x with
  | nil =>
      refine run_oneOf_none fun d first => decide_eq_false fun same => other ?_
      obtain ⟨w, rest⟩ := List.head?_eq_some_iff.mp first
      exact ⟨w, by rw [rest, same]; rfl⟩
  | cons d cs ih =>
      rw [literal, run]
      cases rest : x.rest with
      | nil => exact run_oneOf_none (by simp [rest])
      | cons e w =>
          rw [run_oneOf rest]
          split_ifs with same
          · obtain rfl := of_decide_eq_true same
            refine ih fun fits => other ?_
            rw [rest]
            exact List.cons_prefix_cons.mpr ⟨rfl, fits⟩
          · rfl

theorem run_seq (r q : Pattern α) : (seq r q).run k x = r.run (q.run k) x := rfl

theorem run_group (n : Nat) (r : Pattern α) :
    (group n r).run k x = r.run (fun y => k (y.capture n (y.taken.drop x.taken.length))) x := rfl

/-- An optional pattern is tried before it is left out. -/
theorem run_optional (r : Pattern α) : (optional r).run k x =
    (r.run (fun y => if y.rest.length < x.rest.length then k y else none) (x.clear r.groups)).or (k x) := rfl

end Runs
end Pattern
end Regex
