import Mathlib.Logic.Relation
import Mathlib.Tactic

/-! Runs of partial deterministic machines. A machine is a step function that
answers `none` where it cannot go on; inputs, when it has any, come from a list. -/
namespace Runs

section Inputs
variable {σ ι : Type*} (step : σ → ι → Option σ)

/-- The state a list of inputs leads to, `none` when some step is stuck. -/
def run : σ → List ι → Option σ
  | s, [] => some s
  | s, i :: rest => (step s i).bind fun t => run t rest

/-- No step of the run is stuck and `P` holds after each of them. -/
def Always (P : σ → Prop) : σ → List ι → Prop
  | _, [] => True
  | s, i :: rest => ∃ t, step s i = some t ∧ P t ∧ Always P t rest

/-- Each step of the run starts in a state and takes an input that satisfy `G`. -/
def Guarded (G : σ → ι → Prop) : σ → List ι → Prop
  | _, [] => True
  | s, i :: rest => G s i ∧ ∀ t, step s i = some t → Guarded G t rest

variable {step}

instance decidableGuarded {G : σ → ι → Prop} [∀ s i, Decidable (G s i)] :
    ∀ s inputs, Decidable (Guarded step G s inputs)
  | _, [] => isTrue trivial
  | s, i :: rest =>
      match taken : step s i with
      | none => decidable_of_iff (G s i) (by simp [Guarded, taken])
      | some t =>
          have := decidableGuarded (G := G) t rest
          decidable_of_iff (G s i ∧ Guarded step G t rest) (by simp [Guarded, taken])

/-- A guard that is exact for one step is exact for runs. `Q` is what every step
keeps, guarded or not. -/
theorem always_iff_guarded {Q P : σ → Prop} {G : σ → ι → Prop}
    (kept : ∀ s i t, Q s → step s i = some t → Q t)
    (exact_step : ∀ s i, Q s → P s → ((∃ t, step s i = some t ∧ P t) ↔ G s i))
    {s : σ} (well : Q s) (start : P s) (inputs : List ι) :
    Always step P s inputs ↔ Guarded step G s inputs := by
  induction inputs generalizing s with
  | nil => exact Iff.rfl
  | cons i rest ih =>
      constructor
      · rintro ⟨t, taken, good, later⟩
        refine ⟨(exact_step s i well start).mp ⟨t, taken, good⟩, ?_⟩
        intro u also
        obtain rfl : t = u := Option.some.inj (taken.symm.trans also)
        exact (ih (kept s i t well taken) good).mp later
      · rintro ⟨guard, later⟩
        obtain ⟨t, taken, good⟩ := (exact_step s i well start).mpr guard
        exact ⟨t, taken, good, (ih (kept s i t well taken) good).mpr (later t taken)⟩

/-- Guards that agree in the states a guarded run can reach guard the same runs. -/
theorem guarded_congr {Q : σ → Prop} {G H : σ → ι → Prop} (exact_step : ∀ s i, Q s → (G s i ↔ H s i))
    (kept : ∀ s i t, Q s → H s i → step s i = some t → Q t) {s : σ} (start : Q s) (inputs : List ι) :
    Guarded step G s inputs ↔ Guarded step H s inputs := by
  induction inputs generalizing s with
  | nil => exact Iff.rfl
  | cons i rest ih =>
      refine (and_congr_left' (exact_step s i start)).trans (and_congr_right fun guard => ?_)
      exact forall_congr' fun t => forall_congr' fun taken => ih (kept s i t start guard taken)

/-- A guarded run is never stuck where no guarded step is. -/
theorem Guarded.always {Q P : σ → Prop} {G : σ → ι → Prop}
    (progress : ∀ s i, Q s → G s i → ∃ t, step s i = some t ∧ Q t ∧ P t) {s : σ} {inputs : List ι} (start : Q s)
    (h : Guarded step G s inputs) : Always step P s inputs := by
  induction inputs generalizing s with
  | nil => trivial
  | cons i rest ih =>
      obtain ⟨t, taken, well, good⟩ := progress s i start h.1
      exact ⟨t, taken, good, ih well (h.2 t taken)⟩

/-- A run is stuck nowhere exactly where a guard holds throughout that is exact for one step. -/
theorem run_isSome_iff {G : σ → ι → Prop} (exact_step : ∀ s i, (step s i).isSome ↔ G s i) (s : σ) (inputs : List ι) :
    (run step s inputs).isSome ↔ Guarded step G s inputs := by
  induction inputs generalizing s with
  | nil => exact iff_of_true rfl trivial
  | cons i rest ih =>
      rw [run, Guarded, ← exact_step s i]
      cases taken : step s i with
      | none => simp
      | some t => simp [ih t]

theorem run_invariant {P : σ → Prop} (kept : ∀ s i t, P s → step s i = some t → P t) {s t : σ} {inputs : List ι}
    (start : P s) (ran : run step s inputs = some t) : P t := by
  induction inputs generalizing s with
  | nil => exact Option.some.inj ran ▸ start
  | cons i rest ih =>
      obtain ⟨u, taken, later⟩ := Option.bind_eq_some_iff.mp ran
      exact ih (kept s i u start taken) later

end Inputs

section Ticks
variable {σ : Type*} (tick : σ → Option σ)

/-- One tick taken from a state that satisfies the guard. -/
def GuardedTick (G : σ → Prop) (s t : σ) : Prop := G s ∧ tick s = some t

/-- `t` comes from `s` by finitely many ticks. -/
def Reaches (s t : σ) : Prop := Relation.ReflTransGen (fun a b => tick a = some b) s t

variable {tick}

theorem guarded_invariant {P G : σ → Prop}
    (preserved : ∀ s t, P s → G s → tick s = some t → P t) {s t : σ} (start : P s)
    (h : Relation.ReflTransGen (GuardedTick tick G) s t) : P t := by
  induction h with
  | refl => exact start
  | tail _ last ih => exact preserved _ _ ih last.1 last.2

theorem reaches_invariant {P : σ → Prop} (preserved : ∀ s t, P s → tick s = some t → P t)
    {s t : σ} (start : P s) (h : Reaches tick s t) : P t := by
  induction h with
  | refl => exact start
  | tail _ last ih => exact preserved _ _ ih last

theorem Reaches.refl (s : σ) : Reaches tick s s := Relation.ReflTransGen.refl

theorem Reaches.head {s t u : σ} (first : tick s = some t) (rest : Reaches tick t u) :
    Reaches tick s u := Relation.ReflTransGen.head first rest

theorem Reaches.trans {s t u : σ} (first : Reaches tick s t) (rest : Reaches tick t u) :
    Reaches tick s u := Relation.ReflTransGen.trans first rest

variable (tick) in
/-- Iterated ticks, for evaluating a machine on a given start. -/
def iterate : Nat → σ → Option σ
  | 0, s => some s
  | n + 1, s => (tick s).bind (iterate n)

theorem reaches_of_iterate {n : Nat} {s t : σ} (h : iterate tick n s = some t) :
    Reaches tick s t := by
  induction n generalizing s with
  | zero => exact Option.some.inj h ▸ Reaches.refl s
  | succ n ih =>
      obtain ⟨m, first, rest⟩ := Option.bind_eq_some_iff.mp h
      exact Reaches.head first (ih rest)

theorem Reaches.iterate {s t : σ} (h : Reaches tick s t) : ∃ n, iterate tick n s = some t := by
  induction h using Relation.ReflTransGen.head_induction_on with
  | refl => exact ⟨0, rfl⟩
  | head first _ ih =>
      obtain ⟨n, rest⟩ := ih
      exact ⟨n + 1, Option.bind_eq_some_iff.mpr ⟨_, first, rest⟩⟩

variable (tick) in
/-- Iterated ticks that stop where the guard fails. -/
def guardedIterate (G : σ → Prop) [DecidablePred G] : Nat → σ → Option σ
  | 0, s => some s
  | n + 1, s => if G s then (tick s).bind (guardedIterate G n) else none

theorem guarded_of_iterate {G : σ → Prop} [DecidablePred G] {n : Nat} {s t : σ}
    (h : guardedIterate tick G n s = some t) :
    Relation.ReflTransGen (GuardedTick tick G) s t := by
  induction n generalizing s with
  | zero => exact Option.some.inj h ▸ Relation.ReflTransGen.refl
  | succ n ih =>
      simp only [guardedIterate] at h
      split_ifs at h with guard
      obtain ⟨m, first, rest⟩ := Option.bind_eq_some_iff.mp h
      exact Relation.ReflTransGen.head ⟨guard, first⟩ (ih rest)

end Ticks
end Runs
