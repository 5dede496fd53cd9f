import NetworkOs.Library.Runs

/-! Concurrent programs as machines whose inputs name the thread that moves. A
schedule is a list of such inputs, and what holds of every run holds of every
interleaving. -/
namespace Runs

variable {σ ι : Type*} {step : σ → ι → Option σ}

theorem run_append (s : σ) (before after : List ι) :
    run step s (before ++ after) = (run step s before).bind fun t => run step t after := by
  induction before generalizing s with
  | nil => rfl
  | cons i rest ih =>
      simp only [List.cons_append, run, Option.bind_assoc]
      exact congrArg _ (funext fun t => ih t)

theorem run_concat {s t u : σ} {inputs : List ι} {i : ι} (ran : run step s inputs = some t)
    (last : step t i = some u) : run step s (inputs ++ [i]) = some u := by
  rw [run_append, ran, Option.bind_some, run, last, Option.bind_some, run]

/-- A state with a schedule that leads to it. -/
def Reached (step : σ → ι → Option σ) (s t : σ) : Prop := ∃ inputs, run step s inputs = some t

theorem Reached.refl (s : σ) : Reached step s s := ⟨[], rfl⟩

theorem Reached.trans {s t u : σ} (first : Reached step s t) (rest : Reached step t u) :
    Reached step s u := by
  obtain ⟨before, ran⟩ := first
  obtain ⟨after, later⟩ := rest
  exact ⟨before ++ after, by rw [run_append, ran, Option.bind_some, later]⟩

theorem Reached.snoc {s t u : σ} {i : ι} (first : Reached step s t) (last : step t i = some u) :
    Reached step s u := first.trans ⟨[i], by rw [run, last, Option.bind_some, run]⟩

/-- A place that one can always come nearer to the end of is left sooner or later. -/
theorem reached_outside (Good Inside : σ → Prop) (left : σ → Nat)
    (nearer : ∀ s, Good s → Inside s → ∃ t, Reached step s t ∧ Good t ∧ (Inside t → left t < left s)) {s : σ}
    (good : Good s) : ∃ t, Reached step s t ∧ Good t ∧ ¬ Inside t := by
  induction rank : left s using Nat.strong_induction_on generalizing s with
  | _ k ih =>
      subst rank
      by_cases inside : Inside s
      · obtain ⟨t, first, good', less⟩ := nearer s good inside
        by_cases inside' : Inside t
        · obtain ⟨u, later, good'', outside⟩ := ih (left t) (less inside') good' rfl
          exact ⟨u, first.trans later, good'', outside⟩
        · exact ⟨t, first, good', inside'⟩
      · exact ⟨s, .refl s, good, inside⟩

/-- No input leads on from the state. -/
def Stuck (step : σ → ι → Option σ) (s : σ) : Prop := ∀ i, step s i = none

/-- What each guarded step keeps holds where a guarded run ends. -/
theorem guarded_run_invariant {P : σ → Prop} {G : σ → ι → Prop}
    (kept : ∀ s i t, P s → G s i → step s i = some t → P t) {s t : σ} {inputs : List ι} (start : P s)
    (guarded : Guarded step G s inputs) (ran : run step s inputs = some t) : P t := by
  induction inputs generalizing s with
  | nil => exact Option.some.inj ran ▸ start
  | cons i rest ih =>
      obtain ⟨u, taken, later⟩ := Option.bind_eq_some_iff.mp ran
      exact ih (kept s i u start guarded.1 taken) (guarded.2 u taken) later

/-- A measure that every step from a good state raises by one counts the steps. -/
theorem run_length {P : σ → Prop} {measure : σ → Nat}
    (kept : ∀ s i t, P s → step s i = some t → P t ∧ measure t = measure s + 1) {s t : σ}
    {inputs : List ι} (start : P s) (ran : run step s inputs = some t) :
    measure t = measure s + inputs.length := by
  induction inputs generalizing s with
  | nil => exact congrArg measure (Option.some.inj ran).symm
  | cons i rest ih =>
      obtain ⟨u, taken, later⟩ := Option.bind_eq_some_iff.mp ran
      obtain ⟨good, raised⟩ := kept s i u start taken
      rw [ih good later, raised, List.length_cons]
      omega

/-- A measure that every step from a good state raises bounds the length of the runs. -/
theorem run_length_le {P : σ → Prop} {measure : σ → Nat}
    (kept : ∀ s i t, P s → step s i = some t → P t ∧ measure s < measure t) {s t : σ}
    {inputs : List ι} (start : P s) (ran : run step s inputs = some t) :
    measure s + inputs.length ≤ measure t := by
  induction inputs generalizing s with
  | nil => exact (congrArg measure (Option.some.inj ran)).le
  | cons i rest ih =>
      obtain ⟨u, taken, later⟩ := Option.bind_eq_some_iff.mp ran
      obtain ⟨good, raised⟩ := kept s i u start taken
      have remaining := ih good later
      rw [List.length_cons]
      omega

end Runs
