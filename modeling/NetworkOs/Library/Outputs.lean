import NetworkOs.Library.Schedules

/-! Machines that write something in each step, and what a whole run has written. -/
namespace Runs

variable {σ ι ω : Type*} (step : σ → ι → Option σ) (out : σ → ι → List ω)

/-- What a run writes, as far as it gets. -/
def written : σ → List ι → List ω
  | _, [] => []
  | s, i :: rest =>
      match step s i with
      | none => []
      | some t => out s i ++ written t rest

/-- A run from `s` to `t` writes `text`. -/
def Writes (s : σ) (text : List ω) (t : σ) : Prop :=
  ∃ inputs, run step s inputs = some t ∧ written step out s inputs = text

variable {step out}

theorem written_cons {s t : σ} {i : ι} (taken : step s i = some t) (rest : List ι) :
    written step out s (i :: rest) = out s i ++ written step out t rest := by
  rw [written, taken]

theorem written_append {s t : σ} {before : List ι} (ran : run step s before = some t) (after : List ι) :
    written step out s (before ++ after) = written step out s before ++ written step out t after := by
  induction before generalizing s with
  | nil =>
      obtain rfl := Option.some.inj ran
      rfl
  | cons i rest ih =>
      obtain ⟨u, taken, later⟩ := Option.bind_eq_some_iff.mp ran
      rw [List.cons_append, written_cons taken, written_cons taken, ih later, List.append_assoc]

theorem Writes.refl (s : σ) : Writes step out s [] s := ⟨[], rfl, rfl⟩

theorem Writes.one {s t : σ} {i : ι} {text : List ω} (taken : step s i = some t) (prints : out s i = text) :
    Writes step out s text t := by
  refine ⟨[i], by rw [run, taken, Option.bind_some, run], ?_⟩
  rw [written_cons taken, written, List.append_nil, prints]

theorem Writes.trans {s t u : σ} {text more : List ω} (first : Writes step out s text t)
    (rest : Writes step out t more u) : Writes step out s (text ++ more) u := by
  obtain ⟨before, ran, rfl⟩ := first
  obtain ⟨after, later, rfl⟩ := rest
  exact ⟨before ++ after, by rw [run_append, ran, Option.bind_some, later], written_append ran after⟩

/-- An invariant that speaks of what has been written so far. -/
theorem written_invariant {P : σ → List ω → Prop}
    (kept : ∀ s i t text, P s text → step s i = some t → P t (text ++ out s i)) {s t : σ} {text : List ω}
    {inputs : List ι} (start : P s text) (ran : run step s inputs = some t) :
    P t (text ++ written step out s inputs) := by
  induction inputs generalizing s text with
  | nil =>
      obtain rfl := Option.some.inj ran
      rwa [written, List.append_nil]
  | cons i rest ih =>
      obtain ⟨u, taken, later⟩ := Option.bind_eq_some_iff.mp ran
      rw [written_cons taken, ← List.append_assoc]
      exact ih (kept s i u text start taken) later

/-- Blocks that can each be written on the way from a good state to a good state can be
written one after another. -/
theorem writes_flatMap {α : Type*} {P : σ → Prop} {block : α → List ω}
    (each : ∀ a s, P s → ∃ t, Writes step out s (block a) t ∧ P t) (as : List α) {s : σ} (start : P s) :
    ∃ t, Writes step out s (as.flatMap block) t ∧ P t := by
  induction as generalizing s with
  | nil => exact ⟨s, .refl s, start⟩
  | cons a rest ih =>
      obtain ⟨t, first, good⟩ := each a s start
      obtain ⟨u, later, last⟩ := ih good
      exact ⟨u, by rw [List.flatMap_cons]; exact first.trans later, last⟩

end Runs
