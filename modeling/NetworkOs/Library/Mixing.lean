import Mathlib.Data.Finset.Basic

/-! Texts of a leader whose lines keep their order and of followers who write one line each,
anywhere in between but in front of the lines that await it. -/
namespace Mixing

variable {α κ : Type*} [DecidableEq κ] (own : κ → α) (awaits : α → κ → Prop)

/-- The lines `rest` of the leader, mixed with those of the followers in `left`. -/
inductive Mixes : Finset κ → List α → List α → Prop
  | done : Mixes ∅ [] []
  | follower {left : Finset κ} {rest text : List α} {k : κ} (waiting : k ∈ left)
      (later : Mixes (left.erase k) rest text) : Mixes left rest (own k :: text)
  | leader {left : Finset κ} {rest text : List α} {line : α} (ready : ∀ k ∈ left, ¬ awaits line k)
      (later : Mixes left rest text) : Mixes left (line :: rest) (line :: text)

/-- Behind `text` of a mixture from `left` and `rest` on, one from `left'` and `rest'` on is left. -/
def Begins (left : Finset κ) (rest text : List α) (left' : Finset κ) (rest' : List α) : Prop :=
  ∀ more, Mixes own awaits left' rest' more → Mixes own awaits left rest (text ++ more)

variable {own awaits} {left left' : Finset κ} {rest rest' text : List α}

theorem Begins.refl (left : Finset κ) (rest : List α) : Begins own awaits left rest [] left rest := fun _ later => later

theorem Begins.follower (h : Begins own awaits left rest text left' rest') {k : κ} (waiting : k ∈ left') :
    Begins own awaits left rest (text ++ [own k]) (left'.erase k) rest' := by
  intro more later
  rw [List.append_assoc]
  exact h _ (.follower waiting later)

theorem Begins.leader {line : α} (h : Begins own awaits left rest text left' (line :: rest'))
    (ready : ∀ k ∈ left', ¬ awaits line k) : Begins own awaits left rest (text ++ [line]) left' rest' := by
  intro more later
  rw [List.append_assoc]
  exact h _ (.leader ready later)

theorem Begins.whole (h : Begins own awaits left rest text ∅ []) : Mixes own awaits left rest text := by
  have whole := h [] .done
  rwa [List.append_nil] at whole

end Mixing
