import Mathlib

/-! The words of a text: the longest runs without a blank. -/
namespace Words

variable {α : Type*} {blank : α → Bool} {text w : List α}

def words (blank : α → Bool) (text : List α) : List (List α) := (text.splitOnP blank).filter fun w => !w.isEmpty

structure IsWord (blank : α → Bool) (w : List α) : Prop where
  nonempty : w ≠ []
  solid : ∀ a ∈ w, blank a = false

theorem words_append (before after : List α) {sep : α} (blank_ : blank sep = true) :
    words blank (before ++ sep :: after) = words blank before ++ words blank after := by
  unfold words
  rw [List.splitOnP_append_cons before after blank_, List.filter_append]

theorem words_nil : words blank ([] : List α) = [] := by
  simp [words, List.splitOnP_nil]

theorem words_cons_blank (text : List α) {sep : α} (blank_ : blank sep = true) :
    words blank (sep :: text) = words blank text := by
  rw [← List.nil_append (sep :: text), words_append [] text blank_, words_nil, List.nil_append]

theorem IsWord.words_eq (h : IsWord blank w) : words blank w = [w] := by
  unfold words
  rw [List.splitOnP_eq_singleton h.solid]
  simp [h.nonempty]

theorem IsWord.words_append (h : IsWord blank w) (after : List α) {sep : α} (blank_ : blank sep = true) :
    words blank (w ++ sep :: after) = w :: words blank after := by
  rw [Words.words_append w after blank_, h.words_eq, List.singleton_append]

theorem solid_of_mem_splitOnP (piece : w ∈ text.splitOnP blank) : ∀ a ∈ w, blank a = false := by
  induction text generalizing w with
  | nil =>
      rw [List.splitOnP_nil, List.mem_singleton] at piece
      subst piece
      exact fun a member => absurd member List.not_mem_nil
  | cons b rest ih =>
      rw [List.splitOnP_cons_eq_if_modifyHead] at piece
      split_ifs at piece with separator
      · rcases List.mem_cons.mp piece with rfl | later
        · exact fun a member => absurd member List.not_mem_nil
        · exact ih later
      · obtain ⟨first, others, split⟩ := List.exists_cons_of_ne_nil (List.splitOnP_ne_nil blank rest)
        rw [split, List.modifyHead_cons] at piece
        rcases List.mem_cons.mp piece with rfl | later
        · intro a member
          rcases List.mem_cons.mp member with rfl | inside
          · exact Bool.eq_false_iff.mpr separator
          · exact ih (split ▸ List.mem_cons_self) a inside
        · exact ih (split ▸ List.mem_cons_of_mem first later)

theorem isWord_of_mem (member : w ∈ words blank text) : IsWord blank w := by
  obtain ⟨piece, nonempty⟩ := List.mem_filter.mp member
  exact ⟨by simpa using nonempty, solid_of_mem_splitOnP piece⟩

end Words
