import Mathlib

/-! Doubly linked lists in a heap. A cell's two pointers may be unset; reading an
unset pointer has no result. The cells a list consists of are named by a list of
addresses, and the two editing operations are specified on that list. -/
namespace LinkedList

/-- The pointer fields of a heap of cells, `none` where a field is unset. -/
structure Links (α : Type*) where
  prev : α → Option α
  next : α → Option α

section
variable {α : Type*}

/-- `b` follows `a`, by both pointers. -/
def Links.Adjacent (L : Links α) (a b : α) : Prop := L.next a = some b ∧ L.prev b = some a

/-- The distinct cells `cells` are linked in this order. -/
structure Links.Spans (L : Links α) (cells : List α) : Prop where
  chain : cells.IsChain L.Adjacent
  nodup : cells.Nodup

/-- A linked list is determined by its first and last cell. -/
theorem Links.Spans.unique {L : Links α} {first last : α} {xs ys : List α}
    (hx : L.Spans (first :: xs ++ [last])) (hy : L.Spans (first :: ys ++ [last])) : xs = ys := by
  induction xs generalizing first ys with
  | nil =>
      cases ys with
      | nil => rfl
      | cons y ys =>
          have same : last = y := Option.some.inj
            ((List.isChain_cons_cons.mp hx.chain).1.1.symm.trans (List.isChain_cons_cons.mp hy.chain).1.1)
          subst same
          exact absurd hy.nodup (by simp)
  | cons x xs ih =>
      cases ys with
      | nil =>
          have same : x = last := Option.some.inj
            ((List.isChain_cons_cons.mp hx.chain).1.1.symm.trans (List.isChain_cons_cons.mp hy.chain).1.1)
          subst same
          exact absurd hx.nodup (by simp)
      | cons y ys =>
          obtain ⟨⟨nextx, _⟩, chainx⟩ := List.isChain_cons_cons.mp hx.chain
          obtain ⟨⟨nexty, _⟩, chainy⟩ := List.isChain_cons_cons.mp hy.chain
          obtain rfl : x = y := Option.some.inj (nextx.symm.trans nexty)
          rw [ih ⟨chainx, (List.nodup_cons.mp hx.nodup).2⟩ ⟨chainy, (List.nodup_cons.mp hy.nodup).2⟩]

/-- A chain that ends in `a` survives a change of relation at pairs it does not contain. -/
theorem isChain_concat_imp {R S : α → α → Prop} {xs : List α} {a : α}
    (h : (xs ++ [a]).IsChain R) (imp : ∀ x ∈ xs, ∀ y ∈ xs ++ [a], R x y → S x y) :
    (xs ++ [a]).IsChain S := by
  induction xs with
  | nil => exact .singleton a
  | cons x xs ih =>
      have tail := ih h.tail (fun u hu v hv => imp u (List.mem_cons_of_mem x hu) v (List.mem_cons_of_mem x hv))
      refine List.IsChain.cons tail ?_
      intro y hy
      exact imp x List.mem_cons_self y (List.mem_cons_of_mem x (List.mem_of_mem_head? hy)) (h.rel_head? hy)

variable [DecidableEq α]

def Links.setNext (L : Links α) (a : α) (b : α) : Links α :=
  { L with next := Function.update L.next a (some b) }

def Links.setPrev (L : Links α) (a : α) (b : α) : Links α :=
  { L with prev := Function.update L.prev a (some b) }

/-- Take the cell `d` out: its neighbours are linked to each other. -/
def Links.unlink (L : Links α) (d : α) : Option (Links α) := do
  let prevv ← L.prev d
  let nextt ← L.next d
  return (L.setNext prevv nextt).setPrev nextt prevv

/-- Put the cell `new` behind `first`. -/
def Links.insertAfter (L : Links α) (first new : α) : Option (Links α) := do
  let next ← L.next first
  return (((L.setNext first new).setPrev new first).setNext new next).setPrev next new

theorem Links.Spans.unlink {L : Links α} {xs ys : List α} {a d b : α}
    (h : L.Spans (xs ++ a :: d :: b :: ys)) :
    ∃ L', L.unlink d = some L' ∧ L'.Spans (xs ++ a :: b :: ys) := by
  obtain ⟨before, after⟩ := List.isChain_split.mp h.chain
  obtain ⟨⟨nexta, prevd⟩, after⟩ := List.isChain_cons_cons.mp after
  obtain ⟨⟨nextd, prevb⟩, after⟩ := List.isChain_cons_cons.mp after
  refine ⟨(L.setNext a b).setPrev b a, by simp [Links.unlink, prevd, nextd], ?_, ?_⟩
  · have nodup := h.nodup
    simp only [List.nodup_append, List.nodup_cons, List.mem_cons, not_or] at nodup
    obtain ⟨_, ⟨⟨ad, ab, ays⟩, ⟨db, dys⟩, bys, _⟩, apart⟩ := nodup
    refine List.isChain_split.mpr ⟨?_, List.isChain_cons_cons.mpr ⟨?_, ?_⟩⟩
    · apply isChain_concat_imp before
      rintro x hx y hy ⟨nextx, prevy⟩
      have hxa : x ≠ a := apart x hx a (.inl rfl)
      have hyb : y ≠ b := by
        rcases List.mem_append.mp hy with inside | last
        · exact apart y inside b (.inr (.inr (.inl rfl)))
        · exact List.mem_singleton.mp last ▸ ab
      exact ⟨by simp [Links.setNext, Links.setPrev, hxa, nextx],
        by simp [Links.setNext, Links.setPrev, hyb, prevy]⟩
    · exact ⟨by simp [Links.setNext, Links.setPrev], by simp [Links.setNext, Links.setPrev]⟩
    · refine after.imp_of_mem_tail_imp ?_
      rintro x y hx hy ⟨nextx, prevy⟩
      have hxa : x ≠ a := by
        rintro rfl
        rcases List.mem_cons.mp hx with rfl | later
        · exact ab rfl
        · exact ays later
      have hyb : y ≠ b := by rintro rfl; exact bys hy
      exact ⟨by simp [Links.setNext, Links.setPrev, hxa, nextx],
        by simp [Links.setNext, Links.setPrev, hyb, prevy]⟩
  · refine h.nodup.sublist ?_
    exact List.Sublist.append_left (List.Sublist.cons_cons a (List.sublist_cons_self d _)) xs

theorem Links.Spans.insertAfter {L : Links α} {ys : List α} {first b new : α}
    (h : L.Spans (first :: b :: ys)) (fresh : new ∉ first :: b :: ys) :
    ∃ L', L.insertAfter first new = some L' ∧ L'.Spans (first :: new :: b :: ys) := by
  obtain ⟨⟨nextf, prevb⟩, after⟩ := List.isChain_cons_cons.mp h.chain
  have nodup := h.nodup
  simp only [List.nodup_cons, List.mem_cons, not_or] at nodup fresh
  obtain ⟨⟨fb, fys⟩, bys, _⟩ := nodup
  obtain ⟨nf, nb, nys⟩ := fresh
  refine ⟨(((L.setNext first new).setPrev new first).setNext new b).setPrev b new,
    by simp [Links.insertAfter, nextf], ?_, ?_⟩
  · refine List.isChain_cons_cons.mpr ⟨?_, List.isChain_cons_cons.mpr ⟨?_, ?_⟩⟩
    · exact ⟨by simp [Links.setNext, Links.setPrev, Ne.symm nf],
        by simp [Links.setNext, Links.setPrev, nb]⟩
    · exact ⟨by simp [Links.setNext, Links.setPrev], by simp [Links.setNext, Links.setPrev]⟩
    · refine after.imp_of_mem_tail_imp ?_
      rintro x y hx hy ⟨nextx, prevy⟩
      have hxf : x ≠ first := by
        rintro rfl
        rcases List.mem_cons.mp hx with rfl | later
        · exact fb rfl
        · exact fys later
      have hxn : x ≠ new := by
        rintro rfl
        rcases List.mem_cons.mp hx with rfl | later
        · exact nb rfl
        · exact nys later
      have hyb : y ≠ b := by rintro rfl; exact bys hy
      have hyn : y ≠ new := by rintro rfl; exact nys hy
      exact ⟨by simp [Links.setNext, Links.setPrev, hxf, hxn, nextx],
        by simp [Links.setNext, Links.setPrev, hyb, hyn, prevy]⟩
  · simp only [List.nodup_cons, List.mem_cons, not_or]
    have rest := h.nodup
    simp only [List.nodup_cons, List.mem_cons, not_or] at rest
    exact ⟨⟨Ne.symm nf, rest.1.1, rest.1.2⟩, ⟨nb, nys⟩, rest.2⟩

end
end LinkedList
