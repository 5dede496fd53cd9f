import NetworkOs.Lru.Listing

/-! The pointers a cache can reach have been allocated, so a new node is none of the
listed ones. With it, what `get` and `put` do to list and map together. -/
namespace NetworkOs.Lru
open LRUCache

/-- Every pointer in use has been allocated. -/
structure Allocated (c : LRUCache) : Prop where
  positive : 1 ≤ c.cap
  head : c.head < c.fresh
  tail : c.tail < c.fresh
  next : ∀ p q, (c.heap p).next = some q → q < c.fresh
  map : ∀ k p, c.m.lookup k = some p → p < c.fresh

section Allocation
variable {c c' : LRUCache}

theorem allocated_new {capacity : Int} (positive : 1 ≤ capacity) : Allocated (new capacity) := by
  refine ⟨positive, Nat.two_pos, Nat.one_lt_two, ?_, fun k p held => absurd held (by simp [new])⟩
  intro p q held
  simp only [new] at held
  split_ifs at held
  exact Option.some.inj held ▸ Nat.one_lt_two

theorem Allocated.setNext (h : Allocated c) {p q : Ptr} (known : q < c.fresh) : Allocated (c.setNext p q) := by
  refine ⟨h.positive, h.head, h.tail, ?_, h.map⟩
  intro r t held
  by_cases same : r = p
  · have held : q = t := by simpa [LRUCache.setNext, same] using held
    exact held ▸ known
  · exact h.next r t (by simpa [LRUCache.setNext, same] using held)

theorem Allocated.setPrev (h : Allocated c) {p q : Ptr} : Allocated (c.setPrev p q) := by
  refine ⟨h.positive, h.head, h.tail, ?_, h.map⟩
  intro r t held
  by_cases same : r = p
  · exact h.next p t (by simpa [LRUCache.setPrev, same] using held)
  · exact h.next r t (by simpa [LRUCache.setPrev, same] using held)

theorem Allocated.addNode (h : Allocated c) {p : Ptr} (known : p < c.fresh)
    (taken : c.addNode p = some c') : Allocated c' ∧ c'.fresh = c.fresh := by
  simp only [LRUCache.addNode, Option.bind_eq_bind, Option.bind_eq_some_iff, Option.pure_def,
    Option.some.injEq] at taken
  obtain ⟨next, held, rfl⟩ := taken
  have first : Allocated ((c.setNext c.head p).setPrev p c.head) := (h.setNext known).setPrev
  exact ⟨(first.setNext (h.next _ _ held)).setPrev, rfl⟩

theorem Allocated.deleteNode (h : Allocated c) {p : Ptr} (taken : c.deleteNode p = some c') :
    Allocated c' ∧ c'.fresh = c.fresh := by
  simp only [LRUCache.deleteNode, Option.bind_eq_bind, Option.bind_eq_some_iff, Option.pure_def,
    Option.some.injEq] at taken
  obtain ⟨prevv, _, nextt, held, rfl⟩ := taken
  exact ⟨(h.setNext (h.next _ _ held)).setPrev, rfl⟩

theorem Allocated.mapFirst (h : Allocated c) {k : Str} (taken : c.mapFirst k = some c') :
    Allocated c' := by
  simp only [LRUCache.mapFirst, Option.bind_eq_bind, Option.bind_eq_some_iff, Option.pure_def,
    Option.some.injEq] at taken
  obtain ⟨first, held, rfl⟩ := taken
  refine ⟨h.positive, h.head, h.tail, h.next, ?_⟩
  intro k' p mapped
  by_cases same : k' = k
  · subst same
    rw [AList.lookup_insert, Option.some.injEq] at mapped
    exact mapped ▸ h.next _ _ held
  · rw [AList.lookup_insert_ne same] at mapped
    exact h.map k' p mapped

theorem Allocated.get (h : Allocated c) {k ans : Str} (taken : c.get k = some (ans, c')) :
    Allocated c' := by
  unfold LRUCache.get at taken
  cases found : c.m.lookup k with
  | none =>
      simp only [found, Option.some.injEq, Prod.mk.injEq] at taken
      exact taken.2 ▸ h
  | some p =>
      simp only [found, Option.bind_eq_bind, Option.bind_eq_some_iff, Option.pure_def, Option.some.injEq,
        Prod.mk.injEq] at taken
      obtain ⟨c₁, cut, c₂, back, c₃, mapped, _, rfl⟩ := taken
      obtain ⟨h₁, fresh₁⟩ := h.deleteNode cut
      obtain ⟨h₂, _⟩ := h₁.addNode (fresh₁ ▸ h.map k p found) back
      exact h₂.mapFirst mapped

theorem Allocated.evict (h : Allocated c) (taken : c.evict = some c') : Allocated c' := by
  simp only [LRUCache.evict, Option.bind_eq_bind, Option.bind_eq_some_iff] at taken
  obtain ⟨last, _, last', _, cut⟩ := taken
  have h₁ : Allocated { c with m := c.m.erase (c.heap last).key } := by
    refine ⟨h.positive, h.head, h.tail, h.next, ?_⟩
    intro k p held
    by_cases erased : k = (c.heap last).key
    · subst erased
      simp at held
    · exact h.map k p (by simpa [AList.lookup_erase_ne erased] using held)
  exact (h₁.deleteNode cut).1

theorem Allocated.alloc (h : Allocated c) (k v : Str) : Allocated (c.alloc k v) := by
  refine ⟨h.positive, Nat.lt_succ_of_lt h.head, Nat.lt_succ_of_lt h.tail, ?_,
    fun k' p held => Nat.lt_succ_of_lt (h.map k' p held)⟩
  intro p q held
  by_cases same : p = c.fresh
  · simp [LRUCache.alloc, same] at held
  · exact Nat.lt_succ_of_lt (h.next p q (by simpa [LRUCache.alloc, same] using held))

theorem Allocated.put (h : Allocated c) {k v : Str} (taken : c.put k v = some c') : Allocated c' := by
  simp only [put_eq, Option.bind_eq_some_iff] at taken
  obtain ⟨c₁, room, c₂, added, mapped⟩ := taken
  have h₁ : Allocated c₁ := by
    split_ifs at room with full
    · exact h.evict room
    · exact Option.some.inj room ▸ h
  exact ((h₁.alloc k v).addNode (Nat.lt_succ_self _) added).1.mapFirst mapped

end Allocation

/-- The nodes `ps` stand between the sentinels and are those of the map. -/
structure Lists (c : LRUCache) (ps : List Ptr) : Prop where
  linked : c.Linked ps
  agree : Agree c.key c.m ps

section Listed
variable {c : LRUCache} {ps : List Ptr}

theorem Lists.unused (h : Lists c ps) (alloc : Allocated c) : c.fresh ∉ c.head :: ps ++ [c.tail] := by
  intro still
  rcases List.mem_append.mp still with front | last
  · rcases List.mem_cons.mp front with same | listed
    · exact absurd alloc.head (same ▸ Nat.lt_irrefl _)
    · exact Nat.lt_irrefl _ (alloc.map _ _ ((h.agree.lookup _ _).mpr ⟨listed, rfl⟩))
  · exact absurd alloc.tail (List.mem_singleton.mp last ▸ Nat.lt_irrefl _)

theorem Lists.some_listed (h : Lists c ps) (alloc : Allocated c) : c.Full → ps ≠ [] := by
  intro full
  have length := (full_iff h.agree alloc.positive).mp full
  have positive := alloc.positive
  rintro rfl
  simp only [List.length_nil] at length
  omega

theorem Lists.get_hit (h : Lists c ps) {k : Str} {p : Ptr} (found : c.m.lookup k = some p) :
    ∃ c', c.get k = some (c.val p, c') ∧ Lists c' (p :: ps.erase p) ∧
      c'.key = c.key ∧ c'.val = c.val ∧ c'.cap = c.cap := by
  obtain ⟨c', got, linked, same⟩ := LRUCache.get_hit h.linked h.agree found
  refine ⟨c', got, ⟨linked, ?_⟩, funext same.key, funext same.val, same.cap⟩
  rw [same.m]
  exact (h.agree.touch found).congr fun q _ => same.key q

/-- A `put` leaves the nodes `kept` behind the new first one, which holds the pair. -/
theorem Lists.put_result (h : Lists c ps) (alloc : Allocated c) (k v : Str) :
    ∃ c', c.put k v = some c' ∧ c'.Linked (c.fresh :: c.kept ps) ∧
      c'.key = Function.update c.key c.fresh k ∧ c'.val = Function.update c.val c.fresh v ∧
      c'.m = (c.keptMap ps).insert k c.fresh ∧ c'.cap = c.cap := by
  obtain ⟨c', done, linked, same⟩ := put_linked h.linked (h.unused alloc) (h.some_listed alloc) k v
  refine ⟨c', done, linked, ?_, ?_, same.m, same.cap⟩
  · funext p
    rw [LRUCache.key, same.key]
    by_cases first : p = c.fresh <;> simp [LRUCache.alloc, LRUCache.key, first]
  · funext p
    rw [LRUCache.val, same.val]
    by_cases first : p = c.fresh <;> simp [LRUCache.alloc, LRUCache.val, first]

theorem Lists.unused_kept (h : Lists c ps) (alloc : Allocated c) : c.fresh ∉ c.kept ps := by
  intro still
  exact h.unused alloc (by simp [c.kept_subset ps still])

/-- A `put` of a key that what it leaves in the map lacks keeps list and map together. -/
theorem Lists.put_new (h : Lists c ps) (alloc : Allocated c) {k : Str}
    (unlisted : (c.keptMap ps).lookup k = none) :
    Agree (Function.update c.key c.fresh k) ((c.keptMap ps).insert k c.fresh) (c.fresh :: c.kept ps) :=
  (kept_agree h.agree (h.some_listed alloc)).insert_new (h.unused_kept alloc) unlisted

/-- A `put` of a key that is not cached. -/
theorem Lists.put_absent (h : Lists c ps) (alloc : Allocated c) {k : Str} (absent : c.m.lookup k = none)
    (v : Str) :
    ∃ c', c.put k v = some c' ∧ Lists c' (c.fresh :: c.kept ps) ∧
      c'.key = Function.update c.key c.fresh k ∧ c'.val = Function.update c.val c.fresh v ∧
      c'.m = (c.keptMap ps).insert k c.fresh ∧ c'.cap = c.cap := by
  obtain ⟨c', done, linked, keys, vals, m, cap⟩ := h.put_result alloc k v
  have unlisted : (c.keptMap ps).lookup k = none := by
    rw [(kept_agree h.agree (h.some_listed alloc)).lookup_none_iff]
    exact fun still => h.agree.lookup_none_iff.mp absent (List.map_subset _ (c.kept_subset ps) still)
  refine ⟨c', done, ⟨linked, ?_⟩, keys, vals, m, cap⟩
  rw [keys, m]
  exact h.put_new alloc unlisted

end Listed

end NetworkOs.Lru
