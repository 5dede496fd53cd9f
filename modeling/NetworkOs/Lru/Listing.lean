import NetworkOs.Lru.Cache

/-! What the cache's methods do to the list of nodes between the sentinels and to
the map. The list and the map are tied together by `Agree`. -/
namespace NetworkOs.Lru

/-- The nodes `ps` have distinct keys and `m` maps exactly these keys, each to its node. -/
structure Agree (key : Ptr → Str) (m : AList fun _ : Str => Ptr) (ps : List Ptr) : Prop where
  nodup : (ps.map key).Nodup
  lookup : ∀ k p, m.lookup k = some p ↔ p ∈ ps ∧ key p = k

section Agreement
variable {key : Ptr → Str} {m : AList fun _ : Str => Ptr} {ps : List Ptr} {k : Str}

theorem agree_nil : Agree key ∅ [] := ⟨List.nodup_nil, by simp⟩

theorem Agree.mem_iff (h : Agree key m ps) : k ∈ m ↔ k ∈ ps.map key := by
  rw [← AList.lookup_isSome, Option.isSome_iff_exists, List.mem_map]
  exact exists_congr fun p => h.lookup k p

theorem Agree.lookup_none_iff (h : Agree key m ps) : m.lookup k = none ↔ k ∉ ps.map key := by
  rw [AList.lookup_eq_none, h.mem_iff]

theorem Agree.size (h : Agree key m ps) : m.keys.length = ps.length := by
  have perm : m.keys.Perm (ps.map key) := by
    refine (List.perm_ext_iff_of_nodup m.keys_nodup h.nodup).mpr fun k => ?_
    rw [← AList.mem_keys, h.mem_iff]
  rw [perm.length_eq, List.length_map]

theorem Agree.congr (h : Agree key m ps) {key' : Ptr → Str} (same : ∀ p ∈ ps, key' p = key p) :
    Agree key' m ps := by
  constructor
  · rw [List.map_congr_left same]
    exact h.nodup
  · intro k p
    rw [h.lookup]
    exact and_congr_right fun listed => by rw [same p listed]

theorem Agree.erase_last {d : Ptr} (h : Agree key m (ps ++ [d])) :
    Agree key (m.erase (key d)) ps := by
  have nodup := h.nodup
  rw [List.map_append, List.nodup_append] at nodup
  obtain ⟨rest, _, apart⟩ := nodup
  have other : ∀ p ∈ ps, key p ≠ key d := fun p listed =>
    apart (key p) (List.mem_map_of_mem listed) (key d) (by simp)
  refine ⟨rest, ?_⟩
  intro k p
  by_cases erased : k = key d
  · subst erased
    simp only [AList.lookup_erase, reduceCtorEq, false_iff, not_and]
    exact other p
  · rw [AList.lookup_erase_ne erased, h.lookup, List.mem_append, List.mem_singleton]
    constructor
    · rintro ⟨listed | rfl, same⟩
      · exact ⟨listed, same⟩
      · exact absurd same.symm erased
    · exact fun ⟨listed, same⟩ => ⟨.inl listed, same⟩

theorem Agree.insert_new {p : Ptr} (h : Agree key m ps) (fresh : p ∉ ps) (unlisted : m.lookup k = none) :
    Agree (Function.update key p k) (m.insert k p) (p :: ps) := by
  have others : ∀ q ∈ ps, Function.update key p k q = key q := by
    intro q listed
    have other : q ≠ p := by
      rintro rfl
      exact fresh listed
    simp [other]
  have h' : Agree (Function.update key p k) m ps := h.congr others
  constructor
  · rw [List.map_cons, Function.update_self]
    exact List.nodup_cons.mpr ⟨h'.lookup_none_iff.mp unlisted, h'.nodup⟩
  · intro k' q
    by_cases same : k' = k
    · subst same
      rw [AList.lookup_insert, Option.some.injEq, List.mem_cons]
      constructor
      · rintro rfl
        exact ⟨.inl rfl, Function.update_self ..⟩
      · rintro ⟨rfl | listed, held⟩
        · rfl
        · exact absurd ((h'.lookup k' q).mpr ⟨listed, held⟩) (by simp [unlisted])
    · rw [AList.lookup_insert_ne same, h'.lookup, List.mem_cons]
      constructor
      · exact fun ⟨listed, held⟩ => ⟨.inr listed, held⟩
      · rintro ⟨rfl | listed, held⟩
        · exact absurd held.symm (by simpa using same)
        · exact ⟨listed, held⟩

theorem Agree.touch {p : Ptr} (h : Agree key m ps) (held : m.lookup k = some p) :
    Agree key (m.insert k p) (p :: ps.erase p) := by
  obtain ⟨listed, same⟩ := (h.lookup k p).mp held
  have perm : ps.Perm (p :: ps.erase p) := List.perm_cons_erase listed
  refine ⟨(perm.map key).nodup_iff.mp h.nodup, ?_⟩
  intro k' q
  rw [← perm.mem_iff, ← h.lookup]
  by_cases other : k' = k
  · rw [other, AList.lookup_insert, held]
  · rw [AList.lookup_insert_ne other]

/-- A node listed under a second key breaks the agreement, whatever the map. -/
theorem not_agree_of_repeated {p q : Ptr} (listed : q ∈ ps) (same : key q = key p) :
    ¬ Agree key m (p :: ps) := by
  intro h
  have nodup := h.nodup
  rw [List.map_cons, List.nodup_cons] at nodup
  exact nodup.1 (same ▸ List.mem_map_of_mem listed)

end Agreement

namespace LRUCache

/-- The nodes `ps` stand between the sentinels, linked both ways. -/
def Linked (c : LRUCache) (ps : List Ptr) : Prop := c.links.Spans (c.head :: ps ++ [c.tail])

def key (c : LRUCache) (p : Ptr) : Str := (c.heap p).key

def val (c : LRUCache) (p : Ptr) : Str := (c.heap p).val

theorem Linked.unique {c : LRUCache} {ps qs : List Ptr} (h : c.Linked ps) (h' : c.Linked qs) :
    ps = qs := LinkedList.Links.Spans.unique h h'

theorem Linked.nodup {c : LRUCache} {ps : List Ptr} (h : c.Linked ps) : ps.Nodup :=
  ((List.nodup_cons.mp (LinkedList.Links.Spans.nodup h)).2.sublist (List.sublist_append_left ps _))

theorem new_linked (capacity : Int) : (new capacity).Linked [] := by
  constructor
  · refine List.isChain_cons_cons.mpr ⟨⟨?_, ?_⟩, .singleton _⟩ <;> simp [new, links]
  · simp [new]

theorem deleteNode_linked {c : LRUCache} {before after : List Ptr} {d : Ptr}
    (h : c.Linked (before ++ d :: after)) :
    ∃ c', c.deleteNode d = some c' ∧ c'.Linked (before ++ after) ∧ SameContents c c' := by
  obtain ⟨pre, a, hpre⟩ : ∃ pre a, c.head :: before = pre ++ [a] :=
    ⟨_, _, (List.dropLast_append_getLast (List.cons_ne_nil _ _)).symm⟩
  obtain ⟨b, post, hpost⟩ : ∃ b post, after ++ [c.tail] = b :: post :=
    List.exists_cons_of_ne_nil (by simp)
  have whole : c.head :: (before ++ d :: after) ++ [c.tail] = pre ++ a :: d :: b :: post := by
    rw [← List.cons_append, hpre]
    simp [← hpost]
  have shorter : c.head :: (before ++ after) ++ [c.tail] = pre ++ a :: b :: post := by
    rw [← List.cons_append, hpre]
    simp [← hpost]
  have spans : c.links.Spans (pre ++ a :: d :: b :: post) := whole ▸ h
  obtain ⟨L, cut, spans'⟩ := spans.unlink
  obtain ⟨c', done, rfl, same⟩ := deleteNode_spec cut
  refine ⟨c', done, ?_, same⟩
  rw [Linked, same.head, same.tail, shorter]
  exact spans'

theorem addNode_linked {c : LRUCache} {ps : List Ptr} {p : Ptr} (h : c.Linked ps)
    (unlisted : p ∉ c.head :: ps ++ [c.tail]) :
    ∃ c', c.addNode p = some c' ∧ c'.Linked (p :: ps) ∧ SameContents c c' := by
  obtain ⟨b, post, hpost⟩ : ∃ b post, ps ++ [c.tail] = b :: post :=
    List.exists_cons_of_ne_nil (by simp)
  rw [List.cons_append, hpost] at unlisted
  have spans : c.links.Spans (c.head :: b :: post) := by
    rw [← hpost]
    exact h
  obtain ⟨L, put_in, spans'⟩ := spans.insertAfter unlisted
  obtain ⟨c', done, rfl, same⟩ := addNode_spec put_in
  refine ⟨c', done, ?_, same⟩
  rw [Linked, same.head, same.tail, List.cons_append, List.cons_append, hpost]
  exact spans'

theorem mapFirst_linked {c : LRUCache} {ps : List Ptr} {p : Ptr} (h : c.Linked (p :: ps)) (k : Str) :
    c.mapFirst k = some { c with m := c.m.insert k p } := by
  have next : (c.heap c.head).next = some p := (List.isChain_cons_cons.mp h.chain).1.1
  simp [mapFirst, next]

theorem get_hit {c : LRUCache} {ps : List Ptr} {k : Str} {p : Ptr} (linked : c.Linked ps)
    (agree : Agree c.key c.m ps) (found : c.m.lookup k = some p) :
    ∃ c', c.get k = some (c.val p, c') ∧ c'.Linked (p :: ps.erase p) ∧
      SameContents { c with m := c.m.insert k p } c' := by
  obtain ⟨listed, _⟩ := (agree.lookup k p).mp found
  obtain ⟨before, after, rfl, fresh⟩ := List.eq_append_cons_of_mem listed
  rw [List.erase_append_right _ fresh, List.erase_cons_head]
  obtain ⟨c₁, cut, linked₁, same₁⟩ := deleteNode_linked linked
  have unlisted : p ∉ c₁.head :: (before ++ after) ++ [c₁.tail] := by
    have nodup := LinkedList.Links.Spans.nodup linked
    have moved : (c.head :: (before ++ p :: after) ++ [c.tail]).Perm
        (p :: (c.head :: (before ++ after) ++ [c.tail])) :=
      ((List.perm_middle.cons c.head).trans (List.Perm.swap ..)).append_right [c.tail]
    rw [same₁.head, same₁.tail]
    exact (List.nodup_cons.mp (moved.nodup_iff.mp nodup)).1
  obtain ⟨c₂, back, linked₂, same₂⟩ := addNode_linked linked₁ unlisted
  have whole := same₁.trans same₂
  refine ⟨{ c₂ with m := c₂.m.insert k p }, ?_, linked₂, ?_⟩
  · simp only [get, found, cut, back, mapFirst_linked linked₂, Option.bind_eq_bind, Option.bind_some]
    rfl
  · exact ⟨whole.key, whole.val, whole.fresh, whole.head, whole.tail, whole.cap,
      congrArg (AList.insert k p) whole.m⟩

theorem get_miss {c : LRUCache} {k : Str} (absent : c.m.lookup k = none) :
    c.get k = some (minusOne, c) := by
  simp only [get, absent]

/-- Eviction takes the last listed node out of map and list. -/
theorem evict_linked {c : LRUCache} {ps : List Ptr} {d : Ptr} (linked : c.Linked (ps ++ [d])) :
    (c.heap c.tail).prev = some d ∧
      ∃ c', c.evict = some c' ∧ c'.Linked ps ∧ SameContents { c with m := c.m.erase (c.key d) } c' := by
  have last : (c.heap c.tail).prev = some d := by
    have chain := linked.chain
    rw [List.cons_append, List.append_assoc, ← List.cons_append] at chain
    exact (List.isChain_cons_cons.mp (List.isChain_append.mp chain).2.1).1.2
  have linked' : LRUCache.Linked { c with m := c.m.erase (c.key d) } (ps ++ [d]) := linked
  obtain ⟨c', cut, rest, same⟩ := deleteNode_linked linked'
  refine ⟨last, c', ?_, by simpa using rest, same⟩
  simp only [evict, last, Option.bind_eq_bind, Option.bind_some]
  exact cut

/-- `put` without the eviction: a new first node, entered in the map. -/
theorem put_front {c : LRUCache} {ps : List Ptr} (linked : c.Linked ps)
    (unused : c.fresh ∉ c.head :: ps ++ [c.tail]) (k v : Str) :
    ∃ c', ((c.alloc k v).addNode c.fresh).bind (mapFirst k) = some c' ∧
      c'.Linked (c.fresh :: ps) ∧ SameContents { c.alloc k v with m := c.m.insert k c.fresh } c' := by
  have linked' : (c.alloc k v).Linked ps := by
    constructor
    · refine List.IsChain.imp_of_mem_imp (fun p q hp hq ⟨next, prev⟩ => ?_) linked.chain
      have other : p ≠ c.fresh := fun same => unused (same ▸ hp)
      have other' : q ≠ c.fresh := fun same => unused (same ▸ hq)
      exact ⟨by simpa [links, alloc, other] using next, by simpa [links, alloc, other'] using prev⟩
    · exact LinkedList.Links.Spans.nodup linked
  obtain ⟨c', added, first, same⟩ := addNode_linked linked' unused
  refine ⟨{ c' with m := c'.m.insert k c.fresh }, ?_, first, ?_⟩
  · rw [added, Option.bind_some, mapFirst_linked first]
  · exact ⟨same.key, same.val, same.fresh, same.head, same.tail, same.cap,
      congrArg (AList.insert k c.fresh) same.m⟩

/-- `put` in two parts: the eviction from a full cache, then the new first node. -/
theorem put_eq (c : LRUCache) (k v : Str) : c.put k v =
    (if c.Full then c.evict else some c).bind fun c =>
      ((c.alloc k v).addNode c.fresh).bind (mapFirst k) := by
  by_cases full : c.Full <;> simp [put, full]

/-- The nodes a `put` leaves listed. -/
def kept (c : LRUCache) (ps : List Ptr) : List Ptr := if c.Full then ps.dropLast else ps

/-- The map once a `put` has made room. -/
def keptMap (c : LRUCache) (ps : List Ptr) : AList fun _ : Str => Ptr :=
  if c.Full then (ps.getLast?.elim c.m fun d => c.m.erase (c.key d)) else c.m

theorem kept_subset (c : LRUCache) (ps : List Ptr) : c.kept ps ⊆ ps := by
  unfold kept
  split_ifs
  · exact List.dropLast_subset ps
  · exact List.Subset.refl ps

theorem put_linked {c : LRUCache} {ps : List Ptr} (linked : c.Linked ps)
    (unused : c.fresh ∉ c.head :: ps ++ [c.tail]) (some_listed : c.Full → ps ≠ []) (k v : Str) :
    ∃ c', c.put k v = some c' ∧ c'.Linked (c.fresh :: c.kept ps) ∧
      SameContents { c.alloc k v with m := (c.keptMap ps).insert k c.fresh } c' := by
  rw [put_eq]
  by_cases full : c.Full
  · obtain ⟨qs, d, rfl⟩ : ∃ qs d, ps = qs ++ [d] :=
      ⟨_, _, (List.dropLast_append_getLast (some_listed full)).symm⟩
    obtain ⟨_, c₁, evicted, linked₁, same₁⟩ := evict_linked linked
    have unused₁ : c₁.fresh ∉ c₁.head :: qs ++ [c₁.tail] := by
      rw [same₁.fresh, same₁.head, same₁.tail]
      refine fun still => unused ?_
      have part : (c.head :: qs ++ [c.tail]).Sublist (c.head :: (qs ++ [d]) ++ [c.tail]) :=
        ((List.sublist_append_left qs [d]).cons_cons c.head).append_right [c.tail]
      exact part.subset still
    obtain ⟨c₂, done, linked₂, same₂⟩ := put_front linked₁ unused₁ k v
    rw [same₁.fresh] at linked₂
    refine ⟨c₂, by simp only [full, if_true, evicted, Option.bind_some, done], ?_, ?_⟩
    · simpa [kept, full] using linked₂
    · have made : SameContents { c.alloc k v with m := (c.keptMap (qs ++ [d])).insert k c.fresh }
          { c₁.alloc k v with m := c₁.m.insert k c₁.fresh } := by
        refine ⟨?_, ?_, congrArg (· + 1) same₁.fresh, same₁.head, same₁.tail, same₁.cap, ?_⟩
        · intro p
          by_cases first : p = c.fresh
          · simp [alloc, same₁.fresh, first]
          · simpa [alloc, same₁.fresh, first] using same₁.key p
        · intro p
          by_cases first : p = c.fresh
          · simp [alloc, same₁.fresh, first]
          · simpa [alloc, same₁.fresh, first] using same₁.val p
        · simp [same₁.fresh, same₁.m, keptMap, full]
      exact made.trans same₂
  · obtain ⟨c₁, done, linked₁, same₁⟩ := put_front linked unused k v
    refine ⟨c₁, by simp only [full, if_false, Option.bind_some, done], ?_, ?_⟩
    · simpa [kept, full] using linked₁
    · simpa [keptMap, full] using same₁

/-- What a `put` leaves listed agrees with what it leaves in the map. -/
theorem kept_agree {c : LRUCache} {ps : List Ptr} (agree : Agree c.key c.m ps)
    (some_listed : c.Full → ps ≠ []) : Agree c.key (c.keptMap ps) (c.kept ps) := by
  by_cases full : c.Full
  · obtain ⟨qs, d, rfl⟩ : ∃ qs d, ps = qs ++ [d] :=
      ⟨_, _, (List.dropLast_append_getLast (some_listed full)).symm⟩
    simpa [kept, keptMap, full] using agree.erase_last
  · simpa [kept, keptMap, full] using agree

/-- In a cache of positive capacity with agreeing list and map, full means that the
list has the length of the capacity. -/
theorem full_iff {c : LRUCache} {ps : List Ptr} (agree : Agree c.key c.m ps) (positive : 1 ≤ c.cap) :
    c.Full ↔ (ps.length : Int) = c.cap := by
  rw [Full, agree.size, sizeT, if_neg (by omega)]

theorem kept_bound {c : LRUCache} {ps : List Ptr} (agree : Agree c.key c.m ps) (positive : 1 ≤ c.cap)
    (bound : (ps.length : Int) ≤ c.cap) (p : Ptr) : ((p :: c.kept ps).length : Int) ≤ c.cap := by
  by_cases full : c.Full
  · simp only [kept, full, if_true, List.length_cons, List.length_dropLast]
    omega
  · have room : (ps.length : Int) ≠ c.cap := fun eq => full ((full_iff agree positive).mpr eq)
    simp only [kept, full, if_false, List.length_cons]
    omega

end LRUCache
end NetworkOs.Lru
