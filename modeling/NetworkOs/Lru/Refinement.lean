import NetworkOs.Library.Recency
import NetworkOs.Lru.Allocation

/-! The request loop refines the reference cache: the nodes between the sentinels
hold its entries, in its order. -/
namespace NetworkOs.Lru
open LRUCache

/-- The key and value of each node. -/
def LRUCache.entries (c : LRUCache) (ps : List Ptr) : List (Str × Str) :=
  ps.map fun p => (c.key p, c.val p)

theorem LRUCache.entries_keys (c : LRUCache) (ps : List Ptr) :
    (c.entries ps).map Prod.fst = ps.map c.key := by
  simp only [entries, List.map_map, Function.comp_def]

section Steps
variable {c : LRUCache} {ps : List Ptr} {k : Str}

theorem Lists.lookup_entries_none (h : Lists c ps) (absent : c.m.lookup k = none) :
    (c.entries ps).lookup k = none := by
  rw [Recency.lookup_none_iff, entries_keys]
  exact h.agree.lookup_none_iff.mp absent

theorem Lists.lookup_entries_some (h : Lists c ps) {p : Ptr} (found : c.m.lookup k = some p) :
    (c.entries ps).lookup k = some (c.val p) := by
  obtain ⟨listed, same⟩ := (h.agree.lookup k p).mp found
  cases held : (c.entries ps).lookup k with
  | none =>
      rw [Recency.lookup_none_iff, entries_keys] at held
      exact absurd (same ▸ List.mem_map_of_mem listed) held
  | some v =>
      obtain ⟨q, member, pair⟩ := List.mem_map.mp (Recency.lookup_mem held)
      obtain ⟨key_eq, rfl⟩ := Prod.mk.inj pair
      have held' := (h.agree.lookup k q).mpr ⟨member, key_eq⟩
      rw [Option.some.inj (found.symm.trans held')]

/-- Moving the node found to the front is what the reference does with its entry. -/
theorem Lists.touch_entries (h : Lists c ps) {p : Ptr} (found : c.m.lookup k = some p) :
    Recency.touch k (c.val p) (c.entries ps) = c.entries (p :: ps.erase p) := by
  obtain ⟨_, same⟩ := (h.agree.lookup k p).mp found
  have others : (c.entries ps).filter (fun e => e.1 != k) = c.entries (ps.erase p) := by
    rw [h.linked.nodup.erase_eq_filter, entries, entries, List.filter_map]
    congr 1
    refine List.filter_congr ?_
    intro q listed
    have distinct : c.key q = k ↔ q = p := by
      constructor
      · intro key_eq
        exact Option.some.inj (((h.agree.lookup k q).mpr ⟨listed, key_eq⟩).symm.trans found)
      · rintro rfl
        exact same
    rw [Function.comp_apply, Bool.eq_iff_iff, bne_iff_ne, bne_iff_ne]
    exact not_congr distinct
  rw [Recency.touch, others, ← same]
  rfl

/-- The new node before the kept ones is what the reference inserts. -/
theorem Lists.insert_entries (h : Lists c ps) (alloc : Allocated c) {cap : Nat} (capacity : c.cap = cap)
    {c' : LRUCache} {v : Str} (keys : c'.key = Function.update c.key c.fresh k)
    (vals : c'.val = Function.update c.val c.fresh v) :
    Recency.insert cap k v (c.entries ps) = c'.entries (c.fresh :: c.kept ps) := by
  have rest : c'.entries (c.kept ps) = c.entries (c.kept ps) := by
    refine List.map_congr_left ?_
    intro p listed
    have other : p ≠ c.fresh := fun same => h.unused_kept alloc (same ▸ listed)
    rw [keys, vals, Function.update_of_ne other, Function.update_of_ne other]
  have full : c.Full ↔ (c.entries ps).length = cap := by
    rw [full_iff h.agree alloc.positive, capacity, Nat.cast_inj, entries, List.length_map]
  have cut : c.entries (c.kept ps) =
      if (c.entries ps).length = cap then (c.entries ps).dropLast else c.entries ps := by
    rw [kept, apply_ite c.entries]
    refine if_congr full ?_ rfl
    exact List.map_dropLast
  change _ = (c'.key c.fresh, c'.val c.fresh) :: c'.entries (c.kept ps)
  rw [rest, cut, keys, vals, Function.update_self, Function.update_self]
  rfl

/-- One request: answer and entries are those of the reference. -/
theorem Lists.serve (h : Lists c ps) (alloc : Allocated c) {cap : Nat} (capacity : c.cap = cap)
    (fetched : ∀ e ∈ c.entries ps, e.2 ≠ minusOne) (url response : Str) :
    ∃ c' ps', c.serve url response = some ((Recency.serve cap (c.entries ps) (url, response)).1, c') ∧
      Lists c' ps' ∧ Allocated c' ∧ c'.cap = cap ∧
      c'.entries ps' = (Recency.serve cap (c.entries ps) (url, response)).2 := by
  cases found : c.m.lookup url with
  | some p =>
      obtain ⟨c', got, lists, keys, vals, cap_eq⟩ := h.get_hit found
      have listed := ((h.agree.lookup url p).mp found).1
      have real : c.val p ≠ minusOne := fetched (c.key p, c.val p) (List.mem_map_of_mem listed)
      have hit : Recency.serve cap (c.entries ps) (url, response) =
          (c.val p, Recency.touch url (c.val p) (c.entries ps)) := by
        simp only [Recency.serve, h.lookup_entries_some found]
      refine ⟨c', p :: ps.erase p, ?_, lists, alloc.get got, cap_eq.trans capacity, ?_⟩
      · simp only [LRUCache.serve, got, Option.bind_eq_bind, Option.bind_some, if_neg real, hit]
        rfl
      · rw [hit, h.touch_entries found, entries, entries, keys, vals]
  | none =>
      obtain ⟨c', done, lists, keys, vals, _, cap_eq⟩ := h.put_absent alloc found response
      have miss : Recency.serve cap (c.entries ps) (url, response) =
          (response, Recency.insert cap url response (c.entries ps)) := by
        simp only [Recency.serve, h.lookup_entries_none found]
      refine ⟨c', c.fresh :: c.kept ps, ?_, lists, alloc.put done, cap_eq.trans capacity, ?_⟩
      · simp only [LRUCache.serve, get_miss found, done, Option.bind_eq_bind, Option.bind_some, if_true, miss]
        rfl
      · rw [miss, h.insert_entries alloc capacity keys vals]

/-- A run of requests, by induction on the requests. -/
theorem Lists.serveAll (h : Lists c ps) (alloc : Allocated c) {cap : Nat} (capacity : c.cap = cap)
    (fetched : ∀ e ∈ c.entries ps, e.2 ≠ minusOne) (requests : List (Str × Str))
    (responses : ∀ r ∈ requests, r.2 ≠ minusOne) :
    ∃ c' ps', c.serveAll requests = some ((Recency.serveAll cap (c.entries ps) requests).1, c') ∧
      Lists c' ps' ∧ c'.entries ps' = (Recency.serveAll cap (c.entries ps) requests).2 := by
  induction requests generalizing c ps with
  | nil => exact ⟨c, ps, rfl, h, rfl⟩
  | cons r rest ih =>
      obtain ⟨url, response⟩ := r
      obtain ⟨c₁, ps₁, served, lists₁, alloc₁, cap₁, entries₁⟩ := h.serve alloc capacity fetched url response
      have fetched₁ : ∀ e ∈ c₁.entries ps₁, e.2 ≠ minusOne := by
        intro e listed
        rcases Recency.serve_mem (entries₁ ▸ listed) with ⟨old, _⟩ | ⟨rfl, _⟩
        · exact fetched e old
        · exact responses _ List.mem_cons_self
      obtain ⟨c₂, ps₂, later, lists₂, entries₂⟩ :=
        ih lists₁ alloc₁ cap₁ fetched₁ fun r member => responses r (List.mem_cons_of_mem _ member)
      refine ⟨c₂, ps₂, ?_, lists₂, ?_⟩
      · simp only [LRUCache.serveAll, served, later, entries₁, Option.bind_eq_bind, Option.bind_some]
        rfl
      · rw [entries₂, entries₁]
        rfl

end Steps

/-- After any requests the cache has answered as the reference cache, and its nodes
hold the reference's entries: the most recently requested keys in this order, as many
as the capacity allows, each with the value fetched last. -/
theorem requests_refine_recency {capacity : Int} (positive : 1 ≤ capacity) (requests : List (Str × Str))
    (responses : ∀ r ∈ requests, r.2 ≠ minusOne) :
    ∃ c ps, (LRUCache.new capacity).serveAll requests =
        some ((Recency.serveAll capacity.toNat [] requests).1, c) ∧
      Lists c ps ∧ (ps.length : Int) ≤ capacity ∧
      c.entries ps = (Recency.serveAll capacity.toNat [] requests).2 ∧
      ps.map c.key = (Recency.recent [] (requests.map Prod.fst)).take capacity.toNat ∧
      ∀ p ∈ ps, (Recency.fetches capacity.toNat [] requests).reverse.lookup (c.key p) = some (c.val p) := by
  have empty : Lists (LRUCache.new capacity) [] := ⟨new_linked capacity, agree_nil⟩
  have cap : (LRUCache.new capacity).cap = capacity.toNat := (Int.toNat_of_nonneg (by change 0 ≤ capacity; omega)).symm
  obtain ⟨c, ps, served, lists, entries_eq⟩ :=
    empty.serveAll (allocated_new positive) cap (by simp [entries]) requests responses
  change c.entries ps = (Recency.serveAll capacity.toNat [] requests).2 at entries_eq
  have keys := Recency.serveAll_keys (Recency.wellFormed_nil capacity.toNat) (by omega)
    (show List.map Prod.fst ([] : List (Str × Str)) = ([] : List Str).take capacity.toNat by simp) requests
  have values : ∀ e ∈ (Recency.serveAll capacity.toNat [] requests).2,
      ((Recency.fetches capacity.toNat [] requests).reverse ++ []).lookup e.1 = some e.2 :=
    Recency.serveAll_last_fetched (by simp) requests
  rw [← entries_eq] at keys values
  refine ⟨c, ps, served, lists, ?_, entries_eq, ?_, ?_⟩
  · have bound := keys.1.bound
    rw [entries, List.length_map] at bound
    omega
  · rw [← entries_keys]
    exact keys.2
  · intro p listed
    simpa using values (c.key p, c.val p) (List.mem_map_of_mem listed)

/-- Four requests on a cache of capacity 2: a hit, then an eviction of the URL
requested before it. -/
theorem requests_refine_recency_two :
    let requests := [(ascii ['a'], ascii ['x']), (ascii ['b'], ascii ['y']), (ascii ['a'], ascii ['z']),
      (ascii ['c'], ascii ['w'])]
    ∃ (c : LRUCache) (ps : List Ptr), (LRUCache.new 2).serveAll requests =
        some ([ascii ['x'], ascii ['y'], ascii ['x'], ascii ['w']], c) ∧
      ps.map c.key = [ascii ['c'], ascii ['a']] := by
  intro requests
  obtain ⟨c, ps, served, _, _, _, keys, _⟩ := requests_refine_recency (by decide : (1 : Int) ≤ 2) requests
    (by decide)
  exact ⟨c, ps, served.trans (by congr 1), keys.trans (by decide)⟩

end NetworkOs.Lru
