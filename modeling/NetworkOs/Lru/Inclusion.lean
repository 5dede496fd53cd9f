import NetworkOs.Lru.Refinement

/-! Two caches that serve the same requests: the nodes of the smaller one are the first
nodes of the larger one, so a hit of the smaller one is a hit of the larger one too. -/
namespace NetworkOs.Lru
open LRUCache

theorem new_serveAll {capacity : Int} (positive : 1 ≤ capacity) (requests : List (Str × Str))
    (responses : ∀ r ∈ requests, r.2 ≠ minusOne) :
    ∃ answers c ps, (LRUCache.new capacity).serveAll requests = some (answers, c) ∧ Lists c ps ∧
      c.entries ps = (Recency.serveAll capacity.toNat [] requests).2 := by
  have empty : Lists (LRUCache.new capacity) [] := ⟨new_linked capacity, agree_nil⟩
  have cap : (LRUCache.new capacity).cap = capacity.toNat :=
    (Int.toNat_of_nonneg (by change 0 ≤ capacity; omega)).symm
  obtain ⟨c, ps, served, lists, entries_eq⟩ :=
    empty.serveAll (allocated_new positive) cap (by simp [entries]) requests responses
  exact ⟨_, c, ps, served, lists, entries_eq⟩

theorem Lists.mem_entries_keys {c : LRUCache} {ps : List Ptr} (h : Lists c ps) (url : Str) :
    url ∈ c.m ↔ url ∈ (c.entries ps).map Prod.fst := by
  rw [h.agree.mem_iff, entries_keys]

/-- After any requests, with responses that depend on the URL alone, the node list of
the smaller cache is a beginning of the larger one's. -/
theorem smaller_cache_included {c₁ c₂ : Int} (positive : 1 ≤ c₁) (le : c₁ ≤ c₂) (fetch : Str → Str)
    (fetched : ∀ url, fetch url ≠ minusOne) (urls : List Str) :
    ∃ answers₁ small ps₁ answers₂ large ps₂,
      (LRUCache.new c₁).serveAll (urls.map fun url => (url, fetch url)) = some (answers₁, small) ∧
      Lists small ps₁ ∧
      (LRUCache.new c₂).serveAll (urls.map fun url => (url, fetch url)) = some (answers₂, large) ∧
      Lists large ps₂ ∧
      small.entries ps₁ = (large.entries ps₂).take (min c₁.toNat ps₂.length) ∧
      ∀ url, url ∈ small.m → url ∈ large.m := by
  have responses : ∀ r ∈ urls.map fun url => (url, fetch url), r.2 ≠ minusOne := by
    intro r member
    obtain ⟨url, _, rfl⟩ := List.mem_map.mp member
    exact fetched url
  obtain ⟨answers₁, small, ps₁, served₁, lists₁, entries₁⟩ := new_serveAll positive _ responses
  obtain ⟨answers₂, large, ps₂, served₂, lists₂, entries₂⟩ := new_serveAll (positive.trans le) _ responses
  have included : small.entries ps₁ = (large.entries ps₂).take c₁.toNat := by
    rw [entries₁, entries₂]
    exact Recency.serveAll_inclusion (by omega) (by omega) fetch urls
  refine ⟨answers₁, small, ps₁, answers₂, large, ps₂, served₁, lists₁, served₂, lists₂, ?_, ?_⟩
  · rw [included, ← List.length_map fun p => (large.key p, large.val p)]
    exact List.take_eq_take_min
  · intro url cached
    rw [lists₁.mem_entries_keys, included, List.map_take] at cached
    exact (lists₂.mem_entries_keys url).mpr (List.mem_of_mem_take cached)

/-- Capacities 1 and 2 after three requests, two of them for the same URL. -/
theorem smaller_cache_included_two :
    let fetch : Str → Str := fun url => ascii ['r'] ++ url
    let requests := [ascii ['a'], ascii ['b'], ascii ['a']].map fun url => (url, fetch url)
    ∃ answers₁ small ps₁ answers₂ large ps₂,
      (LRUCache.new 1).serveAll requests = some (answers₁, small) ∧ Lists small ps₁ ∧
      (LRUCache.new 2).serveAll requests = some (answers₂, large) ∧ Lists large ps₂ ∧
      small.entries ps₁ = (large.entries ps₂).take (min 1 ps₂.length) := by
  intro fetch requests
  have fetched : ∀ url, fetch url ≠ minusOne := by
    intro url same
    have first : (114 : UInt8) = 45 := (List.cons.inj same).1
    exact absurd first (by decide)
  obtain ⟨answers₁, small, ps₁, answers₂, large, ps₂, served₁, lists₁, served₂, lists₂, included, _⟩ :=
    smaller_cache_included (by decide : (1 : Int) ≤ 1) (by decide : (1 : Int) ≤ 2) fetch fetched
      [ascii ['a'], ascii ['b'], ascii ['a']]
  exact ⟨answers₁, small, ps₁, answers₂, large, ps₂, served₁, lists₁, served₂, lists₂, included⟩

end NetworkOs.Lru
