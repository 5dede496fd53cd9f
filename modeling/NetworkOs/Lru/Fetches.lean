import NetworkOs.Library.Paging
import NetworkOs.Lru.Hits
import NetworkOs.Lru.Refinement

/-! How often the loop fetches pages. It is decided by how many other URLs were requested
since a URL was requested last, and no other way to keep pages does much better. -/
namespace NetworkOs.Lru
open LRUCache

namespace Main

/-- After these requests the loop's cache holds the entries of the reference cache, and the
pages fetched are those that the reference had to fetch. -/
structure Tracks (s : Main) (cap : Nat) (past : List Request) : Prop where
  alloc : Allocated s.cache
  capacity : s.cache.cap = cap
  lists : ∃ ps, Lists s.cache ps ∧ s.cache.entries ps = (Recency.serveAll cap [] past).2
  fetched : s.fetched = (Recency.fetches cap [] past).map Prod.snd
  real : ∀ r ∈ past, r.2 ≠ minusOne

section Steps
variable {s : Main} {cap : Nat} {past : List Request} {r : Request}

theorem tracks_start {capacity : Int} (positive : 1 ≤ capacity) : (start capacity).Tracks capacity.toNat [] where
  alloc := allocated_new positive
  capacity := (Int.toNat_of_nonneg (by change 0 ≤ capacity; omega)).symm
  lists := ⟨[], ⟨new_linked capacity, agree_nil⟩, rfl⟩
  fetched := rfl
  real := by simp

/-- A value that the cache holds is the response to some request. -/
theorem entries_real (real : ∀ r ∈ past, r.2 ≠ minusOne) :
    ∀ e ∈ (Recency.serveAll cap [] past).2, e.2 ≠ minusOne := by
  induction past using List.reverseRecOn with
  | nil => simp [Recency.serveAll]
  | append_singleton past r ih =>
      intro e listed
      rw [Recency.serveAll_concat] at listed
      rcases Recency.serve_mem listed with ⟨old, _⟩ | ⟨rfl, _⟩
      · exact ih (fun r member => real r (List.mem_append_left _ member)) e old
      · exact real e (by simp)

/-- One request: it is fetched exactly when the reference cache does not list its URL. -/
theorem Tracks.serve (h : s.Tracks cap past) (r : Request) :
    ∃ t, s.step r = some t ∧
      (t.fetched = s.fetched ++ if (Recency.serveAll cap [] past).2.lookup r.1 = none then [r.2] else []) ∧
      Allocated t.cache ∧ t.cache.cap = cap ∧
      ∃ ps, Lists t.cache ps ∧ t.cache.entries ps = (Recency.serveAll cap [] (past ++ [r])).2 := by
  obtain ⟨ps, lists, entries⟩ := h.lists
  have values : ∀ e ∈ s.cache.entries ps, e.2 ≠ minusOne := entries ▸ entries_real h.real
  obtain ⟨c, ps', served, lists', alloc, cap', entries'⟩ := lists.serve h.alloc h.capacity values r.1 r.2
  have cached : (s.serve r.1 r.2).map (fun a => a.2.cache) = some c := by
    have both := congrArg (Option.map Prod.snd) ((serve_cache r.1 r.2 s).trans served)
    simpa [Option.map_map, Function.comp_def] using both
  obtain ⟨⟨answer, t⟩, done, same⟩ := Option.map_eq_some_iff.mp cached
  refine ⟨t, by rw [step, done, Option.map_some], ?_, same ▸ alloc, same ▸ cap', ps', same ▸ lists', ?_⟩
  · rw [← entries]
    cases found : s.cache.m.lookup r.1 with
    | none =>
        rw [if_pos (lists.lookup_entries_none found)]
        exact fetched_of_marked (get_miss found) done
    | some p =>
        obtain ⟨c', got, _⟩ := lists.get_hit found
        have real : s.cache.val p ≠ minusOne :=
          values _ (List.mem_map_of_mem ((lists.agree.lookup _ _).mp found).1)
        rw [serve_hit got real, Option.some.injEq, Prod.mk.injEq] at done
        rw [lists.lookup_entries_some found, if_neg (Option.some_ne_none _), List.append_nil, ← done.2]
  · rw [Recency.serveAll_concat, ← entries]
    exact same ▸ entries'

theorem Tracks.step (h : s.Tracks cap past) (real : r.2 ≠ minusOne) :
    ∃ t, s.step r = some t ∧ t.Tracks cap (past ++ [r]) := by
  obtain ⟨t, taken, fetched, alloc, capacity, lists⟩ := h.serve r
  refine ⟨t, taken, alloc, capacity, lists, ?_, ?_⟩
  · rw [fetched, h.fetched, Recency.fetches_concat, List.map_append]
    by_cases miss : (Recency.serveAll cap [] past).2.lookup r.1 = none
    · rw [if_pos miss, if_pos miss]
      rfl
    · rw [if_neg miss, if_neg miss]
      rfl
  · intro r' member
    rcases List.mem_append.mp member with old | last
    · exact h.real r' old
    · exact List.mem_singleton.mp last ▸ real

/-- A run of requests, by induction on the requests. -/
theorem Tracks.run (h : s.Tracks cap past) {requests : List Request} (real : ∀ r ∈ requests, r.2 ≠ minusOne) :
    ∃ t, Runs.run Main.step s requests = some t ∧ t.Tracks cap (past ++ requests) := by
  induction requests generalizing s past with
  | nil => exact ⟨s, rfl, by simpa using h⟩
  | cons r rest ih =>
      obtain ⟨t, taken, next⟩ := h.step (real r List.mem_cons_self)
      obtain ⟨u, later, tracks⟩ := ih next fun r' member => real r' (List.mem_cons_of_mem _ member)
      refine ⟨u, by rw [Runs.run, taken, Option.bind_some, later], ?_⟩
      rwa [List.append_assoc, List.singleton_append] at tracks

end Steps

/-- On any requests the loop fetches at most `capacity / (capacity + 1 - size)` times as
often as any cache of `size` pages has to, which may know the requests in advance, and
`capacity` times more. -/
theorem fetched_competitive {capacity : Int} (positive : 1 ≤ capacity) {requests : List Request}
    (real : ∀ r ∈ requests, r.2 ≠ minusOne) {size misses : Nat}
    (other : Paging.Serves size ∅ (requests.map Prod.fst) misses) :
    ∃ s, Runs.run step (start capacity) requests = some s ∧
      (capacity.toNat + 1 - size) * s.fetched.length ≤
        capacity.toNat * misses + (capacity.toNat + 1 - size) * capacity.toNat := by
  obtain ⟨s, ran, tracks⟩ := (tracks_start positive).run real
  refine ⟨s, ran, ?_⟩
  rw [tracks.fetched, List.length_map, List.nil_append]
  exact Paging.fetches_competitive (by omega) other

/-- Two URLs in turns: a cache of one page misses each time, one of two pages twice. -/
theorem fetched_competitive_two :
    let requests : List Request := [(ascii ['a'], ascii ['x']), (ascii ['b'], ascii ['y']), (ascii ['a'], ascii ['z'])]
    ∃ s, Runs.run step (start 2) requests = some s ∧ (2 + 1 - 1) * s.fetched.length ≤ 2 * 3 + (2 + 1 - 1) * 2 := by
  intro requests
  have other : Paging.Serves 1 ∅ (requests.map Prod.fst) 3 :=
    .miss (by decide) (Finset.mem_singleton_self _) (by decide) (by decide)
      (.miss (by decide) (Finset.mem_singleton_self _) (by decide) (by decide)
        (.miss (by decide) (Finset.mem_singleton_self _) (by decide) (by decide) (.done _)))
  exact fetched_competitive (by decide : (1 : Int) ≤ 2) (by decide) other

/-- After any requests the next one is answered from the cache exactly when its URL was
requested before and fewer other URLs than the capacity have been requested since. -/
theorem answered_iff_recent {capacity : Int} (positive : 1 ≤ capacity) {past : List Request}
    (real : ∀ r ∈ past, r.2 ≠ minusOne) (next : Request) :
    ∃ s t, Runs.run step (start capacity) past = some s ∧ s.step next = some t ∧
      (t.fetched = s.fetched ∨ t.fetched = s.fetched ++ [next.2]) ∧
      (t.fetched = s.fetched ↔ ∃ before between, past.map Prod.fst = before ++ next.1 :: between ∧
        next.1 ∉ between ∧ (between.toFinset.card : Int) < capacity) := by
  obtain ⟨s, ran, tracks⟩ := (tracks_start positive).run real
  rw [List.nil_append] at tracks
  obtain ⟨t, taken, fetched, _⟩ := tracks.serve next
  have keys := (Recency.serveAll_keys (Recency.wellFormed_nil capacity.toNat) (by omega)
    (show List.map Prod.fst ([] : List Request) = ([] : List Str).take capacity.toNat by simp) past).2
  have held : (Recency.serveAll capacity.toNat [] past).2.lookup next.1 = none ↔
      ¬ ∃ before between, past.map Prod.fst = before ++ next.1 :: between ∧ next.1 ∉ between ∧
        (between.toFinset.card : Int) < capacity := by
    rw [Recency.lookup_none_iff, keys, Recency.mem_take_recent_iff]
    refine not_congr (exists_congr fun before => exists_congr fun between => ?_)
    rw [Int.lt_toNat]
  refine ⟨s, t, ran, taken, ?_, ?_⟩
  · rw [fetched]
    split_ifs
    · exact .inr rfl
    · exact .inl (List.append_nil _)
  · rw [fetched]
    split_ifs with absent
    · simpa using held.mp absent
    · simpa using not_not.mp (mt held.mpr absent)

/-- Requests for one other URL in between leave a page in a cache of two. -/
theorem answered_iff_recent_two :
    let past : List Request := [(ascii ['a'], ascii ['x']), (ascii ['b'], ascii ['y']), (ascii ['b'], ascii ['y'])]
    ∃ s t, Runs.run step (start 2) past = some s ∧ s.step (ascii ['a'], ascii ['z']) = some t ∧
      t.fetched = s.fetched := by
  intro past
  obtain ⟨s, t, ran, taken, _, answered⟩ :=
    answered_iff_recent (by decide : (1 : Int) ≤ 2) (by decide : ∀ r ∈ past, r.2 ≠ minusOne) (ascii ['a'], ascii ['z'])
  exact ⟨s, t, ran, taken, answered.mpr ⟨[], [ascii ['b'], ascii ['b']], rfl, by decide, by decide⟩⟩

end Main
end NetworkOs.Lru
