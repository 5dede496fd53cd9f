import NetworkOs.Lru.Hits

/-! The size of the cache for every capacity that can be entered. The fullness test
is an equality between a `size_t` and an `int`, which a negative capacity never meets and a
capacity of 0 meets before there is a page to evict. -/
namespace NetworkOs.Lru
open LRUCache

namespace Main

/-- The cached pages are those listed, and no more than the capacity allows. -/
def Bounded (s : Main) : Prop :=
  ∃ ps, s.cache.Linked ps ∧ (ps.length : Int) ≤ max s.cache.cap 0 ∧
    (s.cache.m.keys.length : Int) ≤ max s.cache.cap 0

/-- If the request leads to a `put` into a full cache, the node before `tail` is a page. -/
def EvictsPage (s : Main) (r : Request) : Prop :=
  ∀ c, s.cache.get r.1 = some (minusOne, c) → c.Full →
    ∃ d, (c.heap c.tail).prev = some d ∧ d ≠ c.head ∧ d ≠ c.tail

/-- A cache with pages that fit, none of them "-1". -/
def Sound (s : Main) : Prop :=
  Allocated s.cache ∧ ∃ ps, Lists s.cache ps ∧ (ps.length : Int) ≤ s.cache.cap ∧
    ∀ p ∈ ps, s.cache.val p ≠ minusOne

theorem sound_start {capacity : Int} (positive : 1 ≤ capacity) : (start capacity).Sound :=
  ⟨allocated_new positive, [], ⟨new_linked capacity, agree_nil⟩, by simpa [start, LRUCache.new] using by omega,
    by simp⟩

section Steps
variable {s : Main} {r : Request}

theorem Sound.bounded (h : s.Sound) : s.Bounded := by
  obtain ⟨_, ps, lists, bound, _⟩ := h
  refine ⟨ps, lists.linked, bound.trans (le_max_left ..), ?_⟩
  rw [lists.agree.size]
  exact bound.trans (le_max_left ..)

/-- In a sound cache the answer "-1" comes from a miss. -/
theorem Sound.uncached_of_minusOne (h : s.Sound) {c : LRUCache} (got : s.cache.get r.1 = some (minusOne, c)) :
    s.cache.m.lookup r.1 = none ∧ c = s.cache := by
  obtain ⟨_, ps, lists, _, real⟩ := h
  cases held : s.cache.m.lookup r.1 with
  | none =>
      rw [get_miss held, Option.some.injEq, Prod.mk.injEq] at got
      exact ⟨rfl, got.2.symm⟩
  | some p =>
      obtain ⟨c', got', _⟩ := lists.get_hit held
      rw [got', Option.some.injEq, Prod.mk.injEq] at got
      exact absurd got.1 (real p ((lists.agree.lookup _ _).mp held).1)

theorem Sound.evictsPage (h : s.Sound) : s.EvictsPage r := by
  intro c got full
  obtain ⟨_, rfl⟩ := h.uncached_of_minusOne got
  obtain ⟨alloc, ps, lists, _⟩ := h
  obtain ⟨qs, d, rfl⟩ : ∃ qs d, ps = qs ++ [d] :=
    ⟨_, _, (List.dropLast_append_getLast (lists.some_listed alloc full)).symm⟩
  have nodup := LinkedList.Links.Spans.nodup lists.linked
  simp only [List.cons_append, List.nodup_cons, List.mem_append, List.mem_singleton, List.nodup_append, not_or] at nodup
  refine ⟨d, (evict_linked lists.linked).1, ?_, ?_⟩
  · rintro rfl
    exact nodup.1.1.2 rfl
  · rintro rfl
    exact nodup.2.2.2 _ (.inr rfl) _ rfl rfl

/-- A request with a response other than "-1" keeps the cache sound. -/
theorem Sound.step (h : s.Sound) (real : r.2 ≠ minusOne) : ∃ t, s.step r = some t ∧ t.Sound := by
  obtain ⟨alloc, ps, lists, bound, values⟩ := h
  cases held : s.cache.m.lookup r.1 with
  | none =>
      obtain ⟨c, done, lists', keys, vals, _, cap⟩ := lists.put_absent alloc held r.2
      refine ⟨⟨c, s.fetched ++ [r.2]⟩, ?_, alloc.put done, _, lists', ?_, ?_⟩
      · simp only [Main.step, serve_miss (get_miss held) done, Option.map_some]
      · change ((s.cache.fresh :: s.cache.kept ps).length : Int) ≤ c.cap
        rw [cap]
        exact kept_bound lists.agree alloc.positive bound _
      · intro p member
        change c.val p ≠ minusOne
        rw [vals]
        by_cases first : p = s.cache.fresh
        · rw [first, Function.update_self]
          exact real
        · rw [Function.update_of_ne first]
          exact values p (s.cache.kept_subset ps ((List.mem_cons.mp member).resolve_left first))
  | some p =>
      have listed := ((lists.agree.lookup _ _).mp held).1
      obtain ⟨c, got, lists', _, vals, cap⟩ := lists.get_hit held
      refine ⟨⟨c, s.fetched⟩, ?_, alloc.get got, _, lists', ?_, ?_⟩
      · simp only [Main.step, serve_hit got (values p listed), Option.map_some]
      · change ((p :: ps.erase p).length : Int) ≤ c.cap
        rw [cap, ← (List.perm_cons_erase listed).length_eq]
        exact bound
      · intro q member
        change c.val q ≠ minusOne
        rw [vals]
        exact values q ((List.perm_cons_erase listed).mem_iff.mpr member)

/-- A run on a sound cache, by induction on the requests. -/
theorem Sound.run (h : s.Sound) {requests : List Request} (real : ∀ r ∈ requests, r.2 ≠ minusOne) :
    Runs.Guarded Main.step EvictsPage s requests ∧ Runs.Always Main.step Bounded s requests := by
  induction requests generalizing s with
  | nil => exact ⟨trivial, trivial⟩
  | cons r rest ih =>
      obtain ⟨t, taken, sound⟩ := h.step (real r List.mem_cons_self)
      obtain ⟨evicts, bounded⟩ := ih sound fun r' later => real r' (List.mem_cons_of_mem _ later)
      refine ⟨⟨h.evictsPage, fun u also => ?_⟩, t, taken, sound.bounded, bounded⟩
      exact Option.some.inj (taken.symm.trans also) ▸ evicts

/-- With capacity 0 the first `put` evicts, and the node before `tail` is `head`. -/
theorem not_evictsPage_zero : ¬ (start 0).EvictsPage r := by
  intro evicts
  have full : (start 0).cache.Full := by simp [Full, start, LRUCache.new, sizeT]
  obtain ⟨d, last, other, _⟩ := evicts _ (get_miss rfl) full
  exact other (Option.some.inj last).symm

/-- A negative capacity is never reached, and the first page is already too many. -/
theorem not_bounded_negative {capacity : Int} (low : -2147483648 ≤ capacity) (negative : capacity < 0)
    {t : Main} (taken : (start capacity).step r = some t) : ¬ t.Bounded := by
  have room : ¬ (start capacity).cache.Full := by
    simp only [Full, start, LRUCache.new, sizeT, AList.keys_empty, List.length_nil]
    omega
  obtain ⟨c, done, _, same⟩ := put_linked (new_linked capacity)
    (by simp [start, LRUCache.new] : (start capacity).cache.fresh ∉ _) (fun full => absurd full room) r.1 r.2
  rw [Main.step, serve_miss (get_miss rfl) done, Option.map_some, Option.some.injEq] at taken
  subst taken
  rintro ⟨_, _, _, bound⟩
  have cap : c.cap = capacity := same.cap
  change (c.m.keys.length : Int) ≤ max c.cap 0 at bound
  rw [same.m, cap, max_eq_right negative.le] at bound
  simp only [AList.keys_insert, List.length_cons] at bound
  omega

end Steps

/-- Every `put` of a run evicts a page and the cache fits its capacity exactly when the
capacity is at least 1, or nothing is requested. -/
theorem puts_safe_iff {capacity : Int} (low : -2147483648 ≤ capacity) {requests : List Request}
    (real : ∀ r ∈ requests, r.2 ≠ minusOne) :
    Runs.Guarded step EvictsPage (start capacity) requests ∧ Runs.Always step Bounded (start capacity) requests ↔
      1 ≤ capacity ∨ requests = [] := by
  constructor
  · rintro ⟨evicts, bounded⟩
    cases requests with
    | nil => exact .inr rfl
    | cons r rest =>
        obtain ⟨t, taken, fits, _⟩ := bounded
        refine .inl ?_
        by_contra small
        rcases (by omega : capacity = 0 ∨ capacity < 0) with rfl | negative
        · exact not_evictsPage_zero evicts.1
        · exact not_bounded_negative low negative taken fits
  · rintro (positive | rfl)
    · exact (sound_start positive).run real
    · exact ⟨trivial, trivial⟩

/-- Capacity 1 and three requests, the second of them a hit. -/
theorem puts_safe_capacity_one :
    Runs.Always step Bounded (start 1) [(ascii ['a'], ascii ['x']), (ascii ['a'], ascii ['y']),
      (ascii ['b'], ascii ['z'])] :=
  ((puts_safe_iff (by decide : -2147483648 ≤ (1 : Int)) (by decide)).mpr (.inl (by decide))).2

/-- One request takes a cache of capacity -1 over its bound. -/
theorem negative_capacity_unbounded :
    ¬ ∀ (capacity : Int), -2147483648 ≤ capacity → ∀ (requests : List Request),
      (∀ r ∈ requests, r.2 ≠ minusOne) →
      Runs.Guarded step EvictsPage (start capacity) requests ∧
        Runs.Always step Bounded (start capacity) requests := by
  intro claim
  obtain ⟨t, taken, fits, _⟩ := (claim (-1) (by decide) [(ascii ['a'], ascii ['x'])] (by decide)).2
  exact not_bounded_negative (by decide) (by decide) taken fits

end Main
end NetworkOs.Lru
