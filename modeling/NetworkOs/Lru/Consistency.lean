import NetworkOs.Library.Runs
import NetworkOs.Lru.Allocation

/-! Runs of arbitrary `get` and `put` calls. List and map stay consistent as long as
no `put` adds a second node for a cached key. -/
namespace NetworkOs.Lru
open LRUCache

inductive Call where
  | get (key : Str)
  | put (key value : Str)

/-- A cache and the value each key was last put with. -/
structure Session where
  cache : LRUCache
  last : Str → Option Str

namespace Session

def start (capacity : Int) : Session := ⟨LRUCache.new capacity, fun _ => none⟩

def call (s : Session) : Call → Option Session
  | .get key => (s.cache.get key).map fun r => { s with cache := r.2 }
  | .put key value => (s.cache.put key value).map fun c => ⟨c, Function.update s.last key (some value)⟩

/-- The nodes `ps` between the sentinels are those of the map, one for each key,
hold the values last put, and fit the capacity. -/
structure ConsistentWith (s : Session) (ps : List Ptr) : Prop where
  lists : Lists s.cache ps
  values : ∀ p ∈ ps, s.last (s.cache.key p) = some (s.cache.val p)
  bound : (ps.length : Int) ≤ s.cache.cap

def Consistent (s : Session) : Prop := ∃ ps, s.ConsistentWith ps

/-- A `put` is for a key that is not cached, or for the one its own eviction removes. -/
def PutSafe (s : Session) : Call → Prop
  | .get _ => True
  | .put key _ => s.cache.m.lookup key = none ∨
      s.cache.Full ∧ (s.cache.heap s.cache.tail).prev.map s.cache.key = some key

instance (s : Session) : ∀ i, Decidable (s.PutSafe i)
  | .get _ => isTrue trivial
  | .put _ _ => inferInstanceAs (Decidable (_ ∨ _))

end Session

theorem Allocated.call {s t : Session} (h : Allocated s.cache) {i : Call}
    (taken : s.call i = some t) : Allocated t.cache := by
  cases i with
  | get key =>
      obtain ⟨⟨ans, c⟩, got, rfl⟩ := Option.map_eq_some_iff.mp taken
      exact h.get got
  | put key value =>
      obtain ⟨c, done, rfl⟩ := Option.map_eq_some_iff.mp taken
      exact h.put done

section Steps
variable {s : Session} {ps : List Ptr}

theorem get_consistent (h : s.Consistent) (key : Str) :
    ∃ t, s.call (.get key) = some t ∧ t.Consistent := by
  obtain ⟨ps, h⟩ := h
  cases found : s.cache.m.lookup key with
  | none => exact ⟨s, by simp only [Session.call, get_miss found, Option.map_some], ps, h⟩
  | some p =>
      obtain ⟨c, got, lists, keys, vals, cap⟩ := h.lists.get_hit found
      have perm := List.perm_cons_erase ((h.lists.agree.lookup key p).mp found).1
      refine ⟨{ s with cache := c }, by simp only [Session.call, got, Option.map_some],
        p :: ps.erase p, lists, ?_, ?_⟩
      · intro q member
        change s.last (c.key q) = some (c.val q)
        rw [keys, vals]
        exact h.values q (perm.mem_iff.mpr member)
      · change ((p :: ps.erase p).length : Int) ≤ c.cap
        rw [cap, ← perm.length_eq]
        exact h.bound

/-- A `put` is safe exactly when what it leaves in the map lacks the key. -/
theorem putSafe_iff (h : s.ConsistentWith ps) (alloc : Allocated s.cache) (key value : Str) :
    s.PutSafe (.put key value) ↔ (s.cache.keptMap ps).lookup key = none := by
  unfold Session.PutSafe keptMap
  by_cases full : s.cache.Full
  · obtain ⟨qs, d, rfl⟩ : ∃ qs d, ps = qs ++ [d] :=
      ⟨_, _, (List.dropLast_append_getLast (h.lists.some_listed alloc full)).symm⟩
    have last := (evict_linked h.lists.linked).1
    simp only [full, true_and, last, Option.map_some, Option.some.injEq, if_true, List.getLast?_concat,
      Option.elim_some]
    by_cases same : key = s.cache.key d
    · subst same
      simp
    · rw [AList.lookup_erase_ne same]
      exact or_iff_left fun held => same held.symm
  · simp [full]

theorem put_consistent_iff (h : s.Consistent) (alloc : Allocated s.cache) (key value : Str) :
    (∃ t, s.call (.put key value) = some t ∧ t.Consistent) ↔ s.PutSafe (.put key value) := by
  obtain ⟨ps, h⟩ := h
  obtain ⟨c, done, linked, keys, vals, m, cap⟩ := h.lists.put_result alloc key value
  have called : s.call (.put key value) = some ⟨c, Function.update s.last key (some value)⟩ := by
    simp only [Session.call, done, Option.map_some]
  have agree := kept_agree h.lists.agree (h.lists.some_listed alloc)
  have fresh := h.lists.unused_kept alloc
  rw [putSafe_iff h alloc]
  constructor
  · rintro ⟨t, called', qs, consistent⟩
    obtain rfl : _ = t := Option.some.inj (called.symm.trans called')
    obtain rfl := linked.unique consistent.lists.linked
    rw [agree.lookup_none_iff]
    intro still
    obtain ⟨q, listed, same⟩ := List.mem_map.mp still
    have other : q ≠ s.cache.fresh := fun eq => fresh (eq ▸ listed)
    refine not_agree_of_repeated listed ?_ consistent.lists.agree
    change c.key q = c.key s.cache.fresh
    rw [keys, Function.update_of_ne other, Function.update_self, same]
  · intro unlisted
    refine ⟨_, called, s.cache.fresh :: s.cache.kept ps, ⟨linked, ?_⟩, ?_, ?_⟩
    · change Agree c.key c.m _
      rw [keys, m]
      exact h.lists.put_new alloc unlisted
    · intro p member
      change Function.update s.last key (some value) (c.key p) = some (c.val p)
      rw [keys, vals]
      rcases List.mem_cons.mp member with rfl | listed
      · simp
      · have other : p ≠ s.cache.fresh := fun same => fresh (same ▸ listed)
        have changed : s.cache.key p ≠ key := fun same =>
          absurd ((agree.lookup key p).mpr ⟨listed, same⟩) (by simp [unlisted])
        rw [Function.update_of_ne other, Function.update_of_ne other, Function.update_of_ne changed]
        exact h.values p (s.cache.kept_subset ps listed)
    · change ((s.cache.fresh :: s.cache.kept ps).length : Int) ≤ c.cap
      rw [cap]
      exact kept_bound h.lists.agree alloc.positive h.bound _

end Steps

/-- The cache is consistent after every call of a run exactly when every `put` of
the run is safe where it happens. -/
theorem consistent_iff_puts_safe {capacity : Int} (positive : 1 ≤ capacity) (calls : List Call) :
    Runs.Always Session.call Session.Consistent (Session.start capacity) calls ↔
      Runs.Guarded Session.call Session.PutSafe (Session.start capacity) calls := by
  have empty : (Session.start capacity).Consistent :=
    ⟨[], ⟨new_linked capacity, agree_nil⟩, by simp, by simpa [Session.start, new] using by omega⟩
  refine Runs.always_iff_guarded (Q := fun s => Allocated s.cache) ?_ ?_ (allocated_new positive) empty calls
  · exact fun s i t alloc taken => alloc.call taken
  · intro s i alloc consistent
    cases i with
    | get key => exact iff_of_true (get_consistent consistent key) trivial
    | put key value => exact put_consistent_iff consistent alloc key value

/-- Two puts of one key into a cache of capacity 1 are safe, and so are two of
different keys followed by a hit. -/
theorem consistent_run_capacity_one :
    Runs.Always Session.call Session.Consistent (Session.start 1)
      [.put (ascii ['a']) (ascii ['x']), .put (ascii ['a']) (ascii ['y']),
        .put (ascii ['b']) (ascii ['z']), .get (ascii ['b'])] :=
  (consistent_iff_puts_safe (by decide) _).mpr (by decide)

/-- Two puts of one key into a cache of capacity 2 leave two nodes for it. -/
theorem repeated_put_duplicates :
    ¬ ∀ (capacity : Int), 1 ≤ capacity → ∀ calls,
      Runs.Always Session.call Session.Consistent (Session.start capacity) calls := by
  intro claim
  let a := ascii ['a']
  obtain ⟨t, first, consistent, t', second, consistent', _⟩ :=
    claim 2 (by decide) [.put a a, .put a a]
  have alloc : Allocated t.cache := (allocated_new (by decide)).call first
  have safe := (put_consistent_iff consistent alloc a a).mp ⟨t', second, consistent'⟩
  have refused : ((Session.start 2).call (.put a a)).map (fun t => decide (t.PutSafe (.put a a))) =
      some false := by decide
  rw [first, Option.map_some, Option.some.injEq, decide_eq_false_iff_not] at refused
  exact refused safe

end NetworkOs.Lru
