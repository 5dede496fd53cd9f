import NetworkOs.Library.Runs
import NetworkOs.Lru.Requests

/-! When the loop answers from the cache. `get` reports a miss by the string "-1",
so a cached page with this text is fetched and entered again. -/
namespace NetworkOs.Lru
open LRUCache

/-- A URL to ask for and the response its fetch returns. -/
abbrev Request := Str × Str

namespace Main

/-- One request as a step of the loop. -/
def step (s : Main) (r : Request) : Option Main := (s.serve r.1 r.2).map Prod.snd

/-- If a listed node has the URL requested as its key, its value is the answer, nothing is
fetched and the same URLs stay listed. -/
def Answered (s : Main) (r : Request) : Prop :=
  ∀ ps p, s.cache.Linked ps → p ∈ ps → s.cache.key p = r.1 →
    ∃ t, s.serve r.1 r.2 = some (s.cache.val p, t) ∧ t.fetched = s.fetched ∧
      ∃ qs, t.cache.Linked qs ∧ (qs.map t.cache.key).Perm (ps.map s.cache.key)

/-- No URL occurs twice in the list. -/
def Distinct (s : Main) : Prop := ∃ ps, s.cache.Linked ps ∧ (ps.map s.cache.key).Nodup

/-- The page cached for the URL requested, if any, is not the string "-1". -/
def Unmarked (s : Main) (r : Request) : Prop :=
  (s.cache.m.lookup r.1).map s.cache.val ≠ some minusOne

instance (s : Main) (r : Request) : Decidable (s.Unmarked r) := inferInstanceAs (Decidable (_ ≠ _))

/-- The cache lists the nodes of its map, all of them allocated. -/
def WellFormed (s : Main) : Prop := Allocated s.cache ∧ ∃ ps, Lists s.cache ps

theorem wellFormed_start {capacity : Int} (positive : 1 ≤ capacity) : (start capacity).WellFormed :=
  ⟨allocated_new positive, [], new_linked capacity, agree_nil⟩

theorem WellFormed.distinct {s : Main} (h : s.WellFormed) : s.Distinct := by
  obtain ⟨_, ps, lists⟩ := h
  exact ⟨ps, lists.linked, lists.agree.nodup⟩

section Steps
variable {s : Main} {r : Request}

/-- A miss is served by a fetch, and the page fetched becomes the first one. -/
theorem WellFormed.serve_uncached (h : s.WellFormed) (uncached : s.cache.m.lookup r.1 = none) :
    ∃ t, s.serve r.1 r.2 = some (r.2, t) ∧ t.WellFormed := by
  obtain ⟨alloc, ps, lists⟩ := h
  obtain ⟨c, done, lists', _⟩ := lists.put_absent alloc uncached r.2
  exact ⟨_, serve_miss (get_miss uncached) done, alloc.put done, _, lists'⟩

theorem WellFormed.serve_cached (h : s.WellFormed) {p : Ptr} (held : s.cache.m.lookup r.1 = some p)
    (real : s.cache.val p ≠ minusOne) :
    ∃ t, s.serve r.1 r.2 = some (s.cache.val p, t) ∧ t.WellFormed ∧ t.fetched = s.fetched ∧
      ∀ ps, s.cache.Linked ps → ∃ qs, t.cache.Linked qs ∧ (qs.map t.cache.key).Perm (ps.map s.cache.key) := by
  obtain ⟨alloc, ps, lists⟩ := h
  obtain ⟨c, got, lists', keys, _, _⟩ := lists.get_hit held
  refine ⟨⟨c, s.fetched⟩, serve_hit got real, ⟨alloc.get got, _, lists'⟩, rfl, ?_⟩
  intro ps' linked'
  obtain rfl := lists.linked.unique linked'
  refine ⟨_, lists'.linked, ?_⟩
  rw [keys]
  exact ((List.perm_cons_erase ((lists.agree.lookup _ _).mp held).1).map s.cache.key).symm

/-- A request for a page that is not marked is taken. -/
theorem WellFormed.step (h : s.WellFormed) (unmarked : s.Unmarked r) :
    ∃ t, s.step r = some t ∧ t.WellFormed ∧ t.Distinct := by
  cases held : s.cache.m.lookup r.1 with
  | none =>
      obtain ⟨t, served, well⟩ := h.serve_uncached held
      exact ⟨t, by simp only [Main.step, served, Option.map_some], well, well.distinct⟩
  | some p =>
      have real : s.cache.val p ≠ minusOne := by simpa [Unmarked, held] using unmarked
      obtain ⟨t, served, well, _⟩ := h.serve_cached held real
      exact ⟨t, by simp only [Main.step, served, Option.map_some], well, well.distinct⟩

/-- The answer "-1" of a hit is taken for a miss, and the page is fetched. -/
theorem fetched_of_marked {c : LRUCache} (got : s.cache.get r.1 = some (minusOne, c)) {ans : Str} {t : Main}
    (served : s.serve r.1 r.2 = some (ans, t)) : t.fetched = s.fetched ++ [r.2] := by
  simp only [serve, got, Option.bind_eq_bind, Option.bind_some, if_true, Option.pure_def, Option.bind_eq_some_iff,
    Option.some.injEq, Prod.mk.injEq] at served
  obtain ⟨c', _, _, rfl⟩ := served
  rfl

theorem WellFormed.answered_iff (h : s.WellFormed) : s.Answered r ↔ s.Unmarked r := by
  constructor
  · intro answered marked
    obtain ⟨p, held, value⟩ := Option.map_eq_some_iff.mp marked
    obtain ⟨_, ps, lists⟩ := h
    obtain ⟨listed, same⟩ := (lists.agree.lookup _ _).mp held
    obtain ⟨t, served, unfetched, _⟩ := answered ps p lists.linked listed same
    obtain ⟨c, got, _⟩ := lists.get_hit held
    rw [value] at got
    have fetched := fetched_of_marked got served
    rw [unfetched] at fetched
    exact absurd fetched (by simp)
  · intro unmarked ps p linked listed same
    obtain ⟨_, ps', lists⟩ := id h
    obtain rfl := lists.linked.unique linked
    have held := (lists.agree.lookup _ _).mpr ⟨listed, same⟩
    have real : s.cache.val p ≠ minusOne := by simpa [Unmarked, held] using unmarked
    obtain ⟨t, served, _, unfetched, urls⟩ := h.serve_cached held real
    exact ⟨t, served, unfetched, urls _ linked⟩

end Steps

/-- Guards of the hits are exact over whole runs. -/
theorem guarded_answered_iff {capacity : Int} (positive : 1 ≤ capacity) (requests : List Request) :
    Runs.Guarded step Answered (start capacity) requests ↔
      Runs.Guarded step Unmarked (start capacity) requests := by
  refine Runs.guarded_congr (Q := WellFormed) (fun s r h => h.answered_iff) ?_ (wellFormed_start positive) requests
  intro s r t h unmarked taken
  obtain ⟨u, taken', well, _⟩ := h.step unmarked
  exact Option.some.inj (taken'.symm.trans taken) ▸ well

/-- In a run each request for a listed URL is answered from the cache, and no URL is
listed twice, exactly when no request meets a cached page "-1". -/
theorem answered_from_cache_iff {capacity : Int} (positive : 1 ≤ capacity) (requests : List Request) :
    Runs.Guarded step Answered (start capacity) requests ∧ Runs.Always step Distinct (start capacity) requests ↔
      Runs.Guarded step Unmarked (start capacity) requests := by
  rw [guarded_answered_iff positive]
  exact and_iff_left_of_imp (Runs.Guarded.always (fun s r h => h.step) (wellFormed_start positive))

/-- A hit in a cache of capacity 1, and the page "-1" as the last response. -/
theorem answered_from_cache_three :
    Runs.Guarded step Answered (start 1) [(ascii ['a'], ascii ['x']), (ascii ['a'], ascii ['y']),
      (ascii ['b'], minusOne)] :=
  ((answered_from_cache_iff (by decide : (1 : Int) ≤ 1) _).mpr (by decide)).1

/-- The page "-1" is fetched again for the second of two requests. -/
theorem marked_page_fetched_again :
    ¬ ∀ (capacity : Int), 1 ≤ capacity → ∀ requests,
      Runs.Guarded step Answered (start capacity) requests ∧
        Runs.Always step Distinct (start capacity) requests := by
  intro claim
  have answered := (claim 2 (by decide) [(ascii ['a'], minusOne), (ascii ['a'], ascii ['x'])]).1
  exact absurd ((guarded_answered_iff (by decide) _).mp answered) (by decide)

end Main
end NetworkOs.Lru
