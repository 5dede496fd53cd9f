import NetworkOs.Lru.Fetches

/-! The listing that the loop prints after each page. It follows `next` from `head` on until
it meets `NULL`, and the last pointer on its way is one that nothing sets. -/
namespace NetworkOs.Lru
open LRUCache

namespace LRUCache

/-- `print`: each node with a page gets the next number. What a field holds that was never
set is up to the memory. -/
def print (memory : Ptr → Option Ptr) (c : LRUCache) : Nat → Option Ptr → Nat → Option (List (Nat × Str))
  | _, none, _ => some []
  | 0, some _, _ => none
  | fuel + 1, some head, i =>
      let next := (c.heap head).next.or (memory head)
      if (c.heap head).val = minusOne then print memory c fuel next i
      else (print memory c fuel next (i + 1)).map ((i, (c.heap head).key) :: ·)

end LRUCache

/-- The sentinels are marked, and `tail` is the end: it has no next node and is none. -/
structure Ended (c : LRUCache) : Prop where
  next : (c.heap c.tail).next = none
  prev : ∀ p, (c.heap p).prev ≠ some c.tail
  apart : c.head ≠ c.tail
  headVal : (c.heap c.head).val = minusOne
  tailVal : (c.heap c.tail).val = minusOne

section Ends
variable {c c' : LRUCache} {ps : List Ptr}

theorem ended_new (capacity : Int) : Ended (new capacity) := by
  refine ⟨rfl, fun p => ?_, Nat.zero_ne_one, rfl, rfl⟩
  simp only [new]
  split_ifs <;> simp

theorem Ended.setNext (h : Ended c) {p : Ptr} (other : p ≠ c.tail) (q : Ptr) : Ended (c.setNext p q) := by
  refine ⟨?_, fun r => ?_, h.apart, ?_, ?_⟩
  · simpa [LRUCache.setNext, other.symm] using h.next
  · by_cases same : r = p
    · simpa [LRUCache.setNext, same] using h.prev p
    · simpa [LRUCache.setNext, same] using h.prev r
  · exact ((sameContents_setNext p q c).val c.head).trans h.headVal
  · exact ((sameContents_setNext p q c).val c.tail).trans h.tailVal

theorem Ended.setPrev (h : Ended c) (p : Ptr) {q : Ptr} (other : q ≠ c.tail) : Ended (c.setPrev p q) := by
  refine ⟨?_, fun r => ?_, h.apart, ?_, ?_⟩
  · by_cases same : c.tail = p
    · simpa [LRUCache.setPrev, same] using same ▸ h.next
    · simpa [LRUCache.setPrev, same] using h.next
  · by_cases same : r = p
    · simpa [LRUCache.setPrev, same] using other
    · simpa [LRUCache.setPrev, same] using h.prev r
  · exact ((sameContents_setPrev p q c).val c.head).trans h.headVal
  · exact ((sameContents_setPrev p q c).val c.tail).trans h.tailVal

theorem Ended.addNode (h : Ended c) {p : Ptr} (other : p ≠ c.tail) (taken : c.addNode p = some c') :
    Ended c' ∧ c'.tail = c.tail ∧ c'.head = c.head := by
  simp only [LRUCache.addNode, Option.bind_eq_bind, Option.bind_eq_some_iff, Option.pure_def,
    Option.some.injEq] at taken
  obtain ⟨next, _, rfl⟩ := taken
  exact ⟨(((h.setNext h.apart p).setPrev p h.apart).setNext other next).setPrev next other, rfl, rfl⟩

theorem Ended.deleteNode (h : Ended c) {p : Ptr} (taken : c.deleteNode p = some c') :
    Ended c' ∧ c'.tail = c.tail := by
  simp only [LRUCache.deleteNode, Option.bind_eq_bind, Option.bind_eq_some_iff, Option.pure_def,
    Option.some.injEq] at taken
  obtain ⟨prevv, before, nextt, _, rfl⟩ := taken
  have other : prevv ≠ c.tail := fun same => h.prev p (same ▸ before)
  exact ⟨(h.setNext other nextt).setPrev nextt other, rfl⟩

theorem Ended.mapFirst (h : Ended c) {k : Str} (taken : c.mapFirst k = some c') : Ended c' := by
  simp only [LRUCache.mapFirst, Option.bind_eq_bind, Option.bind_eq_some_iff, Option.pure_def,
    Option.some.injEq] at taken
  obtain ⟨first, _, rfl⟩ := taken
  exact ⟨h.next, h.prev, h.apart, h.headVal, h.tailVal⟩

theorem LRUCache.Linked.ne_tail (linked : c.Linked ps) {p : Ptr} (listed : p ∈ ps) : p ≠ c.tail := by
  have once := LinkedList.Links.Spans.nodup linked
  exact (List.nodup_append.mp once).2.2 p (List.mem_cons_of_mem _ listed) c.tail (by simp)

theorem Ended.get (h : Ended c) (lists : Lists c ps) {k ans : Str} (taken : c.get k = some (ans, c')) : Ended c' := by
  unfold LRUCache.get at taken
  cases found : c.m.lookup k with
  | none =>
      simp only [found, Option.some.injEq, Prod.mk.injEq] at taken
      exact taken.2 ▸ h
  | some p =>
      simp only [found, Option.bind_eq_bind, Option.bind_eq_some_iff, Option.pure_def, Option.some.injEq,
        Prod.mk.injEq] at taken
      obtain ⟨c₁, cut, c₂, back, c₃, mapped, _, rfl⟩ := taken
      have other := lists.linked.ne_tail ((lists.agree.lookup k p).mp found).1
      obtain ⟨h₁, tail₁⟩ := h.deleteNode cut
      obtain ⟨h₂, _⟩ := h₁.addNode (tail₁ ▸ other) back
      exact h₂.mapFirst mapped

theorem Ended.alloc (h : Ended c) (allocated : Allocated c) (k v : Str) : Ended (c.alloc k v) := by
  have head : c.head ≠ c.fresh := allocated.head.ne
  have tail : c.tail ≠ c.fresh := allocated.tail.ne
  refine ⟨?_, fun p => ?_, h.apart, ?_, ?_⟩
  · simpa [LRUCache.alloc, tail] using h.next
  · by_cases same : p = c.fresh
    · simp [LRUCache.alloc, same]
    · simpa [LRUCache.alloc, same] using h.prev p
  · simpa [LRUCache.alloc, head] using h.headVal
  · simpa [LRUCache.alloc, tail] using h.tailVal

theorem Ended.put (h : Ended c) (allocated : Allocated c) {k v : Str} (taken : c.put k v = some c') : Ended c' := by
  simp only [put_eq, Option.bind_eq_some_iff] at taken
  obtain ⟨c₁, room, c₂, added, mapped⟩ := taken
  have made : Ended c₁ ∧ Allocated c₁ := by
    split_ifs at room with full
    · refine ⟨?_, allocated.evict room⟩
      simp only [LRUCache.evict, Option.bind_eq_bind, Option.bind_eq_some_iff] at room
      obtain ⟨last, _, last', _, cut⟩ := room
      have h₁ : Ended { c with m := c.m.erase (c.heap last).key } := ⟨h.next, h.prev, h.apart, h.headVal, h.tailVal⟩
      exact (h₁.deleteNode cut).1
    · exact Option.some.inj room ▸ ⟨h, allocated⟩
  obtain ⟨h₁, allocated₁⟩ := made
  exact ((h₁.alloc allocated₁ k v).addNode allocated₁.tail.ne' added).1.mapFirst mapped

/-- The nodes before `tail` are numbered in their order, and the walk ends behind it. -/
theorem print_nodes (h : Ended c) {memory : Ptr → Option Ptr} (last : memory c.tail = none)
    (chain : (ps ++ [c.tail]).IsChain c.links.Adjacent) (real : ∀ p ∈ ps, c.val p ≠ minusOne) (i : Nat) :
    c.print memory (ps.length + 1) (ps ++ [c.tail]).head? i =
      some (((ps.map c.key).zipIdx i).map Prod.swap) := by
  induction ps generalizing i with
  | nil => simp [print, h.tailVal, h.next, last]
  | cons p rest ih =>
      have later := ih chain.tail (fun q listed => real q (List.mem_cons_of_mem _ listed)) (i + 1)
      have next : (c.heap p).next = (rest ++ [c.tail]).head? := by
        cases rest with
        | nil => exact (List.isChain_cons_cons.mp chain).1.1
        | cons q rest => exact (List.isChain_cons_cons.mp chain).1.1
      have some_ : ((rest ++ [c.tail]).head?).or (memory p) = (rest ++ [c.tail]).head? := by
        cases rest <;> rfl
      have page : (c.heap p).val ≠ minusOne := real p List.mem_cons_self
      simp only [List.cons_append, List.head?_cons, List.length_cons, print, if_neg page, next, some_, later]
      rfl

end Ends

namespace Main

theorem Tracks.ended {s t : Main} {cap : Nat} {past : List Request} {r : Request} (h : s.Tracks cap past)
    (ended : Ended s.cache) (taken : s.step r = some t) : Ended t.cache := by
  obtain ⟨⟨answer, u⟩, served, rfl⟩ := Option.map_eq_some_iff.mp taken
  obtain ⟨ps, lists, _⟩ := h.lists
  simp only [Main.serve, Option.bind_eq_bind, Option.bind_eq_some_iff] at served
  obtain ⟨⟨gt, c⟩, got, served⟩ := served
  have gotten := ended.get lists got
  split_ifs at served
  · simp only [Option.bind_eq_some_iff, Option.pure_def, Option.some.injEq, Prod.mk.injEq] at served
    obtain ⟨c', done, _, rfl⟩ := served
    exact gotten.put (h.alloc.get got) done
  · simp only [Option.pure_def, Option.some.injEq, Prod.mk.injEq] at served
    exact served.2 ▸ gotten

theorem Tracks.run_ended {s : Main} {cap : Nat} {past : List Request} (h : s.Tracks cap past)
    (ended : Ended s.cache) {requests : List Request} (real : ∀ r ∈ requests, r.2 ≠ minusOne) :
    ∃ t, Runs.run Main.step s requests = some t ∧ t.Tracks cap (past ++ requests) ∧ Ended t.cache := by
  induction requests generalizing s past with
  | nil => exact ⟨s, rfl, by simpa using h, ended⟩
  | cons r rest ih =>
      obtain ⟨t, taken, next⟩ := h.step (real r List.mem_cons_self)
      obtain ⟨u, later, tracks, last⟩ :=
        ih next (h.ended ended taken) fun r' member => real r' (List.mem_cons_of_mem _ member)
      refine ⟨u, by rw [Runs.run, taken, Option.bind_some, later], ?_, last⟩
      rwa [List.append_assoc, List.singleton_append] at tracks

/-- After any requests the listing numbers the cached URLs, the most recently requested one
first, and then reads the pointer behind `tail`, which is still unset: it ends there when
the memory happens to hold `NULL`. -/
theorem listing_printed {capacity : Int} (positive : 1 ≤ capacity) {requests : List Request}
    (real : ∀ r ∈ requests, r.2 ≠ minusOne) :
    ∃ s, Runs.run step (start capacity) requests = some s ∧ (s.cache.heap s.cache.tail).next = none ∧
      ∀ memory, memory s.cache.tail = none → ∃ fuel, s.cache.print memory fuel (some s.cache.head) 1 =
        some ((((Recency.recent [] (requests.map Prod.fst)).take capacity.toNat).zipIdx 1).map Prod.swap) := by
  obtain ⟨s, ran, tracks, ended⟩ := (tracks_start positive).run_ended (ended_new capacity) real
  refine ⟨s, ran, ended.next, fun memory last => ?_⟩
  rw [List.nil_append] at tracks
  obtain ⟨ps, lists, entries⟩ := tracks.lists
  have keys := (Recency.serveAll_keys (Recency.wellFormed_nil capacity.toNat) (by omega)
    (show List.map Prod.fst ([] : List Request) = ([] : List Str).take capacity.toNat by simp) requests).2
  rw [← entries, entries_keys] at keys
  have pages : ∀ p ∈ ps, s.cache.val p ≠ minusOne := by
    intro p listed
    have member : (s.cache.key p, s.cache.val p) ∈ s.cache.entries ps := List.mem_map_of_mem listed
    exact entries_real real _ (entries ▸ member)
  have chain := LinkedList.Links.Spans.chain lists.linked
  have printed := print_nodes ended last chain.tail pages 1
  have next : (s.cache.heap s.cache.head).next = (ps ++ [s.cache.tail]).head? := by
    cases ps with
    | nil => exact (List.isChain_cons_cons.mp chain).1.1
    | cons p rest => exact (List.isChain_cons_cons.mp chain).1.1
  have some_ : ((ps ++ [s.cache.tail]).head?).or (memory s.cache.head) = (ps ++ [s.cache.tail]).head? := by
    cases ps <;> rfl
  refine ⟨ps.length + 2, ?_⟩
  rw [← keys, ← printed]
  simp only [print, ended.headVal, if_true, next, some_]

/-- Three URLs through a cache of two pages. -/
theorem listing_printed_two :
    let requests : List Request := [(ascii ['a'], ascii ['x']), (ascii ['b'], ascii ['y']), (ascii ['c'], ascii ['z'])]
    ∃ s, Runs.run step (start 2) requests = some s ∧ ∃ fuel,
      s.cache.print (fun _ => none) fuel (some s.cache.head) 1 = some [(1, ascii ['c']), (2, ascii ['b'])] := by
  intro requests
  obtain ⟨s, ran, _, printed⟩ := listing_printed (by decide : (1 : Int) ≤ 2) (by decide : ∀ r ∈ requests, r.2 ≠ minusOne)
  exact ⟨s, ran, printed (fun _ => none) rfl⟩

end Main
end NetworkOs.Lru
