import NetworkOs.Text
import NetworkOs.Library.LinkedList

/-! The `LRUCache` class: nodes in a heap, linked between two sentinels, and a map
from URLs to nodes. Reading a pointer that no assignment has set has no result. -/
namespace NetworkOs.Lru

abbrev Ptr := Nat

/-- A node; the constructor leaves `prev` and `next` unset. -/
structure Node where
  key : Str
  val : Str
  prev : Option Ptr
  next : Option Ptr
deriving Repr, DecidableEq

structure LRUCache where
  heap : Ptr → Node
  /-- The address the next `new` returns. -/
  fresh : Ptr
  head : Ptr
  tail : Ptr
  cap : Int
  m : AList fun _ : Str => Ptr

/-- The string "-1", key and value of the sentinels and the answer to a miss. -/
def minusOne : Str := ascii ['-', '1']

/-- The value of an `int` converted to `size_t`. -/
def sizeT (n : Int) : Int := if n < 0 then n + 18446744073709551616 else n

namespace LRUCache

def setNext (p q : Ptr) (c : LRUCache) : LRUCache :=
  { c with heap := Function.update c.heap p { c.heap p with next := some q } }

def setPrev (p q : Ptr) (c : LRUCache) : LRUCache :=
  { c with heap := Function.update c.heap p { c.heap p with prev := some q } }

/-- The constructor: an empty list between `head` and `tail`. -/
def new (capacity : Int) : LRUCache where
  heap p :=
    if p = 0 then ⟨minusOne, minusOne, none, some 1⟩
    else if p = 1 then ⟨minusOne, minusOne, some 0, none⟩
    else ⟨[], [], none, none⟩
  fresh := 2
  head := 0
  tail := 1
  cap := capacity
  m := ∅

def addNode (newnode : Ptr) (c : LRUCache) : Option LRUCache := do
  let next ← (c.heap c.head).next
  return c.setNext c.head newnode |>.setPrev newnode c.head |>.setNext newnode next
    |>.setPrev next newnode

def deleteNode (delnode : Ptr) (c : LRUCache) : Option LRUCache := do
  let prevv ← (c.heap delnode).prev
  let nextt ← (c.heap delnode).next
  return c.setNext prevv nextt |>.setPrev nextt prevv

/-- `m[key] = head->next`. -/
def mapFirst (key : Str) (c : LRUCache) : Option LRUCache := do
  let first ← (c.heap c.head).next
  return { c with m := c.m.insert key first }

def get (key : Str) (c : LRUCache) : Option (Str × LRUCache) :=
  match c.m.lookup key with
  | some resNode => do
      let ans := (c.heap resNode).val
      let c ← c.deleteNode resNode
      let c ← c.addNode resNode
      let c ← c.mapFirst key
      return (ans, c)
  | none => some (minusOne, c)

/-- The eviction at the head of `put`: the node before `tail` leaves map and list. -/
def evict (c : LRUCache) : Option LRUCache := do
  let last ← (c.heap c.tail).prev
  let c := { c with m := c.m.erase (c.heap last).key }
  let last ← (c.heap c.tail).prev
  c.deleteNode last

/-- `new Node(key, value)` at the address `fresh`. -/
def alloc (key value : Str) (c : LRUCache) : LRUCache :=
  { c with heap := Function.update c.heap c.fresh ⟨key, value, none, none⟩, fresh := c.fresh + 1 }

/-- The fullness test compares the size with the capacity as a `size_t`. -/
def Full (c : LRUCache) : Prop := (c.m.keys.length : Int) = sizeT c.cap

instance : DecidablePred Full := fun _ => inferInstanceAs (Decidable (_ = _))

def put (key value : Str) (c : LRUCache) : Option LRUCache := do
  let c ← if c.Full then c.evict else some c
  let newnode := c.fresh
  let c ← (c.alloc key value).addNode newnode
  c.mapFirst key

/-- The handling of one URL in `main`, with the response a fetch would return. -/
def serve (url response : Str) (c : LRUCache) : Option (Str × LRUCache) := do
  let (gt, c) ← c.get url
  if gt = minusOne then
    let c ← c.put url response
    return (response, c)
  else
    return (gt, c)

/-- The requests of `main` one after another, each with its response. -/
def serveAll : LRUCache → List (Str × Str) → Option (List Str × LRUCache)
  | c, [] => some ([], c)
  | c, (url, response) :: rest => do
      let (ans, c) ← c.serve url response
      let (answers, c) ← c.serveAll rest
      return (ans :: answers, c)

/-- The pointer fields of the cache's nodes. -/
def links (c : LRUCache) : LinkedList.Links Ptr where
  prev p := (c.heap p).prev
  next p := (c.heap p).next

/-- Two caches that differ in the pointer fields of their nodes at most. -/
structure SameContents (c c' : LRUCache) : Prop where
  key : ∀ p, (c'.heap p).key = (c.heap p).key
  val : ∀ p, (c'.heap p).val = (c.heap p).val
  fresh : c'.fresh = c.fresh
  head : c'.head = c.head
  tail : c'.tail = c.tail
  cap : c'.cap = c.cap
  m : c'.m = c.m

theorem SameContents.refl (c : LRUCache) : SameContents c c :=
  ⟨fun _ => rfl, fun _ => rfl, rfl, rfl, rfl, rfl, rfl⟩

theorem SameContents.trans {c c' c'' : LRUCache} (h : SameContents c c') (h' : SameContents c' c'') :
    SameContents c c'' :=
  ⟨fun p => (h'.key p).trans (h.key p), fun p => (h'.val p).trans (h.val p), h'.fresh.trans h.fresh,
    h'.head.trans h.head, h'.tail.trans h.tail, h'.cap.trans h.cap, h'.m.trans h.m⟩

theorem links_setNext (p q : Ptr) (c : LRUCache) : (c.setNext p q).links = c.links.setNext p q := by
  unfold links setNext LinkedList.Links.setNext
  congr 1
  · funext r
    by_cases same : r = p <;> simp [same]
  · funext r
    by_cases same : r = p <;> simp [same]

theorem links_setPrev (p q : Ptr) (c : LRUCache) : (c.setPrev p q).links = c.links.setPrev p q := by
  unfold links setPrev LinkedList.Links.setPrev
  congr 1
  · funext r
    by_cases same : r = p <;> simp [same]
  · funext r
    by_cases same : r = p <;> simp [same]

theorem sameContents_setNext (p q : Ptr) (c : LRUCache) : SameContents c (c.setNext p q) := by
  refine ⟨?_, ?_, rfl, rfl, rfl, rfl, rfl⟩ <;> intro r <;> by_cases same : r = p <;>
    simp [setNext, same]

theorem sameContents_setPrev (p q : Ptr) (c : LRUCache) : SameContents c (c.setPrev p q) := by
  refine ⟨?_, ?_, rfl, rfl, rfl, rfl, rfl⟩ <;> intro r <;> by_cases same : r = p <;>
    simp [setPrev, same]

/-- `deleteNode` is the unlinking of a cell, and changes nothing but pointers. -/
theorem deleteNode_spec {c : LRUCache} {d : Ptr} {L : LinkedList.Links Ptr}
    (h : c.links.unlink d = some L) :
    ∃ c', c.deleteNode d = some c' ∧ c'.links = L ∧ SameContents c c' := by
  simp only [LinkedList.Links.unlink, Option.bind_eq_bind, Option.bind_eq_some_iff] at h
  obtain ⟨prevv, hprev, nextt, hnext, same⟩ := h
  simp only [Option.pure_def, Option.some.injEq] at same
  refine ⟨(c.setNext prevv nextt).setPrev nextt prevv, ?_, ?_, ?_⟩
  · simp only [links] at hprev hnext
    simp [deleteNode, hprev, hnext]
  · rw [links_setPrev, links_setNext, same]
  · exact (sameContents_setNext _ _ c).trans (sameContents_setPrev _ _ _)

/-- `addNode` is the insertion of a cell behind `head`. -/
theorem addNode_spec {c : LRUCache} {p : Ptr} {L : LinkedList.Links Ptr}
    (h : c.links.insertAfter c.head p = some L) :
    ∃ c', c.addNode p = some c' ∧ c'.links = L ∧ SameContents c c' := by
  simp only [LinkedList.Links.insertAfter, Option.bind_eq_bind, Option.bind_eq_some_iff] at h
  obtain ⟨next, hnext, same⟩ := h
  simp only [Option.pure_def, Option.some.injEq] at same
  refine ⟨(((c.setNext c.head p).setPrev p c.head).setNext p next).setPrev next p, ?_, ?_, ?_⟩
  · simp only [links] at hnext
    simp [addNode, hnext]
  · rw [links_setPrev, links_setNext, links_setPrev, links_setNext, same]
  · exact ((sameContents_setNext _ _ c).trans (sameContents_setPrev _ _ _)).trans
      ((sameContents_setNext _ _ _).trans (sameContents_setPrev _ _ _))

end LRUCache
end NetworkOs.Lru
