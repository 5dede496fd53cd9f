import NetworkOs.Ospf.Updates

/-! What the network is about: routers with ids and weighted links between them. Creation and
deletion change it as these words say, wherever the routers lie in memory. -/
namespace NetworkOs.Ospf
open ShortestPath Network

@[ext] structure Topology where
  routers : Set Int
  link : Int → Int → Int → Prop

namespace Topology

def empty : Topology := ⟨∅, fun _ _ _ => False⟩

/-- A router comes, unless its id is in use, with the links whose other end is known. -/
def create (T : Topology) (routerId : Int) (incoming outgoing : List (Int × Int)) : Topology where
  routers := insert routerId T.routers
  link i j w := T.link i j w ∨ routerId ∉ T.routers ∧
    (i ∈ T.routers ∧ j = routerId ∧ (i, w) ∈ incoming ∨ i = routerId ∧ j ∈ T.routers ∧ (j, w) ∈ outgoing)

def delete (T : Topology) (del : Int) : Topology where
  routers := T.routers \ {del}
  link i j w := T.link i j w ∧ i ≠ del ∧ j ≠ del

/-- Links are between routers. -/
def Closed (T : Topology) : Prop := ∀ i j w, T.link i j w → i ∈ T.routers ∧ j ∈ T.routers

variable {T : Topology} {id : Int}

theorem create_used (used : id ∈ T.routers) (incoming outgoing : List (Int × Int)) :
    T.create id incoming outgoing = T := by
  refine Topology.ext (Set.insert_eq_of_mem used) ?_
  funext i j w
  simp [create, used]

theorem delete_unknown (closed : T.Closed) (unknown : id ∉ T.routers) : T.delete id = T := by
  refine Topology.ext (Set.sdiff_singleton_eq_self unknown) ?_
  funext i j w
  refine propext ⟨fun h => h.1, fun link => ⟨link, ?_, ?_⟩⟩
  · rintro rfl
    exact unknown (closed _ _ _ link).1
  · rintro rfl
    exact unknown (closed _ _ _ link).2

/-- A new router keeps every walk. -/
theorem walk_create {incoming outgoing : List (Int × Int)} {i j d : Int} (walk : Walk T.link i j d) :
    Walk (T.create id incoming outgoing).link i j d := by
  induction walk with
  | nil => exact .nil
  | snoc _ last ih => exact ih.snoc (.inl last)

theorem walk_of_delete {i j d : Int} (walk : Walk (T.delete id).link i j d) : Walk T.link i j d := by
  induction walk with
  | nil => exact .nil
  | snoc _ last ih => exact ih.snoc last.1

end Topology

/-- The routers of the set and their links, by their ids. -/
def Network.topology (net : Network) : Topology where
  routers := {i | i ∈ net.allRouterPtrs.map net.getRouterID}
  link i j w := ∃ u v, net.Link u v w ∧ net.getRouterID u = i ∧ net.getRouterID v = j

section View
variable {net net' made : Network} {new : Ptr} {routerId : Int}

theorem mem_routers {i : Int} : i ∈ net.topology.routers ↔ ∃ p ∈ net.allRouterPtrs, net.getRouterID p = i :=
  List.mem_map

theorem WellFormed.closed (wf : WellFormed net) : net.topology.Closed := by
  rintro i j w ⟨u, v, link, rfl, rfl⟩
  exact ⟨mem_routers.mpr ⟨u, link.1, rfl⟩, mem_routers.mpr ⟨v, wf.links u v w link, rfl⟩⟩

theorem SameLinks.topology (same : SameLinks net net') : net'.topology = net.topology := by
  have ids : net'.getRouterID = net.getRouterID := funext same.ids
  simp only [Network.topology, same.routers, ids, same.link]

/-- Between live routers the ids have the walks of the pointers. -/
theorem walk_topology_iff (wf : WellFormed net) {p q : Ptr} (live : p ∈ net.allRouterPtrs)
    (live' : q ∈ net.allRouterPtrs) {d : Int} :
    Walk net.topology.link (net.getRouterID p) (net.getRouterID q) d ↔ Walk net.Link p q d := by
  constructor
  · have reached : ∀ j d, Walk net.topology.link (net.getRouterID p) j d →
        ∃ q ∈ net.allRouterPtrs, net.getRouterID q = j ∧ Walk net.Link p q d := by
      intro j d walk
      induction walk with
      | nil => exact ⟨p, live, rfl, .nil⟩
      | snoc _ last ih =>
          obtain ⟨q, here, id_, before⟩ := ih
          obtain ⟨u, v, link, from_, to_⟩ := last
          have same : u = q := wf.ids u link.1 q here (from_.trans id_.symm)
          exact ⟨v, wf.links u v _ link, to_, before.snoc (same ▸ link)⟩
    intro walk
    obtain ⟨q', here, id_, walk'⟩ := reached _ d walk
    exact wf.ids q' here q live' id_ ▸ walk'
  · intro walk
    induction walk with
    | nil => exact .nil
    | snoc _ last ih => exact (ih last.1).snoc ⟨_, _, last, rfl, rfl⟩

theorem isDist_topology_iff (wf : WellFormed net) {p q : Ptr} (live : p ∈ net.allRouterPtrs)
    (live' : q ∈ net.allRouterPtrs) {d : Int} :
    IsDist net.topology.link (net.getRouterID p) (net.getRouterID q) d ↔ IsDist net.Link p q d := by
  refine ⟨fun dist => ⟨(walk_topology_iff wf live live').mp dist.walk, fun walk => ?_⟩,
    fun dist => ⟨(walk_topology_iff wf live live').mpr dist.walk, fun walk => ?_⟩⟩
  · exact dist.least ((walk_topology_iff wf live live').mpr walk)
  · exact dist.least ((walk_topology_iff wf live live').mp walk)

/-- The lookup of an id finds the router that has it. -/
theorem getRouterByID_eq_iff (wf : WellFormed net) {p : Ptr} (live : p ∈ net.allRouterPtrs) {id : Int} :
    net.getRouterByID id = p ↔ net.getRouterID p = id := by
  constructor
  · rintro rfl
    have notNull : net.getRouterByID id ≠ NULL := fun null => wf.notNull (null ▸ live)
    cases found : net.allRouterPtrs.find? fun q => net.getRouterID q = id with
    | none => exact absurd (by rw [getRouterByID, found]; rfl) notNull
    | some q =>
        rw [getRouterByID, found]
        simpa using List.find?_some found
  · rintro rfl
    exact getRouterByID_of_live wf live

theorem getRouterByID_null_iff (wf : WellFormed net) {id : Int} :
    net.getRouterByID id = NULL ↔ id ∉ net.topology.routers := by
  rw [mem_routers]
  constructor
  · rintro null ⟨p, live, rfl⟩
    rw [getRouterByID_of_live wf live] at null
    exact wf.notNull (null ▸ live)
  · intro unknown
    by_contra found
    have live := getRouterByID_live found
    exact unknown ⟨_, live, (getRouterByID_eq_iff wf live).mp rfl⟩

end View

section Creation
variable {net made : Network} {new : Ptr} {routerId : Int}

theorem mem_addNeighbor {p q r : Ptr} {weight : Int} {l : Ptr × Int} :
    l ∈ ((made.addNeighbor p q weight).heap r).neighbors ↔
      l ∈ (made.heap r).neighbors ∨ r = p ∧ l = (q, weight) := by
  by_cases same : r = p
  · subst same
    simp [addNeighbor, setRouter]
  · simp [addNeighbor, setRouter, same]

/-- While a router is being made its id cannot be looked up. -/
theorem Making.getRouterByID_eq (h : Making net new routerId made) (fresh : new ∉ net.allRouterPtrs) (id : Int) :
    made.getRouterByID id = net.getRouterByID id := by
  unfold getRouterByID
  rw [h.routers]
  congr 1
  refine List.find?_congr fun p live => ?_
  rw [h.ids, if_neg fun same : p = new => fresh (same ▸ live)]

theorem mem_incoming (h : Making net new routerId made) (fresh : new ∉ net.allRouterPtrs) (lines : List (Int × Int))
    {r : Ptr} {l : Ptr × Int} :
    l ∈ ((lines.foldl (addIncoming new) made).heap r).neighbors ↔ l ∈ (made.heap r).neighbors ∨
      ∃ line ∈ lines, net.getRouterByID line.1 = r ∧ r ≠ NULL ∧ l = (new, line.2) := by
  induction lines generalizing made with
  | nil => simp
  | cons line lines ih =>
      have first : l ∈ ((addIncoming new made line).heap r).neighbors ↔ l ∈ (made.heap r).neighbors ∨
          net.getRouterByID line.1 = r ∧ r ≠ NULL ∧ l = (new, line.2) := by
        simp only [addIncoming, h.getRouterByID_eq fresh]
        split_ifs with missing
        · rw [missing]
          exact (or_iff_left fun added => added.2.1 added.1.symm).symm
        · rw [mem_addNeighbor]
          refine or_congr_right ⟨?_, ?_⟩
          · rintro ⟨rfl, rfl⟩
            exact ⟨rfl, missing, rfl⟩
          · rintro ⟨rfl, _, rfl⟩
            exact ⟨rfl, rfl⟩
      have later : Making net new routerId (addIncoming new made line) := h.addIncoming [line]
      rw [List.foldl_cons, ih later, first, or_assoc, List.exists_mem_cons_iff]

theorem mem_outgoing (h : Making net new routerId made) (fresh : new ∉ net.allRouterPtrs) (lines : List (Int × Int))
    {r : Ptr} {l : Ptr × Int} :
    l ∈ ((lines.foldl (addOutgoing new) made).heap r).neighbors ↔ l ∈ (made.heap r).neighbors ∨
      r = new ∧ ∃ line ∈ lines, net.getRouterByID line.1 ≠ NULL ∧ l = (net.getRouterByID line.1, line.2) := by
  induction lines generalizing made with
  | nil => simp
  | cons line lines ih =>
      have first : l ∈ ((addOutgoing new made line).heap r).neighbors ↔ l ∈ (made.heap r).neighbors ∨
          r = new ∧ net.getRouterByID line.1 ≠ NULL ∧ l = (net.getRouterByID line.1, line.2) := by
        simp only [addOutgoing, h.getRouterByID_eq fresh]
        split_ifs with missing
        · exact (or_iff_left fun added => added.2.1 missing).symm
        · rw [mem_addNeighbor]
          exact or_congr_right (and_congr_right fun _ => (and_iff_right missing).symm)
      have later : Making net new routerId (addOutgoing new made line) := h.addOutgoing [line]
      rw [List.foldl_cons, ih later, first, or_assoc, List.exists_mem_cons_iff, and_or_left]

/-- The links of a network in which a router has been made. -/
theorem linked_link_iff (wf : WellFormed net) (notNull : new ≠ NULL) (fresh : new ∉ net.allRouterPtrs)
    (routerId : Int) (incoming outgoing : List (Int × Int)) {u v : Ptr} {w : Int} :
    (linked net new routerId incoming outgoing).Link u v w ↔ net.Link u v w ∨
      u ∈ net.allRouterPtrs ∧ v = new ∧ (net.getRouterID u, w) ∈ incoming ∨
      u = new ∧ v ∈ net.allRouterPtrs ∧ (net.getRouterID v, w) ∈ outgoing := by
  have making := setRouter_making wf new routerId
  have listed : (v, w) ∈ ((linked net new routerId incoming outgoing).heap u).neighbors ↔
      ((v, w) ∈ ((net.setRouter new ⟨routerId, [], fun _ => none⟩).heap u).neighbors ∨
        ∃ line ∈ incoming, net.getRouterByID line.1 = u ∧ u ≠ NULL ∧ (v, w) = (new, line.2)) ∨
      u = new ∧ ∃ line ∈ outgoing, net.getRouterByID line.1 ≠ NULL ∧ (v, w) = (net.getRouterByID line.1, line.2) := by
    change (v, w) ∈ ((outgoing.foldl (addOutgoing new) _).heap u).neighbors ↔ _
    rw [mem_outgoing (making.addIncoming incoming) fresh, mem_incoming making fresh]
  have routers : ∀ p, p ∈ (linked net new routerId incoming outgoing).allRouterPtrs ↔
      p = new ∨ p ∈ net.allRouterPtrs := by
    intro p
    change p ∈ List.orderedInsert (· ≤ ·) new _ ↔ _
    rw [List.mem_orderedInsert, ((making.addIncoming incoming).addOutgoing outgoing).routers]
  unfold Network.Link
  rw [routers, listed]
  by_cases same : u = new
  · subst same
    simp only [setRouter, Function.update_self, List.not_mem_nil, false_or, true_or, true_and, fresh, false_and]
    constructor
    · rintro (⟨line, _, looked, _, _⟩ | ⟨line, member, known, same⟩)
      · exact absurd (getRouterByID_live (looked.symm ▸ notNull)) (looked ▸ fresh)
      · obtain ⟨rfl, rfl⟩ := Prod.mk.inj same
        have live := getRouterByID_live known
        rw [(getRouterByID_eq_iff wf live).mp rfl]
        exact ⟨live, member⟩
    · rintro ⟨live, member⟩
      refine .inr ⟨_, member, ?_, ?_⟩
      · rw [getRouterByID_of_live wf live]
        exact fun null => wf.notNull (null ▸ live)
      · rw [getRouterByID_of_live wf live]
  · simp only [setRouter, Function.update_of_ne same, same, false_or, false_and, or_false]
    constructor
    · rintro ⟨live, old | ⟨line, member, looked, _, eq⟩⟩
      · exact .inl ⟨live, old⟩
      · obtain ⟨rfl, rfl⟩ := Prod.mk.inj eq
        rw [(getRouterByID_eq_iff wf live).mp looked]
        exact .inr ⟨live, rfl, member⟩
    · rintro (⟨live, old⟩ | ⟨live, rfl, member⟩)
      · exact ⟨live, .inl old⟩
      · exact ⟨live, .inr ⟨_, member, getRouterByID_of_live wf live, fun null => wf.notNull (null ▸ live), rfl⟩⟩

theorem linked_topology (wf : WellFormed net) (notNull : new ≠ NULL) (fresh : new ∉ net.allRouterPtrs)
    (unused : ∀ p ∈ net.allRouterPtrs, net.getRouterID p ≠ routerId) (incoming outgoing : List (Int × Int)) :
    (linked net new routerId incoming outgoing).topology = net.topology.create routerId incoming outgoing := by
  have making := ((setRouter_making wf new routerId).addIncoming incoming).addOutgoing outgoing
  have id_new : (linked net new routerId incoming outgoing).getRouterID new = routerId := (making.ids new).trans (if_pos rfl)
  have id_old : ∀ p ∈ net.allRouterPtrs,
      (linked net new routerId incoming outgoing).getRouterID p = net.getRouterID p := fun p live =>
    (making.ids p).trans (if_neg fun same : p = new => fresh (same ▸ live))
  have routers : ∀ p, p ∈ (linked net new routerId incoming outgoing).allRouterPtrs ↔
      p = new ∨ p ∈ net.allRouterPtrs := by
    intro p
    change p ∈ List.orderedInsert (· ≤ ·) new _ ↔ _
    rw [List.mem_orderedInsert, making.routers]
  have unknown : routerId ∉ net.topology.routers := fun used =>
    let ⟨p, live, same⟩ := mem_routers.mp used
    unused p live same
  refine Topology.ext ?_ ?_
  · ext i
    change i ∈ (linked net new routerId incoming outgoing).topology.routers ↔ i = routerId ∨ i ∈ net.topology.routers
    simp only [mem_routers, routers]
    constructor
    · rintro ⟨p, rfl | live, rfl⟩
      · exact .inl id_new
      · exact .inr ⟨p, live, (id_old p live).symm⟩
    · rintro (rfl | ⟨p, live, rfl⟩)
      · exact ⟨new, .inl rfl, id_new⟩
      · exact ⟨p, .inr live, id_old p live⟩
  · funext i j w
    refine propext ?_
    simp only [Network.topology, Topology.create, linked_link_iff wf notNull fresh]
    change _ ↔ _ ∨ routerId ∉ net.topology.routers ∧
      (i ∈ net.topology.routers ∧ _ ∨ _ ∧ j ∈ net.topology.routers ∧ _)
    simp only [unknown, not_false_eq_true, true_and, mem_routers]
    constructor
    · rintro ⟨u, v, link | ⟨live, rfl, member⟩ | ⟨rfl, live, member⟩, rfl, rfl⟩
      · rw [id_old u link.1, id_old v (wf.links u v w link)]
        exact .inl ⟨u, v, link, rfl, rfl⟩
      · rw [id_old u live]
        exact .inr (.inl ⟨⟨u, live, rfl⟩, id_new, member⟩)
      · rw [id_old v live]
        exact .inr (.inr ⟨id_new, ⟨v, live, rfl⟩, member⟩)
    · rintro (⟨u, v, link, rfl, rfl⟩ | ⟨⟨u, live, rfl⟩, rfl, member⟩ | ⟨rfl, ⟨v, live, rfl⟩, member⟩)
      · exact ⟨u, v, .inl link, id_old u link.1, id_old v (wf.links u v w link)⟩
      · exact ⟨u, new, .inr (.inl ⟨live, rfl, member⟩), id_old u live, id_new⟩
      · exact ⟨new, v, .inr (.inr ⟨rfl, live, member⟩), id_new, id_old v live⟩

theorem unlinked_topology (wf : WellFormed net) {gone : Ptr} (live : gone ∈ net.allRouterPtrs) :
    (unlinked net gone).topology = net.topology.delete (net.getRouterID gone) := by
  have ids : ∀ p, (unlinked net gone).getRouterID p = net.getRouterID p := by
    intro p
    unfold unlinked dropLinks getRouterID
    dsimp only
    split_ifs <;> rfl
  have routers : ∀ p, p ∈ (unlinked net gone).allRouterPtrs ↔ p ≠ gone ∧ p ∈ net.allRouterPtrs := fun p =>
    wf.nodup.mem_erase_iff
  have other : ∀ p ∈ net.allRouterPtrs, net.getRouterID p ≠ net.getRouterID gone ↔ p ≠ gone := fun p here =>
    not_congr ⟨wf.ids p here gone live, congrArg _⟩
  have links : ∀ u v w, (unlinked net gone).Link u v w ↔ net.Link u v w ∧ u ≠ gone ∧ v ≠ gone := by
    intro u v w
    unfold Network.Link
    rw [routers]
    constructor
    · rintro ⟨⟨apart, here⟩, listed⟩
      simp only [unlinked, dropLinks, if_pos (And.intro here apart), List.mem_filter, decide_eq_true_eq] at listed
      exact ⟨⟨here, listed.1⟩, apart, listed.2⟩
    · rintro ⟨⟨here, listed⟩, apart, apart'⟩
      refine ⟨⟨apart, here⟩, ?_⟩
      simp only [unlinked, dropLinks, if_pos (And.intro here apart), List.mem_filter, decide_eq_true_eq]
      exact ⟨listed, apart'⟩
  refine Topology.ext ?_ ?_
  · ext i
    change i ∈ (unlinked net gone).topology.routers ↔ i ∈ net.topology.routers ∧ i ≠ net.getRouterID gone
    simp only [mem_routers, routers, ids]
    constructor
    · rintro ⟨p, ⟨apart, here⟩, rfl⟩
      exact ⟨⟨p, here, rfl⟩, (other p here).mpr apart⟩
    · rintro ⟨⟨p, here, rfl⟩, apart⟩
      exact ⟨p, ⟨(other p here).mp apart, here⟩, rfl⟩
  · funext i j w
    refine propext ?_
    simp only [Network.topology, Topology.delete, links, ids]
    constructor
    · rintro ⟨u, v, ⟨link, apart, apart'⟩, rfl, rfl⟩
      exact ⟨⟨u, v, link, rfl, rfl⟩, (other u link.1).mpr apart, (other v (wf.links u v w link)).mpr apart'⟩
    · rintro ⟨⟨u, v, link, rfl, rfl⟩, apart, apart'⟩
      exact ⟨u, v, ⟨link, (other u link.1).mp apart, (other v (wf.links u v w link)).mp apart'⟩, rfl, rfl⟩

end Creation

section Calls
variable {wrap : Int → Int} {net net' : Network} {fuel : Nat}

theorem createRouter_topology (wf : WellFormed net) {new : Ptr} (notNull : new ≠ NULL)
    (fresh : new ∉ net.allRouterPtrs) {routerId : Int} {incoming outgoing : List (Int × Int)}
    (done : net.createRouter wrap fuel new routerId incoming outgoing = some net') :
    net'.topology = net.topology.create routerId incoming outgoing := by
  obtain ⟨rfl, used⟩ | ⟨unused, updated⟩ := createRouter_cases done
  · rw [Topology.create_used (mem_routers.mpr used)]
  · have same := (updateAll_spec (linked_wellFormed wf notNull fresh unused incoming outgoing) updated).1
    rw [same.topology, linked_topology wf notNull fresh unused]

theorem deleteRouter_topology (wf : WellFormed net) {del : Int} (done : net.deleteRouter wrap fuel del = some net') :
    net'.topology = net.topology.delete del := by
  obtain ⟨rfl, unknown⟩ | ⟨gone, live, rfl, updated⟩ := deleteRouter_cases done
  · rw [Topology.delete_unknown wf.closed fun known =>
      let ⟨p, live, same⟩ := mem_routers.mp known
      unknown p live same]
  · rw [(updateAll_spec (unlinked_wellFormed wf gone) updated).1.topology, unlinked_topology wf live]

end Calls
end NetworkOs.Ospf
