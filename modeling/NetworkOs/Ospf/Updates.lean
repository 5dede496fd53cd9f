import NetworkOs.Ospf.Dijkstra

/-! What holds in every network that creations and deletions lead to: ids are distinct,
links end at live routers, and every routing table is the one computed from the links. -/
namespace NetworkOs.Ospf
open ShortestPath Network

/-- Two networks that differ in routing tables at most. -/
structure SameLinks (net net' : Network) : Prop where
  routers : net'.allRouterPtrs = net.allRouterPtrs
  ids : ∀ p, net'.getRouterID p = net.getRouterID p
  neighbors : ∀ p, (net'.heap p).neighbors = (net.heap p).neighbors

/-- Two networks that agree in the ids and links of live routers. -/
structure SameLive (net net' : Network) : Prop where
  routers : net'.allRouterPtrs = net.allRouterPtrs
  ids : ∀ p ∈ net.allRouterPtrs, net'.getRouterID p = net.getRouterID p
  neighbors : ∀ p ∈ net.allRouterPtrs, (net'.heap p).neighbors = (net.heap p).neighbors

/-- The table is what `updateRoutingTable` computes for `this`. -/
def Computed (wrap : Int → Int) (net : Network) (this : Ptr) (table : Int → Option Ptr) : Prop :=
  ∃ fuel s, net.dijkstra wrap fuel (net.initial this) = some s ∧
    net.buildTable fuel this (net.fillNull s.nextHop) = some table

/-- Every live router has its computed table. -/
def Current (wrap : Int → Int) (net : Network) : Prop :=
  ∀ p ∈ net.allRouterPtrs, Computed wrap net p (net.heap p).routingTable

section Tables
variable {wrap : Int → Int} {net net' : Network} {this : Ptr}

theorem SameLinks.refl (net : Network) : SameLinks net net := ⟨rfl, fun _ => rfl, fun _ => rfl⟩

theorem SameLinks.trans {net'' : Network} (h : SameLinks net net') (h' : SameLinks net' net'') :
    SameLinks net net'' :=
  ⟨h'.routers.trans h.routers, fun p => (h'.ids p).trans (h.ids p),
    fun p => (h'.neighbors p).trans (h.neighbors p)⟩

theorem SameLinks.link (h : SameLinks net net') : net'.Link = net.Link := by
  funext u v w
  rw [Link, Link, h.routers, h.neighbors]

theorem SameLinks.wellFormed (h : SameLinks net net') (wf : WellFormed net) : WellFormed net' := by
  constructor
  · exact h.routers ▸ wf.notNull
  · exact h.routers ▸ wf.nodup
  · intro p hp q hq same
    rw [h.ids, h.ids] at same
    exact wf.ids p (h.routers ▸ hp) q (h.routers ▸ hq) same
  · intro u v w link
    rw [h.link] at link
    exact h.routers ▸ wf.links u v w link

theorem SameLinks.sameLive (h : SameLinks net net') : SameLive net net' :=
  ⟨h.routers, fun p _ => h.ids p, fun p _ => h.neighbors p⟩

theorem SameLive.trans {net'' : Network} (h : SameLive net net') (h' : SameLive net' net'') : SameLive net net'' := by
  refine ⟨h'.routers.trans h.routers, fun p live => ?_, fun p live => ?_⟩
  · exact (h'.ids p (h.routers ▸ live)).trans (h.ids p live)
  · exact (h'.neighbors p (h.routers ▸ live)).trans (h.neighbors p live)

/-- The scan of a live router queues live routers only, and is the same in both networks. -/
theorem SameLive.foldl (h : SameLive net net') (wrap : Int → Int) {node : Ptr} (live : node ∈ net.allRouterPtrs)
    {links : List (Ptr × Int)} (ends : ∀ l ∈ links, l.1 ∈ net.allRouterPtrs) {s : Search}
    (queued : ∀ e ∈ s.pq, e.2 ∈ net.allRouterPtrs) :
    links.foldl (net'.relax wrap node) s = links.foldl (net.relax wrap node) s ∧
      ∀ e ∈ (links.foldl (net.relax wrap node) s).pq, e.2 ∈ net.allRouterPtrs := by
  induction links generalizing s with
  | nil => exact ⟨rfl, queued⟩
  | cons l links ih =>
      have liveL := ends l List.mem_cons_self
      have same : net'.relax wrap node s l = net.relax wrap node s l := by
        simp only [Network.relax, h.ids node live, h.ids l.1 liveL]
      rw [List.foldl_cons, List.foldl_cons, same]
      refine ih (fun l' member => ends l' (List.mem_cons_of_mem _ member)) fun e member => ?_
      simp only [Network.relax] at member
      split_ifs at member
      · rcases (List.mem_orderedInsert Above).mp member with rfl | old
        · exact liveL
        · exact queued e old
      · exact queued e member

theorem SameLive.dijkstra (h : SameLive net net') (wf : WellFormed net) {fuel : Nat} {s : Search}
    (queued : ∀ e ∈ s.pq, e.2 ∈ net.allRouterPtrs) :
    net'.dijkstra wrap fuel s = net.dijkstra wrap fuel s := by
  induction fuel generalizing s with
  | zero =>
      cases queue : s.pq with
      | nil => rw [dijkstra_empty queue, dijkstra_empty queue]
      | cons top rest => rw [dijkstra_zero queue, dijkstra_zero queue]
  | succ fuel ih =>
      cases queue : s.pq with
      | nil => rw [dijkstra_empty queue, dijkstra_empty queue]
      | cons top rest =>
          have live := queued top (queue ▸ List.mem_cons_self)
          have ends : ∀ l ∈ (net.heap top.2).neighbors, l.1 ∈ net.allRouterPtrs :=
            fun l member => wf.links top.2 l.1 l.2 ⟨live, member⟩
          have popped : ∀ e ∈ ({ s with pq := rest } : Search).pq, e.2 ∈ net.allRouterPtrs :=
            fun e member => queued e (queue ▸ List.mem_cons_of_mem _ member)
          obtain ⟨same, queued'⟩ := h.foldl wrap live ends popped
          rw [dijkstra_succ queue, dijkstra_succ queue, Network.scan, Network.scan, h.neighbors top.2 live, same]
          exact ih queued'

theorem initial_queued (live : this ∈ net.allRouterPtrs) : ∀ e ∈ (net.initial this).pq, e.2 ∈ net.allRouterPtrs :=
  fun _ member => List.mem_singleton.mp member ▸ live

theorem SameLive.initial (h : SameLive net net') (live : this ∈ net.allRouterPtrs) :
    net'.initial this = net.initial this := by
  have ids : net'.allRouterPtrs.map net'.getRouterID = net.allRouterPtrs.map net.getRouterID := by
    rw [h.routers]
    exact List.map_congr_left h.ids
  simp only [Network.initial, ids, h.ids this live]

theorem SameLive.climb (h : SameLive net net') (live : this ∈ net.allRouterPtrs) (nextHop : Ptr → Ptr)
    (fuel : Nat) (temp : Ptr) : net'.climb this nextHop fuel temp = net.climb this nextHop fuel temp := by
  have set : net'.neighborsSet this = net.neighborsSet this := by
    rw [neighborsSet, neighborsSet, h.neighbors this live]
  induction fuel generalizing temp with
  | zero => rw [Network.climb, Network.climb, set]
  | succ fuel ih => rw [Network.climb, Network.climb, set, ih]

theorem foldlM_ids {entry : Ptr → Option Ptr} {id id' : Ptr → Int} {ps : List Ptr} (same : ∀ p ∈ ps, id' p = id p)
    (table : Int → Option Ptr) :
    ps.foldlM (m := Option) (fun t p => do return Function.update t (id' p) (some (← entry p))) table =
      ps.foldlM (fun t p => do return Function.update t (id p) (some (← entry p))) table := by
  induction ps generalizing table with
  | nil => rfl
  | cons p ps ih =>
      rw [List.foldlM_cons, List.foldlM_cons, same p List.mem_cons_self]
      exact bind_congr fun t => ih (fun q member => same q (List.mem_cons_of_mem _ member)) t

theorem SameLive.buildTable (h : SameLive net net') (live : this ∈ net.allRouterPtrs) (fuel : Nat)
    (nextHop : Ptr → Ptr) :
    net'.buildTable fuel this (net'.fillNull nextHop) = net.buildTable fuel this (net.fillNull nextHop) := by
  have filled : net'.fillNull nextHop = net.fillNull nextHop := by
    funext p
    simp only [fillNull, h.routers]
  have entry : ∀ dest, net'.tableEntry fuel this (net.fillNull nextHop) dest =
      net.tableEntry fuel this (net.fillNull nextHop) dest := by
    intro dest
    simp only [tableEntry, h.climb live]
  simp only [Network.buildTable, h.routers, filled, entry]
  exact foldlM_ids h.ids _

theorem SameLive.computed (h : SameLive net net') (wf : WellFormed net) (live : this ∈ net.allRouterPtrs)
    {table : Int → Option Ptr} : Computed wrap net' this table ↔ Computed wrap net this table := by
  simp only [Computed, h.initial live, h.dijkstra wf (initial_queued live), h.buildTable live]

/-- A table that was built has the computed entry for every listed router, and keys
for no other ids. -/
theorem foldlM_entries {entry : Ptr → Option Ptr} {id : Ptr → Int} {ps : List Ptr}
    {table table' : Int → Option Ptr} (distinct : (ps.map id).Nodup)
    (done : ps.foldlM (fun t p => do return Function.update t (id p) (some (← entry p))) table = some table') :
    (∀ p ∈ ps, entry p = table' (id p) ∧ table' (id p) ≠ none) ∧
      ∀ i, i ∉ ps.map id → table' i = table i := by
  induction ps generalizing table with
  | nil => exact ⟨by simp, fun i _ => congrFun (Option.some.inj done).symm i⟩
  | cons q ps ih =>
      rw [List.map_cons, List.nodup_cons] at distinct
      simp only [List.foldlM_cons, Option.bind_eq_bind, Option.pure_def, Option.bind_eq_some_iff,
        Option.some.injEq] at done
      obtain ⟨_, ⟨e, got, rfl⟩, rest⟩ := done
      obtain ⟨entries, others⟩ := ih distinct.2 rest
      constructor
      · intro p member
        rcases List.mem_cons.mp member with rfl | later
        · rw [others _ distinct.1, Function.update_self, got]
          exact ⟨rfl, Option.some_ne_none e⟩
        · exact entries p later
      · intro i absent
        rw [List.map_cons, List.mem_cons, not_or] at absent
        rw [others i absent.2, Function.update_of_ne absent.1]

theorem WellFormed.ids_nodup (wf : WellFormed net) : (net.allRouterPtrs.map net.getRouterID).Nodup :=
  wf.nodup.map_on fun p hp q hq same => wf.ids p hp q hq same

theorem updateRoutingTable_eq {fuel : Nat}
    (done : net.updateRoutingTable wrap fuel this = some net') :
    ∃ table, Computed wrap net this table ∧
      net' = net.setRouter this { net.heap this with routingTable := table } := by
  simp only [updateRoutingTable, Option.bind_eq_bind, Option.bind_eq_some_iff, Option.pure_def,
    Option.some.injEq] at done
  obtain ⟨s, found, table, built, rfl⟩ := done
  exact ⟨table, ⟨fuel, s, found, built⟩, rfl⟩

theorem sameLinks_setTable (this : Ptr) (table : Int → Option Ptr) :
    SameLinks net (net.setRouter this { net.heap this with routingTable := table }) := by
  refine ⟨rfl, ?_, ?_⟩ <;> intro p <;> by_cases same : p = this <;>
    simp [setRouter, getRouterID, same]

/-- The updating loop recomputes the tables of the listed routers and changes nothing else. -/
theorem updateList_spec {fuel : Nat} {ps : List Ptr} (wf : WellFormed net)
    (live : ∀ p ∈ ps, p ∈ net.allRouterPtrs) (distinct : ps.Nodup)
    (done : ps.foldlM (fun net p => net.updateRoutingTable wrap fuel p) net = some net') :
    SameLinks net net' ∧ (∀ p ∈ ps, Computed wrap net p (net'.heap p).routingTable) ∧
      ∀ p ∉ ps, net'.heap p = net.heap p := by
  induction ps generalizing net with
  | nil => exact Option.some.inj done ▸ ⟨.refl net, by simp, fun _ _ => rfl⟩
  | cons q ps ih =>
      rw [List.nodup_cons] at distinct
      simp only [List.foldlM_cons, Option.bind_eq_bind, Option.bind_eq_some_iff] at done
      obtain ⟨mid, first, rest⟩ := done
      obtain ⟨table, computed, rfl⟩ := updateRoutingTable_eq first
      have same : SameLinks net _ := sameLinks_setTable q table
      have live' : ∀ p ∈ ps, p ∈ net.allRouterPtrs := fun p later => live p (List.mem_cons_of_mem _ later)
      obtain ⟨same', tables, others⟩ := ih (same.wellFormed wf) (same.routers ▸ live') distinct.2 rest
      refine ⟨same.trans same', ?_, ?_⟩
      · intro p member
        rcases List.mem_cons.mp member with rfl | later
        · rw [others p distinct.1]
          simpa [setRouter] using computed
        · exact (same.sameLive.computed wf (live' p later)).mp (tables p later)
      · intro p absent
        rw [List.mem_cons, not_or] at absent
        rw [others p absent.2]
        simp [setRouter, absent.1]

theorem updateAll_spec {fuel : Nat} (wf : WellFormed net) (done : net.updateAll wrap fuel = some net') :
    SameLinks net net' ∧ WellFormed net' ∧ Current wrap net' := by
  obtain ⟨same, tables, _⟩ := updateList_spec wf (fun _ live => live) wf.nodup done
  refine ⟨same, same.wellFormed wf, fun p live => ?_⟩
  have live := same.routers ▸ live
  exact (same.sameLive.computed wf live).mpr (tables p live)

end Tables

section Lookup
variable {net : Network}

theorem getRouterByID_of_live (wf : WellFormed net) {p : Ptr} (live : p ∈ net.allRouterPtrs) :
    net.getRouterByID (net.getRouterID p) = p := by
  cases found : net.allRouterPtrs.find? fun q => net.getRouterID q = net.getRouterID p with
  | none => exact absurd (List.find?_eq_none.mp found p live) (by simp)
  | some q =>
      have same : net.getRouterID q = net.getRouterID p := by simpa using List.find?_some found
      rw [getRouterByID, found, Option.getD_some]
      exact wf.ids q (List.mem_of_find?_eq_some found) p live same

theorem getRouterByID_live {id : Int} (found : net.getRouterByID id ≠ NULL) :
    net.getRouterByID id ∈ net.allRouterPtrs := by
  unfold getRouterByID at *
  cases held : net.allRouterPtrs.find? fun q => net.getRouterID q = id with
  | none => exact absurd (by rw [held]; rfl) found
  | some q => exact List.mem_of_find?_eq_some held

end Lookup

/-- A network in which the router `new` is being made: its links may start at live
routers or at `new`, and end at live routers or, from elsewhere, at `new`. -/
structure Making (net : Network) (new : Ptr) (routerId : Int) (made : Network) : Prop where
  routers : made.allRouterPtrs = net.allRouterPtrs
  ids : ∀ p, made.getRouterID p = if p = new then routerId else net.getRouterID p
  links : ∀ p ∈ new :: net.allRouterPtrs, ∀ l ∈ (made.heap p).neighbors, l.1 ∈ new :: net.allRouterPtrs

section Creation
variable {wrap : Int → Int} {net net' made : Network} {new : Ptr} {routerId : Int}

theorem Making.addNeighbor (h : Making net new routerId made) (q : Ptr) {r : Ptr} (weight : Int)
    (known : r ∈ new :: net.allRouterPtrs) : Making net new routerId (made.addNeighbor q r weight) := by
  refine ⟨h.routers, ?_, ?_⟩
  · intro p
    rw [← h.ids]
    by_cases same : p = q <;> simp [Network.addNeighbor, setRouter, getRouterID, same]
  · intro p member l listed
    by_cases same : p = q
    · simp only [Network.addNeighbor, setRouter, same, Function.update_self, List.mem_append,
        List.mem_singleton] at listed
      rcases listed with old | rfl
      · exact h.links p member l (same ▸ old)
      · exact known
    · exact h.links p member l (by simpa [Network.addNeighbor, setRouter, same] using listed)

theorem Making.addIncoming (h : Making net new routerId made) (lines : List (Int × Int)) :
    Making net new routerId (lines.foldl (Network.addIncoming new) made) := by
  induction lines generalizing made with
  | nil => exact h
  | cons line lines ih =>
      refine ih ?_
      simp only [Network.addIncoming]
      split_ifs
      · exact h
      · exact h.addNeighbor _ _ List.mem_cons_self

theorem Making.addOutgoing (h : Making net new routerId made) (lines : List (Int × Int)) :
    Making net new routerId (lines.foldl (Network.addOutgoing new) made) := by
  induction lines generalizing made with
  | nil => exact h
  | cons line lines ih =>
      refine ih ?_
      simp only [Network.addOutgoing]
      split_ifs with missing
      · exact h
      · exact h.addNeighbor _ _ (List.mem_cons_of_mem _ (h.routers ▸ getRouterByID_live missing))

theorem setRouter_making (wf : WellFormed net) (new : Ptr) (routerId : Int) :
    Making net new routerId (net.setRouter new ⟨routerId, [], fun _ => none⟩) := by
  refine ⟨rfl, ?_, ?_⟩
  · intro p
    by_cases same : p = new <;> simp [setRouter, getRouterID, same]
  · intro p member l listed
    by_cases same : p = new
    · simp [setRouter, same] at listed
    · have live : p ∈ net.allRouterPtrs := (List.mem_cons.mp member).resolve_left same
      have listed : l ∈ (net.heap p).neighbors := by simpa [setRouter, same] using listed
      exact List.mem_cons_of_mem _ (wf.links p l.1 l.2 ⟨live, listed⟩)

/-- Entering the finished router into the set keeps the network well formed. -/
theorem Making.finish (h : Making net new routerId made) (wf : WellFormed net) (notNull : new ≠ NULL)
    (fresh : new ∉ net.allRouterPtrs) (unused : ∀ p ∈ net.allRouterPtrs, net.getRouterID p ≠ routerId) :
    WellFormed { made with allRouterPtrs := made.allRouterPtrs.orderedInsert (· ≤ ·) new } := by
  have perm : (made.allRouterPtrs.orderedInsert (· ≤ ·) new).Perm (new :: net.allRouterPtrs) := by
    rw [h.routers]
    exact List.perm_orderedInsert (· ≤ ·) new _
  have id_new : made.getRouterID new = routerId := by rw [h.ids, if_pos rfl]
  have id_old : ∀ p ∈ net.allRouterPtrs, made.getRouterID p = net.getRouterID p := by
    intro p live
    rw [h.ids, if_neg]
    rintro rfl
    exact fresh live
  refine ⟨?_, ?_, ?_, ?_⟩
  · intro null
    rcases List.mem_cons.mp (perm.mem_iff.mp null) with same | live
    · exact notNull same.symm
    · exact wf.notNull live
  · exact perm.nodup_iff.mpr (List.nodup_cons.mpr ⟨fresh, wf.nodup⟩)
  · intro p hp q hq same
    change made.getRouterID p = made.getRouterID q at same
    rcases List.mem_cons.mp (perm.mem_iff.mp hp) with rfl | liveP
    · rcases List.mem_cons.mp (perm.mem_iff.mp hq) with rfl | liveQ
      · rfl
      · rw [id_new, id_old q liveQ] at same
        exact absurd same.symm (unused q liveQ)
    · rcases List.mem_cons.mp (perm.mem_iff.mp hq) with rfl | liveQ
      · rw [id_new, id_old p liveP] at same
        exact absurd same (unused p liveP)
      · rw [id_old p liveP, id_old q liveQ] at same
        exact wf.ids p liveP q liveQ same
  · rintro u v w ⟨live, listed⟩
    exact perm.mem_iff.mpr (h.links u (perm.mem_iff.mp live) (v, w) listed)

/-- The network `createRouter` hands to the updating loop. -/
def linked (net : Network) (new : Ptr) (routerId : Int) (incoming outgoing : List (Int × Int)) : Network :=
  let made := net.setRouter new ⟨routerId, [], fun _ => none⟩
  let linked := outgoing.foldl (Network.addOutgoing new) (incoming.foldl (Network.addIncoming new) made)
  { linked with allRouterPtrs := linked.allRouterPtrs.orderedInsert (· ≤ ·) new }

/-- The network `deleteRouter` hands to the updating loop. -/
def unlinked (net : Network) (gone : Ptr) : Network :=
  { net.dropLinks gone with allRouterPtrs := (net.dropLinks gone).allRouterPtrs.erase gone }

theorem createRouter_used {fuel : Nat} {incoming outgoing : List (Int × Int)}
    (used : ∃ p ∈ net.allRouterPtrs, net.getRouterID p = routerId) :
    net.createRouter wrap fuel new routerId incoming outgoing = some net := if_pos used

theorem createRouter_unused {fuel : Nat} {incoming outgoing : List (Int × Int)}
    (unused : ∀ p ∈ net.allRouterPtrs, net.getRouterID p ≠ routerId) :
    net.createRouter wrap fuel new routerId incoming outgoing =
      (linked net new routerId incoming outgoing).updateAll wrap fuel :=
  if_neg fun ⟨p, live, same⟩ => unused p live same

theorem deleteRouter_unknown {fuel : Nat} {del : Int}
    (unknown : ∀ p ∈ net.allRouterPtrs, net.getRouterID p ≠ del) :
    net.deleteRouter wrap fuel del = some net := by
  have missing : net.allRouterPtrs.find? (fun p => net.getRouterID p = del) = none :=
    List.find?_eq_none.mpr fun p live => by simpa using unknown p live
  unfold deleteRouter
  rw [missing]

theorem deleteRouter_found {fuel : Nat} {del : Int} {gone : Ptr}
    (found : net.allRouterPtrs.find? (fun p => net.getRouterID p = del) = some gone) :
    net.deleteRouter wrap fuel del = (unlinked net gone).updateAll wrap fuel := by
  unfold deleteRouter
  rw [found]
  rfl

/-- What a creation can do. -/
theorem createRouter_cases {fuel : Nat} {incoming outgoing : List (Int × Int)}
    (done : net.createRouter wrap fuel new routerId incoming outgoing = some net') :
    net' = net ∧ (∃ p ∈ net.allRouterPtrs, net.getRouterID p = routerId) ∨
      (∀ p ∈ net.allRouterPtrs, net.getRouterID p ≠ routerId) ∧
        (linked net new routerId incoming outgoing).updateAll wrap fuel = some net' := by
  by_cases used : ∃ p ∈ net.allRouterPtrs, net.getRouterID p = routerId
  · rw [createRouter_used used] at done
    exact .inl ⟨(Option.some.inj done).symm, used⟩
  · push Not at used
    exact .inr ⟨used, createRouter_unused used ▸ done⟩

/-- What a deletion can do. -/
theorem deleteRouter_cases {fuel : Nat} {del : Int} (done : net.deleteRouter wrap fuel del = some net') :
    net' = net ∧ (∀ p ∈ net.allRouterPtrs, net.getRouterID p ≠ del) ∨
      ∃ gone ∈ net.allRouterPtrs, net.getRouterID gone = del ∧ (unlinked net gone).updateAll wrap fuel = some net' := by
  cases found : net.allRouterPtrs.find? fun p => net.getRouterID p = del with
  | none =>
      have unknown : ∀ p ∈ net.allRouterPtrs, net.getRouterID p ≠ del := by
        simpa using List.find?_eq_none.mp found
      rw [deleteRouter_unknown unknown] at done
      exact .inl ⟨(Option.some.inj done).symm, unknown⟩
  | some gone =>
      have named : net.getRouterID gone = del := by simpa using List.find?_some found
      exact .inr ⟨gone, List.mem_of_find?_eq_some found, named, deleteRouter_found found ▸ done⟩

theorem linked_wellFormed (wf : WellFormed net) (notNull : new ≠ NULL) (fresh : new ∉ net.allRouterPtrs)
    (unused : ∀ p ∈ net.allRouterPtrs, net.getRouterID p ≠ routerId) (incoming outgoing : List (Int × Int)) :
    WellFormed (linked net new routerId incoming outgoing) := by
  have making := ((setRouter_making wf new routerId).addIncoming incoming).addOutgoing outgoing
  exact making.finish wf notNull fresh unused

theorem unlinked_wellFormed (wf : WellFormed net) (gone : Ptr) : WellFormed (unlinked net gone) := by
  refine ⟨?_, ?_, ?_, ?_⟩
  · exact fun null => wf.notNull (List.mem_of_mem_erase null)
  · exact wf.nodup.erase gone
  · intro p hp q hq same
    have ids : ∀ r, (net.dropLinks gone).getRouterID r = net.getRouterID r := by
      intro r
      unfold getRouterID dropLinks
      dsimp only
      split_ifs <;> rfl
    change (net.dropLinks gone).getRouterID p = (net.dropLinks gone).getRouterID q at same
    rw [ids, ids] at same
    exact wf.ids p (List.mem_of_mem_erase hp) q (List.mem_of_mem_erase hq) same
  · rintro u v w ⟨live, listed⟩
    have kept : u ∈ net.allRouterPtrs ∧ u ≠ gone :=
      ⟨List.mem_of_mem_erase live, (wf.nodup.mem_erase_iff.mp live).1⟩
    simp only [unlinked, dropLinks, if_pos kept, List.mem_filter, decide_eq_true_eq] at listed
    exact wf.nodup.mem_erase_iff.mpr ⟨listed.2, wf.links u v w ⟨kept.1, listed.1⟩⟩

theorem createRouter_spec {fuel : Nat} {incoming outgoing : List (Int × Int)} (wf : WellFormed net)
    (current : Current wrap net) (notNull : new ≠ NULL) (fresh : new ∉ net.allRouterPtrs)
    (done : net.createRouter wrap fuel new routerId incoming outgoing = some net') :
    WellFormed net' ∧ Current wrap net' := by
  obtain ⟨rfl, _⟩ | ⟨unused, updated⟩ := createRouter_cases done
  · exact ⟨wf, current⟩
  · exact (updateAll_spec (linked_wellFormed wf notNull fresh unused incoming outgoing) updated).2

theorem deleteRouter_spec {fuel : Nat} {del : Int} (wf : WellFormed net) (current : Current wrap net)
    (done : net.deleteRouter wrap fuel del = some net') : WellFormed net' ∧ Current wrap net' := by
  obtain ⟨rfl, _⟩ | ⟨gone, _, _, updated⟩ := deleteRouter_cases done
  · exact ⟨wf, current⟩
  · exact (updateAll_spec (unlinked_wellFormed wf gone) updated).2

/-- What creations and deletions keep, by induction on the calls. -/
theorem Reachable.invariant (h : Reachable wrap net) : WellFormed net ∧ Current wrap net := by
  induction h with
  | start heap =>
      refine ⟨⟨?_, List.nodup_nil, ?_, ?_⟩, ?_⟩
      · exact fun null => nomatch null
      · exact fun p hp => nomatch hp
      · exact fun u v w link => nomatch link.1
      · exact fun p hp => nomatch hp
  | create _ notNull fresh done ih => exact createRouter_spec ih.1 ih.2 notNull fresh done
  | delete _ done ih => exact deleteRouter_spec ih.1 ih.2 done

end Creation
end NetworkOs.Ospf
