import NetworkOs.Ospf.ShortestTree

/-! A router that is created and deleted again leaves no trace. The links are those of
before, and the tables are determined by the links: neither the fuel nor what lies at
the addresses of dead routers has an influence on them. -/
namespace NetworkOs.Ospf
open ShortestPath Network

/-- The set of routers is as before, and so is each of them with its id, its neighbours
and its routing table. -/
structure Restored (net net' : Network) : Prop where
  routers : net'.allRouterPtrs = net.allRouterPtrs
  heap : ∀ p ∈ net.allRouterPtrs, net'.heap p = net.heap p

/-- Only links to `new` have been added behind the neighbours of live routers. -/
structure Grown (net : Network) (new : Ptr) (made : Network) : Prop where
  routers : made.allRouterPtrs = net.allRouterPtrs
  added : ∀ p ∈ net.allRouterPtrs, ∃ extra, (∀ l ∈ extra, l.1 = new) ∧
    made.heap p = { net.heap p with neighbors := (net.heap p).neighbors ++ extra }

section Tables
variable {wrap : Int → Int} {net net' : Network} {this : Ptr}

theorem tableEntry_mono {nextHop : Ptr → Ptr} {fuel more : Nat} {dest hop : Ptr}
    (done : net.tableEntry fuel this nextHop dest = some hop) (le : fuel ≤ more) :
    net.tableEntry more this nextHop dest = some hop := by
  unfold tableEntry at done ⊢
  dsimp only at done ⊢
  split_ifs at done ⊢
  · exact climb_mono done le
  · exact done
  · exact done

/-- There is one table for each router. -/
theorem Computed.unique (wf : WellFormed net) {table table' : Int → Option Ptr} (h : Computed wrap net this table)
    (h' : Computed wrap net this table') : table = table' := by
  obtain ⟨fuel, s, done, built⟩ := h
  obtain ⟨fuel', s', done', built'⟩ := h'
  obtain rfl : s = s' := Option.some.inj
    ((dijkstra_mono done (le_max_left fuel fuel')).symm.trans (dijkstra_mono done' (le_max_right fuel fuel')))
  obtain ⟨entries, others⟩ := foldlM_entries wf.ids_nodup built
  obtain ⟨entries', others'⟩ := foldlM_entries wf.ids_nodup built'
  funext i
  by_cases listed : i ∈ net.allRouterPtrs.map net.getRouterID
  · obtain ⟨p, live, rfl⟩ := List.mem_map.mp listed
    obtain ⟨same, present⟩ := entries p live
    obtain ⟨same', present'⟩ := entries' p live
    obtain ⟨hop, held⟩ := Option.ne_none_iff_exists'.mp present
    obtain ⟨hop', held'⟩ := Option.ne_none_iff_exists'.mp present'
    have computed := tableEntry_mono (same.trans held) (le_max_left fuel fuel')
    have computed' := tableEntry_mono (same'.trans held') (le_max_right fuel fuel')
    rw [held, held', ← computed, computed']
  · rw [others i listed, others' i listed]

/-- A table that was computed once can be computed with any larger fuel. -/
theorem Computed.eventually (wf : WellFormed net) {table : Int → Option Ptr} (h : Computed wrap net this table) :
    ∀ᶠ fuel in Filter.atTop, ∃ s table', net.dijkstra wrap fuel (net.initial this) = some s ∧
      net.buildTable fuel this (net.fillNull s.nextHop) = some table' := by
  obtain ⟨bound, s, done, built⟩ := h
  obtain ⟨entries, _⟩ := foldlM_entries wf.ids_nodup built
  have total : ∀ p ∈ net.allRouterPtrs, ∀ᶠ fuel in Filter.atTop,
      ∃ hop, net.tableEntry fuel this (net.fillNull s.nextHop) p = some hop := by
    intro p live
    obtain ⟨same, present⟩ := entries p live
    obtain ⟨hop, held⟩ := Option.ne_none_iff_exists'.mp present
    filter_upwards [Filter.eventually_ge_atTop bound] with fuel le
    exact ⟨hop, tableEntry_mono (same.trans held) le⟩
  filter_upwards [Filter.eventually_ge_atTop bound, foldlM_total net.getRouterID total] with fuel le built
  obtain ⟨table', got⟩ := built fun _ => none
  exact ⟨s, table', dijkstra_mono done le, got⟩

/-- Tables that exist are found again, whatever they are now. -/
theorem updateAll_ends (wrap : Int → Int) (wf : WellFormed net)
    (computed : ∀ p ∈ net.allRouterPtrs, ∃ table, Computed wrap net p table) :
    ∀ᶠ fuel in Filter.atTop, ∃ net', net.updateAll wrap fuel = some net' := by
  have all : ∀ᶠ fuel in Filter.atTop, ∀ p ∈ net.allRouterPtrs.toFinset, ∃ s table,
      net.dijkstra wrap fuel (net.initial p) = some s ∧
      net.buildTable fuel p (net.fillNull s.nextHop) = some table := by
    refine (Filter.eventually_all_finset _).mpr fun p member => ?_
    obtain ⟨table, h⟩ := computed p (List.mem_toFinset.mp member)
    exact h.eventually wf
  filter_upwards [all] with fuel total
  exact updateList_total wf (fun _ live => live) (fun p live => total p (List.mem_toFinset.mpr live)) (.refl net)

end Tables

section Links
variable {wrap : Int → Int} {net net' made : Network} {new : Ptr} {routerId : Int}

theorem Grown.addNeighbor_new (h : Grown net new made) (q : Ptr) (weight : Int) :
    Grown net new (made.addNeighbor q new weight) := by
  refine ⟨h.routers, fun p live => ?_⟩
  obtain ⟨extra, links, heap⟩ := h.added p live
  by_cases same : p = q
  · subst same
    refine ⟨extra ++ [(new, weight)], ?_, ?_⟩
    · intro l member
      rcases List.mem_append.mp member with old | last
      · exact links l old
      · rw [List.mem_singleton.mp last]
    · simp only [addNeighbor, setRouter, Function.update_self, heap, List.append_assoc]
  · refine ⟨extra, links, ?_⟩
    simp only [addNeighbor, setRouter, Function.update_of_ne same, heap]

theorem Grown.setRouter_new (h : Grown net new made) (fresh : new ∉ net.allRouterPtrs) (r : Router) :
    Grown net new (made.setRouter new r) := by
  refine ⟨h.routers, fun p live => ?_⟩
  have other : p ≠ new := fun same => fresh (same ▸ live)
  have kept : (made.setRouter new r).heap p = made.heap p := Function.update_of_ne other _ _
  rw [kept]
  exact h.added p live

theorem Grown.incoming (h : Grown net new made) (lines : List (Int × Int)) :
    Grown net new (lines.foldl (Network.addIncoming new) made) := by
  induction lines generalizing made with
  | nil => exact h
  | cons line lines ih =>
      refine ih ?_
      simp only [Network.addIncoming]
      split_ifs
      · exact h
      · exact h.addNeighbor_new _ _

theorem Grown.outgoing (h : Grown net new made) (fresh : new ∉ net.allRouterPtrs) (lines : List (Int × Int)) :
    Grown net new (lines.foldl (Network.addOutgoing new) made) := by
  induction lines generalizing made with
  | nil => exact h
  | cons line lines ih =>
      refine ih ?_
      simp only [Network.addOutgoing]
      split_ifs
      · exact h
      · exact h.setRouter_new fresh _

theorem linked_grown (routerId : Int) (fresh : new ∉ net.allRouterPtrs) (incoming outgoing : List (Int × Int)) :
    ∃ made, Grown net new made ∧ linked net new routerId incoming outgoing =
      { made with allRouterPtrs := net.allRouterPtrs.orderedInsert (· ≤ ·) new } := by
  have bare : Grown net new net := ⟨rfl, fun p _ => ⟨[], by simp, by simp⟩⟩
  have made := ((bare.setRouter_new fresh ⟨routerId, [], fun _ => none⟩).incoming incoming).outgoing fresh outgoing
  refine ⟨_, made, ?_⟩
  rw [← made.routers]
  rfl

/-- Dropping the links to `new` takes away what has been added. -/
theorem unlinked_sameLive (wf : WellFormed net) (fresh : new ∉ net.allRouterPtrs) {incoming outgoing : List (Int × Int)}
    (same : SameLinks (linked net new routerId incoming outgoing) net') :
    SameLive net (unlinked net' new) := by
  obtain ⟨made, grown, eq⟩ := linked_grown routerId fresh incoming outgoing
  rw [eq] at same
  have routers : net'.allRouterPtrs = net.allRouterPtrs.orderedInsert (· ≤ ·) new := same.routers
  have kept : ∀ p ∈ net.allRouterPtrs, p ∈ net'.allRouterPtrs ∧ p ≠ new := by
    intro p live
    rw [routers, List.mem_orderedInsert]
    exact ⟨.inr live, fun same => fresh (same ▸ live)⟩
  refine ⟨?_, fun p live => ?_, fun p live => ?_⟩
  · change net'.allRouterPtrs.erase new = net.allRouterPtrs
    rw [routers, List.erase_orderedInsert_of_notMem fresh]
  · obtain ⟨extra, _, heap⟩ := grown.added p live
    have id_ : net'.getRouterID p = made.getRouterID p := same.ids p
    simp only [getRouterID, heap] at id_
    simp only [unlinked, dropLinks, getRouterID, if_pos (kept p live), id_]
  · obtain ⟨extra, links, heap⟩ := grown.added p live
    have neighbors : (net'.heap p).neighbors = (made.heap p).neighbors := same.neighbors p
    have old : ∀ l ∈ (net.heap p).neighbors, decide (l.1 ≠ new) = true := by
      intro l member
      exact decide_eq_true fun eq => fresh (eq ▸ wf.links p l.1 l.2 ⟨live, member⟩)
    have added : ∀ l ∈ extra, ¬ decide (l.1 ≠ new) = true := by
      intro l member
      simp [links l member]
    simp only [unlinked, dropLinks, if_pos (kept p live), neighbors, heap, List.filter_append,
      List.filter_eq_self.mpr old, List.filter_eq_nil_iff.mpr added, List.append_nil]

theorem find_created (wf : WellFormed net) (notNull : new ≠ NULL) {incoming outgoing : List (Int × Int)}
    (same : SameLinks (linked net new routerId incoming outgoing) net') (wf' : WellFormed net') :
    net'.allRouterPtrs.find? (fun p => net'.getRouterID p = routerId) = some new := by
  have making := ((setRouter_making wf new routerId).addIncoming incoming).addOutgoing outgoing
  have id_ : net'.getRouterID new = routerId := (same.ids new).trans ((making.ids new).trans (if_pos rfl))
  have live : new ∈ net'.allRouterPtrs := by
    rw [same.routers]
    exact (List.mem_orderedInsert (· ≤ ·)).mpr (.inl rfl)
  have first := getRouterByID_of_live wf' live
  rw [id_, getRouterByID] at first
  cases found : net'.allRouterPtrs.find? fun p => net'.getRouterID p = routerId with
  | none => exact absurd (by rw [← first, found]; rfl) notNull
  | some p => rw [← first, found, Option.getD_some]

/-- Equal ids, links and computed tables are equal routers. -/
theorem SameLive.restored (h : SameLive net net') (wf : WellFormed net) (current : Current wrap net)
    (current' : Current wrap net') : Restored net net' := by
  refine ⟨h.routers, fun p live => ?_⟩
  have table : (net'.heap p).routingTable = (net.heap p).routingTable :=
    ((h.computed wf live).mp (current' p (h.routers ▸ live))).unique wf (current p live)
  have id_ : (net'.heap p).routerId = (net.heap p).routerId := h.ids p live
  have neighbors := h.neighbors p live
  cases held : net.heap p
  cases held' : net'.heap p
  simp only [held, held'] at table id_ neighbors
  rw [table, id_, neighbors]

end Links

/-- In every network that calls lead to: once a router has been made, its deletion ends
and restores all others. With non-negative weights making it ends too, if no sum overflows. -/
theorem create_delete_restores {wrap : Int → Int} {net : Network} (reachable : Reachable wrap net) {new : Ptr}
    {routerId : Int} (notNull : new ≠ NULL) (fresh : new ∉ net.allRouterPtrs)
    (unused : ∀ p ∈ net.allRouterPtrs, net.getRouterID p ≠ routerId) (incoming outgoing : List (Int × Int)) :
    (Nonneg net.Link → (∀ line ∈ incoming ++ outgoing, 0 ≤ line.2) →
      (∀ p ∈ (linked net new routerId incoming outgoing).allRouterPtrs,
        Fits wrap (linked net new routerId incoming outgoing) p) →
      ∃ fuel net', net.createRouter wrap fuel new routerId incoming outgoing = some net') ∧
    ∀ fuel net', net.createRouter wrap fuel new routerId incoming outgoing = some net' →
      ∃ bound, ∀ more, bound ≤ more → ∃ net'', net'.deleteRouter wrap more routerId = some net'' ∧ Restored net net'' := by
  obtain ⟨wf, current⟩ := reachable.invariant
  constructor
  · intro costs lines fits
    have weights : EachLink net net.allRouterPtrs fun _ l => 0 ≤ l.2 := fun p live l listed =>
      costs p l.1 l.2 ⟨live, listed⟩
    have made : EachLink (linked net new routerId incoming outgoing) _ fun _ l => 0 ≤ l.2 :=
      weights.linked wf (fun _ _ line member => lines line (List.mem_append_left _ member))
        fun _ _ line member => lines line (List.mem_append_right _ member)
    simp only [createRouter_unused unused]
    exact updateAll_total (linked_wellFormed wf notNull fresh unused incoming outgoing)
      (fun u v w link => made u link.1 (v, w) link.2) fits
  · intro fuel net' done
    rw [createRouter_unused unused] at done
    obtain ⟨same, wf', current'⟩ := updateAll_spec (linked_wellFormed wf notNull fresh unused incoming outgoing) done
    have undone := unlinked_sameLive wf fresh same
    have wf'' := unlinked_wellFormed wf' new
    -- the tables of before exist, so computing them again ends
    obtain ⟨bound, ends⟩ := Filter.eventually_atTop.mp (updateAll_ends wrap wf'' fun p live =>
      ⟨_, (undone.computed wf (undone.routers ▸ live)).mpr (current p (undone.routers ▸ live))⟩)
    have found := find_created wf notNull same wf'
    refine ⟨bound, fun more le => ?_⟩
    obtain ⟨net'', updated⟩ := ends more le
    obtain ⟨same'', _, current''⟩ := updateAll_spec wf'' updated
    exact ⟨net'', (deleteRouter_found found).trans updated,
      (undone.trans same''.sameLive).restored wf current current''⟩

/-- A third router with repeated and missing neighbours comes to two others and goes again. -/
theorem create_delete_restores_two : ∃ net, createAll id 20 [⟨1, 1, [], []⟩, ⟨2, 2, [(1, 3)], []⟩] noRouters = some net ∧
    ∃ fuel net', net.createRouter id fuel 3 3 [(1, 1), (1, 5), (9, 2)] [(2, 0), (2, 0)] = some net' ∧
      ∃ more net'', net'.deleteRouter id more 3 = some net'' ∧ Restored net net'' := by
  let calls : List Creation := [⟨1, 1, [], []⟩, ⟨2, 2, [(1, 3)], []⟩]
  obtain ⟨net, made⟩ : ∃ net, createAll id 20 calls noRouters = some net :=
    Option.isSome_iff_exists.mp (by decide)
  have routers : (createAll id 20 calls noRouters).map (fun net =>
      (net.allRouterPtrs, net.allRouterPtrs.all fun p => decide (net.getRouterID p ≠ 3))) = some ([1, 2], true) := by
    decide
  have weights : (createAll id 20 calls noRouters).map (fun net => net.allRouterPtrs.all fun u =>
      (net.heap u).neighbors.all fun l => decide (0 ≤ l.2)) = some true := by decide
  rw [made, Option.map_some, Option.some.injEq] at routers weights
  obtain ⟨routers, unused⟩ := Prod.mk.inj routers
  have costs : Nonneg net.Link := weights_of_all (0 ≤ ·) weights
  have notNull : (3 : Ptr) ≠ NULL := by decide
  have unused : ∀ p ∈ net.allRouterPtrs, net.getRouterID p ≠ 3 := fun p live =>
    of_decide_eq_true (List.all_eq_true.mp unused p live)
  obtain ⟨creates, deletes⟩ := create_delete_restores (createAll_reachable (.start _) made) notNull
    (by rw [routers]; decide) unused [(1, 1), (1, 5), (9, 2)] [(2, 0), (2, 0)]
  obtain ⟨fuel, net', created⟩ := creates costs (by decide) fun p _ => fits_id _ p
  obtain ⟨bound, ends⟩ := deletes fuel net' created
  obtain ⟨net'', deleted, restored⟩ := ends bound le_rfl
  exact ⟨net, made, fuel, net', created, bound, net'', deleted, restored⟩

end NetworkOs.Ospf
