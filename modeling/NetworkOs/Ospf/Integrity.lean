import NetworkOs.Library.Machine
import NetworkOs.Ospf.Termination
import NetworkOs.Ospf.Paths

/-! No router keeps a pointer to one that is gone: after every creation and deletion the
links and the routing tables are about the routers of the set, and about nothing else. -/
namespace NetworkOs.Ospf
open ShortestPath Network

/-- Ids are distinct, links lead to other routers of the set, and every table has an
entry for each of their ids and for no other. -/
structure Intact (net : Network) : Prop where
  ids : (net.allRouterPtrs.map net.getRouterID).Nodup
  neighbors : ∀ p ∈ net.allRouterPtrs, ∀ l ∈ (net.heap p).neighbors, l.1 ∈ net.allRouterPtrs ∧ l.1 ≠ p
  keys : ∀ p ∈ net.allRouterPtrs, ∀ id,
    (net.heap p).routingTable id ≠ none ↔ id ∈ net.allRouterPtrs.map net.getRouterID
  entries : ∀ p ∈ net.allRouterPtrs, ∀ id hop, (net.heap p).routingTable id = some hop →
    hop ≠ NULL → hop ∈ net.allRouterPtrs

/-- Every link of these routers has the property. -/
def EachLink (net : Network) (ps : List Ptr) (Q : Ptr → Ptr × Int → Prop) : Prop :=
  ∀ p ∈ ps, ∀ l ∈ (net.heap p).neighbors, Q p l

/-- Weights whose sums with a distance `wrap` leaves alone. -/
structure Exact (wrap : Int → Int) (weight : Int → Prop) : Prop where
  nonneg : ∀ w, weight w → 0 ≤ w
  keys : ∀ z, -100000 ≤ z → z ≤ 0 → wrap z = z
  sums : ∀ d w, 0 ≤ d → d < 100000 → weight w → wrap (d + w) = d + w

theorem exact_int32 : Exact Machine.int32 fun w => 0 ≤ w ∧ w ≤ 2147383648 := by
  refine ⟨fun _ bounds => bounds.1, ?_, ?_⟩
  · intro z low high
    exact Machine.int32_of_range (by omega) (by unfold Machine.intMax; omega)
  · intro d w low high bounds
    exact Machine.int32_of_range (by omega) (by unfold Machine.intMax; omega)

section Links
variable {wrap : Int → Int} {net net' made : Network} {new : Ptr} {routerId : Int}
  {Q : Ptr → Ptr × Int → Prop} {ps : List Ptr}

theorem EachLink.sameLinks (h : EachLink net ps Q) (same : SameLinks net net') : EachLink net' ps Q := by
  intro p member l listed
  rw [same.neighbors] at listed
  exact h p member l listed

theorem EachLink.addNeighbor (h : EachLink made ps Q) {p q : Ptr} {weight : Int} (holds : Q p (q, weight)) :
    EachLink (made.addNeighbor p q weight) ps Q := by
  intro r member l listed
  by_cases same : r = p
  · subst same
    simp only [Network.addNeighbor, setRouter, Function.update_self, List.mem_append, List.mem_singleton] at listed
    rcases listed with old | rfl
    · exact h r member l old
    · exact holds
  · exact h r member l (by simpa [Network.addNeighbor, setRouter, same] using listed)

theorem EachLink.addIncoming (h : EachLink made ps Q) (making : Making net new routerId made)
    (lines : List (Int × Int)) (holds : ∀ q ∈ net.allRouterPtrs, ∀ line ∈ lines, Q q (new, line.2)) :
    EachLink (lines.foldl (Network.addIncoming new) made) ps Q := by
  induction lines generalizing made with
  | nil => exact h
  | cons line lines ih =>
      refine ih ?_ (making.addIncoming [line]) fun q live l later => holds q live l (List.mem_cons_of_mem _ later)
      simp only [Network.addIncoming]
      split_ifs with missing
      · exact h
      · exact h.addNeighbor (holds _ (making.routers ▸ getRouterByID_live missing) line List.mem_cons_self)

theorem EachLink.addOutgoing (h : EachLink made ps Q) (making : Making net new routerId made)
    (lines : List (Int × Int)) (holds : ∀ q ∈ net.allRouterPtrs, ∀ line ∈ lines, Q new (q, line.2)) :
    EachLink (lines.foldl (Network.addOutgoing new) made) ps Q := by
  induction lines generalizing made with
  | nil => exact h
  | cons line lines ih =>
      refine ih ?_ (making.addOutgoing [line]) fun q live l later => holds q live l (List.mem_cons_of_mem _ later)
      simp only [Network.addOutgoing]
      split_ifs with missing
      · exact h
      · exact h.addNeighbor (holds _ (making.routers ▸ getRouterByID_live missing) line List.mem_cons_self)

theorem EachLink.linked (h : EachLink net net.allRouterPtrs Q) (wf : WellFormed net) {incoming outgoing : List (Int × Int)}
    (arriving : ∀ q ∈ net.allRouterPtrs, ∀ line ∈ incoming, Q q (new, line.2))
    (departing : ∀ q ∈ net.allRouterPtrs, ∀ line ∈ outgoing, Q new (q, line.2)) :
    EachLink (linked net new routerId incoming outgoing)
      (linked net new routerId incoming outgoing).allRouterPtrs Q := by
  have making := setRouter_making wf new routerId
  have bare : EachLink (net.setRouter new ⟨routerId, [], fun _ => none⟩) (new :: net.allRouterPtrs) Q := by
    intro p member l listed
    by_cases same : p = new
    · simp [setRouter, same] at listed
    · have live := (List.mem_cons.mp member).resolve_left same
      exact h p live l (by simpa [setRouter, same] using listed)
  have made := (bare.addIncoming making incoming arriving).addOutgoing (making.addIncoming incoming) outgoing departing
  have routers := ((making.addIncoming incoming).addOutgoing outgoing).routers
  intro p member
  refine made p ?_
  have listed := (List.mem_orderedInsert (· ≤ ·)).mp member
  rw [routers] at listed
  exact List.mem_cons.mpr listed

theorem EachLink.unlinked (h : EachLink net net.allRouterPtrs Q) (wf : WellFormed net) (gone : Ptr) :
    EachLink (unlinked net gone) (unlinked net gone).allRouterPtrs Q := by
  intro p member l listed
  have kept : p ∈ net.allRouterPtrs ∧ p ≠ gone :=
    ⟨List.mem_of_mem_erase member, (wf.nodup.mem_erase_iff.mp member).1⟩
  simp only [Ospf.unlinked, dropLinks, if_pos kept, List.mem_filter] at listed
  exact h p kept.1 l listed.1

theorem EachLink.updateAll (h : EachLink net net.allRouterPtrs Q) (wf : WellFormed net) {fuel : Nat}
    (done : net.updateAll wrap fuel = some net') : EachLink net' net'.allRouterPtrs Q := by
  have same := (updateAll_spec wf done).1
  rw [same.routers]
  exact h.sameLinks same

theorem EachLink.createRouter (h : EachLink net net.allRouterPtrs Q) (wf : WellFormed net)
    (notNull : new ≠ NULL) (fresh : new ∉ net.allRouterPtrs) {incoming outgoing : List (Int × Int)}
    (arriving : ∀ q ∈ net.allRouterPtrs, ∀ line ∈ incoming, Q q (new, line.2))
    (departing : ∀ q ∈ net.allRouterPtrs, ∀ line ∈ outgoing, Q new (q, line.2)) {fuel : Nat}
    (done : net.createRouter wrap fuel new routerId incoming outgoing = some net') :
    EachLink net' net'.allRouterPtrs Q := by
  obtain ⟨rfl, _⟩ | ⟨unused, updated⟩ := createRouter_cases done
  · exact h
  · exact (h.linked wf arriving departing).updateAll
      (linked_wellFormed wf notNull fresh unused incoming outgoing) updated

theorem EachLink.deleteRouter (h : EachLink net net.allRouterPtrs Q) (wf : WellFormed net) {del : Int}
    {fuel : Nat} (done : net.deleteRouter wrap fuel del = some net') :
    EachLink net' net'.allRouterPtrs Q := by
  obtain ⟨rfl, _⟩ | ⟨gone, _, _, updated⟩ := deleteRouter_cases done
  · exact h
  · exact (h.unlinked wf gone).updateAll (unlinked_wellFormed wf gone) updated

/-- No router links to itself: the router being made is not in the set yet. -/
theorem Reachable.apart (h : Reachable wrap net) :
    EachLink net net.allRouterPtrs fun p l => l.1 ≠ p := by
  induction h with
  | start heap => exact fun p member => nomatch member
  | create before notNull fresh done ih =>
      refine ih.createRouter before.invariant.1 notNull fresh ?_ ?_ done
      · rintro q live _ _ rfl
        exact fresh live
      · rintro q live _ _ rfl
        exact fresh live
  | delete before done ih => exact ih.deleteRouter before.invariant.1 done

end Links

section Tables
variable {wrap : Int → Int} {net : Network} {this : Ptr}

theorem climb_neighbor {nextHop : Ptr → Ptr} {fuel : Nat} {temp hop : Ptr}
    (done : net.climb this nextHop fuel temp = some hop) : hop ∈ net.neighborsSet this := by
  induction fuel generalizing temp with
  | zero =>
      unfold climb at done
      split_ifs at done with neighbor
      exact Option.some.inj done ▸ neighbor
  | succ fuel ih =>
      unfold climb at done
      split_ifs at done with neighbor
      · exact Option.some.inj done ▸ neighbor
      · exact ih done

theorem tableEntry_live (wf : WellFormed net) (live : this ∈ net.allRouterPtrs) {nextHop : Ptr → Ptr}
    {fuel : Nat} {dest hop : Ptr} (listed : dest ∈ net.allRouterPtrs)
    (done : net.tableEntry fuel this nextHop dest = some hop) : hop = NULL ∨ hop ∈ net.allRouterPtrs := by
  unfold tableEntry at done
  dsimp only at done
  split_ifs at done
  · obtain ⟨l, link, rfl⟩ := List.mem_map.mp (climb_neighbor done)
    exact .inr (wf.links this l.1 l.2 ⟨live, link⟩)
  · exact .inr (Option.some.inj done ▸ listed)
  · exact .inl (Option.some.inj done).symm

theorem Computed.entry (wf : WellFormed net) (live : this ∈ net.allRouterPtrs) {table : Int → Option Ptr}
    (h : Computed wrap net this table) :
    (∀ id, table id ≠ none ↔ id ∈ net.allRouterPtrs.map net.getRouterID) ∧
      ∀ id hop, table id = some hop → hop ≠ NULL → hop ∈ net.allRouterPtrs := by
  obtain ⟨fuel, s, _, built⟩ := h
  obtain ⟨entries, others⟩ := foldlM_entries wf.ids_nodup built
  constructor
  · intro id
    constructor
    · intro held
      by_contra absent
      exact held (others id absent)
    · intro listed
      obtain ⟨p, member, rfl⟩ := List.mem_map.mp listed
      exact (entries p member).2
  · intro id hop held notNull
    have listed : id ∈ net.allRouterPtrs.map net.getRouterID := by
      by_contra absent
      exact absurd ((others id absent).symm.trans held) (by simp)
    obtain ⟨p, member, rfl⟩ := List.mem_map.mp listed
    exact (tableEntry_live wf live member ((entries p member).1.trans held)).resolve_left notNull

theorem Reachable.intact (h : Reachable wrap net) : Intact net := by
  obtain ⟨wf, current⟩ := h.invariant
  refine ⟨wf.ids_nodup, ?_, ?_, ?_⟩
  · exact fun p live l listed => ⟨wf.links p l.1 l.2 ⟨live, listed⟩, h.apart p live l listed⟩
  · exact fun p live => ((current p live).entry wf live).1
  · exact fun p live => ((current p live).entry wf live).2

end Tables

section Calls
variable {wrap : Int → Int} {net : Network} {weight : Int → Prop}

/-- Links whose weights have exact sums are what the queue loop needs. -/
theorem Exact.updateAll (exact_ : Exact wrap weight) (wf : WellFormed net)
    (weights : EachLink net net.allRouterPtrs fun _ l => weight l.2) :
    ∃ fuel net', net.updateAll wrap fuel = some net' := by
  have costs : Nonneg net.Link := fun u v w link => exact_.nonneg w (weights u link.1 (v, w) link.2)
  refine updateAll_total wf costs fun p _ => ⟨exact_.keys, ?_⟩
  intro u d v w dist below link
  exact exact_.sums d w (dist.nonneg costs) below (weights u link.1 (v, w) link.2)

theorem Exact.createRouter (exact_ : Exact wrap weight) (wf : WellFormed net)
    (weights : EachLink net net.allRouterPtrs fun _ l => weight l.2) {new : Ptr} (notNull : new ≠ NULL)
    (fresh : new ∉ net.allRouterPtrs) (routerId : Int) {incoming outgoing : List (Int × Int)}
    (lines : ∀ line ∈ incoming ++ outgoing, weight line.2) :
    ∃ fuel net', net.createRouter wrap fuel new routerId incoming outgoing = some net' ∧
      EachLink net' net'.allRouterPtrs fun _ l => weight l.2 := by
  have arriving : ∀ q ∈ net.allRouterPtrs, ∀ line ∈ incoming, weight line.2 :=
    fun _ _ line member => lines line (List.mem_append_left _ member)
  have departing : ∀ q ∈ net.allRouterPtrs, ∀ line ∈ outgoing, weight line.2 :=
    fun _ _ line member => lines line (List.mem_append_right _ member)
  by_cases used : ∃ p ∈ net.allRouterPtrs, net.getRouterID p = routerId
  · exact ⟨0, net, createRouter_used used, weights⟩
  · push Not at used
    have linkedWf := linked_wellFormed wf notNull fresh used incoming outgoing
    obtain ⟨fuel, net', done⟩ := exact_.updateAll linkedWf (weights.linked wf arriving departing)
    rw [← createRouter_unused used] at done
    exact ⟨fuel, net', done, weights.createRouter wf notNull fresh arriving departing done⟩

theorem Exact.deleteRouter (exact_ : Exact wrap weight) (wf : WellFormed net)
    (weights : EachLink net net.allRouterPtrs fun _ l => weight l.2) (del : Int) :
    ∃ fuel net', net.deleteRouter wrap fuel del = some net' ∧
      EachLink net' net'.allRouterPtrs fun _ l => weight l.2 := by
  cases found : net.allRouterPtrs.find? fun p => net.getRouterID p = del with
  | none =>
      have unknown : ∀ p ∈ net.allRouterPtrs, net.getRouterID p ≠ del := by
        simpa using List.find?_eq_none.mp found
      exact ⟨0, net, deleteRouter_unknown unknown, weights⟩
  | some gone =>
      obtain ⟨fuel, net', done⟩ := exact_.updateAll (unlinked_wellFormed wf gone) (weights.unlinked wf gone)
      rw [← deleteRouter_found found] at done
      exact ⟨fuel, net', done, weights.deleteRouter wf done⟩

end Calls

/-- In every network that calls of `createRouter` and `deleteRouter` lead to, with any
ids, lines and weights and even where sums wrap around, no pointer dangles. Calls that
find their id in use or unknown change nothing, and where the sums are exact every
further call returns. -/
theorem calls_keep_network_intact {wrap : Int → Int} {net : Network} (reachable : Reachable wrap net) :
    Intact net ∧
      (∀ fuel new routerId incoming outgoing, (∃ p ∈ net.allRouterPtrs, net.getRouterID p = routerId) →
        net.createRouter wrap fuel new routerId incoming outgoing = some net) ∧
      (∀ fuel del, (∀ p ∈ net.allRouterPtrs, net.getRouterID p ≠ del) →
        net.deleteRouter wrap fuel del = some net) ∧
      ∀ weight, Exact wrap weight → EachLink net net.allRouterPtrs (fun _ l => weight l.2) →
        (∀ new routerId incoming outgoing, new ≠ NULL → new ∉ net.allRouterPtrs →
          (∀ line ∈ incoming ++ outgoing, weight line.2) →
          ∃ fuel net', net.createRouter wrap fuel new routerId incoming outgoing = some net' ∧
            EachLink net' net'.allRouterPtrs fun _ l => weight l.2) ∧
        ∀ del, ∃ fuel net', net.deleteRouter wrap fuel del = some net' ∧
          EachLink net' net'.allRouterPtrs fun _ l => weight l.2 := by
  have wf := reachable.invariant.1
  refine ⟨reachable.intact, ?_, ?_, ?_⟩
  · exact fun fuel new routerId incoming outgoing used => createRouter_used used
  · exact fun fuel del unknown => deleteRouter_unknown unknown
  · intro weight exact_ weights
    constructor
    · intro new routerId incoming outgoing notNull fresh lines
      exact exact_.createRouter wf weights notNull fresh routerId lines
    · exact fun del => exact_.deleteRouter wf weights del

/-- The chain of three routers, from which the middle one is deleted. -/
theorem calls_keep_network_intact_chain :
    ∃ net, createAll Machine.int32 20 chain noRouters = some net ∧ Intact net ∧
      net.deleteRouter Machine.int32 0 7 = some net ∧
      ∃ fuel net', net.deleteRouter Machine.int32 fuel 2 = some net' := by
  obtain ⟨net, made, reachable, _, ids, _, one⟩ := chain_network
  have weights : EachLink net net.allRouterPtrs fun _ l => 0 ≤ l.2 ∧ l.2 ≤ 2147383648 := by
    intro u live l listed
    rw [one u l.1 l.2 ⟨live, listed⟩]
    decide
  have unknown : ∀ p ∈ net.allRouterPtrs, net.getRouterID p ≠ 7 := by
    intro p live same
    have listed := List.mem_map_of_mem (f := net.getRouterID) live
    rw [ids, same] at listed
    exact absurd listed (by decide)
  obtain ⟨intact, _, same, returns⟩ := calls_keep_network_intact reachable
  obtain ⟨fuel, net', done, _⟩ := (returns _ exact_int32 weights).2 2
  exact ⟨net, made, intact, same 0 7 unknown, fuel, net', done⟩

end NetworkOs.Ospf
