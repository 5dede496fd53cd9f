import NetworkOs.Ospf.Destinations
import NetworkOs.Ospf.Menu

/-! The routing tables in the course of a session. A query can leave `NULL` behind under an
id that no router has; all other entries are the ones that the last update computed. -/
namespace NetworkOs.Ospf
open ShortestPath Network

/-- The network without the entries for ids that no router has. -/
def Network.tidy (net : Network) : Network :=
  let known (p : Ptr) (id : Int) : Option Ptr :=
    if id ∈ net.allRouterPtrs.map net.getRouterID then (net.heap p).routingTable id else none
  { net with heap := fun p => { net.heap p with routingTable := known p } }

/-- What every session keeps of its network. -/
structure Kept (wrap : Int → Int) (net : Network) : Prop where
  wf : WellFormed net
  apart : EachLink net net.allRouterPtrs fun p l => l.1 ≠ p
  current : Current wrap net.tidy
  stored : ∀ p ∈ net.allRouterPtrs, ∀ id, id ∉ net.allRouterPtrs.map net.getRouterID →
    (net.heap p).routingTable id = none ∨ (net.heap p).routingTable id = some NULL

/-- Weights that no sum of the queue loop takes out of the range of `int`. -/
def Weighted (net : Network) : Prop := EachLink net net.allRouterPtrs fun _ l => 0 ≤ l.2 ∧ l.2 ≤ 2147383648

section Tidy
variable {wrap : Int → Int} {net net' : Network} {p : Ptr} {id : Int}

theorem tidy_sameLinks (net : Network) : SameLinks net net.tidy := ⟨rfl, fun _ => rfl, fun _ => rfl⟩

theorem tidy_table (known : id ∈ net.allRouterPtrs.map net.getRouterID) :
    (net.tidy.heap p).routingTable id = (net.heap p).routingTable id := if_pos known

/-- Tables that have just been computed have entries for the ids of routers only. -/
theorem Current.kept (current : Current wrap net) (wf : WellFormed net)
    (apart : EachLink net net.allRouterPtrs fun p l => l.1 ≠ p) : Kept wrap net := by
  have missing : ∀ p ∈ net.allRouterPtrs, ∀ id, id ∉ net.allRouterPtrs.map net.getRouterID →
      (net.heap p).routingTable id = none := by
    intro p live id unknown
    by_contra held
    exact unknown ((((current p live).entry wf live).1 id).mp held)
  refine ⟨wf, apart, fun p live => ?_, fun p live id unknown => .inl (missing p live id unknown)⟩
  have same : (net.tidy.heap p).routingTable = (net.heap p).routingTable := by
    funext id
    by_cases known : id ∈ net.allRouterPtrs.map net.getRouterID
    · exact tidy_table known
    · exact (if_neg known).trans (missing p live id known).symm
  rw [same]
  exact ((tidy_sameLinks net).sameLive.computed wf live).mpr (current p live)

theorem Kept.createRouter (h : Kept wrap net) {new : Ptr} (notNull : new ≠ NULL) (fresh : new ∉ net.allRouterPtrs)
    {fuel : Nat} {routerId : Int} {incoming outgoing : List (Int × Int)}
    (done : net.createRouter wrap fuel new routerId incoming outgoing = some net') : Kept wrap net' := by
  have apart : EachLink net' net'.allRouterPtrs fun p l => l.1 ≠ p := by
    refine h.apart.createRouter h.wf notNull fresh ?_ ?_ done
    · rintro q live _ _ rfl
      exact fresh live
    · rintro q live _ _ rfl
      exact fresh live
  obtain ⟨rfl, _⟩ | ⟨unused, updated⟩ := createRouter_cases done
  · exact h
  · obtain ⟨_, wf, current⟩ := updateAll_spec (linked_wellFormed h.wf notNull fresh unused incoming outgoing) updated
    exact current.kept wf apart

theorem Kept.deleteRouter (h : Kept wrap net) {fuel : Nat} {del : Int}
    (done : net.deleteRouter wrap fuel del = some net') : Kept wrap net' := by
  have apart := h.apart.deleteRouter h.wf done
  obtain ⟨rfl, _⟩ | ⟨gone, _, _, updated⟩ := deleteRouter_cases done
  · exact h
  · obtain ⟨_, wf, current⟩ := updateAll_spec (unlinked_wellFormed h.wf gone) updated
    exact current.kept wf apart

end Tidy

section Walk
variable {wrap : Int → Int} {net net' : Network} {m : Int → Ptr} {finish temp : Int} {fuel : Nat} {v : List Ptr}
  {r : PathResult}

/-- Towards a router the walk reads what an update has computed. -/
theorem walk_tidy (known : finish ∈ net.allRouterPtrs.map net.getRouterID) (fuel : Nat) (temp : Int) (v : List Ptr) :
    (walk m finish fuel temp v net.tidy).map Prod.fst = (walk m finish fuel temp v net).map Prod.fst := by
  induction fuel generalizing temp v with
  | zero =>
      unfold walk
      rw [tidy_table known]
      split_ifs
      · rfl
      · rfl
      · cases (net.heap (m temp)).routingTable finish with
        | none => rfl
        | some hop =>
            dsimp only
            split_ifs <;> rfl
  | succ fuel ih =>
      unfold walk
      rw [tidy_table known]
      split_ifs
      · rfl
      · rfl
      · cases (net.heap (m temp)).routingTable finish with
        | none => rfl
        | some hop =>
            dsimp only
            split_ifs
            · rfl
            · exact ih _ _

/-- All that a walk can change is one entry that was missing. -/
theorem walk_stores (done : walk m finish fuel temp v net = some (r, net')) : net' = net ∨
    ∃ id, m id ≠ NULL ∧ (net.heap (m id)).routingTable finish = none ∧
      net' = net.setRouter (m id) { net.heap (m id) with
        routingTable := Function.update (net.heap (m id)).routingTable finish (some NULL) } := by
  induction fuel using Nat.strong_induction_on generalizing temp v with
  | h fuel ih =>
      by_cases known : m temp = NULL
      · unfold walk at done
        rw [if_pos known] at done
        split_ifs at done
        · exact .inl (Prod.mk.inj (Option.some.inj done)).2.symm
        · exact .inl (Prod.mk.inj (Option.some.inj done)).2.symm
      cases held : (net.heap (m temp)).routingTable finish with
      | none =>
          unfold walk at done
          simp only [held, known, if_false] at done
          split_ifs at done
          · exact .inl (Prod.mk.inj (Option.some.inj done)).2.symm
          · exact .inr ⟨temp, known, held, (Prod.mk.inj (Option.some.inj done)).2.symm⟩
      | some hop =>
          rcases walk_read known held done with same | ⟨_, less, rfl, rest⟩
          · exact .inl same
          · exact ih less (Nat.lt_succ_self less) rest

/-- Storing `NULL` for an id that no router has keeps the network. -/
theorem Kept.store (h : Kept wrap net) {p : Ptr} {id : Int} (unknown : id ∉ net.allRouterPtrs.map net.getRouterID) :
    Kept wrap (net.setRouter p { net.heap p with
      routingTable := Function.update (net.heap p).routingTable id (some NULL) }) := by
  have same : SameLinks net (net.setRouter p { net.heap p with
      routingTable := Function.update (net.heap p).routingTable id (some NULL) }) := sameLinks_setTable p _
  have tidied : (net.setRouter p { net.heap p with
      routingTable := Function.update (net.heap p).routingTable id (some NULL) }).tidy = net.tidy := by
    have ids : (net.setRouter p { net.heap p with
        routingTable := Function.update (net.heap p).routingTable id (some NULL) }).getRouterID = net.getRouterID :=
      funext same.ids
    unfold tidy
    rw [ids]
    refine congrArg (Network.mk _) (funext fun q => ?_)
    by_cases own : q = p
    · subst own
      simp only [setRouter, Function.update_self, Router.mk.injEq, true_and]
      funext id'
      by_cases key : id' = id
      · subst key
        rw [if_neg unknown, if_neg unknown]
      · rw [Function.update_of_ne key]
    · simp only [setRouter, Function.update_of_ne own]
  refine ⟨same.wellFormed h.wf, h.apart.sameLinks same, tidied ▸ h.current, fun q live id' unknown' => ?_⟩
  rw [show (net.setRouter p _).getRouterID = net.getRouterID from funext same.ids] at unknown'
  by_cases own : q = p
  · subst own
    simp only [setRouter, Function.update_self]
    by_cases key : id' = id
    · subst key
      exact .inr (Function.update_self ..)
    · rw [Function.update_of_ne key]
      exact h.stored q live id' unknown'
  · simp only [setRouter, Function.update_of_ne own]
    exact h.stored q live id' unknown'

/-- A query keeps the links, and all that it may store is `NULL` for an id that no router has. -/
theorem Kept.findPathOption (h : Kept wrap net) {start : Int} {out : PathOutput}
    (done : net.findPathOption fuel start finish = some (out, net')) : Kept wrap net' ∧ SameLinks net net' := by
  obtain ⟨⟨r, after⟩, found, same⟩ := Option.map_eq_some_iff.mp done
  obtain ⟨_, rfl⟩ := Prod.mk.inj same
  unfold findPath at found
  split_ifs at found
  · obtain ⟨_, rfl⟩ := Prod.mk.inj (Option.some.inj found)
    exact ⟨h, .refl _⟩
  · rcases walk_stores found with rfl | ⟨id, notNull, missing, rfl⟩
    · exact ⟨h, .refl _⟩
    · refine ⟨h.store fun known => ?_, sameLinks_setTable _ _⟩
      have live := getRouterByID_live notNull
      have entry := (((h.current _ live).entry ((tidy_sameLinks net).wellFormed h.wf) live).1 finish).mpr known
      exact entry ((tidy_table known).trans missing)

end Walk

section Answers
variable {net net' : Network} {p q : Ptr}

theorem Weighted.nonneg (h : Weighted net) : Nonneg net.Link := fun u v w link => (h u link.1 (v, w) link.2).1

theorem Weighted.fits (h : Weighted net) (this : Ptr) : Fits Machine.int32 net this :=
  ⟨exact_int32.keys, fun u d v w dist below link =>
    exact_int32.sums d w (dist.nonneg h.nonneg) below (h u link.1 (v, w) link.2)⟩

/-- The entry for another router: `NULL` when it is out of reach, and otherwise a neighbour on
a shortest path. -/
theorem Kept.entry (h : Kept Machine.int32 net) (weighted : Weighted net) (live : p ∈ net.allRouterPtrs)
    (live' : q ∈ net.allRouterPtrs) (other : q ≠ p) :
    ∃ hop, (net.heap p).routingTable (net.getRouterID q) = some hop ∧
      (hop = NULL ↔ ¬ ∃ d < 100000, IsDist net.Link p q d) ∧ (hop ≠ NULL → OnShortest net p q hop) := by
  have same := tidy_sameLinks net
  have wf := same.wellFormed h.wf
  have apart := h.apart.sameLinks same
  have weighted' : Weighted net.tidy := weighted.sameLinks same
  obtain ⟨fuel, s, done, built⟩ := h.current p live
  obtain ⟨between, empty, grounded⟩ := dijkstra_exit wf weighted'.nonneg (weighted'.fits p) live done
  obtain ⟨start, awaiting⟩ := initial_roaming Machine.int32 wf live
  obtain ⟨entry, present⟩ := (foldlM_entries wf.ids_nodup built).1 q live'
  obtain ⟨hop, held⟩ := Option.ne_none_iff_exists'.mp present
  have null_iff := (start.dijkstra wf awaiting done).1.entry_null_iff wf apart live' other (entry.trans held)
  have least := between.isLeast weighted'.nonneg empty live'
  refine ⟨hop, ?_, ?_, fun set => ?_⟩
  · rw [← tidy_table (List.mem_map_of_mem live')]
    exact held
  · rw [null_iff, ← same.link]
    constructor
    · rintro top ⟨d, below, dist⟩
      have bound := least.2 (.inr dist.walk)
      omega
    · intro far
      by_contra labelled
      have upper := between.labels.upper q live'
      have below : label net.tidy s q < 100000 := by omega
      exact far ⟨_, below, between.isDist weighted'.nonneg empty live' below⟩
  · obtain ⟨neighbor, split⟩ := grounded.entry between wf weighted'.nonneg empty live' (entry.trans held) set other
    exact ⟨same.link ▸ neighbor, same.link ▸ split⟩

theorem findPath_fst (fuel : Nat) (start : Int) {finish : Int} (known : finish ∈ net.allRouterPtrs.map net.getRouterID) :
    (net.tidy.findPath fuel start finish net.tidy.numtoptrs).map Prod.fst =
      (net.findPath fuel start finish net.numtoptrs).map Prod.fst := by
  unfold findPath
  split_ifs
  · rfl
  · exact walk_tidy known fuel start []

/-- The answer to a query between two routers, where links have positive weights. -/
theorem Kept.answer (h : Kept Machine.int32 net) (weighted : Weighted net) (positive : Positive net.Link)
    (live : p ∈ net.allRouterPtrs) (live' : q ∈ net.allRouterPtrs) (other : p ≠ q) {fuel : Nat} {out : PathOutput}
    (done : net.findPathOption fuel (net.getRouterID p) (net.getRouterID q) = some (out, net')) :
    (∀ d < 100000, IsDist net.Link p q d → ∃ path, out = .path ((path ++ [q]).map net.getRouterID) ∧
      (path ++ [q]).head? = some p ∧ (path ++ [q]).Nodup ∧ (∀ r ∈ path ++ [q], r ∈ net.allRouterPtrs) ∧
        (path ++ [q]).IsChain fun a b => ∃ w, net.Link a b w) ∧
    ((¬ ∃ d < 100000, IsDist net.Link p q d) → out = .noPath) := by
  have same := tidy_sameLinks net
  have wf := same.wellFormed h.wf
  have weighted' : Weighted net.tidy := weighted.sameLinks same
  have positive' : Positive net.tidy.Link := same.link ▸ positive
  have known : net.getRouterID q ∈ net.allRouterPtrs.map net.getRouterID := List.mem_map_of_mem live'
  have entries : LiveEntries net := by
    intro r here id hop held set
    by_cases known : id ∈ net.allRouterPtrs.map net.getRouterID
    · exact ((h.current r here).entry wf here).2 id hop ((tidy_table known).trans held) set
    · rcases h.stored r here id known with none_ | null
      · exact absurd (held.symm.trans none_) (by simp)
      · exact absurd (Option.some.inj (held.symm.trans null)) set
  obtain ⟨⟨r, after⟩, found, eq⟩ := Option.map_eq_some_iff.mp done
  obtain ⟨rfl, rfl⟩ := Prod.mk.inj eq
  obtain ⟨⟨v, rfl, routers⟩, links, _⟩ := findPath_sound h.wf entries live found
  have ids : after.getRouterID = net.getRouterID := funext links.ids
  have first : (net.findPath fuel (net.getRouterID p) (net.getRouterID q) net.numtoptrs).map Prod.fst =
      some (.returned v) := by rw [found, Option.map_some]
  constructor
  · intro d below dist
    obtain ⟨path, routed, returns⟩ := findPath_near wf h.current positive' (fun r _ => weighted'.fits r) live live' other
      (same.link ▸ dist) below
    have eq : path = v := returns.eq_of_findPath wf live live' other ((findPath_fst fuel _ known).trans first)
    subst eq
    have start : p ∈ path := by
      cases routed with
      | done => exact absurd rfl other
      | hop => exact List.mem_cons_self
    obtain ⟨nodup, falling⟩ := routed.falling positive' (same.link ▸ dist)
    refine ⟨path, ?_, routed.chain.2, ?_, ?_, same.link ▸ routed.chain.1⟩
    · have set : NULL ∉ path := fun null => h.wf.notNull (routers NULL null)
      have some_ : ¬ path.isEmpty = true := by
        rw [List.isEmpty_iff]
        exact List.ne_nil_of_mem start
      rw [printPath, if_neg some_, printRouters_eq set, ids, Option.map_some, Option.getD_some, List.map_append]
      rfl
    · rw [List.nodup_append]
      refine ⟨nodup, List.nodup_singleton q, fun r member last final same => ?_⟩
      obtain ⟨e, distR, pos, _⟩ := falling r member
      rw [same, List.mem_singleton.mp final] at distR
      have zero := distR.unique (isDist_self positive'.nonneg q)
      omega
    · intro r member
      rcases List.mem_append.mp member with inner | last
      · exact routers r inner
      · exact List.mem_singleton.mp last ▸ live'
  · intro far
    obtain ⟨hop, held, null_iff, _⟩ := h.entry weighted live live' (Ne.symm other)
    rw [null_iff.mpr far] at held
    have eq := (findPath_null h.wf live live' other held).eq_of_findPath h.wf live live' other first
    subst eq
    rfl

end Answers
end NetworkOs.Ospf
