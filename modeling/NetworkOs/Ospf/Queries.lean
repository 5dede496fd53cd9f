import NetworkOs.Ospf.Integrity

/-! What a path query changes. The walk reads the tables with `operator[]`, which stores
`NULL` under a key that is missing; no key is missing for the id of a router. -/
namespace NetworkOs.Ospf
open ShortestPath Network

/-- Routing tables and neighbours are as before, and only routers of the network are
printed as destinations. -/
structure Untouched (net net' : Network) : Prop where
  routers : net'.allRouterPtrs = net.allRouterPtrs
  heap : ∀ p ∈ net.allRouterPtrs, (net'.heap p).routingTable = (net.heap p).routingTable ∧
    (net'.heap p).neighbors = (net.heap p).neighbors
  shown : ∀ p ∈ net'.allRouterPtrs, ∀ dest, net'.printedLine p dest ≠ none →
    dest ∈ net'.allRouterPtrs.map net'.getRouterID

section Query
variable {wrap : Int → Int} {net : Network} {s : Ptr} {finish : Int}

theorem Intact.untouched (h : Intact net) : Untouched net net := by
  refine ⟨rfl, fun _ _ => ⟨rfl, rfl⟩, fun p live dest line => (h.keys p live dest).mp fun missing => line ?_⟩
  rw [printedLine, missing]
  split_ifs <;> rfl

/-- A walk towards a router finds an entry in every table it reads. -/
theorem walk_same (intact : Intact net) (wf : WellFormed net) (known : finish ∈ net.allRouterPtrs.map net.getRouterID)
    {fuel : Nat} {temp : Ptr} (live : temp ∈ net.allRouterPtrs) {v : List Ptr} {r : PathResult} {net' : Network}
    (done : walk net.numtoptrs finish fuel (net.getRouterID temp) v net = some (r, net')) : net' = net := by
  induction fuel using Nat.strong_induction_on generalizing temp v with
  | h fuel ih =>
      have here : net.numtoptrs (net.getRouterID temp) = temp := getRouterByID_of_live wf live
      have notNull : net.numtoptrs (net.getRouterID temp) ≠ NULL := by
        rw [here]
        exact fun null => wf.notNull (null ▸ live)
      obtain ⟨hop, held⟩ := Option.ne_none_iff_exists'.mp ((intact.keys temp live finish).mpr known)
      rcases walk_read notNull (here.symm ▸ held) done with same | ⟨set, less, rfl, rest⟩
      · exact same
      · exact ih less (Nat.lt_succ_self less) (intact.entries temp live finish hop held set) rest

theorem findPath_same (intact : Intact net) (wf : WellFormed net) (live : s ∈ net.allRouterPtrs)
    (known : finish ∈ net.allRouterPtrs.map net.getRouterID) {fuel : Nat} {r : PathResult} {net' : Network}
    (done : net.findPath fuel (net.getRouterID s) finish net.numtoptrs = some (r, net')) : net' = net := by
  unfold findPath at done
  split_ifs at done with same
  · exact (Prod.mk.inj (Option.some.inj done)).2.symm
  · exact walk_same intact wf known live done

/-- For a `finish` that is no router the first table read gets a new entry. -/
theorem findPath_inserts (intact : Intact net) (wf : WellFormed net) (live : s ∈ net.allRouterPtrs)
    (unknown : finish ∉ net.allRouterPtrs.map net.getRouterID) (fuel : Nat) :
    ∃ net', net.findPath fuel (net.getRouterID s) finish net.numtoptrs = some (.returned [], net') ∧
      (net'.heap s).routingTable finish = some NULL ∧ (net.heap s).routingTable finish = none := by
  have missing : (net.heap s).routingTable finish = none := by
    by_contra held
    exact unknown ((intact.keys s live finish).mp held)
  have apart : net.getRouterID s ≠ finish := fun same => unknown (same ▸ List.mem_map_of_mem live)
  have here : net.numtoptrs (net.getRouterID s) = s := getRouterByID_of_live wf live
  refine ⟨net.setRouter s { net.heap s with
    routingTable := Function.update (net.heap s).routingTable finish (some NULL) }, ?_, ?_, missing⟩
  · rw [findPath, if_neg apart]
    unfold walk
    rw [if_neg apart, here, if_neg fun null : s = NULL => wf.notNull (null ▸ live)]
    simp only [missing]
  · simp [setRouter]

/-- With positive weights and exact sums every query ends. -/
theorem findPath_total (reachable : Reachable wrap net) (positive : Positive net.Link)
    (fits : ∀ p ∈ net.allRouterPtrs, Fits wrap net p) (live : s ∈ net.allRouterPtrs) (finish : Int) :
    ∃ bound, ∀ fuel, bound ≤ fuel →
      ∃ result, net.findPath fuel (net.getRouterID s) finish net.numtoptrs = some result := by
  obtain ⟨wf, current⟩ := reachable.invariant
  by_cases known : finish ∈ net.allRouterPtrs.map net.getRouterID
  · obtain ⟨f, liveF, rfl⟩ := List.mem_map.mp known
    by_cases same : s = f
    · exact ⟨0, fun fuel _ => ⟨_, if_pos (congrArg net.getRouterID same)⟩⟩
    · obtain ⟨v, bound, returns⟩ : ∃ v, Returns net s f v := by
        by_cases near : ∃ d < 100000, IsDist net.Link s f d
        · obtain ⟨d, below, dist⟩ := near
          obtain ⟨path, _, returns⟩ := findPath_near wf current positive fits live liveF same dist below
          exact ⟨path, returns⟩
        · have far : ∀ d, IsDist net.Link s f d → 100000 ≤ d := fun d dist =>
            not_lt.mp fun below => near ⟨d, below, dist⟩
          exact ⟨[], findPath_null wf live liveF same
            (current.entry_far wf live positive (fits s live) liveF same far)⟩
      exact ⟨bound, fun fuel le => ⟨_, returns fuel le⟩⟩
  · refine ⟨0, fun fuel _ => ?_⟩
    obtain ⟨net', done, _⟩ := findPath_inserts reachable.intact wf live known fuel
    exact ⟨_, done⟩

end Query

/-- A query that starts at a router leaves everything as it was exactly when `finish` is
the id of a router too. It ends wherever weights are positive and no sum overflows. -/
theorem findPath_untouched_iff {wrap : Int → Int} {net : Network} (reachable : Reachable wrap net) {s : Ptr}
    (live : s ∈ net.allRouterPtrs) (finish : Int) :
    ((∀ fuel r net', net.findPath fuel (net.getRouterID s) finish net.numtoptrs = some (r, net') →
        Untouched net net') ↔ finish ∈ net.allRouterPtrs.map net.getRouterID) ∧
      (Positive net.Link → (∀ p ∈ net.allRouterPtrs, Fits wrap net p) → ∃ bound, ∀ fuel, bound ≤ fuel →
        ∃ result, net.findPath fuel (net.getRouterID s) finish net.numtoptrs = some result) := by
  have wf := reachable.invariant.1
  have intact := reachable.intact
  refine ⟨⟨fun untouched => ?_, fun known => ?_⟩, fun positive fits =>
    findPath_total reachable positive fits live finish⟩
  · by_contra unknown
    obtain ⟨net', done, inserted, missing⟩ := findPath_inserts intact wf live unknown 0
    have same := ((untouched 0 _ net' done).heap s live).1
    rw [same, missing] at inserted
    exact absurd inserted (by simp)
  · intro fuel r net' done
    obtain rfl := findPath_same intact wf live known done
    exact intact.untouched

theorem findPath_untouched_iff_chain : ∃ net, createAll Machine.int32 20 chain noRouters = some net ∧
    ∀ fuel r net', net.findPath fuel (net.getRouterID 1) 3 net.numtoptrs = some (r, net') → Untouched net net' := by
  obtain ⟨net, made, reachable, routers, ids, _⟩ := chain_network
  have live : 1 ∈ net.allRouterPtrs := routers ▸ by decide
  have known : (3 : Int) ∈ net.allRouterPtrs.map net.getRouterID := ids ▸ by decide
  exact ⟨net, made, (findPath_untouched_iff reachable live 3).1.mpr known⟩

/-- The query from 1 to 7 stores an entry for 7 in the table of router 1. -/
theorem query_adds_destination :
    ¬ ∀ net, Reachable Machine.int32 net → Positive net.Link → ∀ s ∈ net.allRouterPtrs, ∀ finish fuel r net',
      net.findPath fuel (net.getRouterID s) finish net.numtoptrs = some (r, net') → Untouched net net' := by
  intro claim
  obtain ⟨net, _, reachable, routers, ids, _, one⟩ := chain_network
  have positive : Positive net.Link := fun u v w link => by rw [one u v w link]; decide
  have live : 1 ∈ net.allRouterPtrs := routers ▸ by decide
  have unknown : (7 : Int) ∉ net.allRouterPtrs.map net.getRouterID := ids ▸ by decide
  obtain ⟨net', done, inserted, missing⟩ := findPath_inserts reachable.intact reachable.invariant.1 live unknown 0
  have same := ((claim net reachable positive 1 live 7 0 _ net' done).heap 1 live).1
  rw [same, missing] at inserted
  exact absurd inserted (by simp)

end NetworkOs.Ospf
