import NetworkOs.Ospf.Paths

/-! The weight of the path that a query returns. It is the distance for all pairs of
routers exactly when every link that a table prefers is itself a shortest path. -/
namespace NetworkOs.Ospf
open ShortestPath Network

/-- The least weight of the parallel links from `a` to `b`. -/
def linkWeight (net : Network) (a b : Ptr) : Option Int :=
  (((net.heap a).neighbors.filter fun l => l.1 = b).map Prod.snd).min?

def pathWeight (net : Network) : List Ptr → Option Int
  | a :: b :: rest => do return (← linkWeight net a b) + (← pathWeight net (b :: rest))
  | _ => some 0

/-- The query returns a path whose weight is the distance, when this is below 100000. -/
def ShortestPathFound (net : Network) (s f : Ptr) : Prop :=
  ∀ d, IsDist net.Link s f d → d < 100000 → ∃ v, Returns net s f v ∧ pathWeight net (v ++ [f]) = some d

/-- A neighbour that the queue loop leaves as a predecessor has a shortest link. -/
def DirectLinksShortest (net : Network) : Prop :=
  ∀ this ∈ net.allRouterPtrs, ∀ dest ∈ net.allRouterPtrs, dest ≠ this →
    (∃ d < 100000, IsDist net.Link this dest d) → ∀ u, ClosestPred net this dest u → u ≠ this →
      (∃ w, net.Link this u w) → ∃ w, net.Link this u w ∧ IsDist net.Link this u w

section Weights
variable {net : Network} {s f : Ptr}

theorem linkWeight_eq_some_iff {a b : Ptr} (live : a ∈ net.allRouterPtrs) {w : Int} :
    linkWeight net a b = some w ↔ net.Link a b w ∧ ∀ w', net.Link a b w' → w ≤ w' := by
  have mem : ∀ w', w' ∈ ((net.heap a).neighbors.filter fun l => l.1 = b).map Prod.snd ↔ net.Link a b w' := by
    intro w'
    simp [Link, live]
  rw [linkWeight, List.min?_eq_some_iff, mem]
  simp only [mem]

theorem linkWeight_of_isDist {a b : Ptr} (live : a ∈ net.allRouterPtrs) {w : Int} (link : net.Link a b w)
    (dist : IsDist net.Link a b w) : linkWeight net a b = some w :=
  (linkWeight_eq_some_iff live).mpr ⟨link, fun _ link' => dist.least (.single link')⟩

/-- The first link of a route and what remains make up its weight. -/
theorem Routed.pathWeight_hop {temp next : Ptr} {path : List Ptr} (rest : Routed net f next path) {b : Int} :
    pathWeight net (temp :: path ++ [f]) = some b ↔
      ∃ w a, linkWeight net temp next = some w ∧ pathWeight net (path ++ [f]) = some a ∧ w + a = b := by
  obtain ⟨q, tail, eq⟩ : ∃ q tail, path ++ [f] = q :: tail := List.exists_cons_of_ne_nil (by simp)
  have head := rest.chain.2
  rw [eq, List.head?_cons, Option.some.injEq] at head
  subst head
  simp only [List.cons_append, eq, pathWeight, Option.bind_eq_bind, Option.pure_def, Option.bind_eq_some_iff,
    Option.some.injEq]
  constructor
  · rintro ⟨w, direct, a, later, sum⟩
    exact ⟨w, a, direct, later, sum⟩
  · rintro ⟨w, a, direct, later, sum⟩
    exact ⟨w, direct, a, later, sum⟩

theorem Routed.walk {path : List Ptr} (h : Routed net f s path) {b : Int}
    (weight : pathWeight net (path ++ [f]) = some b) : Walk net.Link s f b := by
  induction h generalizing b with
  | done =>
      obtain rfl : 0 = b := Option.some.inj weight
      exact .nil
  | @hop temp next path live other held first rest ih =>
      obtain ⟨w, b', direct, later, rfl⟩ := rest.pathWeight_hop.mp weight
      have link := ((linkWeight_eq_some_iff live).mp direct).1
      exact (Walk.single link).append (ih later)

/-- When every hop of a route is over a shortest link the weights add up to the distance. -/
theorem Routed.weight (costs : Positive net.Link) (direct : DirectLinksShortest net)
    {path : List Ptr} (h : Routed net f s path) {d : Int} (dist : IsDist net.Link s f d) :
    pathWeight net (path ++ [f]) = some d := by
  induction h generalizing d with
  | done =>
      have zero := dist.unique (isDist_self costs.nonneg f)
      exact congrArg some zero.symm
  | @hop temp next path live other held first rest ih =>
      obtain ⟨a, b, distHop, right, whole⟩ := first.onPath
      obtain ⟨_, distF⟩ := whole.split costs.nonneg distHop.walk right
      obtain rfl := dist.unique whole
      obtain ⟨w, link, shortest⟩ : ∃ w, net.Link temp next w ∧ IsDist net.Link temp next w := by
        rcases first.origin with shortest | ⟨p, liveP, otherP, near, closest⟩
        · exact shortest
        · exact direct temp live p liveP otherP near next closest first.notThis
            ((mem_neighborsSet live).mp first.neighbor)
      obtain rfl := shortest.unique distHop
      exact rest.pathWeight_hop.mpr ⟨w, b, linkWeight_of_isDist live link shortest, ih distF, rfl⟩

end Weights

/-- Where no sum of the queue loops overflows: every query returns a path of the
weight of the distance exactly when the links the tables prefer are shortest. -/
theorem shortest_paths_found_iff {net : Network} (reachable : Reachable Machine.int32 net)
    (positive : Positive net.Link) (safe : NoOverflow net) :
    (∀ s ∈ net.allRouterPtrs, ∀ f ∈ net.allRouterPtrs, s ≠ f → ShortestPathFound net s f) ↔
      DirectLinksShortest net := by
  obtain ⟨wf, current⟩ := reachable.invariant
  have fits : ∀ p ∈ net.allRouterPtrs, Fits Machine.int32 net p :=
    fun p live => safe.fits positive.nonneg live
  constructor
  · rintro found this live dest liveDest other ⟨d, below, dist⟩ u closest notThis ⟨w, link⟩
    have neighbor := (mem_neighborsSet live).mpr ⟨w, link⟩
    have held := current.entry_pred wf live positive (fits this live) liveDest (Ne.symm other) dist below
      closest notThis neighbor
    obtain ⟨v, returns, weight⟩ := found this live dest liveDest (Ne.symm other) d dist below
    obtain ⟨path, routed, returns'⟩ :=
      findPath_near wf current positive fits live liveDest (Ne.symm other) dist below
    obtain rfl := returns.unique returns'
    cases routed with
    | done => exact absurd rfl other
    | @hop _ next path _ _ held' first rest =>
        obtain rfl := Option.some.inj (held.symm.trans held')
        obtain ⟨a, b, distHop, right, whole⟩ := first.onPath
        obtain ⟨_, distDest⟩ := whole.split positive.nonneg distHop.walk right
        obtain ⟨c, b', direct, later, sum⟩ := rest.pathWeight_hop.mp weight
        have link' := ((linkWeight_eq_some_iff live).mp direct).1
        have low := distHop.least (.single link')
        have low' := distDest.least (rest.walk later)
        have total := dist.unique whole
        obtain rfl : c = a := by omega
        exact ⟨c, link', distHop⟩
  · intro direct s live f liveF other d dist below
    obtain ⟨path, routed, returns⟩ := findPath_near wf current positive fits live liveF other dist below
    exact ⟨path, returns, routed.weight positive direct dist⟩

/-- On the chain of links of weight 1 all links are shortest, so all queries are. -/
theorem shortest_paths_found_chain : ∃ net, createAll Machine.int32 20 chain noRouters = some net ∧
    ∀ s ∈ net.allRouterPtrs, ∀ f ∈ net.allRouterPtrs, s ≠ f → ShortestPathFound net s f := by
  obtain ⟨net, made, reachable, _, _, _, one⟩ := chain_network
  have positive : Positive net.Link := fun u v w link => by rw [one u v w link]; decide
  have safe : NoOverflow net := noOverflow_of_weights fun u v w link => by rw [one u v w link]; decide
  refine ⟨net, made, (shortest_paths_found_iff reachable positive safe).mpr ?_⟩
  intro this _ dest _ _ _ u _ notThis ⟨w, link⟩
  obtain rfl := one _ _ _ link
  obtain ⟨d, shorter, dist⟩ := (Walk.single link).exists_isDist positive.nonneg
  have pos := dist.pos positive (Ne.symm notThis)
  obtain rfl : d = 1 := by omega
  exact ⟨1, link, dist⟩

/-- Four routers: 3 is two links of weight 1 from 1, and also one link of weight 10.
The table of 1 prefers the heavy link on the way to 4. -/
theorem heavy_link_preferred :
    ¬ ∀ net, Reachable Machine.int32 net → Positive net.Link → ∀ s ∈ net.allRouterPtrs,
      ∀ f ∈ net.allRouterPtrs, s ≠ f → ShortestPathFound net s f := by
  intro claim
  let calls : List Creation := [⟨1, 1, [], []⟩, ⟨2, 2, [(1, 1)], []⟩, ⟨3, 3, [(2, 1), (1, 10)], []⟩,
    ⟨4, 4, [(3, 1)], []⟩]
  obtain ⟨net, made⟩ : ∃ net, createAll Machine.int32 20 calls noRouters = some net :=
    Option.isSome_iff_exists.mp (by decide +kernel)
  have routers : (createAll Machine.int32 20 calls noRouters).map Network.allRouterPtrs = some [1, 2, 3, 4] := by
    decide +kernel
  have links : (createAll Machine.int32 20 calls noRouters).map (fun net =>
      [1, 2, 3, 4].map fun u => (net.heap u).neighbors) =
        some [[(2, 1), (3, 10)], [(3, 1)], [(4, 1)], []] := by decide +kernel
  have query : (createAll Machine.int32 20 calls noRouters).bind (fun net =>
      (net.findPath 5 (net.getRouterID 1) (net.getRouterID 4) net.numtoptrs).map Prod.fst) =
        some (.returned [1, 3]) := by decide +kernel
  rw [made, Option.map_some, Option.some.injEq] at routers links
  rw [made, Option.bind_some] at query
  simp only [List.map_cons, List.map_nil, List.cons.injEq, and_true] at links
  obtain ⟨links1, links2, links3, links4⟩ := links
  have reachable := createAll_reachable (.start _) made
  have cases_ : ∀ u v w, net.Link u v w → u = 1 ∧ v = 2 ∧ w = 1 ∨ u = 1 ∧ v = 3 ∧ w = 10 ∨
      u = 2 ∧ v = 3 ∧ w = 1 ∨ u = 3 ∧ v = 4 ∧ w = 1 := by
    rintro u v w ⟨live, listed⟩
    rw [routers] at live
    simp only [List.mem_cons, List.not_mem_nil, or_false] at live
    rcases live with rfl | rfl | rfl | rfl
    · simpa [links1] using listed
    · simpa [links2] using listed
    · simpa [links3] using listed
    · simp [links4] at listed
  have live : ∀ p ∈ [1, 2, 3, 4], p ∈ net.allRouterPtrs := fun p member => routers ▸ member
  have positive : Positive net.Link := by
    intro u v w link
    rcases cases_ u v w link with h | h | h | h <;> omega
  have dist : IsDist net.Link 1 4 3 := by
    refine ⟨?_, fun walk => ?_⟩
    · have first : net.Link 1 2 1 := ⟨live 1 (by decide), by simp [links1]⟩
      have second : net.Link 2 3 1 := ⟨live 2 (by decide), by simp [links2]⟩
      have third : net.Link 3 4 1 := ⟨live 3 (by decide), by simp [links3]⟩
      exact ((Walk.single first).snoc second).snoc third
    · have bound := walk.potential_le (π := fun p : Ptr => (p : Int) - 1) (fun {u v w} link => by
        rcases cases_ u v w link with ⟨rfl, rfl, rfl⟩ | ⟨rfl, rfl, rfl⟩ | ⟨rfl, rfl, rfl⟩ | ⟨rfl, rfl, rfl⟩ <;>
          decide)
      simpa using bound
  obtain ⟨v, returns, weight⟩ := claim net reachable positive 1 (live 1 (by decide)) 4 (live 4 (by decide))
    (by decide) 3 dist (by decide)
  have path : v = [1, 3] := returns.eq_of_findPath reachable.invariant.1 (live 1 (by decide))
    (live 4 (by decide)) (by decide) query
  rw [path] at weight
  have heavy : pathWeight net [1, 3, 4] = some 11 := by
    simp [pathWeight, linkWeight, links1, links3]
  exact absurd (weight.symm.trans heavy) (by decide)

end NetworkOs.Ospf
