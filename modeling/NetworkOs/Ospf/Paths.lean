import NetworkOs.Library.Machine
import NetworkOs.Ospf.Routes
import NetworkOs.Ospf.Updates

/-! The path query on reachable networks with positive weights. Every hop consults the
table of another router; the distance to the destination falls at each of them. -/
namespace NetworkOs.Ospf
open ShortestPath Network

/-- No sum of the queue loops leaves the range of `int`: a distance below 100000 and
the weight of a link at its end. -/
def NoOverflow (net : Network) : Prop :=
  ∀ this ∈ net.allRouterPtrs, ∀ u d v w, IsDist net.Link this u d → d < 100000 → net.Link u v w →
    d + w ≤ Machine.intMax

theorem NoOverflow.fits {net : Network} (h : NoOverflow net) (costs : Nonneg net.Link) {this : Ptr}
    (live : this ∈ net.allRouterPtrs) : Fits Machine.int32 net this := by
  constructor
  · intro z low high
    exact Machine.int32_of_range (by omega) (by unfold Machine.intMax; omega)
  · intro u d v w dist below link
    have start := dist.nonneg costs
    have cost := costs _ _ _ link
    exact Machine.int32_of_range (by omega) (h this live u d v w dist below link)

theorem noOverflow_of_weights {net : Network} (small : ∀ u v w, net.Link u v w → w ≤ 2147383648) :
    NoOverflow net := by
  intro this _ u d v w _ below link
  have bound := small u v w link
  unfold Machine.intMax
  omega

/-- The routing table entry of `s` for `f`, as `operator[]` reads it. -/
def entry (net : Network) (s f : Ptr) : Ptr :=
  ((net.heap s).routingTable (net.getRouterID f)).getD NULL

/-- The query for a path from `s` to `f` ends, returns `v` and changes nothing. -/
def Returns (net : Network) (s f : Ptr) (v : List Ptr) : Prop :=
  ∃ bound, ∀ fuel, bound ≤ fuel →
    net.findPath fuel (net.getRouterID s) (net.getRouterID f) net.numtoptrs = some (.returned v, net)

section Entries
variable {wrap : Int → Int} {net : Network} {s f : Ptr}

/-- Each table is computed from the predecessors the queue loop found. -/
theorem Current.table (current : Current wrap net) (wf : WellFormed net) (live : s ∈ net.allRouterPtrs)
    (costs : Positive net.Link) (fits : Fits wrap net s) :
    ∃ fuel nextHop, Found net s nextHop ∧ ∀ p ∈ net.allRouterPtrs, ∃ hop,
      (net.heap s).routingTable (net.getRouterID p) = some hop ∧
        net.tableEntry fuel s (net.fillNull nextHop) p = some hop := by
  obtain ⟨fuel, t, done, built⟩ := current s live
  refine ⟨fuel, t.nextHop, dijkstra_found wf live costs fits done, fun p liveP => ?_⟩
  obtain ⟨same, present⟩ := (foldlM_entries wf.ids_nodup built).1 p liveP
  obtain ⟨hop, held⟩ := Option.ne_none_iff_exists'.mp present
  exact ⟨hop, held, same.trans held⟩

theorem Current.entry_near (current : Current wrap net) (wf : WellFormed net) (live : s ∈ net.allRouterPtrs)
    (costs : Positive net.Link) (fits : Fits wrap net s) (liveF : f ∈ net.allRouterPtrs) (other : s ≠ f)
    {d : Int} (dist : IsDist net.Link s f d) (below : d < 100000) :
    ∃ hop, (net.heap s).routingTable (net.getRouterID f) = some hop ∧ FirstHop net s f hop := by
  obtain ⟨fuel, nextHop, found, entries⟩ := current.table wf live costs fits
  obtain ⟨hop, held, computed⟩ := entries f liveF
  exact ⟨hop, held, tableEntry_near wf live costs found liveF (Ne.symm other) dist below computed⟩

theorem Current.entry_pred (current : Current wrap net) (wf : WellFormed net) (live : s ∈ net.allRouterPtrs)
    (costs : Positive net.Link) (fits : Fits wrap net s) (liveF : f ∈ net.allRouterPtrs) (other : s ≠ f)
    {d : Int} (dist : IsDist net.Link s f d) (below : d < 100000) {u : Ptr} (closest : ClosestPred net s f u)
    (notThis : u ≠ s) (neighbor : u ∈ net.neighborsSet s) :
    (net.heap s).routingTable (net.getRouterID f) = some u := by
  obtain ⟨fuel, nextHop, found, entries⟩ := current.table wf live costs fits
  obtain ⟨hop, held, computed⟩ := entries f liveF
  rw [tableEntry_pred costs found liveF (Ne.symm other) dist below closest notThis neighbor] at computed
  rw [held, computed]

theorem Current.entry_far (current : Current wrap net) (wf : WellFormed net) (live : s ∈ net.allRouterPtrs)
    (costs : Positive net.Link) (fits : Fits wrap net s) (liveF : f ∈ net.allRouterPtrs) (other : s ≠ f)
    (far : ∀ d, IsDist net.Link s f d → 100000 ≤ d) :
    (net.heap s).routingTable (net.getRouterID f) = some NULL := by
  obtain ⟨fuel, nextHop, found, entries⟩ := current.table wf live costs fits
  obtain ⟨hop, held, computed⟩ := entries f liveF
  rw [tableEntry_far found liveF (Ne.symm other) far] at computed
  rw [held, computed]

end Entries

/-- The routers the query collects from `temp` on, each with its table's hop. -/
inductive Routed (net : Network) (f : Ptr) : Ptr → List Ptr → Prop where
  | done : Routed net f f []
  | hop {temp next : Ptr} {path : List Ptr} (live : temp ∈ net.allRouterPtrs) (other : temp ≠ f)
      (held : (net.heap temp).routingTable (net.getRouterID f) = some next) (first : FirstHop net temp f next)
      (rest : Routed net f next path) : Routed net f temp (temp :: path)

section Walk
variable {net : Network} {f : Ptr} {m : Int → Ptr}

theorem walk_done {finish : Int} (fuel : Nat) (v : List Ptr) :
    walk m finish fuel finish v net = some (.returned v, net) := by
  unfold walk
  exact if_pos rfl

theorem walk_hop {finish temp : Int} {hop : Ptr} (fuel : Nat) (v : List Ptr) (other : temp ≠ finish)
    (known : m temp ≠ NULL) (held : (net.heap (m temp)).routingTable finish = some hop) (set : hop ≠ NULL) :
    walk m finish (fuel + 1) temp v net =
      walk m finish fuel (net.getRouterID hop) (v ++ [m temp]) net := by
  rw [walk, if_neg other, if_neg known]
  simp only [held, set, if_false]

theorem walk_null {finish temp : Int} (fuel : Nat) (v : List Ptr) (other : temp ≠ finish)
    (known : m temp ≠ NULL) (held : (net.heap (m temp)).routingTable finish = some NULL) :
    walk m finish fuel temp v net = some (.returned [], net) := by
  unfold walk
  rw [if_neg other, if_neg known]
  simp only [held, if_true]

/-- With an entry to read the walk stops here or goes on to the next hop. -/
theorem walk_read {finish temp : Int} {hop : Ptr} {fuel : Nat} {v : List Ptr} {r : PathResult} {net' : Network}
    (known : m temp ≠ NULL) (held : (net.heap (m temp)).routingTable finish = some hop)
    (done : walk m finish fuel temp v net = some (r, net')) :
    net' = net ∨ hop ≠ NULL ∧ ∃ less, fuel = less + 1 ∧
      walk m finish less (net.getRouterID hop) (v ++ [m temp]) net = some (r, net') := by
  by_cases arrived : temp = finish
  · subst arrived
    rw [walk_done] at done
    exact .inl (Prod.mk.inj (Option.some.inj done)).2.symm
  by_cases null : hop = NULL
  · rw [walk_null fuel v arrived known (null ▸ held)] at done
    exact .inl (Prod.mk.inj (Option.some.inj done)).2.symm
  cases fuel with
  | zero =>
      unfold walk at done
      simp [arrived, known, held, null] at done
  | succ less => exact .inr ⟨null, less, rfl, (walk_hop less v arrived known held null).symm.trans done⟩

theorem walk_mono {finish temp : Int} {v : List Ptr} {net : Network} {fuel more : Nat}
    {r : PathResult × Network} (done : walk m finish fuel temp v net = some r) (le : fuel ≤ more) :
    walk m finish more temp v net = some r := by
  induction fuel generalizing temp v more with
  | zero =>
      unfold walk at done ⊢
      split_ifs at done ⊢ with arrived known
      · exact done
      · exact done
      · cases held : (net.heap (m temp)).routingTable finish with
        | none => simpa [held] using done
        | some hop =>
            by_cases null : hop = NULL
            · simpa [held, null] using done
            · simp [held, null] at done
  | succ fuel ih =>
      obtain ⟨more, rfl⟩ : ∃ n, more = n + 1 := ⟨more - 1, by omega⟩
      unfold walk at done ⊢
      split_ifs at done ⊢ with arrived known
      · exact done
      · exact done
      · cases held : (net.heap (m temp)).routingTable finish with
        | none => simpa [held] using done
        | some hop =>
            by_cases null : hop = NULL
            · simpa [held, null] using done
            · simp only [held, null, if_false] at done ⊢
              exact ih done (by omega)

end Walk

section Query
variable {net : Network} {s f : Ptr}

theorem Returns.unique {v v' : List Ptr} (h : Returns net s f v) (h' : Returns net s f v') : v = v' := by
  obtain ⟨bound, result⟩ := h
  obtain ⟨bound', result'⟩ := h'
  have same := (result (max bound bound') (le_max_left _ _)).symm.trans
    (result' (max bound bound') (le_max_right _ _))
  simpa using same

/-- Any run of the query to its end shows what it returns. -/
theorem Returns.eq_of_findPath (wf : WellFormed net) (live : s ∈ net.allRouterPtrs)
    (liveF : f ∈ net.allRouterPtrs) (other : s ≠ f) {v v' : List Ptr} (h : Returns net s f v) {fuel : Nat}
    (done : (net.findPath fuel (net.getRouterID s) (net.getRouterID f) net.numtoptrs).map Prod.fst =
      some (.returned v')) : v = v' := by
  have distinct : net.getRouterID s ≠ net.getRouterID f := fun same => other (wf.ids s live f liveF same)
  obtain ⟨⟨r, net'⟩, done, rfl⟩ := Option.map_eq_some_iff.mp done
  obtain ⟨bound, result⟩ := h
  have more := result (max bound fuel) (le_max_left _ _)
  rw [findPath, if_neg distinct] at done more
  have same := more.symm.trans (walk_mono done (le_max_right bound fuel))
  simp only [Option.some.injEq, Prod.mk.injEq, PathResult.returned.injEq] at same
  exact same.1

/-- The walk from a router with a route, by strong induction on its distance to the
destination. -/
theorem walk_routed {wrap : Int → Int} (wf : WellFormed net) (current : Current wrap net)
    (costs : Positive net.Link) (fits : ∀ p ∈ net.allRouterPtrs, Fits wrap net p)
    (liveF : f ∈ net.allRouterPtrs) (n : Nat) {temp : Ptr} {d : Int} (size : d.toNat ≤ n)
    (live : temp ∈ net.allRouterPtrs) (dist : IsDist net.Link temp f d) (below : d < 100000) :
    ∃ path, Routed net f temp path ∧ ∀ fuel v, n ≤ fuel →
      walk net.numtoptrs (net.getRouterID f) fuel (net.getRouterID temp) v net =
        some (.returned (v ++ path), net) := by
  induction n generalizing temp d with
  | zero =>
      have same : temp = f := by
        by_contra other
        have positive := dist.pos costs other
        omega
      subst same
      exact ⟨[], .done, fun fuel v _ => by rw [walk_done, List.append_nil]⟩
  | succ n ih =>
      by_cases same : temp = f
      · subst same
        exact ⟨[], .done, fun fuel v _ => by rw [walk_done, List.append_nil]⟩
      · obtain ⟨hop, held, first⟩ := current.entry_near wf live costs (fits temp live) liveF same dist below
        obtain ⟨a, b, distHop, right, whole⟩ := first.onPath
        obtain ⟨_, distF⟩ := whole.split costs.nonneg distHop.walk right
        have positive := distHop.pos costs (Ne.symm first.notThis)
        have nonneg := distF.nonneg costs.nonneg
        obtain rfl := dist.unique whole
        obtain ⟨w, link⟩ := (mem_neighborsSet live).mp first.neighbor
        have liveHop := wf.links _ _ _ link
        obtain ⟨path, routed, result⟩ := ih (d := b) (by omega) liveHop distF (by omega)
        refine ⟨temp :: path, .hop live same held first routed, fun fuel v le => ?_⟩
        obtain ⟨fuel, rfl⟩ : ∃ k, fuel = k + 1 := ⟨fuel - 1, by omega⟩
        have here : net.numtoptrs (net.getRouterID temp) = temp := getRouterByID_of_live wf live
        have distinct : net.getRouterID temp ≠ net.getRouterID f := fun eq => same (wf.ids temp live f liveF eq)
        have known : net.numtoptrs (net.getRouterID temp) ≠ NULL := fun null =>
          wf.notNull (null ▸ here.symm ▸ live)
        rw [walk_hop fuel v distinct known (by rw [here, held]) (fun null => wf.notNull (null ▸ liveHop)),
          result fuel _ (by omega), here, List.append_assoc]
        rfl

/-- The query follows the tables to a router nearer than 100000. -/
theorem findPath_near {wrap : Int → Int} (wf : WellFormed net) (current : Current wrap net)
    (costs : Positive net.Link) (fits : ∀ p ∈ net.allRouterPtrs, Fits wrap net p)
    (live : s ∈ net.allRouterPtrs) (liveF : f ∈ net.allRouterPtrs) (other : s ≠ f) {d : Int}
    (dist : IsDist net.Link s f d) (below : d < 100000) :
    ∃ path, Routed net f s path ∧ Returns net s f path := by
  have distinct : net.getRouterID s ≠ net.getRouterID f := fun same => other (wf.ids s live f liveF same)
  obtain ⟨path, routed, result⟩ := walk_routed wf current costs fits liveF d.toNat le_rfl live dist below
  refine ⟨path, routed, d.toNat, fun fuel le => ?_⟩
  rw [findPath, if_neg distinct, result fuel [] le, List.nil_append]

theorem findPath_null (wf : WellFormed net) (live : s ∈ net.allRouterPtrs)
    (liveF : f ∈ net.allRouterPtrs) (other : s ≠ f)
    (held : (net.heap s).routingTable (net.getRouterID f) = some NULL) : Returns net s f [] := by
  have distinct : net.getRouterID s ≠ net.getRouterID f := fun same => other (wf.ids s live f liveF same)
  have here : net.numtoptrs (net.getRouterID s) = s := getRouterByID_of_live wf live
  refine ⟨0, fun fuel _ => ?_⟩
  rw [findPath, if_neg distinct]
  exact walk_null fuel [] distinct (fun null => wf.notNull (null ▸ here.symm ▸ live)) (by rw [here, held])

/-- The distance to the destination is positive on a route and falls along it. -/
theorem Routed.falling (costs : Positive net.Link) {path : List Ptr} (h : Routed net f s path) {d : Int}
    (dist : IsDist net.Link s f d) :
    path.Nodup ∧ ∀ p ∈ path, ∃ e, IsDist net.Link p f e ∧ 0 < e ∧ e ≤ d := by
  induction h generalizing d with
  | done => exact ⟨List.nodup_nil, fun p member => nomatch member⟩
  | @hop temp next path live other held first rest ih =>
      obtain ⟨a, b, distHop, right, whole⟩ := first.onPath
      obtain ⟨_, distF⟩ := whole.split costs.nonneg distHop.walk right
      have positive := distHop.pos costs (Ne.symm first.notThis)
      obtain rfl := dist.unique whole
      obtain ⟨nodup, later⟩ := ih distF
      constructor
      · refine List.nodup_cons.mpr ⟨fun again => ?_, nodup⟩
        obtain ⟨e, distAgain, _, bound⟩ := later temp again
        have same := distAgain.unique dist
        omega
      · intro p member
        rcases List.mem_cons.mp member with rfl | inside
        · exact ⟨a + b, dist, dist.pos costs other, le_rfl⟩
        · obtain ⟨e, distP, pos, bound⟩ := later p inside
          exact ⟨e, distP, pos, by omega⟩

theorem Routed.chain {path : List Ptr} (h : Routed net f s path) :
    (path ++ [f]).IsChain (fun a b => ∃ w, net.Link a b w) ∧ (path ++ [f]).head? = some s := by
  induction h with
  | done => exact ⟨.singleton f, rfl⟩
  | @hop temp next path live other held first rest ih =>
      refine ⟨List.IsChain.cons ih.1 fun q head => ?_, rfl⟩
      obtain rfl := Option.some.inj (ih.2.symm.trans head)
      exact (mem_neighborsSet live).mp first.neighbor

theorem Routed.entries (wf : WellFormed net) {path : List Ptr} (h : Routed net f s path) :
    ∀ p ∈ path, entry net p f ≠ NULL := by
  induction h with
  | done => exact fun p member => nomatch member
  | @hop temp next path live other held first rest ih =>
      intro p member
      rcases List.mem_cons.mp member with rfl | inside
      · obtain ⟨w, link⟩ := (mem_neighborsSet live).mp first.neighbor
        rw [entry, held, Option.getD_some]
        exact fun null => wf.notNull (null ▸ wf.links _ _ _ link)
      · exact ih p inside

/-- The query for a path from `s` to `f` ends. It returns the empty list when the
entry of `s` is `NULL` and only then, and otherwise a simple path of links on which
every router has a route to `f`. -/
structure Answered (net : Network) (s f : Ptr) (v : List Ptr) : Prop where
  returns : Returns net s f v
  empty_iff : v = [] ↔ entry net s f = NULL
  simple : v ≠ [] → (v ++ [f]).head? = some s ∧ (v ++ [f]).Nodup ∧
    (v ++ [f]).IsChain (fun a b => ∃ w, net.Link a b w) ∧ ∀ p ∈ v, entry net p f ≠ NULL

/-- Where no sum of the queue loops overflows, every query between two routers ends
with a simple path, or with the empty list when there is no route. -/
theorem findPath_answered (reachable : Reachable Machine.int32 net) (positive : Positive net.Link)
    (safe : NoOverflow net) (live : s ∈ net.allRouterPtrs) (liveF : f ∈ net.allRouterPtrs) (other : s ≠ f) :
    ∃ v, Answered net s f v := by
  obtain ⟨wf, current⟩ := reachable.invariant
  have fits : ∀ p ∈ net.allRouterPtrs, Fits Machine.int32 net p :=
    fun p liveP => safe.fits positive.nonneg liveP
  by_cases near : ∃ d < 100000, IsDist net.Link s f d
  · obtain ⟨d, below, dist⟩ := near
    obtain ⟨path, routed, returns⟩ := findPath_near wf current positive fits live liveF other dist below
    have entries := routed.entries wf
    have start : s ∈ path := by
      cases routed with
      | done => exact absurd rfl other
      | hop => exact List.mem_cons_self
    refine ⟨path, returns, iff_of_false (List.ne_nil_of_mem start) (entries s start), fun _ => ?_⟩
    obtain ⟨nodup, falling⟩ := routed.falling positive dist
    refine ⟨routed.chain.2, ?_, routed.chain.1, entries⟩
    rw [List.nodup_append]
    refine ⟨nodup, List.nodup_singleton f, fun p member q last same => ?_⟩
    obtain ⟨e, distP, pos, _⟩ := falling p member
    rw [same, List.mem_singleton.mp last] at distP
    have zero := distP.unique (isDist_self positive.nonneg f)
    omega
  · have far : ∀ d, IsDist net.Link s f d → 100000 ≤ d := by
      intro d dist
      by_contra below
      exact near ⟨d, by omega, dist⟩
    have held := current.entry_far wf live positive (fits s live) liveF other far
    have null : entry net s f = NULL := by rw [entry, held, Option.getD_some]
    exact ⟨[], findPath_null wf live liveF other held, iff_of_true rfl null, fun nonempty => absurd rfl nonempty⟩

end Query

/-- The line of input and the address of each creation in a sequence of them. -/
structure Creation where
  new : Ptr
  routerId : Int
  incoming : List (Int × Int)
  outgoing : List (Int × Int)

/-- Creations one after another, each at an address that is free. -/
def createAll (wrap : Int → Int) (fuel : Nat) : List Creation → Network → Option Network
  | [], net => some net
  | c :: rest, net =>
      if c.new = NULL ∨ c.new ∈ net.allRouterPtrs then none
      else (net.createRouter wrap fuel c.new c.routerId c.incoming c.outgoing).bind (createAll wrap fuel rest)

/-- The network before the first creation. -/
def noRouters : Network := ⟨[], fun _ => ⟨0, [], fun _ => none⟩⟩

theorem createAll_reachable {wrap : Int → Int} {fuel : Nat} {calls : List Creation} {net net' : Network}
    (before : Reachable wrap net) (done : createAll wrap fuel calls net = some net') : Reachable wrap net' := by
  induction calls generalizing net with
  | nil => exact Option.some.inj done ▸ before
  | cons c rest ih =>
      unfold createAll at done
      split_ifs at done with taken
      push Not at taken
      obtain ⟨mid, made, later⟩ := Option.bind_eq_some_iff.mp done
      exact ih (.create before taken.1 taken.2 made) later

/-- A property of weights that has been checked on all lists of neighbours. -/
theorem weights_of_all {net : Network} (P : Int → Prop) [DecidablePred P]
    (checked : (net.allRouterPtrs.all fun u => (net.heap u).neighbors.all fun l => decide (P l.2)) = true) :
    ∀ u v w, net.Link u v w → P w := by
  rintro u v w ⟨live, listed⟩
  exact of_decide_eq_true (List.all_eq_true.mp (List.all_eq_true.mp checked u live) (v, w) listed)

/-- Three routers in a chain of links of weight 1. -/
def chain : List Creation := [⟨1, 1, [], []⟩, ⟨2, 2, [(1, 1)], []⟩, ⟨3, 3, [(2, 1)], []⟩]

theorem chain_network : ∃ net, createAll Machine.int32 20 chain noRouters = some net ∧
    Reachable Machine.int32 net ∧ net.allRouterPtrs = [1, 2, 3] ∧ net.allRouterPtrs.map net.getRouterID = [1, 2, 3] ∧
    (net.Link 1 2 1 ∧ net.Link 2 3 1) ∧ ∀ u v w, net.Link u v w → w = 1 := by
  obtain ⟨net, made⟩ : ∃ net, createAll Machine.int32 20 chain noRouters = some net :=
    Option.isSome_iff_exists.mp (by decide +kernel)
  have routers : (createAll Machine.int32 20 chain noRouters).map (fun net =>
      (net.allRouterPtrs, net.allRouterPtrs.map net.getRouterID)) = some ([1, 2, 3], [1, 2, 3]) := by decide +kernel
  have links : (createAll Machine.int32 20 chain noRouters).map (fun net =>
      ((net.heap 1).neighbors, (net.heap 2).neighbors)) = some ([(2, 1)], [(3, 1)]) := by decide +kernel
  have weights : (createAll Machine.int32 20 chain noRouters).map (fun net => net.allRouterPtrs.all fun u =>
      (net.heap u).neighbors.all fun l => decide (l.2 = 1)) = some true := by decide +kernel
  rw [made, Option.map_some, Option.some.injEq] at routers links weights
  obtain ⟨routers, ids⟩ := Prod.mk.inj routers
  obtain ⟨links1, links2⟩ := Prod.mk.inj links
  refine ⟨net, made, createAll_reachable (.start _) made, routers, ids, ⟨⟨?_, ?_⟩, ?_, ?_⟩,
    weights_of_all (· = 1) weights⟩
  · rw [routers]; decide
  · rw [links1]; decide
  · rw [routers]; decide
  · rw [links2]; decide

theorem findPath_answered_chain : ∃ net, createAll Machine.int32 20 chain noRouters = some net ∧
    ∃ v, Answered net 1 3 v := by
  obtain ⟨net, made, reachable, routers, _, _, one⟩ := chain_network
  refine ⟨net, made, findPath_answered reachable ?_ ?_ ?_ ?_ (by decide)⟩
  · intro u v w link
    rw [one u v w link]
    decide
  · refine noOverflow_of_weights fun u v w link => ?_
    rw [one u v w link]
    decide
  · rw [routers]
    decide
  · rw [routers]
    decide

/-- Router 1 reaches 2 at 1, and 3 only by a further link of the greatest weight: its
sum overflows in the table of 1, which then names 2, and 2 has no route. -/
theorem overflow_breaks_query :
    ¬ ∀ net, Reachable Machine.int32 net → Positive net.Link → ∀ s ∈ net.allRouterPtrs,
      ∀ f ∈ net.allRouterPtrs, s ≠ f → ∃ v, Answered net s f v := by
  intro claim
  let calls : List Creation := [⟨1, 1, [], []⟩, ⟨2, 2, [(1, 1)], []⟩, ⟨3, 3, [(2, 2147483647)], []⟩]
  obtain ⟨net, made⟩ : ∃ net, createAll Machine.int32 20 calls noRouters = some net :=
    Option.isSome_iff_exists.mp (by decide +kernel)
  have routers : (createAll Machine.int32 20 calls noRouters).map Network.allRouterPtrs = some [1, 2, 3] := by
    decide +kernel
  have weights : (createAll Machine.int32 20 calls noRouters).map (fun net => net.allRouterPtrs.all fun u =>
      (net.heap u).neighbors.all fun l => decide (0 < l.2)) = some true := by decide +kernel
  have entry_two : (createAll Machine.int32 20 calls noRouters).map (fun net => entry net 1 3) = some 2 := by
    decide +kernel
  have query : (createAll Machine.int32 20 calls noRouters).bind (fun net =>
      (net.findPath 5 (net.getRouterID 1) (net.getRouterID 3) net.numtoptrs).map Prod.fst) =
        some (.returned []) := by decide +kernel
  rw [made, Option.map_some, Option.some.injEq] at routers weights entry_two
  rw [made, Option.bind_some] at query
  have reachable := createAll_reachable (.start _) made
  obtain ⟨v, answered⟩ := claim net reachable (weights_of_all (0 < ·) weights)
    1 (by rw [routers]; decide) 3 (by rw [routers]; decide) (by decide)
  have empty : v = [] := answered.returns.eq_of_findPath reachable.invariant.1 (by rw [routers]; decide)
    (by rw [routers]; decide) (by decide) query
  have null := answered.empty_iff.mp empty
  rw [entry_two] at null
  exact absurd null (by decide)

end NetworkOs.Ospf
