import NetworkOs.Ospf.Paths
import NetworkOs.Ospf.Termination
import NetworkOs.Ospf.Integrity

/-! Non-negative weights, added exactly: what the queue loop leaves is the distance to
every router, cut off at 100000, and a tree of shortest paths that is climbed from each
destination to a neighbour of the source. -/
namespace NetworkOs.Ospf
open ShortestPath Network

/-- The climb from `temp` arrives at the neighbour `hop` of `this`. All it passes are
routers other than `this`. -/
inductive Climbs (net : Network) (this : Ptr) (nextHop : Ptr → Ptr) : Ptr → Ptr → Prop where
  | arrived {hop : Ptr} (set : hop ≠ NULL) (other : hop ≠ this) (neighbor : hop ∈ net.neighborsSet this) :
      Climbs net this nextHop hop hop
  | up {temp hop : Ptr} (set : temp ≠ NULL) (other : temp ≠ this) (apart : temp ∉ net.neighborsSet this)
      (rest : Climbs net this nextHop (nextHop temp) hop) : Climbs net this nextHop temp hop

/-- `hop` is a neighbour of `this`, and a shortest path to `dest` leads through it. -/
structure OnShortest (net : Network) (this dest hop : Ptr) : Prop where
  neighbor : ∃ w, net.Link this hop w
  split : ∃ a b, IsDist net.Link this hop a ∧ IsDist net.Link hop dest b ∧ IsDist net.Link this dest (a + b)

theorem fits_id (net : Network) (this : Ptr) : Fits id net this :=
  ⟨fun _ _ _ => rfl, fun _ _ _ _ _ _ _ => rfl⟩

section Exit
variable {wrap : Int → Int} {net : Network} {this : Ptr} {s : Search}

/-- A label at the exit is the least of 100000 and the weights of all walks. -/
theorem Between.isLeast (h : Between net this s) (costs : Nonneg net.Link) (empty : s.pq = []) {p : Ptr}
    (live : p ∈ net.allRouterPtrs) :
    IsLeast (insert 100000 {d | Walk net.Link this p d}) (label net s p) := by
  constructor
  · by_cases below : label net s p < 100000
    · exact .inr (h.labels.walk p live below)
    · exact .inl (le_antisymm (h.labels.upper p live) (not_lt.mp below))
  · rintro d (rfl | walk)
    · exact h.labels.upper p live
    · obtain ⟨e, shorter, dist⟩ := Walk.exists_isDist costs walk
      by_cases below : e < 100000
      · exact (h.final costs empty live dist below).trans_le shorter
      · have upper := h.labels.upper p live
        omega

/-- A label below 100000 is a distance. -/
theorem Between.isDist (h : Between net this s) (costs : Nonneg net.Link) (empty : s.pq = []) {p : Ptr}
    (live : p ∈ net.allRouterPtrs) (below : label net s p < 100000) :
    IsDist net.Link this p (label net s p) := by
  have walk := h.labels.walk p live below
  exact ⟨walk, fun other => (h.isLeast costs empty live).2 (.inr other)⟩

/-- Each predecessor at the exit is the last but one router of a shortest path. -/
theorem Between.tight (h : Between net this s) (costs : Nonneg net.Link) (empty : s.pq = []) {p : Ptr}
    (live : p ∈ net.allRouterPtrs) (set : s.nextHop p ≠ NULL) : Tight net.Link this (s.nextHop p) p := by
  obtain ⟨d, w, dist, _, link, sum⟩ := h.labels.pred p live set
  have below : label net s p < 100000 := by
    by_contra far
    have top := le_antisymm (h.labels.upper p live) (not_lt.mp far)
    exact set ((h.labels.unset p live).mpr (.inr top))
  exact ⟨d, w, dist, link, sum ▸ h.isDist costs empty live below⟩

theorem Climbs.climb {nextHop : Ptr → Ptr} {temp hop : Ptr} (h : Climbs net this nextHop temp hop) :
    ∃ bound, ∀ fuel, bound ≤ fuel → net.climb this nextHop fuel temp = some hop := by
  induction h with
  | arrived _ _ neighbor =>
      refine ⟨0, fun fuel _ => ?_⟩
      unfold Network.climb
      exact if_pos neighbor
  | up _ _ apart _ ih =>
      obtain ⟨bound, ends⟩ := ih
      refine ⟨bound + 1, fun fuel le => ?_⟩
      obtain ⟨fuel, rfl⟩ : ∃ n, fuel = n + 1 := ⟨fuel - 1, by omega⟩
      unfold Network.climb
      rw [if_neg apart]
      exact ends fuel (by omega)

/-- The climb starts on a shortest path to `dest` and stays on it, by induction on the
way back to the source. -/
theorem Between.climbs (h : Between net this s) (wf : WellFormed net) (costs : Nonneg net.Link)
    (empty : s.pq = []) {temp dest : Ptr} (rooted : Rooted s.nextHop this temp) {a b : Int}
    (live : temp ∈ net.allRouterPtrs) (other : temp ≠ this) (dist : IsDist net.Link this temp a)
    (walk : Walk net.Link temp dest b) (whole : IsDist net.Link this dest (a + b)) :
    ∃ hop, Climbs net this (net.fillNull s.nextHop) temp hop ∧ OnShortest net this dest hop := by
  have notNull : ∀ {p}, p ∈ net.allRouterPtrs → p ≠ NULL := fun member null => wf.notNull (null ▸ member)
  induction rooted generalizing a b with
  | here => exact absurd rfl other
  | @step p _ set _ ih =>
      by_cases neighbor : p ∈ net.neighborsSet this
      · refine ⟨p, .arrived (notNull live) other neighbor, (mem_neighborsSet h.labels.live).mp neighbor, ?_⟩
        exact ⟨a, b, dist, (whole.split costs dist.walk walk).2, whole⟩
      · obtain ⟨d, w, distPred, link, tight⟩ := h.tight costs empty live set
        have back : s.nextHop p ≠ this := fun same =>
          neighbor ((mem_neighborsSet h.labels.live).mpr ⟨w, same ▸ link⟩)
        obtain rfl := tight.unique dist
        have longer : Walk net.Link (s.nextHop p) dest (w + b) := (Walk.single link).append walk
        rw [add_assoc] at whole
        obtain ⟨hop, climbs, onShortest⟩ := ih link.1 back distPred longer whole
        have filled : net.fillNull s.nextHop p = s.nextHop p := if_neg fun unset => set unset.2
        exact ⟨hop, .up (notNull live) other neighbor (filled ▸ climbs), onShortest⟩

/-- What the loop leaves for the construction of the table. -/
theorem dijkstra_exit (wf : WellFormed net) (costs : Nonneg net.Link) (fits : Fits wrap net this)
    (live : this ∈ net.allRouterPtrs) {fuel : Nat} (done : net.dijkstra wrap fuel (net.initial this) = some s) :
    Between net this s ∧ s.pq = [] ∧ Grounded net this s := by
  have start := initial_between wf live
  obtain ⟨between, empty⟩ := start.dijkstra wf costs fits done
  have unset : Grounded net this (net.initial this) :=
    ⟨fun _ _ set => absurd rfl set, fun _ _ set => absurd rfl set⟩
  exact ⟨between, empty, unset.dijkstra start wf costs fits done⟩

theorem Grounded.climbs (h : Grounded net this s) (between : Between net this s) (wf : WellFormed net)
    (costs : Nonneg net.Link) (empty : s.pq = []) {dest : Ptr} (live : dest ∈ net.allRouterPtrs)
    (set : s.nextHop dest ≠ NULL) (other : s.nextHop dest ≠ this) :
    ∃ hop, Climbs net this (net.fillNull s.nextHop) (s.nextHop dest) hop ∧ OnShortest net this dest hop := by
  obtain ⟨d, w, dist, link, whole⟩ := between.tight costs empty live set
  have near : label net s (s.nextHop dest) < 100000 := by
    obtain ⟨e, _, distPred, below, _, _⟩ := between.labels.pred dest live set
    rw [between.final costs empty link.1 distPred below]
    exact below
  have rooted := h.rooted_of_near between.labels link.1 near
  exact between.climbs wf costs empty rooted link.1 other dist (.single link) whole

/-- An entry that is not `NULL` is a neighbour on a shortest path. -/
theorem Grounded.entry (h : Grounded net this s) (between : Between net this s) (wf : WellFormed net)
    (costs : Nonneg net.Link) (empty : s.pq = []) {dest hop : Ptr} (live : dest ∈ net.allRouterPtrs)
    {fuel : Nat} (done : net.tableEntry fuel this (net.fillNull s.nextHop) dest = some hop) (set : hop ≠ NULL)
    (other : dest ≠ this) : OnShortest net this dest hop := by
  by_cases unset : s.nextHop dest = NULL
  · have filled : net.fillNull s.nextHop dest = dest := if_pos ⟨live, unset⟩
    simp only [tableEntry, filled, ne_eq, not_true_eq_false, false_and, if_false, other] at done
    exact absurd (Option.some.inj done).symm set
  · have filled : net.fillNull s.nextHop dest = s.nextHop dest := if_neg fun h => unset h.2
    obtain ⟨d, w, dist, link, whole⟩ := between.tight costs empty live unset
    by_cases direct : s.nextHop dest = this
    · simp only [tableEntry, filled, direct, ne_eq, not_true_eq_false, and_false, if_false, if_true,
        Option.some.injEq] at done
      subst done
      rw [direct] at link dist
      obtain rfl := (isDist_self costs this).unique dist
      rw [zero_add] at whole
      refine ⟨⟨w, link⟩, w, 0, whole, isDist_self costs dest, ?_⟩
      rwa [add_zero]
    · have apart : dest ≠ s.nextHop dest := by
        intro same
        simp only [tableEntry, filled, ← same, ne_eq, not_true_eq_false, false_and, if_false, other] at done
        exact set (Option.some.inj done).symm
      rw [tableEntry, filled, if_pos ⟨apart, direct⟩] at done
      obtain ⟨last, climbs, onShortest⟩ := h.climbs between wf costs empty live unset direct
      obtain ⟨bound, ends⟩ := climbs.climb
      have same := (climb_mono done (le_max_left fuel bound)).symm.trans (ends _ (le_max_right fuel bound))
      exact Option.some.inj same ▸ onShortest

end Exit

/-- Two routers with parallel links and a cycle of weight 0. -/
def zeroCycle : List Creation := [⟨1, 1, [], []⟩, ⟨2, 2, [(1, 3), (1, 0)], [(1, 0)]⟩]

theorem zeroCycle_network : ∃ net, createAll Machine.int32 20 zeroCycle noRouters = some net ∧ WellFormed net ∧
    Nonneg net.Link ∧ net.allRouterPtrs = [1, 2] ∧ ∀ u v w, net.Link u v w → w ≤ 3 := by
  obtain ⟨net, made⟩ : ∃ net, createAll Machine.int32 20 zeroCycle noRouters = some net :=
    Option.isSome_iff_exists.mp (by decide)
  have routers : (createAll Machine.int32 20 zeroCycle noRouters).map Network.allRouterPtrs = some [1, 2] := by
    decide
  have weights : (createAll Machine.int32 20 zeroCycle noRouters).map (fun net => net.allRouterPtrs.all fun u =>
      (net.heap u).neighbors.all fun l => decide (0 ≤ l.2 ∧ l.2 ≤ 3)) = some true := by decide
  rw [made, Option.map_some, Option.some.injEq] at routers weights
  have range : ∀ u v w, net.Link u v w → 0 ≤ w ∧ w ≤ 3 :=
    weights_of_all (fun w => 0 ≤ w ∧ w ≤ 3) weights
  exact ⟨net, made, (createAll_reachable (.start _) made).invariant.1, fun u v w link => (range u v w link).1,
    routers, fun u v w link => (range u v w link).2⟩

/-- The loop ends, and at its exit every stored distance is the least of 100000 and the
weights of all directed paths. -/
theorem distances_at_exit {net : Network} {source : Ptr} (wf : WellFormed net) (costs : Nonneg net.Link)
    (live : source ∈ net.allRouterPtrs) :
    ∃ bound t, (∀ fuel, bound ≤ fuel → net.dijkstra id fuel (net.initial source) = some t) ∧
      ∀ v ∈ net.allRouterPtrs,
        IsLeast (insert 100000 {d | Walk net.Link source v d}) (t.distance (net.getRouterID v)) := by
  have fits := fits_id net source
  have start := initial_between wf live
  obtain ⟨t, done⟩ := start.dijkstra_total wf costs fits (le_refl (work net (net.initial source)))
  obtain ⟨between, empty, _⟩ := dijkstra_exit wf costs fits live done
  exact ⟨_, t, fun fuel le => dijkstra_mono done le, fun v member => between.isLeast costs empty member⟩

theorem distances_at_exit_zeroCycle : ∃ net, createAll Machine.int32 20 zeroCycle noRouters = some net ∧
    ∃ bound t, (∀ fuel, bound ≤ fuel → net.dijkstra id fuel (net.initial 1) = some t) ∧
      ∀ v ∈ net.allRouterPtrs,
        IsLeast (insert 100000 {d | Walk net.Link 1 v d}) (t.distance (net.getRouterID v)) := by
  obtain ⟨net, made, wf, costs, routers, _⟩ := zeroCycle_network
  exact ⟨net, made, distances_at_exit wf costs (routers ▸ List.mem_cons_self)⟩

/-- A predecessor that is not the source is climbed from to a neighbour of the source, and
an entry that is not `NULL` is a neighbour on a shortest path. -/
theorem entries_on_shortest_paths {net : Network} {source dest : Ptr} (wf : WellFormed net)
    (costs : Nonneg net.Link) (live : source ∈ net.allRouterPtrs) (liveD : dest ∈ net.allRouterPtrs)
    (other : dest ≠ source) :
    ∃ bound t, (∀ fuel, bound ≤ fuel → net.dijkstra id fuel (net.initial source) = some t) ∧
      (t.nextHop dest ≠ NULL → t.nextHop dest ≠ source →
        ∃ hop, Climbs net source (net.fillNull t.nextHop) (t.nextHop dest) hop) ∧
      ∀ fuel, bound ≤ fuel → ∃ net', net.updateRoutingTable id fuel source = some net' ∧
        ∀ hop, (net'.heap source).routingTable (net.getRouterID dest) = some hop → hop ≠ NULL →
          OnShortest net source dest hop := by
  have fits := fits_id net source
  obtain ⟨bound, total⟩ := Filter.eventually_atTop.mp (table_total wf costs fits live)
  obtain ⟨t, _, done, _⟩ := total bound le_rfl
  obtain ⟨between, empty, grounded⟩ := dijkstra_exit wf costs fits live done
  refine ⟨bound, t, fun fuel le => dijkstra_mono done le, ?_, ?_⟩
  · intro set apart
    obtain ⟨hop, climbs, _⟩ := grounded.climbs between wf costs empty liveD set apart
    exact ⟨hop, climbs⟩
  · intro fuel le
    obtain ⟨u, table, found, built⟩ := total fuel le
    obtain rfl : u = t := Option.some.inj (found.symm.trans (dijkstra_mono done le))
    refine ⟨net.setRouter source { net.heap source with routingTable := table }, ?_, ?_⟩
    · simp only [updateRoutingTable, found, built, Option.bind_eq_bind, Option.bind_some, Option.pure_def]
    · intro hop held set
      have held : table (net.getRouterID dest) = some hop := by simpa [setRouter] using held
      obtain ⟨same, _⟩ := (foldlM_entries wf.ids_nodup built).1 dest liveD
      exact grounded.entry between wf costs empty liveD (same.trans held) set other

/-- Four routers in a chain of links of weight 1. -/
def longChain : List Creation :=
  [⟨1, 1, [], []⟩, ⟨2, 2, [(1, 1)], []⟩, ⟨3, 3, [(2, 1)], []⟩, ⟨4, 4, [(3, 1)], []⟩]

/-- From 1 the predecessor of 4 is 3, and the climb from there arrives at the neighbour of 1. -/
theorem entries_on_shortest_paths_longChain : ∃ net, createAll Machine.int32 20 longChain noRouters = some net ∧
    ∃ t bound, net.dijkstra id 20 (net.initial 1) = some t ∧ t.nextHop 4 = 3 ∧ 3 ∉ net.neighborsSet 1 ∧
      (∃ hop, Climbs net 1 (net.fillNull t.nextHop) 3 hop) ∧
      ∀ fuel, bound ≤ fuel → ∃ net', net.updateRoutingTable id fuel 1 = some net' ∧
        ∀ hop, (net'.heap 1).routingTable (net.getRouterID 4) = some hop → hop ≠ NULL → OnShortest net 1 4 hop := by
  obtain ⟨net, made⟩ : ∃ net, createAll Machine.int32 20 longChain noRouters = some net :=
    Option.isSome_iff_exists.mp (by decide +kernel)
  have routers : (createAll Machine.int32 20 longChain noRouters).map Network.allRouterPtrs = some [1, 2, 3, 4] := by
    decide +kernel
  have weights : (createAll Machine.int32 20 longChain noRouters).map (fun net => net.allRouterPtrs.all fun u =>
      (net.heap u).neighbors.all fun l => decide (0 ≤ l.2)) = some true := by decide +kernel
  have parent : (createAll Machine.int32 20 longChain noRouters).bind (fun net =>
      (net.dijkstra id 20 (net.initial 1)).map fun t => (t.nextHop 4, decide (3 ∉ net.neighborsSet 1))) =
        some (3, true) := by decide +kernel
  rw [made, Option.map_some, Option.some.injEq] at routers weights
  rw [made, Option.bind_some, Option.map_eq_some_iff] at parent
  obtain ⟨t, done, found⟩ := parent
  obtain ⟨predecessor, apart⟩ := Prod.mk.inj found
  have live : ∀ p ∈ [1, 2, 3, 4], p ∈ net.allRouterPtrs := fun p member => routers ▸ member
  have costs : Nonneg net.Link := weights_of_all (fun w => 0 ≤ w) weights
  obtain ⟨bound, t', ended, climbs, updated⟩ := entries_on_shortest_paths
    (createAll_reachable (.start _) made).invariant.1 costs (live 1 (by decide)) (live 4 (by decide)) (by decide)
  obtain rfl : t' = t := Option.some.inj
    ((ended _ (le_max_left bound 20)).symm.trans (dijkstra_mono done (le_max_right bound 20)))
  rw [predecessor] at climbs
  exact ⟨net, made, t', bound, done, predecessor, of_decide_eq_true apart, climbs (by decide) (by decide), updated⟩

end NetworkOs.Ospf
