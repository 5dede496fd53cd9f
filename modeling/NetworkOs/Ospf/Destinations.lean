import NetworkOs.Ospf.Overflow

/-! Which destinations have no route. An entry is `NULL` when the queue loop leaves the
label at 100000, which stands for infinity but can also be a distance. -/
namespace NetworkOs.Ospf
open ShortestPath Network Relation

/-- The entry of `s` for `f` is `NULL` when no path of links leads there and only then.
Such an entry is printed as "Path does not exist", and the query returns the empty list. -/
structure NullExactly (net : Network) (s f : Ptr) : Prop where
  null_iff : (net.heap s).routingTable (net.getRouterID f) = some NULL ↔ ¬ ∃ d, Walk net.Link s f d
  shown : (net.heap s).routingTable (net.getRouterID f) = some NULL →
    net.printedLine s (net.getRouterID f) = some none ∧ Returns net s f []

/-- All distances from `s` to `f`, if there is one, are below 100000. -/
def Near (net : Network) (s f : Ptr) : Prop := ∀ d, IsDist net.Link s f d → d < 100000

section Exit
variable {wrap : Int → Int} {net : Network} {this : Ptr} {s : Search}

theorem Roaming.walk (h : Roaming wrap net this s) {p : Ptr} (live : p ∈ net.allRouterPtrs)
    (below : label net s p < 100000) : ∃ d, Walk net.Link this p d := by
  have reached : ∀ a : Ptr × Int, ReflTransGen (net.Step wrap) (this, 0) a → ∃ d, Walk net.Link this a.1 d := by
    intro a steps
    induction steps with
    | refl => exact ⟨0, .nil⟩
    | tail _ last ih =>
        obtain ⟨d, walk⟩ := ih
        obtain ⟨w, link, _⟩ := last
        exact ⟨d + w, walk.snoc link⟩
  exact reached _ (h.derived p live below)

theorem Roaming.label_range (h : Roaming Machine.int32 net this s) {p : Ptr} (live : p ∈ net.allRouterPtrs) :
    -2147483648 ≤ label net s p := by
  by_cases below : label net s p < 100000
  · have range : ∀ a : Ptr × Int, ReflTransGen (net.Step Machine.int32) (this, 0) a → -2147483648 ≤ a.2 := by
      intro a steps
      cases steps with
      | refl => norm_num
      | tail _ last =>
          obtain ⟨w, _, value, _⟩ := last
          rw [value]
          unfold Machine.int32
          omega
    exact range _ (h.derived p live below)
  · omega

/-- Also where some sums wrap around, no label is left above a distance below 100000. -/
theorem Roaming.label_le (h : Roaming Machine.int32 net this s) (awaiting : Awaiting Machine.int32 net s NULL [])
    (empty : s.pq = []) (costs : Nonneg net.Link) {p : Ptr} {d : Int} (walk : Walk net.Link this p d)
    (below : d < 100000) : label net s p ≤ d := by
  induction walk with
  | nil => exact h.start
  | @snoc u v e w _ link ih =>
      have cost := costs _ _ _ link
      have before := ih (by omega)
      have range := h.label_range link.1
      have relaxed := awaiting.relaxed empty link (by omega)
      rw [Machine.int32_of_range (by omega) (by unfold Machine.intMax; omega)] at relaxed
      omega

/-- A router that got a predecessor has an entry, and one that did not has `NULL`. -/
theorem Roaming.entry_null_iff (h : Roaming wrap net this s) (wf : WellFormed net)
    (apart : EachLink net net.allRouterPtrs fun p l => l.1 ≠ p) {dest hop : Ptr} (live : dest ∈ net.allRouterPtrs)
    (other : dest ≠ this) {fuel : Nat} (done : net.tableEntry fuel this (net.fillNull s.nextHop) dest = some hop) :
    hop = NULL ↔ label net s dest = 100000 := by
  rw [← h.unset dest live other]
  by_cases unset : s.nextHop dest = NULL
  · have filled : net.fillNull s.nextHop dest = dest := if_pos ⟨live, unset⟩
    simp only [tableEntry, filled, ne_eq, not_true_eq_false, false_and, if_false, other] at done
    exact iff_of_true (Option.some.inj done).symm unset
  · have filled : net.fillNull s.nextHop dest = s.nextHop dest := if_neg fun h => unset h.2
    refine iff_of_false ?_ unset
    obtain ⟨w, link⟩ := h.pred dest live unset
    have distinct : dest ≠ s.nextHop dest := apart _ link.1 _ link.2
    rintro rfl
    by_cases direct : s.nextHop dest = this
    · simp only [tableEntry, filled, direct, ne_eq, not_true_eq_false, and_false, if_false, if_true,
        Option.some.injEq] at done
      exact wf.notNull (done ▸ live)
    · rw [tableEntry, filled, if_pos ⟨distinct, direct⟩] at done
      obtain ⟨w', link'⟩ := (mem_neighborsSet h.live).mp (climb_neighbor done)
      exact wf.notNull (wf.links _ _ _ link')

end Exit

section Tables
variable {wrap : Int → Int} {net : Network} {s f : Ptr}

/-- The entry for another router is `NULL` when the label in the run that computed it
was left at 100000. -/
theorem Reachable.entry_null_iff (h : Reachable wrap net) (live : s ∈ net.allRouterPtrs)
    (liveF : f ∈ net.allRouterPtrs) (other : s ≠ f) :
    ∃ fuel t, net.dijkstra wrap fuel (net.initial s) = some t ∧
      ((net.heap s).routingTable (net.getRouterID f) = some NULL ↔ label net t f = 100000) := by
  obtain ⟨wf, current⟩ := h.invariant
  obtain ⟨fuel, t, done, built⟩ := current s live
  obtain ⟨start, awaiting⟩ := initial_roaming wrap wf live
  obtain ⟨same, present⟩ := (foldlM_entries wf.ids_nodup built).1 f liveF
  obtain ⟨hop, held⟩ := Option.ne_none_iff_exists'.mp present
  have entry := (start.dijkstra wf awaiting done).1.entry_null_iff wf h.apart liveF (Ne.symm other) (same.trans held)
  refine ⟨fuel, t, done, ?_⟩
  rw [held, Option.some.injEq]
  exact entry

theorem nullExactly_of_iff (wf : WellFormed net) (live : s ∈ net.allRouterPtrs) (liveF : f ∈ net.allRouterPtrs)
    (other : s ≠ f)
    (null_iff : (net.heap s).routingTable (net.getRouterID f) = some NULL ↔ ¬ ∃ d, Walk net.Link s f d) :
    NullExactly net s f := by
  refine ⟨null_iff, fun held => ⟨?_, findPath_null wf live liveF other held⟩⟩
  have distinct : net.getRouterID f ≠ net.getRouterID s := fun same => other (wf.ids f liveF s live same).symm
  rw [printedLine, if_neg distinct, held, Option.map_some, if_pos rfl]

end Tables

/-- In every network that calls lead to, an entry for a destination that is near or
cannot be reached is `NULL` exactly in the latter case. Where the sums fit, no other
destination has such an entry. -/
theorem nullExactly_iff_near {net : Network} (reachable : Reachable Machine.int32 net) (costs : Nonneg net.Link)
    {s f : Ptr} (live : s ∈ net.allRouterPtrs) (liveF : f ∈ net.allRouterPtrs) (other : s ≠ f) :
    (Near net s f → NullExactly net s f) ∧ (SumsFit net s → (NullExactly net s f ↔ Near net s f)) := by
  have wf := reachable.invariant.1
  obtain ⟨fuel, t, done, null_iff⟩ := reachable.entry_null_iff live liveF other
  obtain ⟨start, queued⟩ := initial_roaming Machine.int32 wf live
  obtain ⟨roaming, awaiting, empty⟩ := start.dijkstra wf queued done
  have enough : Near net s f → NullExactly net s f := by
    refine fun near => nullExactly_of_iff wf live liveF other (null_iff.trans ⟨?_, ?_⟩)
    · rintro far ⟨d, walk⟩
      obtain ⟨e, _, dist⟩ := walk.exists_isDist costs
      have below := near e dist
      have bound := roaming.label_le awaiting empty costs dist.walk below
      omega
    · intro unreachable
      by_contra labelled
      have upper := roaming.upper f liveF
      exact unreachable (roaming.walk liveF (by omega))
  refine ⟨enough, fun sums => ⟨fun exactly => ?_, enough⟩⟩
  intro d dist
  by_contra far
  have between := ((initial_between wf live).dijkstra wf costs (sums.fits costs) done).1
  have top : label net t f = 100000 := by
    by_contra labelled
    have upper := between.labels.upper f liveF
    have below : label net t f < 100000 := by omega
    have bound := dist.least (between.labels.walk f liveF below)
    omega
  exact exactly.null_iff.mp (null_iff.mpr top) ⟨d, dist.walk⟩

theorem nullExactly_iff_near_chain : ∃ net, createAll Machine.int32 20 chain noRouters = some net ∧
    NullExactly net 1 3 := by
  obtain ⟨net, made, reachable, routers, _, ⟨first, second⟩, one⟩ := chain_network
  have costs : Nonneg net.Link := fun u v w link => by rw [one u v w link]; decide
  have live : ∀ p ∈ [1, 2, 3], p ∈ net.allRouterPtrs := fun p member => routers ▸ member
  have near : Near net 1 3 := fun d dist => (dist.least ((Walk.single first).snoc second)).trans_lt (by decide)
  have exactly := nullExactly_iff_near reachable costs (live 1 (by decide)) (live 3 (by decide)) (by decide)
  exact ⟨net, made, exactly.1 near⟩

/-- The only path to router 2 is a link of weight 100000. -/
theorem far_router_null :
    ¬ ∀ net, Reachable Machine.int32 net → Nonneg net.Link → ∀ s ∈ net.allRouterPtrs, ∀ f ∈ net.allRouterPtrs,
      s ≠ f → NullExactly net s f := by
  intro claim
  let calls : List Creation := [⟨1, 1, [], []⟩, ⟨2, 2, [(1, 100000)], []⟩]
  obtain ⟨net, made⟩ : ∃ net, createAll Machine.int32 20 calls noRouters = some net :=
    Option.isSome_iff_exists.mp (by decide)
  have routers : (createAll Machine.int32 20 calls noRouters).map Network.allRouterPtrs = some [1, 2] := by
    decide
  have links : (createAll Machine.int32 20 calls noRouters).map (fun net => (net.heap 1).neighbors) =
      some [(2, 100000)] := by decide
  have weights : (createAll Machine.int32 20 calls noRouters).map (fun net => net.allRouterPtrs.all fun u =>
      (net.heap u).neighbors.all fun l => decide (0 ≤ l.2)) = some true := by decide
  have held : (createAll Machine.int32 20 calls noRouters).map (fun net =>
      (net.heap 1).routingTable (net.getRouterID 2)) = some (some NULL) := by decide
  rw [made, Option.map_some, Option.some.injEq] at routers links weights held
  have live : ∀ p ∈ [1, 2], p ∈ net.allRouterPtrs := fun p member => routers ▸ member
  have exactly := claim net (createAll_reachable (.start _) made) (weights_of_all (0 ≤ ·) weights)
    1 (live 1 (by decide)) 2 (live 2 (by decide)) (by decide)
  have link : net.Link 1 2 100000 := ⟨live 1 (by decide), by rw [links]; decide⟩
  exact exactly.null_iff.mp held ⟨100000, .single link⟩

end NetworkOs.Ospf
