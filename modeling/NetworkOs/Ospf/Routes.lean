import NetworkOs.Ospf.Dijkstra

/-! With positive weights: which predecessor the queue loop leaves for a router, and
which first hop is rebuilt from the predecessors. -/
namespace NetworkOs.Ospf
open ShortestPath Network

/-- `u` is closer to `this` than `u'`, or as close and at no lower address. -/
def ScannedFirst (net : Network) (this u u' : Ptr) : Prop :=
  ∀ d d', IsDist net.Link this u d → IsDist net.Link this u' d' → d < d' ∨ d = d' ∧ u' ≤ u

/-- Among the routers from which a shortest path arrives at `dest`, `u` is the one
closest to `this`, and of several the one with the greatest address. -/
def ClosestPred (net : Network) (this dest u : Ptr) : Prop :=
  Tight net.Link this u dest ∧ ∀ u', Tight net.Link this u' dest → ScannedFirst net this u u'

/-- An exact label has its predecessor from the tight link that is scanned first. -/
def Closest (net : Network) (this : Ptr) (s : Search) : Prop :=
  ∀ p ∈ net.allRouterPtrs, s.nextHop p ≠ NULL → IsDist net.Link this p (label net s p) →
    ∀ u', Tight net.Link this u' p → ScannedFirst net this (s.nextHop p) u'

/-- All links of routers that come before `node` in the order of scans are relaxed. -/
def Ahead (net : Network) (this node : Ptr) (s : Search) : Prop :=
  ∀ u' d', IsDist net.Link this u' d' → d' < 100000 → ¬ ScannedFirst net this node u' →
    ∀ v w, net.Link u' v w → label net s v ≤ d' + w

section Predecessors
variable {wrap : Int → Int} {net : Network} {this node : Ptr} {s : Search}

theorem ClosestPred.unique {dest u u' : Ptr} (h : ClosestPred net this dest u)
    (h' : ClosestPred net this dest u') : u = u' := by
  obtain ⟨d, _, dist, _⟩ := h.1
  obtain ⟨d', _, dist', _⟩ := h'.1
  have first := h.2 u' h'.1 d d' dist dist'
  have first' := h'.2 u h.1 d' d dist' dist
  rcases first with less | ⟨_, le⟩
  · rcases first' with less' | ⟨same, _⟩
    · omega
    · omega
  · rcases first' with less' | ⟨_, le'⟩
    · omega
    · exact Nat.le_antisymm le' le

/-- When `node` is popped, the routers before it have been scanned. -/
theorem Between.ahead (h : Between net this s) (costs : Positive net.Link) {k : Int} {rest : List (Int × Ptr)}
    (queue : s.pq = (k, node) :: rest) : Ahead net this node s := by
  intro u' d' dist' bound before v w link
  obtain ⟨_, key, below, dist⟩ := h.top_exact costs.nonneg queue
  have order : d' < label net s node ∨ d' = label net s node ∧ node < u' := by
    by_contra! contra
    refine before fun d e hd he => ?_
    obtain rfl := dist.unique hd
    obtain rfl := dist'.unique he
    rcases lt_or_eq_of_le contra.1 with less | same
    · exact .inl less
    · exact .inr ⟨same, contra.2 same.symm⟩
  have exact_ : label net s u' = d' := by
    refine le_antisymm ?_ (h.labels.least link.1 dist' bound)
    exact dist'.label_le costs (D := label net s) (k := min (-k) 100000) h.labels.start.le
      (fun l low => h.relaxed_below queue l low) (by omega)
  rw [← exact_]
  refine (h.relaxed_or_queued link (by omega)).resolve_left fun queued => ?_
  rw [queue] at queued
  have sorted := h.labels.sorted
  rw [queue, List.pairwise_cons] at sorted
  rcases List.mem_cons.mp queued with top | later
  · obtain ⟨_, rfl⟩ := Prod.mk.inj top
    rcases order with less | ⟨_, less⟩
    · omega
    · exact lt_irrefl _ less
  · have above := sorted.1 _ later
    simp only [Above] at above
    rcases order with less | ⟨_, less⟩
    · omega
    · rcases above with lower | ⟨_, address⟩
      · omega
      · exact absurd less (not_lt.mpr address)

theorem Closest.relax {d : Int} {v : Ptr} {w : Int} {rest : List (Ptr × Int)} (h : Closest net this s)
    (ahead : Ahead net this node s) (scanning : Scanning net this node d s ((v, w) :: rest))
    (wf : WellFormed net) (costs : Positive net.Link) (fits : Fits wrap net this)
    (dist : IsDist net.Link this node d) (bound : d < 100000) (link : net.Link node v w) :
    Closest net this (net.relax wrap node s (v, w)) := by
  rcases scanning.relax_cases wf costs.nonneg fits dist bound link with ⟨_, unchanged⟩ | step
  · rw [unchanged]
    exact h
  · intro p live
    rw [step.nextHop]
    by_cases same : p = v
    · subst same
      rw [Function.update_self, step.lowered]
      intro _ exact_ u' ⟨d', w', dist', link', tight⟩
      by_contra before
      -- a link scanned earlier would have given the label already
      have cost' := costs _ _ _ link'
      have sum := exact_.unique tight
      have less := step.less
      have upper := scanning.labels.upper p live
      have relaxed := ahead u' d' dist' (by omega) before p w' link'
      omega
    · rw [Function.update_of_ne same, step.others p live same]
      exact h p live

theorem Ahead.mono {s' : Search} (h : Ahead net this node s) (wf : WellFormed net)
    (lower : ∀ p ∈ net.allRouterPtrs, label net s' p ≤ label net s p) : Ahead net this node s' :=
  fun u' d' dist' bound before v w link =>
    (lower v (wf.links _ _ _ link)).trans (h u' d' dist' bound before v w link)

theorem Closest.scan {d : Int} {rest : List (Ptr × Int)} (h : Closest net this s)
    (ahead : Ahead net this node s) (scanning : Scanning net this node d s rest)
    (wf : WellFormed net) (costs : Positive net.Link) (fits : Fits wrap net this)
    (dist : IsDist net.Link this node d) (bound : d < 100000) (links : ∀ l ∈ rest, net.Link node l.1 l.2) :
    Closest net this (rest.foldl (net.relax wrap node) s) := by
  induction rest generalizing s with
  | nil => exact h
  | cons l rest ih =>
      have link := links l List.mem_cons_self
      obtain ⟨scanning', lower⟩ := scanning.relax wf costs.nonneg fits dist bound link
      exact ih (h.relax ahead scanning wf costs fits dist bound link) (ahead.mono wf lower) scanning'
        fun l member => links l (List.mem_cons_of_mem _ member)

theorem Closest.dijkstra (h : Closest net this s) (between : Between net this s) (wf : WellFormed net)
    (costs : Positive net.Link) (fits : Fits wrap net this) {fuel : Nat} {t : Search}
    (done : net.dijkstra wrap fuel s = some t) : Closest net this t := by
  have kept : ∀ s top rest, Closest net this s ∧ Between net this s → s.pq = top :: rest →
      Closest net this (net.scan wrap top.2 { s with pq := rest }) ∧
        Between net this (net.scan wrap top.2 { s with pq := rest }) := by
    rintro s top rest ⟨closest, between⟩ queue
    obtain ⟨live, _, below, dist⟩ := between.top_exact costs.nonneg queue
    have popped : Closest net this { s with pq := rest } := closest
    have ahead : Ahead net this top.2 { s with pq := rest } := between.ahead costs queue
    refine ⟨?_, between.iterate wf costs.nonneg fits queue⟩
    exact popped.scan ahead (between.pop queue) wf costs fits dist below fun l member => ⟨live, member⟩
  exact (dijkstra_invariant kept ⟨h, between⟩ done).1.1

end Predecessors

/-- What the queue loop has found when its queue is empty. -/
structure Found (net : Network) (this : Ptr) (nextHop : Ptr → Ptr) : Prop where
  near : ∀ p ∈ net.allRouterPtrs, p ≠ this → ∀ d, IsDist net.Link this p d → d < 100000 →
    nextHop p ≠ NULL ∧ ClosestPred net this p (nextHop p)
  far : ∀ p ∈ net.allRouterPtrs, (∀ d, IsDist net.Link this p d → 100000 ≤ d) → nextHop p = NULL

/-- The queue loop finds the predecessors of all routers nearer than 100000. -/
theorem dijkstra_found {wrap : Int → Int} {net : Network} {this : Ptr} (wf : WellFormed net)
    (live : this ∈ net.allRouterPtrs) (costs : Positive net.Link) (fits : Fits wrap net this) {fuel : Nat}
    {t : Search} (done : net.dijkstra wrap fuel (net.initial this) = some t) : Found net this t.nextHop := by
  have start := initial_between wf live
  obtain ⟨between, empty⟩ := start.dijkstra wf costs.nonneg fits done
  have closest : Closest net this t :=
    Closest.dijkstra (fun p _ set => absurd rfl set) start wf costs fits done
  constructor
  · intro p live' other d dist below
    have exact_ := between.final costs.nonneg empty live' dist below
    have set : t.nextHop p ≠ NULL := fun unset =>
      ((between.labels.unset p live').mp unset).elim other (by omega)
    obtain ⟨e, w, distPred, _, link, sum⟩ := between.labels.pred p live' set
    refine ⟨set, ⟨e, w, distPred, link, ?_⟩, closest p live' set ?_⟩
    · rw [← sum, exact_]
      exact dist
    · rw [exact_]
      exact dist
  · intro p live' unreachable
    refine (between.labels.unset p live').mpr (.inr ?_)
    by_contra near
    have upper := between.labels.upper p live'
    have walk := between.labels.walk p live' (by omega)
    obtain ⟨e, shorter, dist⟩ := walk.exists_isDist costs.nonneg
    have bound := unreachable e dist
    omega

/-- `hop` is a neighbour of `this` on a shortest path to `dest`, and either the link
to it is itself shortest or `hop` was met as a predecessor. -/
structure FirstHop (net : Network) (this dest hop : Ptr) : Prop where
  neighbor : hop ∈ net.neighborsSet this
  notThis : hop ≠ this
  onPath : ∃ a b, IsDist net.Link this hop a ∧ Walk net.Link hop dest b ∧ IsDist net.Link this dest (a + b)
  origin : (∃ w, net.Link this hop w ∧ IsDist net.Link this hop w) ∨
    ∃ p, p ∈ net.allRouterPtrs ∧ p ≠ this ∧ (∃ d < 100000, IsDist net.Link this p d) ∧
      ClosestPred net this p hop

section Entries
variable {net : Network} {this : Ptr} {nextHop : Ptr → Ptr}

theorem mem_neighborsSet {p : Ptr} (live : this ∈ net.allRouterPtrs) :
    p ∈ net.neighborsSet this ↔ ∃ w, net.Link this p w := by
  simp [neighborsSet, Link, live]

/-- The climb from a predecessor of `dest` ends at a first hop. -/
theorem climb_firstHop (wf : WellFormed net) (live : this ∈ net.allRouterPtrs) (costs : Positive net.Link)
    (found : Found net this nextHop) {fuel : Nat} {temp dest hop : Ptr} {a b : Int}
    (other : temp ≠ this) (dist : IsDist net.Link this temp a) (walk : Walk net.Link temp dest b)
    (whole : IsDist net.Link this dest (a + b)) (below : a + b < 100000)
    (origin : ∃ p, p ∈ net.allRouterPtrs ∧ p ≠ this ∧ (∃ d < 100000, IsDist net.Link this p d) ∧
      ClosestPred net this p temp)
    (done : net.climb this (net.fillNull nextHop) fuel temp = some hop) : FirstHop net this dest hop := by
  induction fuel generalizing temp a b with
  | zero =>
      unfold climb at done
      split_ifs at done with neighbor
      exact Option.some.inj done ▸ ⟨neighbor, other, ⟨a, b, dist, walk, whole⟩, .inr origin⟩
  | succ fuel ih =>
      unfold climb at done
      split_ifs at done with neighbor
      · exact Option.some.inj done ▸ ⟨neighbor, other, ⟨a, b, dist, walk, whole⟩, .inr origin⟩
      · have tempLive : temp ∈ net.allRouterPtrs := by
          obtain ⟨u, _, _, _, link, _⟩ := dist.last_link costs.nonneg (Ne.symm other)
          exact wf.links _ _ _ link
        have nonneg := walk.nonneg costs.nonneg
        obtain ⟨set, closest⟩ := found.near temp tempLive other a dist (by omega)
        have filled : net.fillNull nextHop temp = nextHop temp := by simp [fillNull, set]
        obtain ⟨d, w, distPred, link, tight⟩ := closest.1
        have notThis : nextHop temp ≠ this := by
          intro same
          exact neighbor ((mem_neighborsSet live).mpr ⟨w, same ▸ link⟩)
        obtain rfl := tight.unique dist
        rw [filled] at done
        refine ih notThis distPred ((Walk.single link).append walk) ?_ ?_
          ⟨temp, tempLive, other, ⟨d + w, by omega, dist⟩, closest⟩ done
        · rwa [← add_assoc]
        · omega

/-- The entry for a router nearer than 100000 is a first hop towards it. -/
theorem tableEntry_near (wf : WellFormed net) (live : this ∈ net.allRouterPtrs) (costs : Positive net.Link)
    (found : Found net this nextHop) {fuel : Nat} {dest hop : Ptr} {d : Int}
    (destLive : dest ∈ net.allRouterPtrs) (other : dest ≠ this) (dist : IsDist net.Link this dest d)
    (below : d < 100000) (done : net.tableEntry fuel this (net.fillNull nextHop) dest = some hop) :
    FirstHop net this dest hop := by
  obtain ⟨set, closest⟩ := found.near dest destLive other d dist below
  have filled : net.fillNull nextHop dest = nextHop dest := by simp [fillNull, set]
  obtain ⟨e, w, distPred, link, tight⟩ := closest.1
  obtain rfl := tight.unique dist
  have cost := costs _ _ _ link
  have distinct : dest ≠ nextHop dest := by
    intro same
    rw [← same] at distPred
    have eq := distPred.unique tight
    omega
  unfold tableEntry at done
  simp only [filled, ne_eq, distinct, not_false_eq_true, true_and] at done
  by_cases direct : nextHop dest = this
  · simp only [direct, not_true_eq_false, if_false, if_true, Option.some.injEq] at done
    subst done
    rw [direct] at link distPred
    obtain rfl := (isDist_self costs.nonneg this).unique distPred
    rw [zero_add] at tight
    refine ⟨(mem_neighborsSet live).mpr ⟨w, link⟩, other, ⟨w, 0, tight, .nil, ?_⟩, .inl ⟨w, link, tight⟩⟩
    rwa [add_zero]
  · rw [if_pos direct] at done
    exact climb_firstHop wf live costs found direct distPred (.single link) tight below
      ⟨dest, destLive, other, ⟨e + w, below, tight⟩, closest⟩ done

theorem tableEntry_pred (costs : Positive net.Link) (found : Found net this nextHop) {fuel : Nat}
    {dest u : Ptr} {d : Int} (destLive : dest ∈ net.allRouterPtrs) (other : dest ≠ this)
    (dist : IsDist net.Link this dest d) (below : d < 100000) (closest : ClosestPred net this dest u)
    (notThis : u ≠ this) (neighbor : u ∈ net.neighborsSet this) :
    net.tableEntry fuel this (net.fillNull nextHop) dest = some u := by
  obtain ⟨set, closest'⟩ := found.near dest destLive other d dist below
  have same := closest'.unique closest
  have filled : net.fillNull nextHop dest = u := by
    rw [fillNull, if_neg fun unset => set unset.2, same]
  obtain ⟨e, w, distPred, link, tight⟩ := closest.1
  have cost := costs _ _ _ link
  have distinct : dest ≠ u := by
    rintro rfl
    have eq := distPred.unique tight
    omega
  simp only [tableEntry, filled, ne_eq, distinct, notThis, not_false_eq_true, and_self, if_true]
  unfold climb
  exact if_pos neighbor

theorem tableEntry_far (found : Found net this nextHop) {fuel : Nat} {dest : Ptr}
    (destLive : dest ∈ net.allRouterPtrs) (other : dest ≠ this)
    (far : ∀ d, IsDist net.Link this dest d → 100000 ≤ d) :
    net.tableEntry fuel this (net.fillNull nextHop) dest = some NULL := by
  have filled : net.fillNull nextHop dest = dest := by
    simp [fillNull, destLive, found.far dest destLive far]
  simp [tableEntry, filled, other]

end Entries
end NetworkOs.Ospf
