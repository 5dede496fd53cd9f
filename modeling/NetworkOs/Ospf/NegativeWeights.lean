import NetworkOs.Ospf.Paths
import NetworkOs.Ospf.Relaxation

/-! Weights are read without a check, so they can be negative. The queue loop of a
router then ends or not, according to the cycles that are reached with less than 100000. -/
namespace NetworkOs.Ospf
open Network Relation NegativeCycles

/-- The networks that sequences of `createRouter` and `deleteRouter` can ask for, with
tables of any kind: the computation of these need not have ended. -/
inductive Requested : Network → Prop where
  | start (heap : Ptr → Router) : Requested ⟨[], heap⟩
  | create {net : Network} {new : Ptr} {routerId : Int} (before : Requested net) (notNull : new ≠ NULL)
      (fresh : new ∉ net.allRouterPtrs) (unused : ∀ p ∈ net.allRouterPtrs, net.getRouterID p ≠ routerId)
      (incoming outgoing : List (Int × Int)) : Requested (linked net new routerId incoming outgoing)
  | delete {net : Network} {gone : Ptr} (before : Requested net) (live : gone ∈ net.allRouterPtrs) :
      Requested (unlinked net gone)
  | tables {net net' : Network} (before : Requested net) (same : SameLinks net net') : Requested net'

/-- The queue loop of `source` ends. -/
def LoopEnds (net : Network) (source : Ptr) : Prop :=
  ∃ fuel t, net.dijkstra id fuel (net.initial source) = some t

/-- A walk of links from `source`, with all its accumulated weights below 100000, comes
back to a router with less weight than it had there. -/
def LightCycle (net : Network) (source : Ptr) : Prop := NegativeCycle net.Link 100000 source

/-- What is left to do when no label can fall below `bound`. -/
def slack (net : Network) (bound : Int) (s : Search) : Nat :=
  2 * (∑ p ∈ net.allRouterPtrs.toFinset, (label net s p - bound).toNat) + s.pq.length

theorem Requested.wellFormed {net : Network} (h : Requested net) : WellFormed net := by
  induction h with
  | start heap =>
      refine ⟨?_, List.nodup_nil, ?_, ?_⟩
      · exact List.not_mem_nil
      · exact fun p hp => absurd hp List.not_mem_nil
      · exact fun u v w link => absurd link.1 List.not_mem_nil
  | create _ notNull fresh unused incoming outgoing ih =>
      exact linked_wellFormed ih notNull fresh unused incoming outgoing
  | delete _ _ ih => exact unlinked_wellFormed ih _
  | tables _ same ih => exact same.wellFormed ih

theorem Reachable.requested {wrap : Int → Int} {net : Network} (h : Reachable wrap net) : Requested net := by
  induction h with
  | start heap => exact .start heap
  | @create net net' _ new routerId incoming outgoing before notNull fresh done ih =>
      obtain ⟨rfl, _⟩ | ⟨unused, updated⟩ := createRouter_cases done
      · exact ih
      · have wf := linked_wellFormed before.invariant.1 notNull fresh unused incoming outgoing
        exact .tables (.create ih notNull fresh unused incoming outgoing) (updateAll_spec wf updated).1
  | delete before done ih =>
      obtain ⟨rfl, _⟩ | ⟨gone, live, _, updated⟩ := deleteRouter_cases done
      · exact ih
      · have wf := unlinked_wellFormed before.invariant.1 gone
        exact .tables (.delete ih live) (updateAll_spec wf updated).1

section Loop
variable {net : Network} {this node v : Ptr} {w bound : Int} {s s' : Search} {rest : List (Ptr × Int)}

/-- A relaxation that lowers a label pays for its queue entry. -/
theorem Lowers.slack_lt {d : Int} (h : Lowers net node v d s s') (live : v ∈ net.allRouterPtrs) (least : bound ≤ d) :
    slack net bound s' < slack net bound s := by
  have sum : ∑ p ∈ net.allRouterPtrs.toFinset, (label net s' p - bound).toNat <
      ∑ p ∈ net.allRouterPtrs.toFinset, (label net s p - bound).toNat := by
    refine Finset.sum_lt_sum (fun p member => ?_) ⟨v, List.mem_toFinset.mpr live, ?_⟩
    · have lower := h.le (List.mem_toFinset.mp member)
      omega
    · have less := h.less
      rw [h.lowered]
      omega
  obtain ⟨k, queue⟩ := h.pq
  have longer : s'.pq.length = s.pq.length + 1 := by rw [queue, List.orderedInsert_length]
  unfold slack
  omega

theorem Roaming.relax_slack (h : Roaming id net this s) (wf : WellFormed net) (link : net.Link node v w)
    (below : label net s node < 100000)
    (bounded : ∀ p d, ReflTransGen (net.Step id) (this, 0) (p, d) → bound ≤ d) :
    slack net bound (net.relax id node s (v, w)) ≤ slack net bound s := by
  rcases relax_lowers id s wf link with ⟨_, unchanged⟩ | step
  · rw [unchanged]
  · have live := wf.links _ _ _ link
    have near := step.less.trans_le (h.upper v live)
    exact (step.slack_lt live (bounded v _ ((h.derived node link.1 below).tail ⟨w, link, rfl, near⟩))).le

theorem Roaming.scan_slack (h : Roaming id net this s) (wf : WellFormed net) (below : label net s node < 100000)
    (awaiting : Awaiting id net s node rest) (links : ∀ l ∈ rest, net.Link node l.1 l.2)
    (bounded : ∀ p d, ReflTransGen (net.Step id) (this, 0) (p, d) → bound ≤ d) :
    slack net bound (rest.foldl (net.relax id node) s) ≤ slack net bound s := by
  induction rest generalizing s with
  | nil => exact le_rfl
  | cons l rest ih =>
      have link := links l List.mem_cons_self
      obtain ⟨roaming, left, near⟩ := h.relax wf link below awaiting
      have later := ih roaming near left fun l' member => links l' (List.mem_cons_of_mem _ member)
      exact later.trans (h.relax_slack wf link below bounded)

/-- Where labels are bounded from below the loop ends. -/
theorem Roaming.dijkstra_total (h : Roaming id net this s) (wf : WellFormed net) (awaiting : Awaiting id net s NULL [])
    (bounded : ∀ p d, ReflTransGen (net.Step id) (this, 0) (p, d) → bound ≤ d) {fuel : Nat}
    (enough : slack net bound s ≤ fuel) : ∃ t, net.dijkstra id fuel s = some t := by
  have passes : ∀ s top rest, Roaming id net this s ∧ Awaiting id net s NULL [] → s.pq = top :: rest →
      (Roaming id net this (net.scan id top.2 { s with pq := rest }) ∧
        Awaiting id net (net.scan id top.2 { s with pq := rest }) NULL []) ∧
      slack net bound (net.scan id top.2 { s with pq := rest }) < slack net bound s := by
    rintro s top rest ⟨roaming, awaiting⟩ queue
    obtain ⟨popped, live, below⟩ := roaming.pop queue
    have fewer : slack net bound { s with pq := rest } + 1 = slack net bound s := by
      simp only [slack, queue, List.length_cons, label]
      omega
    have scanned : slack net bound (net.scan id top.2 { s with pq := rest }) ≤ slack net bound { s with pq := rest } :=
      popped.scan_slack wf below (awaiting.pop queue) (fun l member => ⟨live, member⟩) bounded
    exact ⟨roaming.iterate wf awaiting queue, by omega⟩
  exact dijkstra_ends (slack net bound) passes ⟨h, awaiting⟩ enough

/-- The finitely many weights of a network have a lower bound. -/
theorem exists_least_weight (net : Network) : ∃ W : Int, ∀ {u v w}, net.Link u v w → -W ≤ w := by
  let weights := (net.allRouterPtrs.flatMap fun u => (net.heap u).neighbors).map fun l => l.2.natAbs
  refine ⟨weights.sum, fun {u v w} link => ?_⟩
  have listed : w.natAbs ∈ weights :=
    List.mem_map.mpr ⟨(v, w), List.mem_flatMap.mpr ⟨u, link.1, link.2⟩, rfl⟩
  have most := List.le_sum_of_mem listed
  omega

/-- Without a light cycle the walks of the loop have bounded weights, so it ends. -/
theorem loopEnds_of_heavy (wf : WellFormed net) (live : this ∈ net.allRouterPtrs) (heavy : ¬ LightCycle net this) :
    LoopEnds net this := by
  obtain ⟨W, weights⟩ := exists_least_weight net
  obtain ⟨bound, bounded⟩ := exists_bound heavy (List.mem_toFinset.mpr live)
    (fun link => List.mem_toFinset.mpr (wf.links _ _ _ link)) weights
  obtain ⟨roaming, awaiting⟩ := initial_roaming id wf live
  obtain ⟨t, done⟩ := roaming.dijkstra_total wf awaiting bounded le_rfl
  exact ⟨_, t, done⟩

/-- A loop that has ended left no label above the weight of a walk. -/
theorem label_le_of_done (wf : WellFormed net) (live : this ∈ net.allRouterPtrs) {fuel : Nat} {t : Search}
    (done : net.dijkstra id fuel (net.initial this) = some t) {a : Ptr × Int}
    (walk : ReflTransGen (Extends net.Link 100000) (this, 0) a) : label net t a.1 ≤ a.2 ∧ a.2 < 100000 := by
  obtain ⟨roaming, awaiting⟩ := initial_roaming id wf live
  obtain ⟨exit_, relaxed, empty⟩ := roaming.dijkstra wf awaiting done
  induction walk with
  | refl => exact ⟨exit_.start, by norm_num⟩
  | tail _ last ih =>
      obtain ⟨w, link, sum, below⟩ := last
      have step := relaxed.relaxed empty link (ih.1.trans_lt ih.2)
      simp only [id] at step
      exact ⟨by omega, below⟩

/-- On a light cycle some label falls for ever. -/
theorem not_loopEnds_of_light (wf : WellFormed net) (live : this ∈ net.allRouterPtrs) (light : LightCycle net this) :
    ¬ LoopEnds net this := by
  rintro ⟨fuel, t, done⟩
  obtain ⟨v, unbounded⟩ := light.unbounded
  obtain ⟨e, less, walk⟩ := unbounded (label net t v)
  have bound := (label_le_of_done wf live done walk).1
  exact absurd less (not_lt.mpr bound)

end Loop

/-- For every network that can be requested, whatever its weights are, the queue loop
of a router ends exactly when there is no light cycle. -/
theorem loopEnds_iff {net : Network} (requested : Requested net) {source : Ptr}
    (live : source ∈ net.allRouterPtrs) : LoopEnds net source ↔ ¬ LightCycle net source := by
  have wf := requested.wellFormed
  exact ⟨fun ends light => not_loopEnds_of_light wf live light ends, loopEnds_of_heavy wf live⟩

/-- Two routers with a link of weight `a` from 1 to 2 and one of weight `b` back. -/
def twoRouters (a b : Int) : Network := linked (linked noRouters 1 1 [] []) 2 2 [(1, a)] [(1, b)]

theorem twoRouters_requested (a b : Int) : Requested (twoRouters a b) := by
  have first : Requested (linked noRouters 1 1 [] []) :=
    .create (.start _) (by decide) List.not_mem_nil (fun p live => absurd live List.not_mem_nil) [] []
  exact .create first (by decide) (by decide) (by decide) [(1, a)] [(1, b)]

theorem loopEnds_iff_twoRouters : ¬ LightCycle (twoRouters 3 (-2)) 1 := by
  refine (loopEnds_iff (twoRouters_requested 3 (-2)) (by decide)).mp ⟨10, ?_⟩
  exact Option.isSome_iff_exists.mp (by decide)

/-- Two links of weight -1 make each other's ends lighter for ever. -/
theorem light_cycle_never_ends :
    ¬ ∀ net, Requested net → ∀ source ∈ net.allRouterPtrs, LoopEnds net source := by
  intro claim
  have requested := twoRouters_requested (-1) (-1)
  have live : 1 ∈ (twoRouters (-1) (-1)).allRouterPtrs := by decide
  have there : Extends (twoRouters (-1) (-1)).Link 100000 (1, 0) (2, -1) :=
    ⟨-1, ⟨by decide, by decide⟩, by decide, by decide⟩
  have back : Extends (twoRouters (-1) (-1)).Link 100000 (2, -1) (1, -2) :=
    ⟨-1, ⟨by decide, by decide⟩, by decide, by decide⟩
  have light : LightCycle (twoRouters (-1) (-1)) 1 := ⟨1, 0, -2, .refl, .tail (.single there) back, by decide⟩
  exact not_loopEnds_of_light requested.wellFormed live light (claim _ requested 1 live)

end NetworkOs.Ospf
