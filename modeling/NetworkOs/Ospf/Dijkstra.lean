import NetworkOs.Library.ShortestPath
import NetworkOs.Ospf.Network

/-! The queue loop of `updateRoutingTable`. A node that is popped has its exact
distance, although stale queue entries are expanded again and labels are looked up by
router id. -/
namespace NetworkOs.Ospf
open ShortestPath Network

/-- A live router `u` has a link to `v`. -/
def Network.Link (net : Network) (u v : Ptr) (w : Int) : Prop :=
  u ∈ net.allRouterPtrs ∧ (v, w) ∈ (net.heap u).neighbors

/-- Live routers have distinct ids and link to live routers only. -/
structure WellFormed (net : Network) : Prop where
  notNull : NULL ∉ net.allRouterPtrs
  nodup : net.allRouterPtrs.Nodup
  ids : ∀ p ∈ net.allRouterPtrs, ∀ q ∈ net.allRouterPtrs, net.getRouterID p = net.getRouterID q → p = q
  links : ∀ u v w, net.Link u v w → v ∈ net.allRouterPtrs

/-- `wrap` leaves every result alone that the queue loop of `this` computes from
exact distances. -/
structure Fits (wrap : Int → Int) (net : Network) (this : Ptr) : Prop where
  keys : ∀ z, -100000 ≤ z → z ≤ 0 → wrap z = z
  sums : ∀ u d v w, IsDist net.Link this u d → d < 100000 → net.Link u v w → wrap (d + w) = d + w

/-- The distance stored for a router. -/
def label (net : Network) (s : Search) (p : Ptr) : Int := s.distance (net.getRouterID p)

/-- What holds of labels, queue and predecessors at every point of the loop. -/
structure Labels (net : Network) (this : Ptr) (s : Search) : Prop where
  live : this ∈ net.allRouterPtrs
  start : label net s this = 0
  upper : ∀ p ∈ net.allRouterPtrs, label net s p ≤ 100000
  walk : ∀ p ∈ net.allRouterPtrs, label net s p < 100000 → Walk net.Link this p (label net s p)
  queued : ∀ e ∈ s.pq, e.2 ∈ net.allRouterPtrs ∧ label net s e.2 ≤ -e.1 ∧ label net s e.2 < 100000
  sorted : s.pq.Pairwise Above
  unset : ∀ p ∈ net.allRouterPtrs, s.nextHop p = NULL ↔ p = this ∨ label net s p = 100000
  pred : ∀ p ∈ net.allRouterPtrs, s.nextHop p ≠ NULL → ∃ d w, IsDist net.Link this (s.nextHop p) d ∧
    d < 100000 ∧ net.Link (s.nextHop p) p w ∧ label net s p = d + w

/-- Every labelled router is queued with its label or has its links relaxed, up to
the links `rest` of the node that is being scanned. -/
def Pending (net : Network) (s : Search) (node : Ptr) (rest : List (Ptr × Int)) : Prop :=
  ∀ x ∈ net.allRouterPtrs, label net s x < 100000 → (-label net s x, x) ∈ s.pq ∨
    ∀ l ∈ (net.heap x).neighbors, label net s l.1 ≤ label net s x + l.2 ∨ x = node ∧ l ∈ rest

/-- A relaxation that lowers the label of `v` to `d`. -/
structure Improves (net : Network) (node v : Ptr) (d : Int) (s s' : Search) : Prop where
  less : d < label net s v
  lowered : label net s' v = d
  others : ∀ p ∈ net.allRouterPtrs, p ≠ v → label net s' p = label net s p
  nextHop : s'.nextHop = Function.update s.nextHop v node
  pq : s'.pq = s.pq.orderedInsert Above (-d, v)

section Loop
variable {wrap : Int → Int} {net : Network} {this node : Ptr} {s : Search} {rest : List (Ptr × Int)}

instance : Std.Total Above where
  total a b := by unfold Above; omega

instance : IsTrans (Int × Nat) Above where
  trans a b c h h' := by unfold Above at *; omega

theorem Labels.nonneg (h : Labels net this s) (costs : Nonneg net.Link) {p : Ptr}
    (live : p ∈ net.allRouterPtrs) : 0 ≤ label net s p := by
  by_cases bound : label net s p < 100000
  · exact (h.walk p live bound).nonneg costs
  · omega

theorem Labels.least (h : Labels net this s) {p : Ptr} (live : p ∈ net.allRouterPtrs) {d : Int}
    (dist : IsDist net.Link this p d) (bound : d < 100000) : d ≤ label net s p := by
  by_cases below : label net s p < 100000
  · exact dist.least (h.walk p live below)
  · omega

/-- The two outcomes of the loop body at a node with its exact distance. -/
theorem relax_cases (wf : WellFormed net) (fits : Fits wrap net this) {node v : Ptr} {w : Int}
    (dist : IsDist net.Link this node (label net s node)) (bound : label net s node < 100000)
    (upper : label net s v ≤ 100000) (positive : 0 ≤ label net s node + w) (link : net.Link node v w) :
    label net s v ≤ label net s node + w ∧ net.relax wrap node s (v, w) = s ∨
      Improves net node v (label net s node + w) s (net.relax wrap node s (v, w)) := by
  have sum : wrap (s.distance (net.getRouterID node) + w) = label net s node + w :=
    fits.sums node _ v w dist bound link
  by_cases less : label net s node + w < label net s v
  · right
    have key : wrap (-(label net s node + w)) = -(label net s node + w) := by
      apply fits.keys <;> omega
    have taken : net.relax wrap node s (v, w) =
        { distance := Function.update s.distance (net.getRouterID v) (label net s node + w)
          nextHop := Function.update s.nextHop v node
          pq := s.pq.orderedInsert Above (-(label net s node + w), v) } := by
      simp only [relax, sum, key]
      exact if_pos less
    rw [taken]
    refine ⟨less, by simp [label], ?_, rfl, rfl⟩
    intro p live other
    have distinct : net.getRouterID p ≠ net.getRouterID v := fun same =>
      other (wf.ids p live v (wf.links _ _ _ link) same)
    simp [label, distinct]
  · left
    refine ⟨not_lt.mp less, ?_⟩
    simp only [relax, sum]
    exact if_neg less

theorem Improves.le {s' : Search} {node v : Ptr} {d : Int} (h : Improves net node v d s s') {p : Ptr}
    (live : p ∈ net.allRouterPtrs) : label net s' p ≤ label net s p := by
  by_cases same : p = v
  · subst same
    rw [h.lowered]
    exact h.less.le
  · exact (h.others p live same).le

theorem Improves.queue_mem {s' : Search} {node v : Ptr} {d : Int} (h : Improves net node v d s s')
    (e : Int × Ptr) : e ∈ s'.pq ↔ e = (-d, v) ∨ e ∈ s.pq := by
  rw [h.pq, List.mem_orderedInsert]

theorem Labels.improve (h : Labels net this s) (wf : WellFormed net) (costs : Nonneg net.Link) {s' : Search}
    {node v : Ptr} {d w : Int} (dist : IsDist net.Link this node d) (bound : d < 100000)
    (link : net.Link node v w) (step : Improves net node v (d + w) s s') : Labels net this s' := by
  have live := wf.links _ _ _ link
  have cost := costs _ _ _ link
  have start := dist.nonneg costs
  have upper := h.upper v live
  have less := step.less
  have notThis : v ≠ this := by
    rintro rfl
    rw [h.start] at less
    omega
  have nodeSet : node ≠ NULL := fun same => wf.notNull (same ▸ link.1)
  refine ⟨h.live, ?_, ?_, ?_, ?_, ?_, ?_, ?_⟩
  · rw [step.others this h.live (Ne.symm notThis), h.start]
  · exact fun p live' => (step.le live').trans (h.upper p live')
  · intro p live' below
    by_cases same : p = v
    · subst same
      rw [step.lowered]
      exact dist.walk.snoc link
    · rw [step.others p live' same] at below ⊢
      exact h.walk p live' below
  · intro e member
    rcases (step.queue_mem e).mp member with rfl | old
    · refine ⟨live, ?_, ?_⟩
      · rw [step.lowered]
        omega
      · rw [step.lowered]
        omega
    · obtain ⟨live', key, below⟩ := h.queued e old
      have lower := step.le live'
      exact ⟨live', by omega, by omega⟩
  · rw [step.pq]
    exact h.sorted.orderedInsert _ _
  · intro p live'
    rw [step.nextHop]
    by_cases same : p = v
    · subst same
      rw [Function.update_self, step.lowered]
      exact iff_of_false nodeSet (by rintro (eq | eq); exacts [notThis eq, by omega])
    · rw [Function.update_of_ne same, step.others p live' same]
      exact h.unset p live'
  · intro p live'
    rw [step.nextHop]
    by_cases same : p = v
    · subst same
      rw [Function.update_self, step.lowered]
      exact fun _ => ⟨d, w, dist, bound, link, rfl⟩
    · rw [Function.update_of_ne same, step.others p live' same]
      exact h.pred p live'

theorem Pending.improve (h : Pending net s node rest) (wf : WellFormed net) {s' : Search} {v : Ptr} {d : Int}
    (step : Improves net node v d s s') : Pending net s' node rest := by
  intro x live below
  by_cases same : x = v
  · subst same
    left
    rw [step.lowered]
    exact (step.queue_mem _).mpr (.inl rfl)
  · rw [step.others x live same] at below ⊢
    rcases h x live below with queued | relaxed
    · exact .inl ((step.queue_mem _).mpr (.inr queued))
    · refine .inr fun l member => (relaxed l member).imp_left fun bound => ?_
      exact (step.le (wf.links x l.1 l.2 ⟨live, member⟩)).trans bound

theorem Pending.drop {v : Ptr} {w : Int} (h : Pending net s node ((v, w) :: rest))
    (relaxed : label net s v ≤ label net s node + w) : Pending net s node rest := by
  intro x live below
  refine (h x live below).imp_right fun links l member => ?_
  rcases links l member with done | ⟨same, waiting⟩
  · exact .inl done
  · rcases List.mem_cons.mp waiting with rfl | later
    · exact .inl (same ▸ relaxed)
    · exact .inr ⟨same, later⟩

/-- The state inside the scan of `node`, whose distance is `d`, with the links `rest` to go. -/
structure Scanning (net : Network) (this node : Ptr) (d : Int) (s : Search) (rest : List (Ptr × Int)) :
    Prop where
  labels : Labels net this s
  label_eq : label net s node = d
  pending : Pending net s node rest

theorem Scanning.relax_cases {d : Int} {v : Ptr} {w : Int} (h : Scanning net this node d s ((v, w) :: rest))
    (wf : WellFormed net) (costs : Nonneg net.Link) (fits : Fits wrap net this)
    (dist : IsDist net.Link this node d) (bound : d < 100000) (link : net.Link node v w) :
    label net s v ≤ d + w ∧ net.relax wrap node s (v, w) = s ∨
      Improves net node v (d + w) s (net.relax wrap node s (v, w)) := by
  have cost := costs _ _ _ link
  have start := dist.nonneg costs
  have same := h.label_eq
  subst same
  exact Ospf.relax_cases wf fits dist bound (h.labels.upper v (wf.links _ _ _ link)) (by omega) link

theorem Scanning.relax {d : Int} {v : Ptr} {w : Int} (h : Scanning net this node d s ((v, w) :: rest))
    (wf : WellFormed net) (costs : Nonneg net.Link) (fits : Fits wrap net this)
    (dist : IsDist net.Link this node d) (bound : d < 100000) (link : net.Link node v w) :
    Scanning net this node d (net.relax wrap node s (v, w)) rest ∧
      ∀ p ∈ net.allRouterPtrs, label net (net.relax wrap node s (v, w)) p ≤ label net s p := by
  have cost := costs _ _ _ link
  have cases_ := h.relax_cases wf costs fits dist bound link
  have same := h.label_eq
  subst same
  rcases cases_ with ⟨relaxed, unchanged⟩ | step
  · rw [unchanged]
    exact ⟨⟨h.labels, rfl, h.pending.drop relaxed⟩, fun p _ => le_rfl⟩
  · have less := step.less
    have other : node ≠ v := by
      rintro rfl
      omega
    have kept := step.others node link.1 other
    refine ⟨⟨h.labels.improve wf costs dist bound link step, kept, ?_⟩, fun p live => step.le live⟩
    refine (h.pending.improve wf step).drop ?_
    rw [step.lowered, kept]

/-- The whole scan, by induction on the links that are left. -/
theorem Scanning.scan {d : Int} (h : Scanning net this node d s rest)
    (wf : WellFormed net) (costs : Nonneg net.Link) (fits : Fits wrap net this)
    (dist : IsDist net.Link this node d) (bound : d < 100000)
    (links : ∀ l ∈ rest, net.Link node l.1 l.2) :
    Scanning net this node d (rest.foldl (net.relax wrap node) s) [] := by
  induction rest generalizing s with
  | nil => exact h
  | cons l rest ih =>
      have step := h.relax wf costs fits dist bound (links l List.mem_cons_self)
      exact ih step.1 fun l member => links l (List.mem_cons_of_mem _ member)

/-- The state between two iterations. -/
structure Between (net : Network) (this : Ptr) (s : Search) : Prop where
  labels : Labels net this s
  pending : Pending net s NULL []

theorem Between.relaxed_or_queued (h : Between net this s) {u v : Ptr} {w : Int} (link : net.Link u v w)
    (below : label net s u < 100000) :
    (-label net s u, u) ∈ s.pq ∨ label net s v ≤ label net s u + w := by
  refine (h.pending u link.1 below).imp_right fun links => ?_
  exact (links (v, w) link.2).resolve_right (by simp)

/-- Where all labels below the top key are relaxed, which `queued_le` shows. -/
theorem Between.relaxed_below (h : Between net this s) {k : Int} {node : Ptr} {rest : List (Int × Ptr)}
    (queue : s.pq = (k, node) :: rest) {u v : Ptr} {w : Int} (link : net.Link u v w)
    (below : label net s u < min (-k) 100000) : label net s v ≤ label net s u + w := by
  refine (h.relaxed_or_queued link (by omega)).resolve_left fun queued => ?_
  rw [queue] at queued
  have sorted := h.labels.sorted
  rw [queue, List.pairwise_cons] at sorted
  rcases List.mem_cons.mp queued with top | later
  · obtain ⟨key, _⟩ := Prod.mk.inj top
    omega
  · have order := sorted.1 _ later
    simp only [Above] at order
    omega

/-- The node on top of the queue has its exact distance, whatever its key. -/
theorem Between.top_exact (h : Between net this s) (costs : Nonneg net.Link) {k : Int} {node : Ptr}
    {rest : List (Int × Ptr)} (queue : s.pq = (k, node) :: rest) :
    node ∈ net.allRouterPtrs ∧ label net s node ≤ -k ∧ label net s node < 100000 ∧
      IsDist net.Link this node (label net s node) := by
  obtain ⟨live, key, below⟩ := h.labels.queued (k, node) (queue ▸ List.mem_cons_self)
  change label net s node ≤ -k at key
  change label net s node < 100000 at below
  refine ⟨live, key, below, h.labels.walk node live below, ?_⟩
  intro d' walk
  by_contra shorter
  have bound := walk.label_le costs (D := label net s) (k := min (-k) 100000) h.labels.start.le
    (fun link => h.relaxed_below queue link) (by omega)
  omega

theorem Between.pop (h : Between net this s) {k : Int} {node : Ptr} {rest : List (Int × Ptr)}
    (queue : s.pq = (k, node) :: rest) :
    Scanning net this node (label net s node) { s with pq := rest } (net.heap node).neighbors := by
  have sorted := h.labels.sorted
  rw [queue, List.pairwise_cons] at sorted
  refine ⟨⟨h.labels.live, h.labels.start, h.labels.upper, h.labels.walk, ?_, sorted.2, h.labels.unset,
    h.labels.pred⟩, rfl, ?_⟩
  · exact fun e member => h.labels.queued e (queue ▸ List.mem_cons_of_mem _ member)
  · intro x live below
    by_cases same : x = node
    · exact .inr fun l member => .inr ⟨same, same ▸ member⟩
    · refine (h.pending x live below).imp (fun queued => ?_) fun links l member => ?_
      · rw [queue] at queued
        exact (List.mem_cons.mp queued).resolve_left fun top => same (Prod.mk.inj top).2
      · exact .inl ((links l member).resolve_right (by simp))

theorem Scanning.between {d : Int} (h : Scanning net this node d s []) : Between net this s :=
  ⟨h.labels, fun x live below => (h.pending x live below).imp_right fun links l member =>
    .inl ((links l member).resolve_right (by simp))⟩

theorem Between.iterate (h : Between net this s) (wf : WellFormed net) (costs : Nonneg net.Link)
    (fits : Fits wrap net this) {k : Int} {node : Ptr} {rest : List (Int × Ptr)}
    (queue : s.pq = (k, node) :: rest) : Between net this (net.scan wrap node { s with pq := rest }) := by
  obtain ⟨live, _, below, dist⟩ := h.top_exact costs queue
  exact ((h.pop queue).scan wf costs fits dist below fun l member => ⟨live, member⟩).between

theorem dijkstra_empty {fuel : Nat} (empty : s.pq = []) : net.dijkstra wrap fuel s = some s := by
  obtain ⟨distance, nextHop, pq⟩ := s
  subst empty
  cases fuel <;> rfl

theorem dijkstra_zero {top : Int × Ptr} {rest : List (Int × Ptr)} (queue : s.pq = top :: rest) :
    net.dijkstra wrap 0 s = none := by
  obtain ⟨distance, nextHop, pq⟩ := s
  subst queue
  rfl

theorem dijkstra_succ {fuel : Nat} {top : Int × Ptr} {rest : List (Int × Ptr)} (queue : s.pq = top :: rest) :
    net.dijkstra wrap (fuel + 1) s =
      net.dijkstra wrap fuel (net.scan wrap top.2 { s with pq := rest }) := by
  obtain ⟨distance, nextHop, pq⟩ := s
  subst queue
  rfl

/-- What each pass keeps holds where the loop ends, with an empty queue. -/
theorem dijkstra_invariant {P : Search → Prop}
    (kept : ∀ s top rest, P s → s.pq = top :: rest → P (net.scan wrap top.2 { s with pq := rest })) (start : P s)
    {fuel : Nat} {t : Search} (done : net.dijkstra wrap fuel s = some t) : P t ∧ t.pq = [] := by
  induction fuel generalizing s with
  | zero =>
      cases queue : s.pq with
      | nil => exact Option.some.inj ((dijkstra_empty queue).symm.trans done) ▸ ⟨start, queue⟩
      | cons top rest => exact absurd (dijkstra_zero queue ▸ done) (by simp)
  | succ fuel ih =>
      cases queue : s.pq with
      | nil => exact Option.some.inj ((dijkstra_empty queue).symm.trans done) ▸ ⟨start, queue⟩
      | cons top rest => exact ih (kept s top rest start queue) (dijkstra_succ queue ▸ done)

/-- The loop ends where each pass lowers a measure. -/
theorem dijkstra_ends {P : Search → Prop} (measure : Search → Nat)
    (passes : ∀ s top rest, P s → s.pq = top :: rest → P (net.scan wrap top.2 { s with pq := rest }) ∧
      measure (net.scan wrap top.2 { s with pq := rest }) < measure s)
    (start : P s) {fuel : Nat} (enough : measure s ≤ fuel) : ∃ t, net.dijkstra wrap fuel s = some t := by
  induction fuel generalizing s with
  | zero =>
      cases queue : s.pq with
      | nil => exact ⟨s, dijkstra_empty queue⟩
      | cons top rest => exact absurd ((passes s top rest start queue).2.trans_le enough) (Nat.not_lt_zero _)
  | succ fuel ih =>
      cases queue : s.pq with
      | nil => exact ⟨s, dijkstra_empty queue⟩
      | cons top rest =>
          obtain ⟨kept, lower⟩ := passes s top rest start queue
          rw [dijkstra_succ queue]
          exact ih kept (Nat.le_of_lt_succ (lower.trans_le enough))

/-- The loop keeps what holds between iterations and ends with an empty queue. -/
theorem Between.dijkstra (h : Between net this s) (wf : WellFormed net) (costs : Nonneg net.Link)
    (fits : Fits wrap net this) {fuel : Nat} {t : Search} (done : net.dijkstra wrap fuel s = some t) :
    Between net this t ∧ t.pq = [] :=
  dijkstra_invariant (fun _ _ _ between queue => between.iterate wf costs fits queue) h done

theorem initial_between (wf : WellFormed net) (live : this ∈ net.allRouterPtrs) :
    Between net this (net.initial this) := by
  have self : label net (net.initial this) this = 0 := by simp [label, initial]
  have others : ∀ p ∈ net.allRouterPtrs, p ≠ this → label net (net.initial this) p = 100000 := by
    intro p live' other
    have distinct : net.getRouterID p ≠ net.getRouterID this := fun same => other (wf.ids p live' this live same)
    have listed : net.getRouterID p ∈ net.allRouterPtrs.map net.getRouterID := List.mem_map_of_mem live'
    simp only [label, initial, Function.update_of_ne distinct, listed, if_true]
  refine ⟨⟨live, self, ?_, ?_, ?_, List.pairwise_singleton _ _, ?_, fun p _ set => absurd rfl set⟩, ?_⟩
  · intro p live'
    by_cases same : p = this
    · subst same
      omega
    · exact (others p live' same).le
  · intro p live' below
    by_cases same : p = this
    · subst same
      rw [self]
      exact .nil
    · exact absurd (others p live' same) below.ne
  · intro e member
    obtain rfl := List.mem_singleton.mp member
    exact ⟨live, by rw [self]; rfl, by rw [self]; decide⟩
  · intro p live'
    refine iff_of_true rfl ?_
    by_cases same : p = this
    · exact .inl same
    · exact .inr (others p live' same)
  · intro p live' below
    by_cases same : p = this
    · subst same
      left
      rw [self]
      exact List.mem_singleton.mpr rfl
    · exact absurd (others p live' same) below.ne

/-- When the queue is empty every label is the distance, cut off at 100000. -/
theorem Between.final (h : Between net this s) (costs : Nonneg net.Link) (empty : s.pq = []) {p : Ptr}
    (live : p ∈ net.allRouterPtrs) {d : Int} (dist : IsDist net.Link this p d) (below : d < 100000) :
    label net s p = d := by
  have bound := dist.walk.label_le costs (D := label net s) (k := 100000) h.labels.start.le
    (fun link low => (h.relaxed_or_queued link low).resolve_left (by simp [empty])) below
  exact le_antisymm bound (h.labels.least live dist below)

end Loop
end NetworkOs.Ospf
