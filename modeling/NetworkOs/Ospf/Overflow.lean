import NetworkOs.Ospf.NegativeWeights
import NetworkOs.Ospf.ShortestTree

/-! The additions that the queue loop performs, seen in its run on 32-bit numbers. The
cut at 100000 bounds the distances but not the weights that are added to them. -/
namespace NetworkOs.Ospf
open ShortestPath Network

/-- The states in which the queue loop of `this` tests its queue. -/
inductive Turns (wrap : Int → Int) (net : Network) (this : Ptr) : Search → Prop where
  | start : Turns wrap net this (net.initial this)
  | next {s : Search} {top : Int × Ptr} {rest : List (Int × Ptr)} (before : Turns wrap net this s)
      (queue : s.pq = top :: rest) : Turns wrap net this (net.scan wrap top.2 { s with pq := rest })

/-- The body of the loop through the links runs at `node` for the link `l` in the state `s`. -/
def Relaxes (wrap : Int → Int) (net : Network) (this node : Ptr) (l : Ptr × Int) (s : Search) : Prop :=
  ∃ s₀ k rest done todo, Turns wrap net this s₀ ∧ s₀.pq = (k, node) :: rest ∧
    (net.heap node).neighbors = done ++ l :: todo ∧ s = done.foldl (net.relax wrap node) { s₀ with pq := rest }

/-- No addition of the run exceeds the largest `int`, and every distance stays between
0 and 100000. -/
structure StaysInRange (net : Network) (this : Ptr) : Prop where
  sums : ∀ node l s, Relaxes Machine.int32 net this node l s →
    s.distance (net.getRouterID node) + l.2 ≤ Machine.intMax
  distances : ∀ s, (Turns Machine.int32 net this s ∨ ∃ node l, Relaxes Machine.int32 net this node l s) →
    ∀ p ∈ net.allRouterPtrs, 0 ≤ s.distance (net.getRouterID p) ∧ s.distance (net.getRouterID p) ≤ 100000

/-- No distance below 100000 and weight of a link at its end add up to more than the
largest `int`. -/
def SumsFit (net : Network) (this : Ptr) : Prop :=
  ∀ u d v w, IsDist net.Link this u d → d < 100000 → net.Link u v w → d + w ≤ Machine.intMax

section Run
variable {wrap : Int → Int} {net : Network} {this node : Ptr} {s : Search}

theorem SumsFit.fits (h : SumsFit net this) (costs : Nonneg net.Link) : Fits Machine.int32 net this := by
  constructor
  · intro z low high
    exact Machine.int32_of_range (by omega) (by unfold Machine.intMax; omega)
  · intro u d v w dist below link
    have start := dist.nonneg costs
    have cost := costs _ _ _ link
    exact Machine.int32_of_range (by omega) (h u d v w dist below link)

theorem Turns.between (h : Turns wrap net this s) (wf : WellFormed net) (costs : Nonneg net.Link)
    (fits : Fits wrap net this) (live : this ∈ net.allRouterPtrs) : Between net this s := by
  induction h with
  | start => exact initial_between wf live
  | next _ queue ih => exact ih.iterate wf costs fits queue

/-- A scan up to the links that are left. -/
theorem Scanning.scan_upto {d : Int} {done todo : List (Ptr × Int)}
    (h : Scanning net this node d s (done ++ todo)) (wf : WellFormed net) (costs : Nonneg net.Link)
    (fits : Fits wrap net this) (dist : IsDist net.Link this node d) (bound : d < 100000)
    (links : ∀ l ∈ done, net.Link node l.1 l.2) :
    Scanning net this node d (done.foldl (net.relax wrap node) s) todo := by
  induction done generalizing s with
  | nil => exact h
  | cons l done ih =>
      have step := (h.relax wf costs fits dist bound (links l List.mem_cons_self)).1
      exact ih step fun l' member => links l' (List.mem_cons_of_mem _ member)

/-- At every relaxation the node has its exact distance. -/
theorem Relaxes.scanning {l : Ptr × Int} (h : Relaxes wrap net this node l s) (wf : WellFormed net)
    (costs : Nonneg net.Link) (fits : Fits wrap net this) (live : this ∈ net.allRouterPtrs) :
    net.Link node l.1 l.2 ∧ ∃ d < 100000, IsDist net.Link this node d ∧ label net s node = d ∧
      ∃ todo, Scanning net this node d s (l :: todo) := by
  obtain ⟨s₀, k, rest, done, todo, turn, queue, neighbors, rfl⟩ := h
  have between := turn.between wf costs fits live
  obtain ⟨member, _, below, dist⟩ := between.top_exact costs queue
  have links : ∀ l' ∈ done ++ l :: todo, net.Link node l'.1 l'.2 :=
    fun l' listed => ⟨member, neighbors ▸ listed⟩
  have popped := between.pop queue
  rw [neighbors] at popped
  have here := popped.scan_upto wf costs fits dist below fun l' listed =>
    links l' (List.mem_append_left _ listed)
  exact ⟨links l (List.mem_append_right _ List.mem_cons_self), _, below, dist, here.label_eq, todo, here⟩

/-- Every sum that fits keeps the run inside the range. -/
theorem SumsFit.staysInRange (h : SumsFit net this) (wf : WellFormed net) (costs : Nonneg net.Link)
    (live : this ∈ net.allRouterPtrs) : StaysInRange net this := by
  have fits := h.fits costs
  constructor
  · intro node l s relaxes
    obtain ⟨link, d, below, dist, exact_, _⟩ := relaxes.scanning wf costs fits live
    rw [show s.distance (net.getRouterID node) = d from exact_]
    exact h node d l.1 l.2 dist below link
  · intro s reached p member
    have labels : Labels net this s := by
      rcases reached with turn | ⟨node, l, relaxes⟩
      · exact (turn.between wf costs fits live).labels
      · obtain ⟨_, _, _, _, _, _, scanning⟩ := relaxes.scanning wf costs fits live
        exact scanning.labels
    exact ⟨labels.nonneg costs member, labels.upper p member⟩

/-- A scan keeps the queue, and a router whose label it changes is queued with the new one. -/
theorem Scanning.kept {d : Int} {todo : List (Ptr × Int)} (h : Scanning net this node d s todo) (wf : WellFormed net)
    (costs : Nonneg net.Link) (fits : Fits wrap net this) (dist : IsDist net.Link this node d) (bound : d < 100000)
    (links : ∀ l ∈ todo, net.Link node l.1 l.2) :
    (∀ e ∈ s.pq, e ∈ (todo.foldl (net.relax wrap node) s).pq) ∧
      ∀ x ∈ net.allRouterPtrs, label net (todo.foldl (net.relax wrap node) s) x = label net s x ∨
        (-label net (todo.foldl (net.relax wrap node) s) x, x) ∈ (todo.foldl (net.relax wrap node) s).pq := by
  induction todo generalizing s with
  | nil => exact ⟨fun e member => member, fun x _ => .inl rfl⟩
  | cons l todo ih =>
      have link := links l List.mem_cons_self
      have step := (h.relax wf costs fits dist bound link).1
      obtain ⟨queue, labels⟩ := ih step fun l' member => links l' (List.mem_cons_of_mem _ member)
      rw [List.foldl_cons]
      rcases h.relax_cases wf costs fits dist bound link with ⟨_, unchanged⟩ | improves
      · rw [unchanged] at queue labels ⊢
        exact ⟨queue, labels⟩
      · refine ⟨fun e member => queue e ((improves.queue_mem e).mpr (.inr member)), fun x live => ?_⟩
        refine (labels x live).elim (fun kept => ?_) .inr
        by_cases lowered : x = l.1
        · subst lowered
          right
          rw [kept, improves.lowered]
          exact queue _ ((improves.queue_mem _).mpr (.inl rfl))
        · exact .inl (kept.trans (improves.others x live lowered))

/-- A router with a label is queued with it, or the sums of the label and the weights of
all its links have been computed. -/
theorem Turns.performed (h : Turns wrap net this s) (wf : WellFormed net) (costs : Nonneg net.Link)
    (fits : Fits wrap net this) (live : this ∈ net.allRouterPtrs) {x : Ptr} (member : x ∈ net.allRouterPtrs)
    (below : label net s x < 100000) : (-label net s x, x) ∈ s.pq ∨
      ∀ l ∈ (net.heap x).neighbors, ∃ s', Relaxes wrap net this x l s' ∧ label net s' x = label net s x := by
  induction h with
  | start =>
      have between := initial_between wf live
      by_cases same : x = this
      · rw [same, between.labels.start]
        exact .inl (List.mem_singleton.mpr rfl)
      · have unset := (between.labels.unset x member).mp rfl
        exact absurd (unset.resolve_left same) below.ne
  | @next s top rest before queue ih =>
      have between := before.between wf costs fits live
      obtain ⟨nodeLive, _, near, dist⟩ := between.top_exact costs queue
      have popped := between.pop queue
      have links : ∀ l ∈ (net.heap top.2).neighbors, net.Link top.2 l.1 l.2 := fun l listed => ⟨nodeLive, listed⟩
      obtain ⟨kept, labels⟩ := popped.kept wf costs fits dist near links
      refine (labels x member).elim (fun same => ?_) .inl
      change label net (net.scan wrap top.2 { s with pq := rest }) x = label net s x at same
      rw [same] at below ⊢
      by_cases scanned : x = top.2
      · refine .inr fun l listed => ?_
        obtain ⟨done, todo, split⟩ := List.append_of_mem (scanned ▸ listed)
        refine ⟨_, ⟨s, top.1, rest, done, todo, before, scanned ▸ queue, scanned ▸ split, rfl⟩, ?_⟩
        rw [split] at popped links
        rw [scanned]
        exact (popped.scan_upto wf costs fits dist near fun l' earlier =>
          links l' (List.mem_append_left _ earlier)).label_eq
      · refine (ih below).imp_left fun queued => ?_
        rw [queue] at queued
        exact kept _ ((List.mem_cons.mp queued).resolve_left fun eq => scanned (congrArg Prod.snd eq))

theorem Turns.dijkstra (h : Turns wrap net this s) {fuel : Nat} {t : Search}
    (done : net.dijkstra wrap fuel s = some t) : Turns wrap net this t :=
  (dijkstra_invariant (fun _ _ _ turns queue => turns.next queue) h done).1

/-- Folds agree when their steps do in the states the first one comes to. -/
theorem foldl_agree {α β : Type*} {f g : β → α → β} {xs : List α} {b : β}
    (agree : ∀ done x todo, xs = done ++ x :: todo → f (done.foldl f b) x = g (done.foldl f b) x) :
    xs.foldl f b = xs.foldl g b := by
  induction xs using List.reverseRecOn with
  | nil => rfl
  | append_singleton xs x ih =>
      have before := ih fun done y todo split => agree done y (todo ++ [x]) (by simp [split])
      rw [List.foldl_append, List.foldl_append, ← before]
      exact agree xs x [] rfl

/-- In the range the 32-bit loop body is the exact one. -/
theorem StaysInRange.relax_eq (h : StaysInRange net this) (wf : WellFormed net) (costs : Nonneg net.Link)
    {l : Ptr × Int} (relaxes : Relaxes Machine.int32 net this node l s) (link : net.Link node l.1 l.2) :
    net.relax Machine.int32 node s l = net.relax id node s l := by
  have bound := h.sums node l s relaxes
  have cost := costs _ _ _ link
  have range := h.distances s (.inr ⟨node, l, relaxes⟩)
  have start := (range node link.1).1
  have upper := (range l.1 (wf.links _ _ _ link)).2
  have sum : Machine.int32 (s.distance (net.getRouterID node) + l.2) = s.distance (net.getRouterID node) + l.2 :=
    Machine.int32_of_range (by omega) bound
  simp only [relax, sum, id]
  by_cases less : s.distance (net.getRouterID node) + l.2 < s.distance (net.getRouterID l.1)
  · have key : Machine.int32 (-(s.distance (net.getRouterID node) + l.2)) =
        -(s.distance (net.getRouterID node) + l.2) :=
      Machine.int32_of_range (by omega) (by unfold Machine.intMax; omega)
    rw [if_pos less, if_pos less, key]
  · rw [if_neg less, if_neg less]

theorem StaysInRange.foldl_eq (h : StaysInRange net this) (wf : WellFormed net) (costs : Nonneg net.Link)
    {top : Int × Ptr} {rest : List (Int × Ptr)} (turn : Turns Machine.int32 net this s) (queue : s.pq = top :: rest)
    (live : top.2 ∈ net.allRouterPtrs) {done todo : List (Ptr × Int)} (split : (net.heap top.2).neighbors = done ++ todo) :
    done.foldl (net.relax Machine.int32 top.2) { s with pq := rest } =
      done.foldl (net.relax id top.2) { s with pq := rest } := by
  refine foldl_agree fun before l after split' => ?_
  have split' : (net.heap top.2).neighbors = before ++ l :: (after ++ todo) := by
    rw [split, split', List.append_assoc, List.cons_append]
  refine h.relax_eq wf costs ⟨s, top.1, rest, before, after ++ todo, turn, queue, split', rfl⟩ ⟨live, ?_⟩
  exact split' ▸ List.mem_append_right _ List.mem_cons_self

/-- A run that stays in the range is the exact run. -/
theorem StaysInRange.turns (h : StaysInRange net this) (wf : WellFormed net) (costs : Nonneg net.Link)
    (live : this ∈ net.allRouterPtrs) (turn : Turns id net this s) : Turns Machine.int32 net this s := by
  induction turn with
  | start => exact .start
  | @next s top rest before queue ih =>
      have member := ((before.between wf costs (fits_id net this) live).top_exact costs queue).1
      have scan : net.scan Machine.int32 top.2 { s with pq := rest } = net.scan id top.2 { s with pq := rest } :=
        h.foldl_eq wf costs ih queue member (List.append_nil _).symm
      exact scan ▸ ih.next queue

theorem StaysInRange.relaxes (h : StaysInRange net this) (wf : WellFormed net) (costs : Nonneg net.Link)
    (live : this ∈ net.allRouterPtrs) {l : Ptr × Int} (relaxes : Relaxes id net this node l s) :
    Relaxes Machine.int32 net this node l s := by
  have member := (relaxes.scanning wf costs (fits_id net this) live).1.1
  obtain ⟨s₀, k, rest, done, todo, turn, queue, split, rfl⟩ := relaxes
  have turn' := h.turns wf costs live turn
  exact ⟨s₀, k, rest, done, todo, turn', queue, split, (h.foldl_eq wf costs turn' queue member split).symm⟩

/-- Every router that is near is scanned with its distance, so all its sums are computed. -/
theorem StaysInRange.sumsFit (h : StaysInRange net this) (wf : WellFormed net) (costs : Nonneg net.Link)
    (live : this ∈ net.allRouterPtrs) : SumsFit net this := by
  intro u d v w dist below link
  have fits := fits_id net this
  have start := initial_between wf live
  obtain ⟨t, done⟩ := start.dijkstra_total wf costs fits (le_refl (work net (net.initial this)))
  obtain ⟨between, empty⟩ := start.dijkstra wf costs fits done
  have exact_ := between.final costs empty link.1 dist below
  have performed := (Turns.start.dijkstra done).performed wf costs fits live link.1 (exact_ ▸ below)
  obtain ⟨s, relaxes, same⟩ := performed.resolve_left (by simp [empty]) (v, w) link.2
  have bound := h.sums u (v, w) s (h.relaxes wf costs live relaxes)
  rwa [show s.distance (net.getRouterID u) = d from same.trans exact_] at bound

end Run

/-- The additions of the 32-bit loop stay in the range exactly when no distance below
100000 and a weight that is added to it exceed it. -/
theorem staysInRange_iff {net : Network} {source : Ptr} (wf : WellFormed net) (costs : Nonneg net.Link)
    (live : source ∈ net.allRouterPtrs) : StaysInRange net source ↔ SumsFit net source :=
  ⟨fun h => h.sumsFit wf costs live, fun h => h.staysInRange wf costs live⟩

theorem staysInRange_iff_zeroCycle : ∃ net, createAll Machine.int32 20 zeroCycle noRouters = some net ∧
    StaysInRange net 1 := by
  obtain ⟨net, made, wf, costs, routers, weights⟩ := zeroCycle_network
  have live : 1 ∈ net.allRouterPtrs := routers ▸ List.mem_cons_self
  have small : NoOverflow net := noOverflow_of_weights fun u v w link => (weights u v w link).trans (by decide)
  exact ⟨net, made, (staysInRange_iff wf costs live).mpr (small 1 live)⟩

/-- Router 2 is at distance 1 from router 1, and its link has the greatest weight. -/
def heavyEnd : Network :=
  linked (linked (linked noRouters 1 1 [] []) 2 2 [(1, 1)] []) 3 3 [(2, 2147483647)] []

theorem heavyEnd_requested : Requested heavyEnd := by
  have first : Requested (linked noRouters 1 1 [] []) :=
    .create (.start _) (by decide) List.not_mem_nil (fun p live => absurd live List.not_mem_nil) [] []
  have second : Requested (linked (linked noRouters 1 1 [] []) 2 2 [(1, 1)] []) :=
    .create first (by decide) (by decide) (by decide) [(1, 1)] []
  exact .create second (by decide) (by decide) (by decide) [(2, 2147483647)] []

/-- The sum 1 + 2147483647 is computed for the link from 2 to 3. -/
theorem sum_exceeds_int :
    ¬ ∀ net, WellFormed net → (∀ u v w, net.Link u v w → 0 ≤ w ∧ w ≤ Machine.intMax) →
      ∀ source ∈ net.allRouterPtrs, StaysInRange net source := by
  intro claim
  have weights : ∀ u v w, heavyEnd.Link u v w → 0 ≤ w ∧ w ≤ Machine.intMax :=
    weights_of_all (fun w => 0 ≤ w ∧ w ≤ Machine.intMax) (by decide)
  have range := claim heavyEnd heavyEnd_requested.wellFormed weights 1 (by decide)
  have turn : Turns Machine.int32 heavyEnd 1 _ := .next .start rfl
  have relaxes : Relaxes Machine.int32 heavyEnd 1 2 (3, 2147483647) _ :=
    ⟨_, -1, [], [], [], turn, by decide, by decide, rfl⟩
  exact absurd (range.sums _ _ _ relaxes) (by decide)

end NetworkOs.Ospf
