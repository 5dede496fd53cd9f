import NetworkOs.Ospf.Updates

/-! With non-negative weights the table computation ends: each pass of the queue loop
uses up labels or queue entries, and the predecessors lead back to the source. -/
namespace NetworkOs.Ospf
open ShortestPath Network

/-- What is left to do for the queue loop: every label can still fall, and every fall
costs one more queue entry. -/
def work (net : Network) (s : Search) : Nat :=
  2 * (∑ p ∈ net.allRouterPtrs.toFinset, (label net s p).toNat) + s.pq.length

/-- Following the predecessors from `p` leads to `this`. -/
inductive Rooted (nextHop : Ptr → Ptr) (this : Ptr) : Ptr → Prop where
  | here : Rooted nextHop this this
  | step {p : Ptr} (other : p ≠ this) (set : nextHop p ≠ NULL) (rest : Rooted nextHop this (nextHop p)) :
      Rooted nextHop this p

/-- No predecessor has a greater label, and all of them lead back to `this`. -/
structure Grounded (net : Network) (this : Ptr) (s : Search) : Prop where
  falling : ∀ p ∈ net.allRouterPtrs, s.nextHop p ≠ NULL → label net s (s.nextHop p) ≤ label net s p
  rooted : ∀ p ∈ net.allRouterPtrs, s.nextHop p ≠ NULL → Rooted s.nextHop this p

section Loop
variable {wrap : Int → Int} {net : Network} {this node : Ptr} {s : Search} {rest : List (Ptr × Int)}

/-- A relaxation that lowers a label pays for its queue entry. -/
theorem Improves.work_lt {s' : Search} {v : Ptr} {d : Int} (h : Improves net node v d s s')
    (live : v ∈ net.allRouterPtrs) (nonneg : 0 ≤ d) : work net s' < work net s := by
  have sum : ∑ p ∈ net.allRouterPtrs.toFinset, (label net s' p).toNat <
      ∑ p ∈ net.allRouterPtrs.toFinset, (label net s p).toNat := by
    refine Finset.sum_lt_sum (fun p member => ?_) ⟨v, List.mem_toFinset.mpr live, ?_⟩
    · exact Int.toNat_le_toNat (h.le (List.mem_toFinset.mp member))
    · have less := h.less
      rw [h.lowered]
      omega
  have queue : s'.pq.length = s.pq.length + 1 := by rw [h.pq, List.orderedInsert_length]
  unfold work
  omega

theorem Scanning.relax_work {d : Int} {v : Ptr} {w : Int} (h : Scanning net this node d s ((v, w) :: rest))
    (wf : WellFormed net) (costs : Nonneg net.Link) (fits : Fits wrap net this)
    (dist : IsDist net.Link this node d) (bound : d < 100000) (link : net.Link node v w) :
    work net (net.relax wrap node s (v, w)) ≤ work net s := by
  have cost := costs _ _ _ link
  have start := dist.nonneg costs
  rcases h.relax_cases wf costs fits dist bound link with ⟨_, unchanged⟩ | step
  · rw [unchanged]
  · exact (step.work_lt (wf.links _ _ _ link) (by omega)).le

theorem Scanning.scan_work {d : Int} (h : Scanning net this node d s rest)
    (wf : WellFormed net) (costs : Nonneg net.Link) (fits : Fits wrap net this)
    (dist : IsDist net.Link this node d) (bound : d < 100000)
    (links : ∀ l ∈ rest, net.Link node l.1 l.2) : work net (rest.foldl (net.relax wrap node) s) ≤ work net s := by
  induction rest generalizing s with
  | nil => exact le_rfl
  | cons l rest ih =>
      have link := links l List.mem_cons_self
      have step := (h.relax wf costs fits dist bound link).1
      have later := ih step fun l member => links l (List.mem_cons_of_mem _ member)
      exact later.trans (h.relax_work wf costs fits dist bound link)

/-- The queue loop ends after as many passes as there is work. -/
theorem Between.dijkstra_total (h : Between net this s) (wf : WellFormed net) (costs : Nonneg net.Link)
    (fits : Fits wrap net this) {fuel : Nat} (enough : work net s ≤ fuel) :
    ∃ t, net.dijkstra wrap fuel s = some t := by
  refine dijkstra_ends (work net) (fun s top rest between queue => ?_) h enough
  obtain ⟨live, _, below, dist⟩ := between.top_exact costs queue
  have popped : work net { s with pq := rest } + 1 = work net s := by
    simp only [work, queue, List.length_cons, label]
    omega
  have scanned : work net (net.scan wrap top.2 { s with pq := rest }) ≤ work net { s with pq := rest } :=
    (between.pop queue).scan_work wf costs fits dist below fun l member => ⟨live, member⟩
  exact ⟨between.iterate wf costs fits queue, by omega⟩

/-- A router with a lower label than `v` keeps its way back when `v` gets a new predecessor. -/
theorem Rooted.update (labels : Labels net this s) (falling : ∀ p ∈ net.allRouterPtrs, s.nextHop p ≠ NULL →
    label net s (s.nextHop p) ≤ label net s p) {p v : Ptr} (h : Rooted s.nextHop this p)
    (live : p ∈ net.allRouterPtrs) (below : label net s p < label net s v) :
    Rooted (Function.update s.nextHop v node) this p := by
  induction h with
  | here => exact .here
  | @step p other set _ ih =>
      have apart : p ≠ v := by
        rintro rfl
        exact lt_irrefl _ below
      have kept : Function.update s.nextHop v node p = s.nextHop p := Function.update_of_ne apart _ _
      obtain ⟨_, _, _, _, link, _⟩ := labels.pred p live set
      refine .step other (kept ▸ set) ?_
      rw [kept]
      exact ih link.1 ((falling p live set).trans_lt below)

/-- A way back that runs through `v` goes on through its new predecessor. -/
theorem Rooted.redirect {f : Ptr → Ptr} {p v : Ptr} (h : Rooted f this p) (notThis : v ≠ this)
    (notNull : node ≠ NULL) (onwards : Rooted (Function.update f v node) this node) :
    Rooted (Function.update f v node) this p := by
  induction h with
  | here => exact .here
  | @step p apart set _ ih =>
      by_cases same : p = v
      · subst same
        refine .step notThis ?_ ?_
        · rw [Function.update_self]
          exact notNull
        · rw [Function.update_self]
          exact onwards
      · refine .step apart ?_ ?_
        · rw [Function.update_of_ne same]
          exact set
        · rw [Function.update_of_ne same]
          exact ih

theorem Grounded.rooted_of_near (h : Grounded net this s) (labels : Labels net this s)
    (live : node ∈ net.allRouterPtrs) (near : label net s node < 100000) : Rooted s.nextHop this node := by
  by_cases same : node = this
  · subst same
    exact .here
  · refine h.rooted node live fun unset => ?_
    rcases (labels.unset node live).mp unset with eq | far
    · exact same eq
    · omega

theorem Grounded.improve (h : Grounded net this s) (labels : Labels net this s) (wf : WellFormed net)
    {s' : Search} {v : Ptr} {w : Int} (cost : 0 ≤ w) (bound : label net s node < 100000) (link : net.Link node v w)
    (step : Improves net node v (label net s node + w) s s') (start : 0 ≤ label net s node) :
    Grounded net this s' := by
  have live := wf.links _ _ _ link
  have less := step.less
  have lower : label net s node < label net s v := by omega
  have other : node ≠ v := by
    rintro rfl
    exact lt_irrefl _ lower
  have notThis : v ≠ this := by
    rintro rfl
    rw [labels.start] at less
    omega
  have notNull : node ≠ NULL := fun same => wf.notNull (same ▸ link.1)
  have onwards : Rooted (Function.update s.nextHop v node) this node :=
    (h.rooted_of_near labels link.1 bound).update labels h.falling link.1 lower
  constructor
  · intro p live'
    rw [step.nextHop]
    by_cases same : p = v
    · subst same
      rw [Function.update_self, step.lowered, step.others node link.1 other]
      intro _
      omega
    · rw [Function.update_of_ne same, step.others p live' same]
      intro set
      obtain ⟨_, _, _, _, link', _⟩ := labels.pred p live' set
      exact (step.le link'.1).trans (h.falling p live' set)
  · rw [step.nextHop]
    intro p live' set
    by_cases same : p = v
    · subst same
      refine .step notThis set ?_
      rw [Function.update_self]
      exact onwards
    · rw [Function.update_of_ne same] at set
      exact (h.rooted p live' set).redirect notThis notNull onwards

theorem Grounded.relax {d : Int} {v : Ptr} {w : Int} (h : Grounded net this s)
    (scanning : Scanning net this node d s ((v, w) :: rest)) (wf : WellFormed net) (costs : Nonneg net.Link)
    (fits : Fits wrap net this) (dist : IsDist net.Link this node d) (bound : d < 100000)
    (link : net.Link node v w) : Grounded net this (net.relax wrap node s (v, w)) := by
  have cost := costs _ _ _ link
  have start := dist.nonneg costs
  have same := scanning.label_eq
  subst same
  rcases scanning.relax_cases wf costs fits dist bound link with ⟨_, unchanged⟩ | step
  · rw [unchanged]
    exact h
  · exact h.improve scanning.labels wf cost bound link step start

theorem Grounded.scan {d : Int} (h : Grounded net this s) (scanning : Scanning net this node d s rest)
    (wf : WellFormed net) (costs : Nonneg net.Link) (fits : Fits wrap net this)
    (dist : IsDist net.Link this node d) (bound : d < 100000) (links : ∀ l ∈ rest, net.Link node l.1 l.2) :
    Grounded net this (rest.foldl (net.relax wrap node) s) := by
  induction rest generalizing s with
  | nil => exact h
  | cons l rest ih =>
      have link := links l List.mem_cons_self
      exact ih (h.relax scanning wf costs fits dist bound link)
        (scanning.relax wf costs fits dist bound link).1
        fun l member => links l (List.mem_cons_of_mem _ member)

/-- The predecessors lead back to the source at the end of the loop too. -/
theorem Grounded.dijkstra (h : Grounded net this s) (between : Between net this s) (wf : WellFormed net)
    (costs : Nonneg net.Link) (fits : Fits wrap net this) {fuel : Nat} {t : Search}
    (done : net.dijkstra wrap fuel s = some t) : Grounded net this t := by
  have kept : ∀ s top rest, Grounded net this s ∧ Between net this s → s.pq = top :: rest →
      Grounded net this (net.scan wrap top.2 { s with pq := rest }) ∧
        Between net this (net.scan wrap top.2 { s with pq := rest }) := by
    rintro s top rest ⟨grounded, between⟩ queue
    obtain ⟨live, _, below, dist⟩ := between.top_exact costs queue
    have popped : Grounded net this { s with pq := rest } := ⟨grounded.falling, grounded.rooted⟩
    refine ⟨?_, between.iterate wf costs fits queue⟩
    exact popped.scan (between.pop queue) wf costs fits dist below fun l member => ⟨live, member⟩
  exact (dijkstra_invariant kept ⟨h, between⟩ done).1.1

theorem dijkstra_mono {fuel more : Nat} {t : Search} (done : net.dijkstra wrap fuel s = some t)
    (le : fuel ≤ more) : net.dijkstra wrap more s = some t := by
  induction fuel generalizing s more with
  | zero =>
      cases queue : s.pq with
      | nil => rwa [dijkstra_empty queue] at done ⊢
      | cons top rest => exact absurd (dijkstra_zero queue ▸ done) (by simp)
  | succ fuel ih =>
      cases queue : s.pq with
      | nil => rwa [dijkstra_empty queue] at done ⊢
      | cons top rest =>
          obtain ⟨n, rfl⟩ : ∃ n, more = n + 1 := ⟨more - 1, by omega⟩
          rw [dijkstra_succ queue] at done ⊢
          exact ih done (by omega)

end Loop

section Climb
variable {net : Network} {this : Ptr} {nextHop : Ptr → Ptr}

theorem climb_mono {fuel more : Nat} {temp hop : Ptr} (done : net.climb this nextHop fuel temp = some hop)
    (le : fuel ≤ more) : net.climb this nextHop more temp = some hop := by
  induction fuel generalizing temp more with
  | zero =>
      unfold climb at done ⊢
      split_ifs at done ⊢ with neighbor
      exact done
  | succ fuel ih =>
      obtain ⟨n, rfl⟩ : ∃ n, more = n + 1 := ⟨more - 1, by omega⟩
      unfold climb at done ⊢
      split_ifs at done ⊢ with neighbor
      · exact done
      · exact ih done (by omega)

/-- The climb from a router with a way back ends at a neighbour of the source. -/
theorem climb_total {s : Search} (labels : Labels net this s) {temp : Ptr} (h : Rooted s.nextHop this temp)
    (live : temp ∈ net.allRouterPtrs) (other : temp ≠ this) :
    ∃ fuel hop, net.climb this (net.fillNull s.nextHop) fuel temp = some hop := by
  induction h with
  | here => exact absurd rfl other
  | @step p _ set _ ih =>
      obtain ⟨_, w, _, _, link, _⟩ := labels.pred p live set
      by_cases neighbor : p ∈ net.neighborsSet this
      · refine ⟨0, p, ?_⟩
        unfold climb
        exact if_pos neighbor
      · have back : s.nextHop p ≠ this := by
          intro same
          refine neighbor (List.mem_map.mpr ⟨(p, w), ?_, rfl⟩)
          exact same ▸ link.2
        obtain ⟨fuel, hop, ends⟩ := ih link.1 back
        refine ⟨fuel + 1, hop, ?_⟩
        have filled : net.fillNull s.nextHop p = s.nextHop p := if_neg fun unset => set unset.2
        unfold climb
        rw [if_neg neighbor]
        dsimp only
        rw [filled]
        exact ends

theorem tableEntry_total {s : Search} (labels : Labels net this s) (grounded : Grounded net this s) {dest : Ptr}
    (live : dest ∈ net.allRouterPtrs) :
    ∀ᶠ fuel in Filter.atTop, ∃ hop, net.tableEntry fuel this (net.fillNull s.nextHop) dest = some hop := by
  by_cases climbs : dest ≠ net.fillNull s.nextHop dest ∧ net.fillNull s.nextHop dest ≠ this
  · have set : s.nextHop dest ≠ NULL := by
      intro unset
      exact climbs.1 (if_pos ⟨live, unset⟩).symm
    have filled : net.fillNull s.nextHop dest = s.nextHop dest := if_neg fun unset => set unset.2
    obtain ⟨_, _, _, _, link, _⟩ := labels.pred dest live set
    have rooted : Rooted s.nextHop this (s.nextHop dest) := by
      cases grounded.rooted dest live set with
      | here =>
          have self := (labels.unset this live).mpr (.inl rfl)
          exact absurd self set
      | step _ _ rest => exact rest
    obtain ⟨fuel, hop, ends⟩ := climb_total labels rooted link.1 (filled ▸ climbs.2)
    filter_upwards [Filter.eventually_ge_atTop fuel] with more le
    refine ⟨hop, ?_⟩
    unfold tableEntry
    rw [if_pos climbs, filled]
    exact climb_mono ends le
  · refine Filter.Eventually.of_forall fun fuel => ?_
    unfold tableEntry
    rw [if_neg climbs]
    split_ifs
    · exact ⟨_, rfl⟩
    · exact ⟨_, rfl⟩

theorem foldlM_total {entry : Nat → Ptr → Option Ptr} (id : Ptr → Int) {ps : List Ptr}
    (total : ∀ p ∈ ps, ∀ᶠ fuel in Filter.atTop, ∃ e, entry fuel p = some e) :
    ∀ᶠ fuel in Filter.atTop, ∀ table : Int → Option Ptr, ∃ table',
      ps.foldlM (fun t p => do return Function.update t (id p) (some (← entry fuel p))) table = some table' := by
  induction ps with
  | nil => exact Filter.Eventually.of_forall fun _ table => ⟨table, rfl⟩
  | cons p ps ih =>
      filter_upwards [total p List.mem_cons_self, ih fun q member => total q (List.mem_cons_of_mem _ member)]
        with fuel ⟨e, got⟩ rest table
      obtain ⟨table', built⟩ := rest (Function.update table (id p) (some e))
      refine ⟨table', ?_⟩
      simpa only [List.foldlM_cons, got, Option.bind_eq_bind, Option.bind_some, Option.pure_def] using built

end Climb

section Tables
variable {wrap : Int → Int} {net : Network} {this : Ptr}

theorem table_total (wf : WellFormed net) (costs : Nonneg net.Link) (fits : Fits wrap net this)
    (live : this ∈ net.allRouterPtrs) :
    ∀ᶠ fuel in Filter.atTop, ∃ s table, net.dijkstra wrap fuel (net.initial this) = some s ∧
      net.buildTable fuel this (net.fillNull s.nextHop) = some table := by
  have start := initial_between wf live
  obtain ⟨s, found⟩ := start.dijkstra_total wf costs fits (le_refl (work net (net.initial this)))
  have grounded : Grounded net this s := by
    refine Grounded.dijkstra ⟨?_, ?_⟩ start wf costs fits found
    · exact fun _ _ set => absurd rfl set
    · exact fun _ _ set => absurd rfl set
  have labels := (start.dijkstra wf costs fits found).1.labels
  have entries := foldlM_total net.getRouterID fun p (member : p ∈ net.allRouterPtrs) =>
    tableEntry_total labels grounded member
  filter_upwards [Filter.eventually_ge_atTop (work net (net.initial this)), entries] with fuel le built
  obtain ⟨table, done⟩ := built fun _ => none
  exact ⟨s, table, dijkstra_mono found le, done⟩

/-- Networks with the same links have their tables computed with the same fuel. -/
theorem updateRoutingTable_total {fuel : Nat} (wf : WellFormed net) (live : this ∈ net.allRouterPtrs) (total : ∃ s table,
      net.dijkstra wrap fuel (net.initial this) = some s ∧
      net.buildTable fuel this (net.fillNull s.nextHop) = some table)
    {net' : Network} (same : SameLinks net net') :
    ∃ net'', net'.updateRoutingTable wrap fuel this = some net'' ∧ SameLinks net net'' := by
  obtain ⟨s, table, found, built⟩ := total
  have found' : net'.dijkstra wrap fuel (net'.initial this) = some s := by
    rw [same.sameLive.initial live, same.sameLive.dijkstra wf (initial_queued live), found]
  have built' : net'.buildTable fuel this (net'.fillNull s.nextHop) = some table := by
    rw [same.sameLive.buildTable live, built]
  refine ⟨net'.setRouter this { net'.heap this with routingTable := table }, ?_, ?_⟩
  · simp only [updateRoutingTable, found', built', Option.bind_eq_bind, Option.bind_some, Option.pure_def]
  · exact same.trans (sameLinks_setTable this table)

theorem updateList_total {fuel : Nat} {ps : List Ptr} (wf : WellFormed net)
    (live : ∀ p ∈ ps, p ∈ net.allRouterPtrs) (total : ∀ p ∈ ps, ∃ s table,
      net.dijkstra wrap fuel (net.initial p) = some s ∧
      net.buildTable fuel p (net.fillNull s.nextHop) = some table)
    {net' : Network} (same : SameLinks net net') :
    ∃ net'', ps.foldlM (fun net p => net.updateRoutingTable wrap fuel p) net' = some net'' := by
  induction ps generalizing net' with
  | nil => exact ⟨net', rfl⟩
  | cons p ps ih =>
      obtain ⟨mid, first, same'⟩ :=
        updateRoutingTable_total wf (live p List.mem_cons_self) (total p List.mem_cons_self) same
      obtain ⟨net'', rest⟩ := ih (fun q member => live q (List.mem_cons_of_mem _ member))
        (fun q member => total q (List.mem_cons_of_mem _ member)) same'
      exact ⟨net'', by simp only [List.foldlM_cons, first, Option.bind_eq_bind, Option.bind_some, rest]⟩

theorem updateAll_total (wf : WellFormed net) (costs : Nonneg net.Link)
    (fits : ∀ p ∈ net.allRouterPtrs, Fits wrap net p) : ∃ fuel net', net.updateAll wrap fuel = some net' := by
  have all : ∀ᶠ fuel in Filter.atTop, ∀ p ∈ net.allRouterPtrs.toFinset, ∃ s table,
      net.dijkstra wrap fuel (net.initial p) = some s ∧
      net.buildTable fuel p (net.fillNull s.nextHop) = some table := by
    refine (Filter.eventually_all_finset _).mpr fun p member => ?_
    have live := List.mem_toFinset.mp member
    exact table_total wf costs (fits p live) live
  obtain ⟨fuel, total⟩ := all.exists
  have total' := fun p live => total p (List.mem_toFinset.mpr live)
  exact ⟨fuel, updateList_total wf (fun _ live => live) total' (.refl net)⟩

end Tables
end NetworkOs.Ospf
