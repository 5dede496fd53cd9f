import NetworkOs.Library.NegativeCycles
import NetworkOs.Ospf.Updates

/-! The queue loop with weights of any sign and with sums of any kind. Nothing is known
of the order in which routers leave the queue, but every label is that of a walk, and a
router whose links are not relaxed is still queued. With exact sums the loop ends unless
a walk from the source can get lighter and lighter. -/
namespace NetworkOs.Ospf
open Network Relation

/-- A router that is reached with some label passes one on over a link. -/
def Network.Step (wrap : Int → Int) (net : Network) (a b : Ptr × Int) : Prop :=
  ∃ w, net.Link a.1 b.1 w ∧ b.2 = wrap (a.2 + w) ∧ b.2 < 100000

/-- What holds of labels, queue and predecessors at every point of the loop. -/
structure Roaming (wrap : Int → Int) (net : Network) (this : Ptr) (s : Search) : Prop where
  live : this ∈ net.allRouterPtrs
  start : label net s this ≤ 0
  upper : ∀ p ∈ net.allRouterPtrs, label net s p ≤ 100000
  derived : ∀ p ∈ net.allRouterPtrs, label net s p < 100000 →
    ReflTransGen (net.Step wrap) (this, 0) (p, label net s p)
  queued : ∀ e ∈ s.pq, e.2 ∈ net.allRouterPtrs ∧ label net s e.2 < 100000
  unset : ∀ p ∈ net.allRouterPtrs, p ≠ this → (s.nextHop p = NULL ↔ label net s p = 100000)
  pred : ∀ p ∈ net.allRouterPtrs, s.nextHop p ≠ NULL → ∃ w, net.Link (s.nextHop p) p w

/-- A router with a label is queued or its links are relaxed, up to the links `rest` of
the node that is being scanned. -/
def Awaiting (wrap : Int → Int) (net : Network) (s : Search) (node : Ptr) (rest : List (Ptr × Int)) : Prop :=
  ∀ x ∈ net.allRouterPtrs, label net s x < 100000 → (∃ k, (k, x) ∈ s.pq) ∨
    ∀ l ∈ (net.heap x).neighbors, label net s l.1 ≤ wrap (label net s x + l.2) ∨ x = node ∧ l ∈ rest

/-- A relaxation that lowers the label of `v` to `d`. -/
structure Lowers (net : Network) (node v : Ptr) (d : Int) (s s' : Search) : Prop where
  less : d < label net s v
  lowered : label net s' v = d
  others : ∀ p ∈ net.allRouterPtrs, p ≠ v → label net s' p = label net s p
  nextHop : s'.nextHop = Function.update s.nextHop v node
  pq : ∃ k, s'.pq = s.pq.orderedInsert Above (k, v)

section Loop
variable {wrap : Int → Int} {net : Network} {this node v : Ptr} {w d : Int} {s s' : Search}
  {rest : List (Ptr × Int)}

theorem relax_lowers (wrap : Int → Int) (s : Search) (wf : WellFormed net) (link : net.Link node v w) :
    label net s v ≤ wrap (label net s node + w) ∧ net.relax wrap node s (v, w) = s ∨
      Lowers net node v (wrap (label net s node + w)) s (net.relax wrap node s (v, w)) := by
  by_cases less : wrap (label net s node + w) < label net s v
  · right
    have taken : net.relax wrap node s (v, w) =
        { distance := Function.update s.distance (net.getRouterID v) (wrap (label net s node + w))
          nextHop := Function.update s.nextHop v node
          pq := s.pq.orderedInsert Above (wrap (-wrap (label net s node + w)), v) } := if_pos less
    rw [taken]
    refine ⟨less, by simp [label], ?_, rfl, _, rfl⟩
    intro p live other
    have distinct : net.getRouterID p ≠ net.getRouterID v := fun same =>
      other (wf.ids p live v (wf.links _ _ _ link) same)
    simp [label, distinct]
  · exact .inl ⟨not_lt.mp less, if_neg less⟩

theorem Lowers.le (h : Lowers net node v d s s') {p : Ptr} (live : p ∈ net.allRouterPtrs) :
    label net s' p ≤ label net s p := by
  by_cases same : p = v
  · subst same
    rw [h.lowered]
    exact h.less.le
  · exact (h.others p live same).le

theorem Lowers.queued (h : Lowers net node v d s s') :
    (∃ k, (k, v) ∈ s'.pq) ∧ (∀ e ∈ s.pq, e ∈ s'.pq) ∧ ∀ e ∈ s'.pq, e.2 = v ∨ e ∈ s.pq := by
  obtain ⟨k, queue⟩ := h.pq
  simp only [queue, List.mem_orderedInsert]
  exact ⟨⟨k, .inl rfl⟩, fun e old => .inr old, fun e member => member.imp_left fun same => by rw [same]⟩

theorem Roaming.lower (h : Roaming wrap net this s) (wf : WellFormed net) (link : net.Link node v w)
    (below : label net s node < 100000) (step : Lowers net node v (wrap (label net s node + w)) s s') :
    Roaming wrap net this s' := by
  have live := wf.links _ _ _ link
  have bound := step.less.trans_le (h.upper v live)
  have nodeSet : node ≠ NULL := fun same => wf.notNull (same ▸ link.1)
  refine ⟨h.live, (step.le h.live).trans h.start, ?_, ?_, ?_, ?_, ?_⟩
  · exact fun p member => (step.le member).trans (h.upper p member)
  · intro p member near
    by_cases same : p = v
    · subst same
      exact (h.derived node link.1 below).tail ⟨w, link, step.lowered, near⟩
    · rw [step.others p member same] at near ⊢
      exact h.derived p member near
  · intro e member
    rcases step.queued.2.2 e member with rfl | old
    · exact ⟨live, step.lowered.trans_lt bound⟩
    · exact ⟨(h.queued e old).1, (step.le (h.queued e old).1).trans_lt (h.queued e old).2⟩
  · intro p member other
    rw [step.nextHop]
    by_cases same : p = v
    · subst same
      rw [Function.update_self, step.lowered]
      exact iff_of_false nodeSet bound.ne
    · rw [Function.update_of_ne same, step.others p member same]
      exact h.unset p member other
  · intro p member
    rw [step.nextHop]
    by_cases same : p = v
    · subst same
      rw [Function.update_self]
      exact fun _ => ⟨w, link⟩
    · rw [Function.update_of_ne same]
      exact h.pred p member

theorem Awaiting.lower (h : Awaiting wrap net s node rest) (wf : WellFormed net) (step : Lowers net node v d s s') :
    Awaiting wrap net s' node rest := by
  intro x live below
  by_cases same : x = v
  · subst same
    exact .inl step.queued.1
  · rw [step.others x live same] at below ⊢
    rcases h x live below with ⟨k, queued⟩ | relaxed
    · exact .inl ⟨k, step.queued.2.1 _ queued⟩
    · refine .inr fun l member => (relaxed l member).imp_left fun bound => ?_
      exact (step.le (wf.links x l.1 l.2 ⟨live, member⟩)).trans bound

theorem Awaiting.drop (h : Awaiting wrap net s node ((v, w) :: rest))
    (relaxed : (∃ k, (k, node) ∈ s.pq) ∨ label net s v ≤ wrap (label net s node + w)) :
    Awaiting wrap net s node rest := by
  intro x live below
  rcases h x live below with queued | links
  · exact .inl queued
  · by_cases again : x = node ∧ ∃ k, (k, node) ∈ s.pq
    · exact .inl (again.1 ▸ again.2)
    · refine .inr fun l member => ?_
      rcases links l member with done | ⟨rfl, waiting⟩
      · exact .inl done
      · rcases List.mem_cons.mp waiting with rfl | later
        · exact .inl (relaxed.resolve_left fun queued => again ⟨rfl, queued⟩)
        · exact .inr ⟨rfl, later⟩

/-- One pass through the body of the loop through the links. -/
theorem Roaming.relax (h : Roaming wrap net this s) (wf : WellFormed net) (link : net.Link node v w)
    (below : label net s node < 100000) (awaiting : Awaiting wrap net s node ((v, w) :: rest)) :
    Roaming wrap net this (net.relax wrap node s (v, w)) ∧
      Awaiting wrap net (net.relax wrap node s (v, w)) node rest ∧
      label net (net.relax wrap node s (v, w)) node < 100000 := by
  rcases relax_lowers wrap s wf link with ⟨relaxed, unchanged⟩ | step
  · rw [unchanged]
    exact ⟨h, awaiting.drop (.inr relaxed), below⟩
  · refine ⟨h.lower wf link below step, (awaiting.lower wf step).drop ?_, (step.le link.1).trans_lt below⟩
    by_cases same : node = v
    · -- a link from the node to itself puts the node back into the queue
      exact .inl (same ▸ step.queued.1)
    · rw [step.lowered, step.others node link.1 same]
      exact .inr le_rfl

theorem Roaming.scan (h : Roaming wrap net this s) (wf : WellFormed net) (below : label net s node < 100000)
    (awaiting : Awaiting wrap net s node rest) (links : ∀ l ∈ rest, net.Link node l.1 l.2) :
    Roaming wrap net this (rest.foldl (net.relax wrap node) s) ∧
      Awaiting wrap net (rest.foldl (net.relax wrap node) s) node [] := by
  induction rest generalizing s with
  | nil => exact ⟨h, awaiting⟩
  | cons l rest ih =>
      obtain ⟨roaming, left, near⟩ := h.relax wf (links l List.mem_cons_self) below awaiting
      exact ih roaming near left fun l' member => links l' (List.mem_cons_of_mem _ member)

/-- The router on top leaves the queue with all its links to go. -/
theorem Awaiting.pop (h : Awaiting wrap net s NULL []) {k : Int} {queue : List (Int × Ptr)}
    (top : s.pq = (k, node) :: queue) : Awaiting wrap net { s with pq := queue } node (net.heap node).neighbors := by
  intro x live below
  by_cases same : x = node
  · exact .inr fun l member => .inr ⟨same, same ▸ member⟩
  · refine (h x live below).imp ?_ fun links l member => ?_
    · rintro ⟨k', queued⟩
      rw [top] at queued
      exact ⟨k', (List.mem_cons.mp queued).resolve_left fun eq => same (Prod.mk.inj eq).2⟩
    · exact .inl ((links l member).resolve_right (by simp))

theorem Roaming.pop (h : Roaming wrap net this s) {k : Int} {queue : List (Int × Ptr)}
    (top : s.pq = (k, node) :: queue) :
    Roaming wrap net this { s with pq := queue } ∧ node ∈ net.allRouterPtrs ∧ label net s node < 100000 := by
  have front := h.queued (k, node) (top ▸ List.mem_cons_self)
  refine ⟨⟨h.live, h.start, h.upper, h.derived, ?_, h.unset, h.pred⟩, front⟩
  exact fun e member => h.queued e (top ▸ List.mem_cons_of_mem _ member)

theorem Roaming.iterate (h : Roaming wrap net this s) (wf : WellFormed net) (awaiting : Awaiting wrap net s NULL [])
    {k : Int} {queue : List (Int × Ptr)} (top : s.pq = (k, node) :: queue) :
    Roaming wrap net this (net.scan wrap node { s with pq := queue }) ∧
      Awaiting wrap net (net.scan wrap node { s with pq := queue }) NULL [] := by
  obtain ⟨popped, live, below⟩ := h.pop top
  obtain ⟨roaming, left⟩ := popped.scan wf below (awaiting.pop top) fun l member => ⟨live, member⟩
  refine ⟨roaming, fun x member near => (left x member near).imp_right fun links l listed => ?_⟩
  exact .inl ((links l listed).resolve_right (by simp))

theorem Roaming.dijkstra (h : Roaming wrap net this s) (wf : WellFormed net) (awaiting : Awaiting wrap net s NULL [])
    {fuel : Nat} {t : Search} (done : net.dijkstra wrap fuel s = some t) :
    Roaming wrap net this t ∧ Awaiting wrap net t NULL [] ∧ t.pq = [] := by
  have kept : ∀ s top rest, Roaming wrap net this s ∧ Awaiting wrap net s NULL [] → s.pq = top :: rest →
      Roaming wrap net this (net.scan wrap top.2 { s with pq := rest }) ∧
        Awaiting wrap net (net.scan wrap top.2 { s with pq := rest }) NULL [] :=
    fun _ _ _ both queue => both.1.iterate wf both.2 queue
  obtain ⟨⟨roaming, left⟩, empty⟩ := dijkstra_invariant kept ⟨h, awaiting⟩ done
  exact ⟨roaming, left, empty⟩

theorem initial_label (wf : WellFormed net) (live : this ∈ net.allRouterPtrs) {p : Ptr}
    (member : p ∈ net.allRouterPtrs) : label net (net.initial this) p = if p = this then 0 else 100000 := by
  by_cases same : p = this
  · simp [label, initial, same]
  · have distinct : net.getRouterID p ≠ net.getRouterID this := fun eq => same (wf.ids p member this live eq)
    have listed : net.getRouterID p ∈ net.allRouterPtrs.map net.getRouterID := List.mem_map_of_mem member
    simp only [label, initial, Function.update_of_ne distinct, listed, if_true, same, if_false]

theorem initial_roaming (wrap : Int → Int) (wf : WellFormed net) (live : this ∈ net.allRouterPtrs) :
    Roaming wrap net this (net.initial this) ∧ Awaiting wrap net (net.initial this) NULL [] := by
  have self : label net (net.initial this) this = 0 := by rw [initial_label wf live live, if_pos rfl]
  refine ⟨⟨live, self.le, ?_, ?_, ?_, ?_, fun p _ set => absurd rfl set⟩, ?_⟩
  · intro p member
    rw [initial_label wf live member]
    split_ifs <;> decide
  · intro p member near
    rw [initial_label wf live member] at near ⊢
    split_ifs at near ⊢ with same
    · exact same ▸ .refl
    · exact absurd near (lt_irrefl _)
  · intro e member
    obtain rfl := List.mem_singleton.mp member
    exact ⟨live, by rw [self]; decide⟩
  · intro p member other
    rw [initial_label wf live member, if_neg other]
    exact iff_of_true rfl rfl
  · intro p member near
    rw [initial_label wf live member] at near
    split_ifs at near with same
    · exact .inl ⟨0, same ▸ List.mem_singleton.mpr rfl⟩
    · exact absurd near (lt_irrefl _)

/-- When the queue is empty no label can be lowered any more. -/
theorem Awaiting.relaxed (h : Awaiting wrap net s NULL []) (empty : s.pq = []) (link : net.Link node v w)
    (below : label net s node < 100000) : label net s v ≤ wrap (label net s node + w) := by
  have links := (h node link.1 below).resolve_left (by simp [empty])
  exact (links (v, w) link.2).resolve_right (by simp)

end Loop
end NetworkOs.Ospf
