import NetworkOs.Ospf.Tables
import NetworkOs.Ospf.Topology

/-! A whole session against the topology that its commands describe. What the program prints
is determined by the topology, up to the choice between equally short paths. -/
namespace NetworkOs.Ospf
open ShortestPath Network

namespace Topology

/-- Weights that no sum of the queue loop takes out of the range of `int`. -/
def Weighted (T : Topology) : Prop := ∀ i j w, T.link i j w → 0 ≤ w ∧ w ≤ 2147383648

/-- Distances from 100000 on count as infinite. -/
def InReach (T : Topology) (i j : Int) : Prop := ∃ d < 100000, IsDist T.link i j d

/-- `k` is a neighbour of `i`, and a shortest path to `j` leads through it. -/
def OnShortest (T : Topology) (i j k : Int) : Prop :=
  (∃ w, T.link i k w) ∧ ∃ a b, IsDist T.link i k a ∧ IsDist T.link k j b ∧ IsDist T.link i j (a + b)

/-- The lines of a routing table for routers of the topology. Under another id there is none,
or one without a next hop that a query has left. -/
structure Lines (T : Topology) (i : Int) (lines : Int → Option (Option Int)) : Prop where
  self : lines i = none
  other : ∀ j ∉ T.routers, lines j = none ∨ lines j = some none
  router : T.Weighted → ∀ j ∈ T.routers, j ≠ i →
    (¬ T.InReach i j → lines j = some none) ∧
      (T.InReach i j → ∃ k, lines j = some (some k) ∧ T.OnShortest i j k)

/-- A table for each router. -/
structure Blocks (T : Topology) (blocks : List (Int × (Int → Option (Option Int)))) : Prop where
  nodup : (blocks.map Prod.fst).Nodup
  routers : ∀ i, i ∈ blocks.map Prod.fst ↔ i ∈ T.routers
  lines : ∀ block ∈ blocks, T.Lines block.1 block.2

/-- A simple path of links. -/
structure Path (T : Topology) (start finish : Int) (ids : List Int) : Prop where
  start : ids.head? = some start
  finish : ids.getLast? = some finish
  nodup : ids.Nodup
  links : ids.IsChain fun i j => ∃ w, T.link i j w

open Classical in
/-- What may be printed in answer to a command. -/
def Answers (T : Topology) : Command → List Message → Prop
  | .create routerId incoming outgoing, messages => messages =
      if routerId ∈ T.routers then [.sameId]
      else List.replicate ((incoming ++ outgoing).countP fun line => line.1 ∉ T.routers) .neighborNotFound ++
        [.added routerId]
  | .delete del, messages => messages = if del ∈ T.routers then [.deleted del] else [.notFound del]
  | .printTables, messages => ∃ blocks, messages = [.tables blocks] ∧ T.Blocks blocks
  | .findPath start finish, messages => start ∈ T.routers ∧
      (start = finish → messages = [.path start finish [start, finish]]) ∧
      (start ≠ finish → T.Weighted → Positive T.link →
        (T.InReach start finish → ∃ ids, messages = [.path start finish ids] ∧ T.Path start finish ids) ∧
        (¬ T.InReach start finish → messages = [.noPath start finish]))
  | .invalid, messages => messages = [.invalidChoice]
  | .exit, _ => False

def perform (T : Topology) : Command → Topology
  | .create routerId incoming outgoing => T.create routerId incoming outgoing
  | .delete del => T.delete del
  | _ => T

open Classical in
/-- The topologies on the input with what is left of it, and the answers so far. -/
inductive Follows (input : List Int) : Topology → List Int → List Message → Prop where
  | start : Follows input empty input []
  | next {T : Topology} {rest rest' : List Int} {output messages : List Message} {command : Command}
      (before : Follows input T rest output)
      (read : readCommand (fun id => decide (id ∈ T.routers)) rest = some (command, rest'))
      (answers : T.Answers command messages) : Follows input (T.perform command) rest' (output ++ messages)

end Topology

section View
variable {net : Network} {p q : Ptr}

theorem weighted_of_topology (h : net.topology.Weighted) : Weighted net := fun p live l listed =>
  h _ _ l.2 ⟨p, l.1, ⟨live, listed⟩, rfl, rfl⟩

theorem positive_of_topology (h : Positive net.topology.link) : Positive net.Link := fun u v w link =>
  h _ _ w ⟨u, v, link, rfl, rfl⟩

theorem inReach_iff (wf : WellFormed net) (live : p ∈ net.allRouterPtrs) (live' : q ∈ net.allRouterPtrs) :
    net.topology.InReach (net.getRouterID p) (net.getRouterID q) ↔ ∃ d < 100000, IsDist net.Link p q d := by
  simp only [Topology.InReach, isDist_topology_iff wf live live']

theorem onShortest_topology (wf : WellFormed net) (live : p ∈ net.allRouterPtrs) (live' : q ∈ net.allRouterPtrs)
    {hop : Ptr} (h : OnShortest net p q hop) :
    net.topology.OnShortest (net.getRouterID p) (net.getRouterID q) (net.getRouterID hop) := by
  obtain ⟨w, link⟩ := h.neighbor
  obtain ⟨a, b, first, rest, whole⟩ := h.split
  have live'' := wf.links _ _ _ link
  refine ⟨⟨w, p, hop, link, rfl, rfl⟩, a, b, ?_, ?_, ?_⟩
  · exact (isDist_topology_iff wf live live'').mpr first
  · exact (isDist_topology_iff wf live'' live').mpr rest
  · exact (isDist_topology_iff wf live live').mpr whole

theorem used_iff (net : Network) (id : Int) : net.used id = true ↔ id ∈ net.topology.routers := by
  rw [mem_routers, used, List.any_eq_true]
  simp only [decide_eq_true_eq]

/-- The lines printed for one router. -/
theorem Kept.lines (h : Kept Machine.int32 net) (live : p ∈ net.allRouterPtrs) :
    net.topology.Lines (net.getRouterID p) (net.printedLine p) := by
  refine ⟨if_pos rfl, fun j unknown => ?_, fun weighted j router other => ?_⟩
  · have apart : j ≠ net.getRouterID p := by
      rintro rfl
      exact unknown (mem_routers.mpr ⟨p, live, rfl⟩)
    rw [printedLine, if_neg apart]
    rcases h.stored p live j unknown with none_ | null
    · exact .inl (by rw [none_, Option.map_none])
    · exact .inr (by rw [null, Option.map_some, if_pos rfl])
  · obtain ⟨q, live', rfl⟩ := mem_routers.mp router
    obtain ⟨hop, held, null_iff, onShortest⟩ :=
      h.entry (weighted_of_topology weighted) live live' fun same => other (congrArg _ same)
    rw [inReach_iff h.wf live live', printedLine, if_neg other, held, Option.map_some]
    constructor
    · intro far
      rw [if_pos (null_iff.mpr far)]
    · intro near
      have set : hop ≠ NULL := fun null => null_iff.mp null near
      exact ⟨_, by rw [if_neg set], onShortest_topology h.wf live live' (onShortest set)⟩

theorem Kept.blocks (h : Kept Machine.int32 net) : net.topology.Blocks net.printTables := by
  have ids : net.printTables.map Prod.fst = net.allRouterPtrs.map net.getRouterID := by
    rw [printTables, List.map_map]
    rfl
  refine ⟨ids ▸ h.wf.ids_nodup, fun i => by rw [ids]; rfl, fun block member => ?_⟩
  obtain ⟨p, live, rfl⟩ := List.mem_map.mp member
  exact h.lines live

/-- A query for an id that no router has reads one table, and stops there. -/
theorem Kept.stops (h : Kept Machine.int32 net) (live : p ∈ net.allRouterPtrs) {finish : Int}
    (other : net.getRouterID p ≠ finish) (unknown : finish ∉ net.allRouterPtrs.map net.getRouterID) (fuel : Nat) :
    ∃ after, net.findPath fuel (net.getRouterID p) finish net.numtoptrs = some (.returned [], after) := by
  have here : net.numtoptrs (net.getRouterID p) = p := getRouterByID_of_live h.wf live
  have notNull : p ≠ NULL := fun null => h.wf.notNull (null ▸ live)
  unfold findPath
  rw [if_neg other]
  unfold walk
  rw [if_neg other, here, if_neg notNull]
  rcases h.stored p live finish unknown with held | held
  · exact ⟨_, by rw [held]⟩
  · exact ⟨net, by rw [held]; exact if_pos rfl⟩

theorem Kept.noPath (h : Kept Machine.int32 net) (live : p ∈ net.allRouterPtrs) {finish : Int}
    (other : net.getRouterID p ≠ finish) (unknown : finish ∉ net.allRouterPtrs.map net.getRouterID) {fuel : Nat}
    {out : PathOutput} {net' : Network}
    (done : net.findPathOption fuel (net.getRouterID p) finish = some (out, net')) : out = .noPath := by
  obtain ⟨after, found⟩ := h.stops live other unknown fuel
  rw [Network.findPathOption, found, Option.map_some, Option.some.injEq, Prod.mk.injEq] at done
  exact done.1.symm

/-- The answer of the second option. -/
theorem Kept.path (h : Kept Machine.int32 net) {start finish : Int} {fuel : Nat} {out : PathOutput} {net' : Network}
    (done : net.findPathOption fuel start finish = some (out, net')) (ran : out ≠ .nullDereference) :
    start ∈ net.topology.routers ∧ (start = finish → out = .path [start, finish]) ∧
      (start ≠ finish → net.topology.Weighted → Positive net.topology.link →
        (net.topology.InReach start finish → ∃ ids, out = .path ids ∧ net.topology.Path start finish ids) ∧
        (¬ net.topology.InReach start finish → out = .noPath)) := by
  have known : start ∈ net.allRouterPtrs.map net.getRouterID := by
    by_contra unknown
    rw [findPathOption_unknown unknown] at done
    exact ran (Prod.mk.inj (Option.some.inj done)).1.symm
  obtain ⟨p, live, rfl⟩ := List.mem_map.mp known
  refine ⟨known, ?_, fun other weighted positive => ?_⟩
  · rintro rfl
    have here : net.numtoptrs (net.getRouterID p) = p := getRouterByID_of_live h.wf live
    have notNull : p ≠ NULL := fun null => h.wf.notNull (null ▸ live)
    rw [Network.findPathOption, findPath, if_pos rfl, here, Option.map_some, Option.some.injEq, Prod.mk.injEq] at done
    rw [← done.1]
    simp [printPath, printRouters, notNull]
  by_cases knownF : finish ∈ net.allRouterPtrs.map net.getRouterID
  · obtain ⟨q, live', rfl⟩ := List.mem_map.mp knownF
    have apart : p ≠ q := fun same => other (congrArg _ same)
    obtain ⟨near, far⟩ := h.answer (weighted_of_topology weighted) (positive_of_topology positive) live live' apart done
    rw [inReach_iff h.wf live live']
    refine ⟨?_, far⟩
    rintro ⟨d, below, dist⟩
    obtain ⟨path, rfl, head, nodup, routers, chain⟩ := near d below dist
    refine ⟨_, rfl, ?_, ?_, ?_, ?_⟩
    · rw [List.head?_map, head, Option.map_some]
    · simp
    · refine (List.nodup_map_iff_inj_on nodup).mpr fun a first b second same => ?_
      exact h.wf.ids a (routers a first) b (routers b second) same
    · rw [List.isChain_map]
      refine chain.imp ?_
      rintro a b ⟨w, link⟩
      exact ⟨w, a, b, link, rfl, rfl⟩
  · have far : ¬ net.topology.InReach (net.getRouterID p) finish := by
      rintro ⟨d, _, dist⟩
      cases dist.walk with
      | nil => exact other rfl
      | snoc _ last => exact knownF (h.wf.closed _ _ _ last).2
    exact ⟨fun near => absurd near far, fun _ => h.noPath live other knownF done⟩

end View

section Runs
variable {net : Network} {heap : Ptr → Router} {input : List Int} {s t : Session} {fuel : Nat} {new : Ptr}

open Classical in
/-- What one option does to the topology, and what it prints. -/
theorem perform_follows (h : Kept Machine.int32 s.net) (notNull : new ≠ NULL) (fresh : new ∉ s.net.allRouterPtrs)
    {command : Command} (done : s.perform Machine.int32 fuel new command = some (.running t)) :
    Kept Machine.int32 t.net ∧ t.net.topology = s.net.topology.perform command ∧ t.input = s.input ∧
      ∃ messages, t.output = s.output ++ messages ∧ s.net.topology.Answers command messages := by
  cases command with
  | create routerId incoming outgoing =>
      by_cases used : s.net.used routerId = true
      · have known := (used_iff s.net routerId).mp used
        rw [Session.perform, if_pos used] at done
        obtain rfl := Outcome.running.inj (Option.some.inj done)
        exact ⟨h, (Topology.create_used known incoming outgoing).symm, rfl, _, rfl, (if_pos known).symm⟩
      · have unknown : routerId ∉ s.net.topology.routers := fun known => used ((used_iff s.net routerId).mpr known)
        rw [Session.perform, if_neg used] at done
        obtain ⟨net, made, eq⟩ := Option.map_eq_some_iff.mp done
        obtain rfl := Outcome.running.inj eq
        refine ⟨h.createRouter notNull fresh made, createRouter_topology h.wf notNull fresh made, rfl, _, rfl, ?_⟩
        have same : s.net.missing (incoming ++ outgoing) =
            (incoming ++ outgoing).countP fun line => line.1 ∉ s.net.topology.routers := by
          refine List.countP_congr fun line _ => ?_
          simp only [decide_eq_true_eq, getRouterByID_null_iff h.wf]
        rw [same]
        exact (if_neg unknown).symm
  | findPath start finish =>
      obtain ⟨⟨out, net⟩, found, eq⟩ := Option.map_eq_some_iff.mp done
      obtain ⟨kept, same⟩ := h.findPathOption found
      cases out with
      | nullDereference => exact absurd eq (by simp)
      | noPath =>
          obtain rfl := Outcome.running.inj eq
          obtain ⟨known, self, other⟩ := h.path found (by simp)
          refine ⟨kept, same.topology, rfl, _, rfl, known, fun eq => absurd (self eq) (by simp), ?_⟩
          intro apart weighted positive
          obtain ⟨near, _⟩ := other apart weighted positive
          refine ⟨fun reach => ?_, fun _ => rfl⟩
          obtain ⟨ids, eq, _⟩ := near reach
          exact absurd eq (by simp)
      | path ids =>
          obtain rfl := Outcome.running.inj eq
          obtain ⟨known, self, other⟩ := h.path found (by simp)
          refine ⟨kept, same.topology, rfl, _, rfl, known, fun eq => ?_, ?_⟩
          · rw [PathOutput.path.inj (self eq)]
          · intro apart weighted positive
            obtain ⟨near, far⟩ := other apart weighted positive
            refine ⟨fun reach => ?_, fun unreached => absurd (far unreached) (by simp)⟩
            obtain ⟨ids', eq, path⟩ := near reach
            obtain rfl := PathOutput.path.inj eq
            exact ⟨ids, rfl, path⟩
  | printTables =>
      obtain rfl := Outcome.running.inj (Option.some.inj done)
      exact ⟨h, rfl, rfl, _, rfl, _, rfl, h.blocks⟩
  | delete del =>
      cases found : s.net.allRouterPtrs.find? fun p => s.net.getRouterID p = del with
      | none =>
          have unknown : del ∉ s.net.topology.routers := by
            rw [mem_routers]
            rintro ⟨p, live, same⟩
            exact absurd (decide_eq_true same) (List.find?_eq_none.mp found p live)
          simp only [Session.perform, found] at done
          obtain rfl := Outcome.running.inj (Option.some.inj done)
          exact ⟨h, (Topology.delete_unknown h.wf.closed unknown).symm, rfl, _, rfl, (if_neg unknown).symm⟩
      | some gone =>
          have known : del ∈ s.net.topology.routers :=
            mem_routers.mpr ⟨gone, List.mem_of_find?_eq_some found, by simpa using List.find?_some found⟩
          simp only [Session.perform, found] at done
          obtain ⟨net, deleted, eq⟩ := Option.map_eq_some_iff.mp done
          obtain rfl := Outcome.running.inj eq
          exact ⟨h.deleteRouter deleted, deleteRouter_topology h.wf deleted, rfl, _, rfl, (if_pos known).symm⟩
  | exit => exact absurd done (by simp [Session.perform])
  | invalid =>
      obtain rfl := Outcome.running.inj (Option.some.inj done)
      exact ⟨h, rfl, rfl, _, rfl, rfl⟩

open Classical in
theorem round_follows (h : Kept Machine.int32 s.net) (notNull : new ≠ NULL) (fresh : new ∉ s.net.allRouterPtrs)
    (done : s.round Machine.int32 fuel new = some (.running t)) : Kept Machine.int32 t.net ∧
      ∃ command messages, readCommand (fun id => decide (id ∈ s.net.topology.routers)) s.input = some (command, t.input) ∧
        t.net.topology = s.net.topology.perform command ∧ t.output = s.output ++ messages ∧
        s.net.topology.Answers command messages := by
  have used : s.net.used = fun id => decide (id ∈ s.net.topology.routers) := by
    funext id
    rw [Bool.eq_iff_iff, used_iff, decide_eq_true_eq]
  unfold Session.round at done
  cases read : readCommand s.net.used s.input with
  | none => simp [read] at done
  | some pair =>
      obtain ⟨command, rest⟩ := pair
      simp only [read] at done
      obtain ⟨kept, topology, input, messages, output, answers⟩ :=
        perform_follows (s := { s with input := rest }) h notNull fresh done
      exact ⟨kept, command, messages, by rw [← used, read, input], topology, output, answers⟩

theorem Session.Run.follows (run : Session.Run Machine.int32 heap input s) :
    Kept Machine.int32 s.net ∧ Topology.Follows input s.net.topology s.input s.output := by
  induction run with
  | start =>
      refine ⟨⟨⟨List.not_mem_nil, List.nodup_nil, nofun, nofun⟩, nofun, nofun, nofun⟩, ?_⟩
      have empty : (Session.start heap input).net.topology = .empty := by
        refine Topology.ext ?_ ?_
        · ext i
          simp [Network.topology, Session.start, Topology.empty]
        · funext i j w
          simp [Network.topology, Session.start, Topology.empty, Network.Link]
      rw [empty]
      exact .start
  | next _ notNull fresh done ih =>
      obtain ⟨kept, command, messages, read, topology, output, answers⟩ := round_follows ih.1 notNull fresh done
      rw [topology, output]
      exact ⟨kept, .next ih.2 read answers⟩

end Runs

/-- Whatever the user enters and wherever the routers lie in memory: what a session prints, round
after round, answers its commands on the topology that the commands so far have made. -/
theorem session_follows {heap : Ptr → Router} {input : List Int} {s : Session}
    (run : Session.Run Machine.int32 heap input s) : Topology.Follows input s.net.topology s.input s.output :=
  run.follows.2

/-- Router 1, router 2 with a link from 1 and one from an unknown router, the tables, a path. -/
theorem session_follows_two : ∃ s, Session.Run Machine.int32 noRouters.heap [1, 1, 0, 0, 1, 2, 2, 1, 3, 9, 4, 0, 3, 2, 1, 2] s ∧
    s.input = [] ∧ s.output.length = 5 ∧
      Topology.Follows [1, 1, 0, 0, 1, 2, 2, 1, 3, 9, 4, 0, 3, 2, 1, 2] s.net.topology s.input s.output := by
  let input : List Int := [1, 1, 0, 0, 1, 2, 2, 1, 3, 9, 4, 0, 3, 2, 1, 2]
  have ends : ((Session.start noRouters.heap input).rounds Machine.int32 5 [1, 2, 3, 3]).map
      (fun s => (s.input, s.output.length)) = some ([], 5) := by decide +kernel
  obtain ⟨s, done, eq⟩ := Option.map_eq_some_iff.mp ends
  obtain ⟨read, printed⟩ := Prod.mk.inj eq
  have run := Session.Run.start.rounds done
  exact ⟨s, run, read, printed, session_follows run⟩

end NetworkOs.Ospf
