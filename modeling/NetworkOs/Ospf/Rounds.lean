import NetworkOs.Ospf.Session

/-! What each round of a session does to the routers in memory and to the routes, and when a
round ends. -/
namespace NetworkOs.Ospf
open ShortestPath Network

section Memory
variable {wrap : Int → Int} {net net' : Network} {heap : Ptr → Router} {input : List Int} {s t : Session} {fuel : Nat}
  {new : Ptr}

/-- Every router that was allocated is in the set or has been freed, once for each time. -/
def Session.Accounted (s : Session) : Prop := s.allocated.Perm (s.freed ++ s.net.allRouterPtrs)

theorem created_perm (wf : WellFormed net) (notNull : new ≠ NULL) (fresh : new ∉ net.allRouterPtrs) {routerId : Int}
    {incoming outgoing : List (Int × Int)} (unused : ∀ p ∈ net.allRouterPtrs, net.getRouterID p ≠ routerId)
    (done : net.createRouter wrap fuel new routerId incoming outgoing = some net') :
    net'.allRouterPtrs.Perm (new :: net.allRouterPtrs) := by
  rw [createRouter_unused unused] at done
  have same := (updateAll_spec (linked_wellFormed wf notNull fresh unused incoming outgoing) done).1
  have making := ((setRouter_making wf new routerId).addIncoming incoming).addOutgoing outgoing
  rw [same.routers]
  change (List.orderedInsert (· ≤ ·) new _).Perm _
  rw [making.routers]
  exact List.perm_orderedInsert (· ≤ ·) new _

theorem deleted_perm (wf : WellFormed net) {del : Int} {gone : Ptr}
    (found : net.allRouterPtrs.find? (fun p => net.getRouterID p = del) = some gone)
    (done : net.deleteRouter wrap fuel del = some net') : net.allRouterPtrs.Perm (gone :: net'.allRouterPtrs) := by
  rw [deleteRouter_found found] at done
  rw [(updateAll_spec (unlinked_wellFormed wf gone) done).1.routers]
  exact List.perm_cons_erase (List.mem_of_find?_eq_some found)

theorem perform_accounted (h : Kept Machine.int32 s.net) (accounted : s.Accounted) (notNull : new ≠ NULL)
    (fresh : new ∉ s.net.allRouterPtrs) {command : Command}
    (done : s.perform Machine.int32 fuel new command = some (.running t)) : t.Accounted := by
  unfold Session.Accounted at accounted ⊢
  cases command with
  | create routerId incoming outgoing =>
      by_cases used : s.net.used routerId = true
      · rw [Session.perform, if_pos used] at done
        obtain rfl := Outcome.running.inj (Option.some.inj done)
        exact accounted
      · rw [Session.perform, if_neg used] at done
        obtain ⟨net, made, eq⟩ := Option.map_eq_some_iff.mp done
        obtain rfl := Outcome.running.inj eq
        have unused : ∀ p ∈ s.net.allRouterPtrs, s.net.getRouterID p ≠ routerId := fun p live same =>
          used (List.any_eq_true.mpr ⟨p, live, decide_eq_true same⟩)
        have routers := created_perm h.wf notNull fresh unused made
        exact ((accounted.cons new).trans List.perm_middle.symm).trans (routers.symm.append_left s.freed)
  | findPath start finish =>
      obtain ⟨⟨out, net⟩, found, eq⟩ := Option.map_eq_some_iff.mp done
      have same := (h.findPathOption found).2.routers
      cases out with
      | nullDereference => exact absurd eq (by simp)
      | noPath =>
          obtain rfl := Outcome.running.inj eq
          exact same ▸ accounted
      | path ids =>
          obtain rfl := Outcome.running.inj eq
          exact same ▸ accounted
  | printTables =>
      obtain rfl := Outcome.running.inj (Option.some.inj done)
      exact accounted
  | delete del =>
      cases found : s.net.allRouterPtrs.find? fun p => s.net.getRouterID p = del with
      | none =>
          simp only [Session.perform, found] at done
          obtain rfl := Outcome.running.inj (Option.some.inj done)
          exact accounted
      | some gone =>
          simp only [Session.perform, found] at done
          obtain ⟨net, deleted, eq⟩ := Option.map_eq_some_iff.mp done
          obtain rfl := Outcome.running.inj eq
          have routers := deleted_perm h.wf found deleted
          exact (accounted.trans (routers.append_left s.freed)).trans List.perm_middle
  | exit => exact absurd done (by simp [Session.perform])
  | invalid =>
      obtain rfl := Outcome.running.inj (Option.some.inj done)
      exact accounted

/-- What a round performs, when it gets that far. -/
theorem round_performs {outcome : Outcome} (done : s.round wrap fuel new = some outcome) :
    readCommand s.net.used s.input = none ∧ outcome = .waiting ∨
      ∃ command rest, readCommand s.net.used s.input = some (command, rest) ∧
        ({ s with input := rest } : Session).perform wrap fuel new command = some outcome := by
  unfold Session.round at done
  cases read : readCommand s.net.used s.input with
  | none =>
      simp only [read] at done
      exact .inl ⟨rfl, (Option.some.inj done).symm⟩
  | some pair =>
      simp only [read] at done
      exact .inr ⟨pair.1, pair.2, rfl, done⟩

theorem Session.Run.accounted (run : Session.Run Machine.int32 heap input s) : s.Accounted := by
  induction run with
  | start => exact .refl _
  | @next s t fuel new before notNull fresh done ih =>
      rcases round_performs done with ⟨_, eq⟩ | ⟨command, rest, _, performed⟩
      · exact absurd eq (by simp)
      · exact perform_accounted (s := { s with input := rest }) before.follows.1 ih notNull fresh performed

/-- Only the last option ends the program. -/
theorem perform_exited {command : Command} (done : s.perform wrap fuel new command = some (.exited t)) :
    command = .exit ∧ t = { s with freed := s.net.allRouterPtrs.reverse ++ s.freed } := by
  cases command with
  | exit => exact ⟨rfl, (Outcome.exited.inj (Option.some.inj done)).symm⟩
  | create routerId incoming outgoing =>
      by_cases used : s.net.used routerId = true
      · rw [Session.perform, if_pos used] at done
        exact absurd done (by simp [Session.print])
      · rw [Session.perform, if_neg used] at done
        obtain ⟨net, _, eq⟩ := Option.map_eq_some_iff.mp done
        exact absurd eq (by simp [Session.print])
  | findPath start finish =>
      obtain ⟨⟨out, net⟩, _, eq⟩ := Option.map_eq_some_iff.mp done
      cases out <;> exact absurd eq (by simp [Session.print])
  | delete del =>
      cases found : s.net.allRouterPtrs.find? fun p => s.net.getRouterID p = del with
      | none =>
          simp only [Session.perform, found] at done
          exact absurd done (by simp [Session.print])
      | some gone =>
          simp only [Session.perform, found] at done
          obtain ⟨net, _, eq⟩ := Option.map_eq_some_iff.mp done
          exact absurd eq (by simp [Session.print])
  | printTables => exact absurd done (by simp [Session.perform, Session.print])
  | invalid => exact absurd done (by simp [Session.perform, Session.print])

/-- An exit frees all routers that are left. -/
theorem exit_frees (accounted : s.Accounted) (done : s.round wrap fuel new = some (.exited t)) :
    t.allocated.Perm t.freed := by
  rcases round_performs done with ⟨_, eq⟩ | ⟨command, rest, _, performed⟩
  · exact absurd eq (by simp)
  · obtain ⟨_, rfl⟩ := perform_exited performed
    change s.allocated.Perm (s.net.allRouterPtrs.reverse ++ s.freed)
    exact accounted.trans (List.perm_append_comm.trans ((List.reverse_perm _).symm.append_right _))

theorem Kept.live (h : Kept wrap net) {p hop : Ptr} (live : p ∈ net.allRouterPtrs) {id : Int}
    (held : (net.heap p).routingTable id = some hop) (set : hop ≠ NULL) : hop ∈ net.allRouterPtrs := by
  by_cases known : id ∈ net.allRouterPtrs.map net.getRouterID
  · exact ((h.current p live).entry ((tidy_sameLinks net).wellFormed h.wf) live).2 id hop ((tidy_table known).trans held) set
  · rcases h.stored p live id known with none_ | null
    · exact absurd (held.symm.trans none_) (by simp)
    · exact absurd (Option.some.inj (held.symm.trans null)) set

/-- With positive weights every query from a router ends. -/
theorem Kept.findPath_total (h : Kept Machine.int32 net) (weighted : Weighted net) (positive : Positive net.Link)
    {p : Ptr} (live : p ∈ net.allRouterPtrs) (finish : Int) :
    ∃ fuel result, net.findPath fuel (net.getRouterID p) finish net.numtoptrs = some result := by
  have same := tidy_sameLinks net
  by_cases other : net.getRouterID p = finish
  · exact ⟨0, _, if_pos other⟩
  by_cases known : finish ∈ net.allRouterPtrs.map net.getRouterID
  · obtain ⟨q, live', rfl⟩ := List.mem_map.mp known
    have apart : p ≠ q := fun same => other (congrArg _ same)
    by_cases near : ∃ d < 100000, IsDist net.Link p q d
    · obtain ⟨d, below, dist⟩ := near
      have weighted' : Weighted net.tidy := weighted.sameLinks same
      obtain ⟨path, _, bound, returns⟩ := findPath_near (same.wellFormed h.wf) h.current (same.link ▸ positive)
        (fun r _ => weighted'.fits r) live live' apart (same.link ▸ dist) below
      have first := (findPath_fst bound _ known).symm.trans (congrArg _ (returns bound le_rfl))
      obtain ⟨result, found, _⟩ := Option.map_eq_some_iff.mp first
      exact ⟨bound, result, found⟩
    · obtain ⟨hop, held, null_iff, _⟩ := h.entry weighted live live' (Ne.symm apart)
      rw [null_iff.mpr near] at held
      obtain ⟨bound, returns⟩ := findPath_null h.wf live live' apart held
      exact ⟨bound, _, returns bound le_rfl⟩
  · obtain ⟨after, found⟩ := h.stops live other known 0
    exact ⟨0, _, found⟩

end Memory

/-- In every session what `new` returned is, once for each time, a router of the set or has gone to
`delete`, and no router of the set points to one that has gone. The exit leaves no router allocated. -/
theorem session_memory {heap : Ptr → Router} {input : List Int} {s : Session}
    (run : Session.Run Machine.int32 heap input s) :
    s.allocated.Perm (s.freed ++ s.net.allRouterPtrs) ∧ s.net.allRouterPtrs.Nodup ∧
      (∀ p ∈ s.net.allRouterPtrs, (∀ l ∈ (s.net.heap p).neighbors, l.1 ∈ s.net.allRouterPtrs) ∧
        ∀ id hop, (s.net.heap p).routingTable id = some hop → hop ≠ NULL → hop ∈ s.net.allRouterPtrs) ∧
      ∀ fuel new t, s.round Machine.int32 fuel new = some (.exited t) → t.allocated.Perm t.freed := by
  have kept := run.follows.1
  have accounted := run.accounted
  refine ⟨accounted, kept.wf.nodup, fun p live => ⟨fun l listed => ?_, fun id hop held set => ?_⟩, ?_⟩
  · exact kept.wf.links p l.1 l.2 ⟨live, listed⟩
  · exact kept.live live held set
  · exact fun fuel new t done => exit_frees accounted done

theorem session_memory_two : ∃ s t, Session.Run Machine.int32 noRouters.heap [1, 1, 0, 0, 1, 2, 1, 1, 3, 0, 4, 1, 5] s ∧
    s.round Machine.int32 5 4 = some (.exited t) ∧ t.allocated.Perm t.freed := by
  let input : List Int := [1, 1, 0, 0, 1, 2, 1, 1, 3, 0, 4, 1, 5]
  have ends : ((Session.start noRouters.heap input).rounds Machine.int32 5 [1, 2, 3]).map
      (fun s => (s.input, s.net.allRouterPtrs)) = some ([5], [2]) := by decide +kernel
  obtain ⟨s, done, eq⟩ := Option.map_eq_some_iff.mp ends
  have run := Session.Run.start.rounds done
  have exits : s.round Machine.int32 5 4 = some (.exited { s with
      input := [], freed := s.net.allRouterPtrs.reverse ++ s.freed }) := by
    unfold Session.round
    rw [(Prod.mk.inj eq).1]
    rfl
  exact ⟨s, _, run, exits, (session_memory run).2.2.2 5 4 _ exits⟩

/-- With positive weights every round ends for which there is enough input. It ends the program
when the exit is chosen, and crashes when a path from an unknown router is asked for. -/
theorem session_goes_on {heap : Ptr → Router} {input : List Int} {s : Session}
    (run : Session.Run Machine.int32 heap input s) (weighted : s.net.topology.Weighted)
    (positive : Positive s.net.topology.link) {command : Command} {rest : List Int}
    (read : readCommand s.net.used s.input = some (command, rest))
    (lines : ∀ routerId incoming outgoing, command = .create routerId incoming outgoing →
      ∀ line ∈ incoming ++ outgoing, 0 ≤ line.2 ∧ line.2 ≤ 2147383648)
    {new : Ptr} (notNull : new ≠ NULL) (fresh : new ∉ s.net.allRouterPtrs) :
    ∃ fuel outcome, s.round Machine.int32 fuel new = some outcome ∧ outcome ≠ .waiting ∧
      (outcome = .crashed ↔ ∃ start finish, command = .findPath start finish ∧ start ∉ s.net.topology.routers) ∧
      ((∃ t, outcome = .exited t) ↔ command = .exit) := by
  have kept := run.follows.1
  have weights := weighted_of_topology weighted
  have enters : ∀ fuel, s.round Machine.int32 fuel new =
      ({ s with input := rest } : Session).perform Machine.int32 fuel new command := by
    intro fuel
    unfold Session.round
    rw [read]
  simp only [enters]
  cases command with
  | create routerId incoming outgoing =>
      by_cases used : s.net.used routerId = true
      · exact ⟨0, _, if_pos used, by simp [Session.print]⟩
      · obtain ⟨fuel, net, made, _⟩ := exact_int32.createRouter kept.wf weights notNull fresh routerId
          (lines routerId incoming outgoing rfl)
        refine ⟨fuel, _, (if_neg used).trans (congrArg (Option.map _) made), by simp [Session.print]⟩
  | findPath start finish =>
      by_cases known : start ∈ s.net.allRouterPtrs.map s.net.getRouterID
      · obtain ⟨p, live, rfl⟩ := List.mem_map.mp known
        obtain ⟨fuel, ⟨r, net⟩, found⟩ := kept.findPath_total weights (positive_of_topology positive) live finish
        have option : s.net.findPathOption fuel (s.net.getRouterID p) finish = some (net.printPath finish r, net) := by
          rw [findPathOption, found, Option.map_some]
        have ran := (findPathOption_sound kept.wf (fun q here id hop held set => kept.live here held set) known option).1
        have router : s.net.getRouterID p ∈ s.net.topology.routers := known
        refine ⟨fuel, _, congrArg (Option.map _) option, ?_⟩
        cases out : net.printPath finish r with
        | nullDereference => exact absurd out ran
        | noPath => simp [Session.print, router]
        | path ids => simp [Session.print, router]
      · have unknown : start ∉ s.net.topology.routers := known
        exact ⟨0, _, congrArg (Option.map _) (findPathOption_unknown known 0), by simp [unknown]⟩
  | printTables => exact ⟨0, _, rfl, by simp [Session.print]⟩
  | delete del =>
      obtain ⟨fuel, net, deleted, _⟩ := exact_int32.deleteRouter kept.wf weights del
      cases found : s.net.allRouterPtrs.find? fun p => s.net.getRouterID p = del with
      | none =>
          simp only [Session.perform, found]
          exact ⟨fuel, _, rfl, by simp [Session.print]⟩
      | some gone =>
          simp only [Session.perform, found]
          exact ⟨fuel, _, congrArg (Option.map _) deleted, by simp [Session.print]⟩
  | exit => exact ⟨0, _, rfl, by simp⟩
  | invalid => exact ⟨0, _, rfl, by simp [Session.print]⟩

/-- After router 1 with a link to router 2 a path from 1 to 2 is asked for. -/
theorem session_goes_on_two : ∃ s, Session.Run Machine.int32 noRouters.heap [1, 1, 0, 0, 1, 2, 1, 1, 3, 0, 2, 1, 2] s ∧
    ∃ fuel outcome, s.round Machine.int32 fuel 3 = some outcome ∧ outcome ≠ .waiting := by
  let input : List Int := [1, 1, 0, 0, 1, 2, 1, 1, 3, 0, 2, 1, 2]
  have ends : ((Session.start noRouters.heap input).rounds Machine.int32 5 [1, 2]).map (fun s =>
      (s.input, s.net.allRouterPtrs, s.net.allRouterPtrs.all fun u =>
        (s.net.heap u).neighbors.all fun l => decide (l.2 = 3))) = some ([2, 1, 2], [1, 2], true) := by decide +kernel
  obtain ⟨s, done, eq⟩ := Option.map_eq_some_iff.mp ends
  obtain ⟨read, eq⟩ := Prod.mk.inj eq
  obtain ⟨routers, three⟩ := Prod.mk.inj eq
  have weights : ∀ i j w, s.net.topology.link i j w → w = 3 := by
    rintro i j w ⟨u, v, link, _, _⟩
    exact of_decide_eq_true (List.all_eq_true.mp (List.all_eq_true.mp three u link.1) (v, w) link.2)
  have run := Session.Run.start.rounds done
  have query : readCommand s.net.used s.input = some (.findPath 1 2, []) := by
    rw [read]
    rfl
  have notNull : (3 : Ptr) ≠ NULL := by decide
  obtain ⟨fuel, outcome, ended, some_, _⟩ := session_goes_on run (fun i j w link => by rw [weights i j w link]; decide)
    (fun i j w link => by rw [weights i j w link]; decide) query nofun notNull (by rw [routers]; decide)
  exact ⟨s, run, fuel, outcome, ended, some_⟩

section Routes
variable {net net' : Network} {fuel : Nat} {i j : Int}

/-- The routing table of `i` shows a next hop to `j`. -/
def Network.Routes (net : Network) (i j : Int) : Prop :=
  ∃ p ∈ net.allRouterPtrs, net.getRouterID p = i ∧ ∃ k, net.printedLine p j = some (some k)

theorem Kept.routes_iff (h : Kept Machine.int32 net) (weighted : net.topology.Weighted) (router : i ∈ net.topology.routers)
    (router' : j ∈ net.topology.routers) (other : j ≠ i) : net.Routes i j ↔ net.topology.InReach i j := by
  constructor
  · rintro ⟨p, live, rfl, k, shown⟩
    by_contra far
    have none_ := (((h.lines live).router weighted j router' other).1 far).symm.trans shown
    exact absurd none_ (by simp)
  · intro near
    obtain ⟨p, live, rfl⟩ := mem_routers.mp router
    obtain ⟨k, shown, _⟩ := ((h.lines live).router weighted j router' other).2 near
    exact ⟨p, live, rfl, k, shown⟩

theorem Topology.InReach.mono {T T' : Topology} (costs : Nonneg T'.link) (h : T.InReach i j)
    (walks : ∀ d, Walk T.link i j d → Walk T'.link i j d) : T'.InReach i j := by
  obtain ⟨d, below, dist⟩ := h
  obtain ⟨e, shorter, dist'⟩ := (walks d dist.walk).exists_isDist costs
  exact ⟨e, shorter.trans_lt below, dist'⟩

end Routes

/-- In every session with weights in range: a creation takes no route away from the routers that
were there, and a deletion gives none to the routers that are left. -/
theorem routes_change_one_way {heap : Ptr → Router} {input : List Int} {s : Session}
    (run : Session.Run Machine.int32 heap input s) {fuel : Nat} {net' : Network} {i j : Int} (other : j ≠ i) :
    (∀ new routerId incoming outgoing, new ≠ NULL → new ∉ s.net.allRouterPtrs →
      s.net.createRouter Machine.int32 fuel new routerId incoming outgoing = some net' → net'.topology.Weighted →
      j ∈ s.net.topology.routers → s.net.Routes i j → net'.Routes i j) ∧
    ∀ del, s.net.deleteRouter Machine.int32 fuel del = some net' → s.net.topology.Weighted →
      j ∈ net'.topology.routers → net'.Routes i j → s.net.Routes i j := by
  have kept := run.follows.1
  constructor
  · intro new routerId incoming outgoing notNull fresh done weighted known route
    have kept' := kept.createRouter notNull fresh done
    have same := createRouter_topology kept.wf notNull fresh done
    have weighted' : s.net.topology.Weighted := fun i j w link => weighted i j w (same ▸ .inl link)
    obtain ⟨p, live, rfl, _⟩ := id route
    have router := mem_routers.mpr ⟨p, live, rfl⟩
    have more : ∀ k ∈ s.net.topology.routers, k ∈ net'.topology.routers := fun k member => same ▸ .inr member
    rw [kept'.routes_iff weighted (more _ router) (more j known) other]
    refine ((kept.routes_iff weighted' router known other).mp route).mono (fun i j w link => (weighted i j w link).1) ?_
    exact fun d walk => same ▸ Topology.walk_create walk
  · intro del done weighted known route
    have kept' := kept.deleteRouter done
    have same := deleteRouter_topology kept.wf done
    have weighted' : net'.topology.Weighted := fun i j w link => weighted i j w (same ▸ link : _ ∧ _).1
    obtain ⟨p, live, rfl, _⟩ := id route
    have router := mem_routers.mpr ⟨p, live, rfl⟩
    have fewer : ∀ k ∈ net'.topology.routers, k ∈ s.net.topology.routers := fun k member => (same ▸ member : _ ∧ _).1
    rw [kept.routes_iff weighted (fewer _ router) (fewer j known) other]
    refine ((kept'.routes_iff weighted' router known other).mp route).mono (fun i j w link => (weighted i j w link).1) ?_
    exact fun d walk => Topology.walk_of_delete (same ▸ walk)

/-- The route from 1 to 2 is still there when router 3 has come with a link from 2. -/
theorem routes_change_one_way_three : ∃ s net', Session.Run Machine.int32 noRouters.heap [1, 1, 0, 0, 1, 2, 1, 1, 3, 0] s ∧
    s.net.createRouter Machine.int32 5 3 3 [(2, 5)] [] = some net' ∧ s.net.Routes 1 2 ∧ net'.Routes 1 2 := by
  let input : List Int := [1, 1, 0, 0, 1, 2, 1, 1, 3, 0]
  have ends : ((Session.start noRouters.heap input).rounds Machine.int32 5 [1, 2]).bind (fun s =>
      (s.net.createRouter Machine.int32 5 3 3 [(2, 5)] []).map fun net' =>
        (s.net.allRouterPtrs, s.net.allRouterPtrs.map s.net.getRouterID, s.net.printedLine 1 2,
          net'.allRouterPtrs.all fun u => (net'.heap u).neighbors.all fun l => decide (0 ≤ l.2 ∧ l.2 ≤ 2147383648))) =
      some ([1, 2], [1, 2], some (some 2), true) := by decide +kernel
  obtain ⟨s, done, created⟩ := Option.bind_eq_some_iff.mp ends
  obtain ⟨net', created, eq⟩ := Option.map_eq_some_iff.mp created
  obtain ⟨routers, eq⟩ := Prod.mk.inj eq
  obtain ⟨ids, eq⟩ := Prod.mk.inj eq
  obtain ⟨line, small⟩ := Prod.mk.inj eq
  have weighted : net'.topology.Weighted := by
    rintro i j w ⟨u, v, link, _, _⟩
    exact of_decide_eq_true (List.all_eq_true.mp (List.all_eq_true.mp small u link.1) (v, w) link.2)
  have one : (1 : Ptr) ∈ s.net.allRouterPtrs := routers ▸ by decide
  have two : (2 : Ptr) ∈ s.net.allRouterPtrs := routers ▸ by decide
  rw [routers] at ids
  obtain ⟨first, second⟩ : s.net.getRouterID 1 = 1 ∧ s.net.getRouterID 2 = 2 := by simpa using ids
  have run := Session.Run.start.rounds done
  have notNull : (3 : Ptr) ≠ NULL := by decide
  have fresh : (3 : Ptr) ∉ s.net.allRouterPtrs := routers ▸ by decide
  have route : s.net.Routes 1 2 := ⟨1, one, first, 2, line⟩
  have known : (2 : Int) ∈ s.net.topology.routers := mem_routers.mpr ⟨2, two, second⟩
  have other : (2 : Int) ≠ 1 := by decide
  exact ⟨s, net', run, created, route,
    (routes_change_one_way run other).1 3 3 [(2, 5)] [] notNull fresh created weighted known route⟩

end NetworkOs.Ospf
