import NetworkOs.Ospf.Queries

/-! The Find Path option of `main`: the query and the printing of its result. A `NULL` that
is dereferenced can only be the one that the map of ids has for an unknown start. -/
namespace NetworkOs.Ospf
open ShortestPath Network

inductive PathOutput where
  | path (ids : List Int)
  | noPath
  | nullDereference
deriving DecidableEq, Repr

namespace Network

/-- The loop that prints the routers of the path, `none` at a `NULL` among them. -/
def printRouters (net : Network) : List Ptr → Option (List Int)
  | [] => some []
  | router :: path => if router = NULL then none else (printRouters net path).map (net.getRouterID router :: ·)

/-- What is printed for the result of `findPath`; behind the ids of a path comes `finish`. -/
def printPath (net : Network) (finish : Int) : PathResult → PathOutput
  | .nullDereference => .nullDereference
  | .returned path =>
      if path.isEmpty then .noPath
      else ((net.printRouters path).map fun ids => PathOutput.path (ids ++ [finish])).getD .nullDereference

/-- The second option of the menu. -/
def findPathOption (net : Network) (fuel : Nat) (start finish : Int) : Option (PathOutput × Network) :=
  (net.findPath fuel start finish net.numtoptrs).map fun result =>
    (result.2.printPath finish result.1, result.2)

end Network

/-- The networks that the options of the menu lead to, path queries among them. -/
inductive Visited (wrap : Int → Int) : Network → Prop where
  | start (heap : Ptr → Router) : Visited wrap ⟨[], heap⟩
  | create {net net' : Network} {fuel : Nat} {new : Ptr} {routerId : Int}
      {incoming outgoing : List (Int × Int)} (before : Visited wrap net) (notNull : new ≠ NULL)
      (fresh : new ∉ net.allRouterPtrs)
      (done : net.createRouter wrap fuel new routerId incoming outgoing = some net') : Visited wrap net'
  | delete {net net' : Network} {fuel : Nat} {del : Int} (before : Visited wrap net)
      (done : net.deleteRouter wrap fuel del = some net') : Visited wrap net'
  | query {net net' : Network} {fuel : Nat} {start finish : Int} {out : PathOutput} (before : Visited wrap net)
      (done : net.findPathOption fuel start finish = some (out, net')) (ran : out ≠ .nullDereference) :
      Visited wrap net'

/-- What a table names is `NULL` or a router of the set. -/
def LiveEntries (net : Network) : Prop :=
  ∀ p ∈ net.allRouterPtrs, ∀ id hop, (net.heap p).routingTable id = some hop → hop ≠ NULL → hop ∈ net.allRouterPtrs

/-- A query from a router: it returns routers of the set, and what it stores is `NULL`. -/
structure Sound (net : Network) (r : PathResult) (net' : Network) : Prop where
  returned : ∃ path, r = .returned path ∧ ∀ q ∈ path, q ∈ net.allRouterPtrs
  links : SameLinks net net'
  entries : LiveEntries net'

section Query
variable {wrap : Int → Int} {net net' : Network} {start finish : Int} {r : PathResult} {s temp : Ptr}

theorem numtoptrs_unknown (unknown : start ∉ net.allRouterPtrs.map net.getRouterID) :
    net.numtoptrs start = NULL := by
  by_contra found
  have live := getRouterByID_live found
  cases held : net.allRouterPtrs.find? fun q => net.getRouterID q = start with
  | none =>
      refine found ?_
      rw [numtoptrs, getRouterByID, held]
      rfl
  | some q =>
      have same : net.getRouterID q = start := by simpa using List.find?_some held
      exact unknown (same ▸ List.mem_map_of_mem (List.mem_of_find?_eq_some held))

theorem LiveEntries.store (entries : LiveEntries net) (p : Ptr) (id : Int) :
    LiveEntries (net.setRouter p { net.heap p with
      routingTable := Function.update (net.heap p).routingTable id (some NULL) }) := by
  intro q live id' hop held notNull
  by_cases same : q = p
  · subst same
    simp only [setRouter, Function.update_self] at held
    by_cases key : id' = id
    · subst key
      rw [Function.update_self] at held
      exact absurd (Option.some.inj held).symm notNull
    · rw [Function.update_of_ne key] at held
      exact entries q live id' hop held notNull
  · simp only [setRouter, Function.update_of_ne same] at held
    exact entries q live id' hop held notNull

/-- All that one round of the walk can do at a router. -/
theorem walk_cases {m : Int → Ptr} {fuel : Nat} {id : Int} {v : List Ptr} (known : m id ≠ NULL)
    (done : walk m finish fuel id v net = some (r, net')) :
    (r = .returned v ∧ net' = net) ∨ (r = .returned [] ∧ (net' = net ∨
      net' = net.setRouter (m id) { net.heap (m id) with
        routingTable := Function.update (net.heap (m id)).routingTable finish (some NULL) })) ∨
      ∃ hop less, (net.heap (m id)).routingTable finish = some hop ∧ hop ≠ NULL ∧ fuel = less + 1 ∧
        walk m finish less (net.getRouterID hop) (v ++ [m id]) net = some (r, net') := by
  by_cases arrived : id = finish
  · subst arrived
    rw [walk_done] at done
    obtain ⟨rfl, rfl⟩ := Prod.mk.inj (Option.some.inj done)
    exact .inl ⟨rfl, rfl⟩
  cases held : (net.heap (m id)).routingTable finish with
  | none =>
      unfold walk at done
      rw [if_neg arrived, if_neg known] at done
      simp only [held] at done
      obtain ⟨rfl, rfl⟩ := Prod.mk.inj (Option.some.inj done)
      exact .inr (.inl ⟨rfl, .inr rfl⟩)
  | some hop =>
      by_cases null : hop = NULL
      · rw [walk_null fuel v arrived known (null ▸ held)] at done
        obtain ⟨rfl, rfl⟩ := Prod.mk.inj (Option.some.inj done)
        exact .inr (.inl ⟨rfl, .inl rfl⟩)
      · cases fuel with
        | zero =>
            unfold walk at done
            simp [arrived, known, held, null] at done
        | succ less =>
            rw [walk_hop less v arrived known held null] at done
            exact .inr (.inr ⟨hop, less, rfl, null, rfl, done⟩)

theorem sound_empty (h : SameLinks net net') (entries : LiveEntries net') : Sound net (.returned []) net' :=
  ⟨⟨[], rfl, fun _ member => absurd member List.not_mem_nil⟩, h, entries⟩

/-- The walk goes from router to router, and ends at `finish` or where a table has `NULL`. -/
theorem walk_sound (wf : WellFormed net) (entries : LiveEntries net) {fuel : Nat} (live : temp ∈ net.allRouterPtrs)
    {v : List Ptr} (collected : ∀ q ∈ v, q ∈ net.allRouterPtrs)
    (done : walk net.numtoptrs finish fuel (net.getRouterID temp) v net = some (r, net')) : Sound net r net' := by
  induction fuel using Nat.strong_induction_on generalizing temp v with
  | h fuel ih =>
      have here : net.numtoptrs (net.getRouterID temp) = temp := getRouterByID_of_live wf live
      have known : net.numtoptrs (net.getRouterID temp) ≠ NULL := by
        rw [here]
        exact fun null => wf.notNull (null ▸ live)
      have round := walk_cases known done
      rw [here] at round
      rcases round with ⟨rfl, rfl⟩ | ⟨rfl, rfl | rfl⟩ | ⟨hop, less, held, set, rfl, rest⟩
      · exact ⟨⟨v, rfl, collected⟩, .refl _, entries⟩
      · exact sound_empty (.refl _) entries
      · exact sound_empty (sameLinks_setTable temp _) (entries.store temp finish)
      · refine ih less (Nat.lt_succ_self less) (entries temp live finish hop held set) ?_ rest
        intro q member
        rcases List.mem_append.mp member with old | last
        · exact collected q old
        · exact List.mem_singleton.mp last ▸ live

theorem findPath_sound (wf : WellFormed net) (entries : LiveEntries net) (live : s ∈ net.allRouterPtrs) {fuel : Nat}
    (done : net.findPath fuel (net.getRouterID s) finish net.numtoptrs = some (r, net')) : Sound net r net' := by
  unfold findPath at done
  split_ifs at done with same
  · obtain ⟨rfl, rfl⟩ := Prod.mk.inj (Option.some.inj done)
    have here : net.numtoptrs (net.getRouterID s) = s := getRouterByID_of_live wf live
    exact ⟨⟨_, rfl, by simp [here, live]⟩, .refl _, entries⟩
  · exact walk_sound wf entries live (fun _ member => absurd member List.not_mem_nil) done

/-- With an unknown start the first round dereferences `NULL`, or `NULL` is the path. -/
theorem findPath_unknown (unknown : start ∉ net.allRouterPtrs.map net.getRouterID) (fuel : Nat) :
    net.findPath fuel start finish net.numtoptrs =
      some (if start = finish then .returned [NULL] else .nullDereference, net) := by
  have missing := numtoptrs_unknown unknown
  unfold findPath
  split_ifs with same
  · rw [missing]
  · unfold walk
    rw [if_neg same, if_pos missing]

theorem printRouters_eq {path : List Ptr} (set : NULL ∉ path) :
    net.printRouters path = some (path.map net.getRouterID) := by
  induction path with
  | nil => rfl
  | cons router path ih =>
      rw [List.mem_cons, not_or] at set
      rw [printRouters, if_neg (Ne.symm set.1), ih set.2]
      rfl

theorem printPath_returned {path : List Ptr} (set : NULL ∉ path) :
    net.printPath finish (.returned path) ≠ .nullDereference := by
  rw [printPath, printRouters_eq set]
  split_ifs <;> simp

theorem findPathOption_unknown (unknown : start ∉ net.allRouterPtrs.map net.getRouterID) (fuel : Nat) :
    net.findPathOption fuel start finish = some (.nullDereference, net) := by
  rw [findPathOption, findPath_unknown unknown]
  split_ifs <;> rfl

theorem findPathOption_sound (wf : WellFormed net) (entries : LiveEntries net)
    (known : start ∈ net.allRouterPtrs.map net.getRouterID) {fuel : Nat} {out : PathOutput}
    (done : net.findPathOption fuel start finish = some (out, net')) :
    out ≠ .nullDereference ∧ SameLinks net net' ∧ LiveEntries net' := by
  obtain ⟨s, live, rfl⟩ := List.mem_map.mp known
  obtain ⟨⟨r, after⟩, found, same⟩ := Option.map_eq_some_iff.mp done
  obtain ⟨rfl, rfl⟩ := Prod.mk.inj same
  obtain ⟨⟨path, rfl, routers⟩, links, entries'⟩ := findPath_sound wf entries live found
  exact ⟨printPath_returned fun null => wf.notNull (routers NULL null), links, entries'⟩

end Query

section Runs
variable {wrap : Int → Int} {net : Network}

theorem Current.liveEntries (current : Current wrap net) (wf : WellFormed net) : LiveEntries net :=
  fun p live => ((current p live).entry wf live).2

/-- What the options of the menu keep. A query stores entries that no table computes, so
the tables need not be `Current`. -/
theorem Visited.invariant (h : Visited wrap net) : WellFormed net ∧ LiveEntries net := by
  induction h with
  | start heap => exact ⟨(show Reachable wrap _ from .start heap).invariant.1, fun p live => absurd live List.not_mem_nil⟩
  | @create net net' fuel new routerId incoming outgoing _ notNull fresh done ih =>
      obtain ⟨rfl, _⟩ | ⟨unused, updated⟩ := createRouter_cases done
      · exact ih
      · obtain ⟨-, wf, current⟩ := updateAll_spec (linked_wellFormed ih.1 notNull fresh unused incoming outgoing) updated
        exact ⟨wf, current.liveEntries wf⟩
  | delete _ done ih =>
      obtain ⟨rfl, _⟩ | ⟨gone, _, _, updated⟩ := deleteRouter_cases done
      · exact ih
      · obtain ⟨-, wf, current⟩ := updateAll_spec (unlinked_wellFormed ih.1 gone) updated
        exact ⟨wf, current.liveEntries wf⟩
  | @query net net' fuel start finish out _ done ran ih =>
      by_cases known : start ∈ net.allRouterPtrs.map net.getRouterID
      · obtain ⟨-, links, entries⟩ := findPathOption_sound ih.1 ih.2 known done
        exact ⟨links.wellFormed ih.1, entries⟩
      · rw [findPathOption_unknown known] at done
        exact absurd (Prod.mk.inj (Option.some.inj done)).1.symm ran

theorem Reachable.visited (h : Reachable wrap net) : Visited wrap net := by
  induction h with
  | start heap => exact .start heap
  | create _ notNull fresh done ih => exact .create ih notNull fresh done
  | delete _ done ih => exact .delete ih done

end Runs

/-- Wherever the menu has led, and for every finish, the query and the printing of its
result dereference no `NULL` exactly when the start is the id of a router. -/
theorem findPathOption_safe_iff {wrap : Int → Int} {net : Network} (visited : Visited wrap net) (start finish : Int) :
    (∀ fuel out net', net.findPathOption fuel start finish = some (out, net') → out ≠ .nullDereference) ↔
      start ∈ net.allRouterPtrs.map net.getRouterID := by
  obtain ⟨wf, entries⟩ := visited.invariant
  constructor
  · intro safe
    by_contra unknown
    exact safe 0 _ net (findPathOption_unknown unknown 0) rfl
  · exact fun known fuel out net' done => (findPathOption_sound wf entries known done).1

theorem findPathOption_safe_iff_chain : ∃ net, createAll Machine.int32 20 chain noRouters = some net ∧
    ((∀ fuel out net', net.findPathOption fuel 1 3 = some (out, net') → out ≠ .nullDereference) ↔
      1 ∈ net.allRouterPtrs.map net.getRouterID) := by
  obtain ⟨net, made, reachable, _⟩ := chain_network
  exact ⟨net, made, findPathOption_safe_iff reachable.visited 1 3⟩

/-- In the chain of three routers a path from 7 to 1 is asked for. -/
theorem unknown_start_dereferences_null :
    ¬ ∀ net, Visited Machine.int32 net → Positive net.Link → ∀ start finish fuel out net',
      net.findPathOption fuel start finish = some (out, net') → out ≠ .nullDereference := by
  intro claim
  obtain ⟨net, _, reachable, _, ids, _, one⟩ := chain_network
  have positive : Positive net.Link := fun u v w link => by rw [one u v w link]; decide
  have unknown : (7 : Int) ∉ net.allRouterPtrs.map net.getRouterID := ids ▸ by decide
  exact claim net reachable.visited positive 7 1 0 _ net (findPathOption_unknown unknown 0) rfl

end NetworkOs.Ospf
