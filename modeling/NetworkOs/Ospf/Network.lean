import Mathlib

/-! The routers of the link-state simulation, their routing tables, and the path
query. Every `int` result goes through `wrap`, the reduction into the type's range. -/
namespace NetworkOs.Ospf

abbrev Ptr := Nat

def NULL : Ptr := 0

/-- A missing key of `routingTable` is `none`; a stored `NULL` says that no path exists. -/
structure Router where
  routerId : Int
  neighbors : List (Ptr × Int)
  routingTable : Int → Option Ptr

/-- The set of live routers, in the order of their addresses, and the heap. -/
structure Network where
  allRouterPtrs : List Ptr
  heap : Ptr → Router

/-- The local variables of the queue loop; `pq` is sorted, its top first. -/
structure Search where
  distance : Int → Int
  nextHop : Ptr → Ptr
  pq : List (Int × Ptr)

/-- The order of the queue's pairs, the greater one on top. -/
def Above (a b : Int × Nat) : Prop := b.1 < a.1 ∨ b.1 = a.1 ∧ b.2 ≤ a.2

instance : DecidableRel Above := fun _ _ => inferInstanceAs (Decidable (_ ∨ _))

namespace Network

def getRouterID (net : Network) (p : Ptr) : Int := (net.heap p).routerId

def setRouter (net : Network) (p : Ptr) (r : Router) : Network :=
  { net with heap := Function.update net.heap p r }

def addNeighbor (net : Network) (p neighbor : Ptr) (weight : Int) : Network :=
  net.setRouter p { net.heap p with neighbors := (net.heap p).neighbors ++ [(neighbor, weight)] }

/-- The first router with this id, `NULL` when there is none. -/
def getRouterByID (net : Network) (id : Int) : Ptr :=
  (net.allRouterPtrs.find? fun p => net.getRouterID p = id).getD NULL

section Arithmetic
variable (wrap : Int → Int) (net : Network)

/-- The body of the loop through the links of `node`. -/
def relax (node : Ptr) (s : Search) (neighbor : Ptr × Int) : Search :=
  let v := net.getRouterID neighbor.1
  let candidate := wrap (s.distance (net.getRouterID node) + neighbor.2)
  if candidate < s.distance v then
    { distance := Function.update s.distance v candidate
      nextHop := Function.update s.nextHop neighbor.1 node
      pq := s.pq.orderedInsert Above (wrap (-candidate), neighbor.1) }
  else s

def scan (node : Ptr) (s : Search) : Search :=
  (net.heap node).neighbors.foldl (net.relax wrap node) s

/-- The queue loop, cut off after `fuel` iterations. -/
def dijkstra : Nat → Search → Option Search
  | fuel, s =>
      match s.pq, fuel with
      | [], _ => some s
      | _ :: _, 0 => none
      | (_, node) :: rest, fuel + 1 => dijkstra fuel (net.scan wrap node { s with pq := rest })

/-- The variables as they enter the queue loop of the router `this`. -/
def initial (this : Ptr) : Search where
  distance := Function.update
    (fun id => if id ∈ net.allRouterPtrs.map net.getRouterID then 100000 else 0) (net.getRouterID this) 0
  nextHop _ := NULL
  pq := [(0, this)]

/-- Every router of the set without a predecessor is made its own. -/
def fillNull (nextHop : Ptr → Ptr) (p : Ptr) : Ptr :=
  if p ∈ net.allRouterPtrs ∧ nextHop p = NULL then p else nextHop p

/-- The `neighbors_set` of `this`. -/
def neighborsSet (this : Ptr) : List Ptr := (net.heap this).neighbors.map Prod.fst

/-- The `while` loop from `temp` up to a neighbour of `this`. -/
def climb (this : Ptr) (nextHop : Ptr → Ptr) : Nat → Ptr → Option Ptr
  | fuel, temp =>
      if temp ∈ net.neighborsSet this then some temp
      else
        match fuel with
        | 0 => none
        | fuel + 1 => climb this nextHop fuel (nextHop temp)

/-- The routing table entry of `this` for `dest`. -/
def tableEntry (fuel : Nat) (this : Ptr) (nextHop : Ptr → Ptr) (dest : Ptr) : Option Ptr :=
  let nh := nextHop dest
  if dest ≠ nh ∧ nh ≠ this then net.climb this nextHop fuel nh
  else if nh = this then some dest
  else some NULL

/-- The entries for all routers, stored under their ids. -/
def buildTable (fuel : Nat) (this : Ptr) (nextHop : Ptr → Ptr) : Option (Int → Option Ptr) :=
  net.allRouterPtrs.foldlM (fun table dest => do
    let entry ← net.tableEntry fuel this nextHop dest
    return Function.update table (net.getRouterID dest) (some entry)) fun _ => none

def updateRoutingTable (fuel : Nat) (this : Ptr) : Option Network := do
  let s ← net.dijkstra wrap fuel (net.initial this)
  let table ← net.buildTable fuel this (net.fillNull s.nextHop)
  return net.setRouter this { net.heap this with routingTable := table }

/-- The loop at the end of `createRouter` and of `deleteRouter`. -/
def updateAll (fuel : Nat) : Option Network :=
  net.allRouterPtrs.foldlM (fun net p => net.updateRoutingTable wrap fuel p) net

/-- One line of input about an incoming link of `new`. -/
def addIncoming (new : Ptr) (net : Network) (line : Int × Int) : Network :=
  let q := net.getRouterByID line.1
  if q = NULL then net else net.addNeighbor q new line.2

def addOutgoing (new : Ptr) (net : Network) (line : Int × Int) : Network :=
  let q := net.getRouterByID line.1
  if q = NULL then net else net.addNeighbor new q line.2

/-- `createRouter`, where `new` is the address the allocation returns and the two
lists are the lines entered for incoming and outgoing links. -/
def createRouter (fuel : Nat) (new : Ptr) (routerId : Int) (incoming outgoing : List (Int × Int)) :
    Option Network :=
  if ∃ p ∈ net.allRouterPtrs, net.getRouterID p = routerId then some net
  else
    let made := net.setRouter new ⟨routerId, [], fun _ => none⟩
    let linked := outgoing.foldl (addOutgoing new) (incoming.foldl (addIncoming new) made)
    updateAll wrap { linked with allRouterPtrs := linked.allRouterPtrs.orderedInsert (· ≤ ·) new } fuel

/-- Every link to `gone` is erased, except from `gone` itself. -/
def dropLinks (gone : Ptr) : Network :=
  { net with heap := fun p =>
      if p ∈ net.allRouterPtrs ∧ p ≠ gone then
        { net.heap p with neighbors := (net.heap p).neighbors.filter fun l => l.1 ≠ gone }
      else net.heap p }

def deleteRouter (fuel : Nat) (del : Int) : Option Network :=
  match net.allRouterPtrs.find? fun p => net.getRouterID p = del with
  | none => some net
  | some gone =>
      let linked := net.dropLinks gone
      updateAll wrap { linked with allRouterPtrs := linked.allRouterPtrs.erase gone } fuel

end Arithmetic

/-- The line of `printRoutingTable` for the destination `dest`: the id of the next hop,
`none` for "Path does not exist". There is no line for the router itself. -/
def printedLine (net : Network) (p : Ptr) (dest : Int) : Option (Option Int) :=
  if dest = net.getRouterID p then none
  else ((net.heap p).routingTable dest).map fun hop => if hop = NULL then none else some (net.getRouterID hop)

/-- The map `numtoptrs` that `main` builds for the query. -/
def numtoptrs (net : Network) (id : Int) : Ptr := net.getRouterByID id

end Network

inductive PathResult where
  | returned (v : List Ptr)
  | nullDereference
deriving DecidableEq, Repr

namespace Network

/-- The loop of `findPath`, at `temp` with the routers `v` collected so far. Reading
a missing entry of a routing table stores `NULL` in it. -/
def walk (m : Int → Ptr) (finish : Int) :
    Nat → Int → List Ptr → Network → Option (PathResult × Network)
  | fuel, temp, v, net =>
      if temp = finish then some (.returned v, net)
      else if m temp = NULL then some (.nullDereference, net)
      else
        match (net.heap (m temp)).routingTable finish with
        | none =>
            some (.returned [], net.setRouter (m temp) { net.heap (m temp) with
              routingTable := Function.update (net.heap (m temp)).routingTable finish (some NULL) })
        | some hop =>
            if hop = NULL then some (.returned [], net)
            else
              match fuel with
              | 0 => none
              | fuel + 1 => walk m finish fuel (net.getRouterID hop) (v ++ [m temp]) net

def findPath (fuel : Nat) (start finish : Int) (m : Int → Ptr) (net : Network) :
    Option (PathResult × Network) :=
  if start = finish then some (.returned [m start], net)
  else walk m finish fuel start [] net

end Network

/-- The networks that calls of `createRouter` and `deleteRouter` lead to. An
allocation returns any address that no live router has. -/
inductive Reachable (wrap : Int → Int) : Network → Prop where
  | start (heap : Ptr → Router) : Reachable wrap ⟨[], heap⟩
  | create {net net' : Network} {fuel : Nat} {new : Ptr} {routerId : Int}
      {incoming outgoing : List (Int × Int)} (before : Reachable wrap net) (notNull : new ≠ NULL)
      (fresh : new ∉ net.allRouterPtrs)
      (done : net.createRouter wrap fuel new routerId incoming outgoing = some net') :
      Reachable wrap net'
  | delete {net net' : Network} {fuel : Nat} {del : Int} (before : Reachable wrap net)
      (done : net.deleteRouter wrap fuel del = some net') : Reachable wrap net'

end NetworkOs.Ospf
