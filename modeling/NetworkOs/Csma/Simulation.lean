import Mathlib

/-! The simulation of CSMA/CA. A node is identified by its place in the vector, as the
source numbers the nodes, and `int` values are exact. The values of `std::rand` are a
stream, of which the state counts the values drawn. -/
namespace NetworkOs.Csma

/-- The parameters for which no step divides by zero or shifts beyond an `int`.
`transmits r` is the test `r < transmissionProab*100` for `r` of `rand()%100`. -/
structure Parameters where
  maxBackoff : Nat
  maxtransmissionTime : Nat
  backoffChannelBusy : Nat
  rand : Nat → Nat
  transmits : Nat → Bool
  maxBackoff_le : maxBackoff ≤ 30
  maxtransmissionTime_pos : 0 < maxtransmissionTime
  backoffChannelBusy_pos : 0 < backoffChannelBusy

structure Node where
  backoffInterval : Nat
  collisionCount : Nat
  successfulTransmissions : Nat
  istransmitting : Bool
  collisionsBeforeSuccess : List Nat
  timeBeforeSuccess : List Nat
deriving DecidableEq, Repr

namespace Node

/-- `Node(nodeId)`, which leaves `istransmitting` as it finds it. -/
def new (istransmitting : Bool) : Node := ⟨0, 0, 0, istransmitting, [], []⟩

def performBackoff (maxBackoff random : Nat) (node : Node) : Node :=
  { node with backoffInterval := random % min (2 ^ node.collisionCount) (2 ^ maxBackoff) + 1 }

def performBusyBackoff (backoffChannelBusy random : Nat) (node : Node) : Node :=
  { node with backoffInterval := random % backoffChannelBusy + 1 }

def attemptTransmission (node : Node) : Bool := node.backoffInterval = 0

/-- `node.istransmitting = node.transmittingProbability()`. -/
def drawTransmission (transmits : Nat → Bool) (random : Nat) (node : Node) : Node :=
  { node with istransmitting := transmits (random % 100) }

/-- The test that precedes a transmission. -/
def ready (node : Node) : Bool := node.attemptTransmission && node.istransmitting

/-- `if(node.backoffInterval>0) node.backoffInterval--`. -/
def countDown (node : Node) : Node :=
  if 0 < node.backoffInterval then { node with backoffInterval := node.backoffInterval - 1 } else node

def countCollision (node : Node) : Node := { node with collisionCount := node.collisionCount + 1 }

def recordSuccess (collisions time : Nat) (node : Node) : Node :=
  { node with
    collisionsBeforeSuccess := node.collisionsBeforeSuccess ++ [collisions]
    timeBeforeSuccess := node.timeBeforeSuccess ++ [time]
    successfulTransmissions := node.successfulTransmissions + 1 }

end Node

/-- The variables of `simulateCSMA`; `channelbusynode` is `none` for `-1`. -/
structure Sim (n : Nat) where
  nodes : Fin n → Node
  countcollisions : Fin n → Nat
  channelbusynode : Option (Fin n)
  transmissionTime : Nat
  channelBusy : Bool
  transmissionTimer : Nat
  globalCollisionCounter : Nat
  drawn : Nat

section Loops
variable {n : Nat} (p : Parameters)

def Sim.modify (f : Node → Node) (k : Fin n) (s : Sim n) : Sim n :=
  { s with nodes := Function.update s.nodes k (f (s.nodes k)) }

/-- A call of a node's method that draws a value. -/
def Sim.modifyDrawing (f : Nat → Node → Node) (k : Fin n) (s : Sim n) : Sim n :=
  { s.modify (f (p.rand s.drawn)) k with drawn := s.drawn + 1 }

/-- `transmissionTime = (std::rand()%maxtransmissionTime)+2`. -/
def Sim.drawTransmissionTime (s : Sim n) : Sim n :=
  { s with transmissionTime := p.rand s.drawn % p.maxtransmissionTime + 2, drawn := s.drawn + 1 }

def start (istransmitting : Fin n → Bool) : Sim n :=
  Sim.drawTransmissionTime p {
    nodes k := .new (istransmitting k)
    countcollisions _ := 0
    channelbusynode := none
    transmissionTime := 0
    channelBusy := false
    transmissionTimer := 0
    globalCollisionCounter := 0
    drawn := 0 }

/-- The draw of one node at the start of a slot. -/
def drawNode (s : Sim n) (k : Fin n) : Sim n :=
  if (s.nodes k).istransmitting then s else s.modifyDrawing p (Node.drawTransmission p.transmits) k

def draws (s : Sim n) : Sim n := (List.finRange n).foldl (drawNode p) s

def busyNode (s : Sim n) (k : Fin n) : Sim n :=
  if s.channelbusynode ≠ some k ∧ (s.nodes k).attemptTransmission then
    if (s.nodes k).istransmitting then s.modifyDrawing p (Node.performBusyBackoff p.backoffChannelBusy) k else s
  else s.modify Node.countDown k

/-- The end of a transmission. -/
def finishTransmission (s : Sim n) : Sim n :=
  if s.transmissionTimer = s.transmissionTime then
    Sim.drawTransmissionTime p { s with transmissionTimer := 0, channelBusy := false }
  else s

def busySlot (s : Sim n) : Sim n :=
  finishTransmission p
    ((List.finRange n).foldl (busyNode p) { s with transmissionTimer := s.transmissionTimer + 1 })

/-- One iteration of the loop over the other nodes, with the collisions found so far. -/
def checkCollision (k : Fin n) (found : Sim n × Nat) (other : Fin n) : Sim n × Nat :=
  if k ≠ other ∧ (found.1.nodes other).ready then
    let s := found.1
    let counted := { s with
      countcollisions := Function.update s.countcollisions other (s.countcollisions other + 1) }
    ((counted.modify Node.countCollision other).modifyDrawing p (Node.performBackoff p.maxBackoff) other,
      found.2 + 1)
  else found

def succeed (time : Nat) (k : Fin n) (s : Sim n) : Sim n :=
  let drawn := s.modifyDrawing p (Node.drawTransmission p.transmits) k
  { drawn.modify (Node.recordSuccess (s.countcollisions k) time) k with
    countcollisions := Function.update s.countcollisions k 0
    channelBusy := true
    channelbusynode := some k
    transmissionTimer := s.transmissionTimer + 1 }

def collide (k : Fin n) (s : Sim n) : Sim n :=
  let counted := { s with
    countcollisions := Function.update s.countcollisions k (s.countcollisions k + 1)
    globalCollisionCounter := s.globalCollisionCounter + 1 }
  (counted.modify Node.countCollision k).modifyDrawing p (Node.performBackoff p.maxBackoff) k

def idleNode (time : Nat) (s : Sim n) (k : Fin n) : Sim n :=
  if (s.nodes k).ready then
    let found := (List.finRange n).foldl (checkCollision p k) (s, 0)
    if found.2 = 0 then succeed p time k found.1 else collide p k found.1
  else s.modify Node.countDown k

def idleSlot (time : Nat) (s : Sim n) : Sim n := (List.finRange n).foldl (idleNode p time) s

def slot (time : Nat) (s : Sim n) : Sim n :=
  let s := draws p s
  if s.channelBusy then busySlot p s else idleSlot p time s

/-- The state after this many slots, and so at the start of the slot of this number. -/
def simulateCSMA (istransmitting : Fin n → Bool) : Nat → Sim n
  | 0 => start p istransmitting
  | time + 1 => slot p time (simulateCSMA istransmitting time)

end Loops
end NetworkOs.Csma
