import NetworkOs.Library.Machine
import NetworkOs.Library.Sweep

/-! The simulation of CSMA/CA with the arithmetic of `int`. An operation without a defined
result leaves any value, and the state keeps the calls of `performBackoff`. The counters
are exact: a run has fewer slots than an `int` can count. -/
namespace NetworkOs.Csma.Integers
open Machine

/-- `rand` is the stream of `std::rand`, and `undefined` what an operation leaves that has
no defined result. -/
structure Parameters where
  maxBackoff : Nat
  maxtransmissionTime : Int
  backoffChannelBusy : Int
  rand : Nat → Int
  transmits : Int → Bool
  undefined : Nat → Int
  maxBackoff_le : maxBackoff ≤ 30
  backoffChannelBusy_pos : 1 ≤ backoffChannelBusy
  backoffChannelBusy_le : backoffChannelBusy ≤ intMax
  rand_nonneg : ∀ i, 0 ≤ rand i
  rand_le : ∀ i, rand i ≤ intMax

structure Node where
  backoffInterval : Int
  collisionCount : Nat
  successfulTransmissions : Nat
  istransmitting : Bool
  collisionsBeforeSuccess : List Nat
  timeBeforeSuccess : List Nat
deriving DecidableEq

/-- `(std::rand() % std::min((1 << collisionCount), 1 << maxBackoff))+1`. -/
def backoff (maxBackoff collisionCount : Nat) (random : Int) : Option Int := do
  let own ← shiftOne collisionCount
  let most ← shiftOne maxBackoff
  let rest ← remainder random (min own most)
  represented (rest + 1)

/-- `(std::rand() % backoffChannelBusy)+1`. -/
def busyBackoff (backoffChannelBusy random : Int) : Option Int := do
  let rest ← remainder random backoffChannelBusy
  represented (rest + 1)

namespace Node

def new (istransmitting : Bool) : Node := ⟨0, 0, 0, istransmitting, [], []⟩

def setBackoff (backoffInterval : Int) (node : Node) : Node := { node with backoffInterval := backoffInterval }

def attemptTransmission (node : Node) : Bool := node.backoffInterval = 0

/-- `node.istransmitting = node.transmittingProbability()`. -/
def drawTransmission (transmits : Int → Bool) (random : Int) (node : Node) : Node :=
  { node with istransmitting := transmits (random.tmod 100) }

def ready (node : Node) : Bool := node.attemptTransmission && node.istransmitting

/-- `if(node.backoffInterval>0) node.backoffInterval--`. -/
def countDown (node : Node) : Node :=
  if 0 < node.backoffInterval then { node with backoffInterval := node.backoffInterval - 1 } else node

def countCollision (node : Node) : Node := { node with collisionCount := node.collisionCount + 1 }

def recordSuccess (collisions time : Nat) (node : Node) : Node :=
  { node with
    collisionsBeforeSuccess := node.collisionsBeforeSuccess ++ [collisions]
    timeBeforeSuccess := node.timeBeforeSuccess ++ [time]
    successfulTransmissions := node.successfulTransmissions + 1 }

end Node

/-- A call of `performBackoff`: the node's collisions, the value drawn and the result. -/
structure Call where
  collisionCount : Nat
  random : Int
  value : Option Int

structure Sim (n : Nat) where
  nodes : Fin n → Node
  countcollisions : Fin n → Nat
  channelbusynode : Option (Fin n)
  transmissionTime : Int
  channelBusy : Bool
  transmissionTimer : Nat
  globalCollisionCounter : Nat
  drawn : Nat
  calls : List Call

section Loops
variable {n : Nat} (p : Parameters)

def Sim.modify (f : Node → Node) (k : Fin n) (s : Sim n) : Sim n :=
  { s with nodes := Function.update s.nodes k (f (s.nodes k)) }

/-- `node.istransmitting = node.transmittingProbability()` in the vector. -/
def Sim.drawTransmission (k : Fin n) (s : Sim n) : Sim n :=
  { s.modify (Node.drawTransmission p.transmits (p.rand s.drawn)) k with drawn := s.drawn + 1 }

def Sim.performBusyBackoff (k : Fin n) (s : Sim n) : Sim n :=
  let value := busyBackoff p.backoffChannelBusy (p.rand s.drawn)
  { s.modify (Node.setBackoff (value.getD (p.undefined s.drawn))) k with drawn := s.drawn + 1 }

def Sim.performBackoff (k : Fin n) (s : Sim n) : Sim n :=
  let value := backoff p.maxBackoff (s.nodes k).collisionCount (p.rand s.drawn)
  { s.modify (Node.setBackoff (value.getD (p.undefined s.drawn))) k with
    drawn := s.drawn + 1
    calls := s.calls ++ [⟨(s.nodes k).collisionCount, p.rand s.drawn, value⟩] }

/-- `transmissionTime = (std::rand()%maxtransmissionTime)+2`. -/
def Sim.drawTransmissionTime (s : Sim n) : Sim n :=
  let value := (remainder (p.rand s.drawn) p.maxtransmissionTime).bind fun rest => represented (rest + 2)
  { s with transmissionTime := value.getD (p.undefined s.drawn), drawn := s.drawn + 1 }

def start (istransmitting : Fin n → Bool) : Sim n :=
  Sim.drawTransmissionTime p {
    nodes k := .new (istransmitting k)
    countcollisions _ := 0
    channelbusynode := none
    transmissionTime := 0
    channelBusy := false
    transmissionTimer := 0
    globalCollisionCounter := 0
    drawn := 0
    calls := [] }

def drawNode (s : Sim n) (k : Fin n) : Sim n :=
  if (s.nodes k).istransmitting then s else s.drawTransmission p k

def draws (s : Sim n) : Sim n := (List.finRange n).foldl (drawNode p) s

def busyNode (s : Sim n) (k : Fin n) : Sim n :=
  if s.channelbusynode ≠ some k ∧ (s.nodes k).attemptTransmission then
    if (s.nodes k).istransmitting then s.performBusyBackoff p k else s
  else s.modify Node.countDown k

def finishTransmission (s : Sim n) : Sim n :=
  if s.transmissionTimer = s.transmissionTime then
    Sim.drawTransmissionTime p { s with transmissionTimer := 0, channelBusy := false }
  else s

def busySlot (s : Sim n) : Sim n :=
  finishTransmission p
    ((List.finRange n).foldl (busyNode p) { s with transmissionTimer := s.transmissionTimer + 1 })

/-- A collision of `k` counts for itself and since its last success. -/
def Sim.countCollision (k : Fin n) (s : Sim n) : Sim n :=
  { s.modify Node.countCollision k with
    countcollisions := Function.update s.countcollisions k (s.countcollisions k + 1) }

/-- One iteration of the loop over the other nodes, with the collisions found so far. -/
def checkCollision (k : Fin n) (found : Sim n × Nat) (other : Fin n) : Sim n × Nat :=
  if k ≠ other ∧ (found.1.nodes other).ready then
    ((found.1.countCollision other).performBackoff p other, found.2 + 1)
  else found

def succeed (time : Nat) (k : Fin n) (s : Sim n) : Sim n :=
  let drawn := s.drawTransmission p k
  { drawn.modify (Node.recordSuccess (s.countcollisions k) time) k with
    countcollisions := Function.update s.countcollisions k 0
    channelBusy := true
    channelbusynode := some k
    transmissionTimer := s.transmissionTimer + 1 }

def collide (k : Fin n) (s : Sim n) : Sim n :=
  { (s.countCollision k).performBackoff p k with globalCollisionCounter := s.globalCollisionCounter + 1 }

def idleNode (time : Nat) (s : Sim n) (k : Fin n) : Sim n :=
  if (s.nodes k).ready then
    let found := (List.finRange n).foldl (checkCollision p k) (s, 0)
    if found.2 = 0 then succeed p time k found.1 else collide p k found.1
  else s.modify Node.countDown k

def idleSlot (time : Nat) (s : Sim n) : Sim n := (List.finRange n).foldl (idleNode p time) s

def slot (time : Nat) (s : Sim n) : Sim n :=
  let s := draws p s
  if s.channelBusy then busySlot p s else idleSlot p time s

/-- The state after this many slots. -/
def simulateCSMA (istransmitting : Fin n → Bool) : Nat → Sim n
  | 0 => start p istransmitting
  | time + 1 => slot p time (simulateCSMA istransmitting time)

end Loops
end NetworkOs.Csma.Integers
