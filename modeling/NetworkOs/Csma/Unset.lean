import NetworkOs.Csma.Always
import NetworkOs.Csma.Statistics

/-! Simulations that differ only in the flags which the constructor of the nodes leaves
unset. -/
namespace NetworkOs.Csma.Integers
open Machine

/-- What is printed of a node. -/
def Node.statistics (node : Node) : NodeStatistics :=
  ⟨node.collisionCount, node.successfulTransmissions, node.collisionsBeforeSuccess, node.timeBeforeSuccess⟩

/-- After any number of slots the statistics to be printed are the same. -/
def SameStatistics (p : Parameters) {n : Nat} (f g : Fin n → Bool) : Prop :=
  ∀ t, (∀ k, ((simulateCSMA p f t).nodes k).statistics = ((simulateCSMA p g t).nodes k).statistics) ∧
    (simulateCSMA p f t).globalCollisionCounter = (simulateCSMA p g t).globalCollisionCounter

section Same
variable {n : Nat} {p : Timed} {f g : Fin n → Bool}

theorem SameStatistics.symm {p : Parameters} (h : SameStatistics p f g) : SameStatistics p g f :=
  fun t => ⟨fun k => ((h t).1 k).symm, (h t).2.symm⟩

end Same

section Flags
variable {n : Nat} {p : Parameters} {s : Sim n} {k : Fin n} {time : Nat}

end Flags

section Constant
variable {n : Nat} {p : Timed}

end Constant

section Single
variable {p : Timed}

end Single

section Several
variable {n : Nat} {p : Parameters} {f g : Fin n → Bool} {t collisions : Nat} {i : Fin n}

theorem Spread.step {istransmitting : Fin n → Bool} {backoffs : Fin n → Int}
    (h : Spread backoffs collisions (simulateCSMA p istransmitting t)) :
    simulateCSMA p istransmitting (t + 1) = idleSlot p t (simulateCSMA p istransmitting t) := by
  have same : draws p (simulateCSMA p istransmitting t) = simulateCSMA p istransmitting t :=
    draws_of_transmitting h.transmits
  rw [simulateCSMA, slot_idle (by rw [same]; exact h.idle), same]

theorem Spread.successes {backoffs : Fin n → Int} {s : Sim n} (h : Spread backoffs collisions s) (k : Fin n) :
    (s.nodes k).successfulTransmissions = 0 := congrArg Node.successfulTransmissions (h.nodes k)

/-- Nobody succeeds in the slots in which all nodes wait. -/
theorem Spread.run {istransmitting : Fin n → Bool} {backoffs : Fin n → Int}
    (h : Spread backoffs collisions (simulateCSMA p istransmitting t)) (waiting : ∀ k, 1 ≤ backoffs k) :
    Spread (fun k => backoffs k - 1) collisions (simulateCSMA p istransmitting (t + 1)) := by
  rw [h.step]
  exact (h.waits p t waiting).1

end Several

section Different
variable {n : Nat} {p : Timed} {f g : Fin n → Bool}

end Different

/-- Parameters under which no draw lets a node transmit. -/
def silent : Timed := ⟨{ constant with transmits := fun _ => false }, Int.zero_lt_one, by decide⟩

end NetworkOs.Csma.Integers
