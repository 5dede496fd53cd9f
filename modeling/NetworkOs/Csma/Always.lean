import NetworkOs.Csma.Exactness
import NetworkOs.Csma.Rounds

/-! Simulations in which every draw of a node lets it transmit. From the first draw on, only
the backoffs and the transmission times depend on the stream. -/
namespace NetworkOs.Csma.Integers
open Machine

/-- The state after the first draw. -/
def fresh (p : Parameters) (n drawn : Nat) : Sim n := { start p (fun _ => true) with drawn := drawn }

section Draws
variable {n : Nat} {p : Parameters} {s : Sim n} {k : Fin n}

theorem draws_of_transmitting (all : ∀ k, (s.nodes k).istransmitting = true) : draws p s = s := by
  refine List.foldlRecOn (motive := fun t : Sim n => t = s) _ _ rfl fun t same k _ => ?_
  subst same
  exact if_pos (all k)

theorem slot_idle {time : Nat} (idle : (draws p s).channelBusy = false) : slot p time s = idleSlot p time (draws p s) :=
  if_neg (idle ▸ Bool.false_ne_true)

theorem slot_busy {time : Nat} (busy : (draws p s).channelBusy = true) : slot p time s = busySlot p (draws p s) :=
  if_pos busy

end Draws

section Solo
variable {p : Timed} {node : Node} {holder : Option (Fin 1)} {timer drawn : Nat} {time : Int}

end Solo
end NetworkOs.Csma.Integers
