import NetworkOs.Library.Schedules
import NetworkOs.Reservation.Sequential

/-! Event reservation by any number of threads. A call acquires its event in one step,
from the scan or the test that lets it proceed to the write of its row, and releases it
in one step; the work in between does not touch the table. -/
namespace NetworkOs.Reservation
open Runs

inductive Call where
  | enquiry (eventNo : Nat)
  | bookTickets (eventNo : Nat) (totalSeats : Int)
  | cancelTicket (eventNo : Nat)
deriving DecidableEq, Repr

namespace Call

def eventNo : Call → Nat
  | .enquiry eventNo | .bookTickets eventNo _ | .cancelTicket eventNo => eventNo

/-- Bookings and cancellations write their row with mode 1. -/
def writes : Call → Bool
  | .enquiry _ => false
  | .bookTickets _ _ | .cancelTicket _ => true

/-- The mode of a row that lets the call wait. -/
def waitsFor (call : Call) (mode : Int) : Bool := mode == 1 || (call.writes && mode == 0)

/-- What `query_function` does before the call. -/
def enter (call : Call) (s : Shared) : Shared :=
  let s := { s with concurrency := s.concurrency + 1 }
  match call with
  | .bookTickets eventNo _ => { s with bookings := s.bookings ++ [eventNo] }
  | .enquiry _ | .cancelTicket _ => s

/-- The work of a call that has acquired its event. -/
def serve (call : Call) (s : Shared) : Shared :=
  match call with
  | .enquiry eventNo => printSeats eventNo s
  | .bookTickets eventNo totalSeats => booked eventNo totalSeats s
  | .cancelTicket eventNo => afterCancel eventNo s

end Call

/-- The place of a thread in its call; `entry` is the row it waits for. -/
inductive Place where
  | idle
  | called (call : Call)
  | waiting (call : Call) (entry : Nat)
  | acquired (call : Call)
  | served (call : Call)
deriving DecidableEq, Repr

structure State (n : Nat) where
  shared : Shared
  threads : Fin n → Place

def row (s : Shared) (index : Nat) : Row := s.sharedTable.getD index defaultRow

/-- The write of a free row; without one the index is out of bounds, and there is no step. -/
def takeFree (call : Call) (s : Shared) : Option (Shared × Place) :=
  (eventFinder (-1) s).map fun index =>
    (takeRow index call.eventNo (if call.writes then 1 else 0) s, .acquired call)

/-- The first scan for the event of the call. -/
def scan (call : Call) (s : Shared) : Option (Shared × Place) :=
  match eventFinder call.eventNo s with
  | none => takeFree call s
  | some entry =>
      if call.waitsFor (row s entry).mode then some (s, .waiting call entry)
      else if call.writes then takeFree call s
      else some ({ s with sharedTable := s.sharedTable.modify entry fun row =>
          { row with users := row.users + 1 } }, .acquired call)

/-- The test after a wait. An enquiry goes on to its release without a row. -/
def wake (call : Call) (entry : Nat) (s : Shared) : Option (Shared × Place) :=
  if call.waitsFor (row s entry).mode then none
  else if call.writes then takeFree call s
  else some (s, .served call)

/-- The step of a thread that is in a call. -/
def advance (s : Shared) : Place → Option (Shared × Place)
  | .idle => none
  | .called call => scan call s
  | .waiting call entry => wake call entry s
  | .acquired call => some (call.serve s, .served call)
  | .served call => some (release call.eventNo s, .idle)

inductive Move (n : Nat) where
  | start (i : Fin n) (call : Call)
  | go (i : Fin n)
deriving DecidableEq, Repr

section Steps
variable {n : Nat}

def State.set (s : State n) (i : Fin n) (result : Shared × Place) : State n :=
  ⟨result.1, Function.update s.threads i result.2⟩

def step (s : State n) : Move n → Option (State n)
  | .start i call =>
      if s.threads i = .idle then some (s.set i (call.enter s.shared, .called call)) else none
  | .go i => (advance s.shared (s.threads i)).map (s.set i)

def begin (n : Nat) : State n := ⟨Reservation.start, fun _ => .idle⟩

/-- The call that has acquired its event and not released it. -/
def Place.holds : Place → Option Call
  | .acquired call | .served call => some call
  | .idle | .called _ | .waiting _ _ => none

/-- While a booking or cancellation holds its event, no other call does. -/
def Exclusive (s : State n) : Prop :=
  ∀ i j call other, (s.threads i).holds = some call → (s.threads j).holds = some other → call.writes = true →
    other.eventNo = call.eventNo → i = j

end Steps
end NetworkOs.Reservation
