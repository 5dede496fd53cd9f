import NetworkOs.Reservation.Overbooking

/-! The worker threads statement by statement. A scan, a `table_default` and the test of
`concurrency` with its increment are one step each; a mutex excludes only those who lock it. -/
namespace NetworkOs.Reservation
open Runs

/-- What a call does between the writes of its row and its end. -/
inductive Work where
  | show_
  | test
  | add
  | subtract
deriving DecidableEq, Repr

/-- Where a worker stands; `entry` and `index` are the results of the scans. Who waits for
a condition variable has to lock its mutex again. -/
inductive Worker where
  | query
  | gateLock
  | gateTest
  | gateUnlock
  | entered (call : Call)
  | finding (call : Call)
  | modeTest (call : Call) (entry : Nat)
  | share (call : Call) (entry : Nat)
  | rowLock (call : Call) (entry : Nat)
  | rowTest (call : Call) (entry : Nat)
  | rowUnlock (call : Call)
  | searching (call : Call)
  | writeEvent (call : Call) (index : Option Nat)
  | writeMode (call : Call) (index : Nat)
  | writeUsers (call : Call) (index : Nat)
  | work (call : Call) (first : Work) (rest : List Work)
  | finishLock (call : Call)
  | lower (call : Call)
  | refind (call : Call)
  | clear (call : Call) (entry : Nat)
  | signal (left : Nat)
deriving DecidableEq, Repr

namespace Call

/-- The arguments `query_function` can draw. -/
def Drawn (s : Shared) : Call → Prop
  | .enquiry eventNo => eventNo < events
  | .bookTickets eventNo totalSeats => eventNo < events ∧ 1 ≤ totalSeats ∧ totalSeats ≤ capacity
  | .cancelTicket eventNo => eventNo ∈ s.bookings

instance (s : Shared) : ∀ call : Call, Decidable (call.Drawn s)
  | .enquiry _ => inferInstanceAs (Decidable (_ < _))
  | .bookTickets _ _ => inferInstanceAs (Decidable (_ ∧ _))
  | .cancelTicket _ => inferInstanceAs (Decidable (_ ∈ _))

def isBooking : Call → Bool
  | .bookTickets _ _ => true
  | .enquiry _ | .cancelTicket _ => false

/-- The mode a call writes into its row. -/
def mode (call : Call) : Int := if call.writes then 1 else 0

/-- The place behind the writes of the row. -/
def working : Call → Worker
  | .enquiry eventNo => .work (.enquiry eventNo) .show_ []
  | .bookTickets eventNo totalSeats => .work (.bookTickets eventNo totalSeats) .test []
  | .cancelTicket eventNo => .work (.cancelTicket eventNo) .show_ [.subtract, .show_]

/-- What one statement of the work does. -/
def perform (call : Call) (s : Shared) : Work → Shared
  | .show_ => printSeats call.eventNo s
  | .test => s
  | .add =>
      match call with
      | .bookTickets eventNo totalSeats =>
          { s with eventsArr := Function.update s.eventsArr eventNo (s.eventsArr eventNo + totalSeats) }
      | .enquiry _ | .cancelTicket _ => s
  | .subtract =>
      { s with eventsArr := Function.update s.eventsArr call.eventNo (s.eventsArr call.eventNo - 1) }

/-- What follows a statement of the work; a booking without room reports that. -/
def rest (call : Call) (s : Shared) : Work → List Work → List Work
  | .test, rest =>
      match call with
      | .bookTickets eventNo totalSeats =>
          if s.eventsArr eventNo + totalSeats ≤ capacity then .add :: .show_ :: rest else rest
      | .enquiry _ | .cancelTicket _ => rest
  | _, rest => rest

end Call

namespace Worker

/-- The work that is left, and then the end of the call. -/
def next (call : Call) : List Work → Worker
  | [] => .finishLock call
  | first :: rest => .work call first rest

/-- The call that may have a row of its own in the table. -/
def holds : Worker → Option Int
  | .writeMode call _ | .writeUsers call _ | .work call _ _ | .finishLock call | .lower call | .refind call
  | .clear call _ => some call.eventNo
  | _ => none

/-- In a call, until its row is cleared. -/
def Active : Worker → Prop
  | .query | .gateLock | .gateTest | .gateUnlock | .signal _ => False
  | _ => True

instance : DecidablePred Active
  | .query | .gateLock | .gateTest | .gateUnlock | .signal _ => isFalse id
  | .entered _ | .finding _ | .modeTest _ _ | .share _ _ | .rowLock _ _ | .rowTest _ _ | .rowUnlock _ | .searching _
  | .writeEvent _ _ | .writeMode _ _ | .writeUsers _ _ | .work _ _ _ | .finishLock _ | .lower _ | .refind _
  | .clear _ _ => isTrue trivial

/-- Between the lock and the unlock of `concurrency_lock`. -/
def Locked : Worker → Prop
  | .gateTest | .gateUnlock | .lower _ | .refind _ | .clear _ _ | .signal _ => True
  | _ => False

/-- The parts of a thread's program, from the gate to the end of the call. -/
inductive Part where
  | gate
  | lookup
  | writes
  | leaving

def part : Worker → Part
  | .query | .gateLock | .gateTest | .gateUnlock => .gate
  | .entered _ | .finding _ | .modeTest _ _ | .rowLock _ _ | .rowTest _ _ | .rowUnlock _ | .searching _ => .lookup
  | .share _ _ | .writeEvent _ _ | .writeMode _ _ | .writeUsers _ _ | .work _ _ _ => .writes
  | .finishLock _ | .lower _ | .refind _ | .clear _ _ | .signal _ => .leaving

end Worker

/-- The variables, the holders of the two mutexes, and the threads. -/
structure Office (n : Nat) where
  shared : Shared
  tableLock : Option (Fin n)
  concurrencyLock : Option (Fin n)
  workers : Fin n → Worker

inductive Deed (n : Nat) where
  | begin (i : Fin n) (call : Call)
  | full (i : Fin n)
  | go (i : Fin n)
deriving DecidableEq, Repr

namespace Office
variable {n : Nat}

def start (n : Nat) : Office n := ⟨Reservation.start, none, none, fun _ => .query⟩

def goTo (i : Fin n) (w : Worker) (s : Office n) : Office n := { s with workers := Function.update s.workers i w }

def setShared (shared : Shared) (s : Office n) : Office n := { s with shared := shared }

def setTableLock (holder : Option (Fin n)) (s : Office n) : Office n := { s with tableLock := holder }

def setConcurrencyLock (holder : Option (Fin n)) (s : Office n) : Office n := { s with concurrencyLock := holder }

/-- One statement of a thread in its place. -/
def advance (i : Fin n) (s : Office n) : Worker → Option (Office n)
  | .query => none
  | .gateLock => if s.concurrencyLock = none then some (goTo i .gateTest (s.setConcurrencyLock (some i))) else none
  | .gateTest =>
      some (if max ≤ s.shared.concurrency then goTo i .gateLock (s.setConcurrencyLock none) else goTo i .gateUnlock s)
  | .gateUnlock => some (goTo i .query (s.setConcurrencyLock none))
  | .entered call =>
      some (goTo i (.finding call)
        (if call.isBooking then s.setShared { s.shared with bookings := s.shared.bookings ++ [call.eventNo] } else s))
  | .finding call =>
      if s.tableLock = none then
        some (goTo i (match eventFinder call.eventNo s.shared with
          | none => .searching call
          | some entry => if call.writes then .rowLock call entry else .modeTest call entry) s)
      else none
  | .modeTest call entry =>
      some (goTo i (if (row s.shared entry).mode ≠ 1 then .share call entry else .rowLock call entry) s)
  | .share call entry =>
      some (goTo i call.working
        (s.setShared (modifyRow entry (fun row => { row with users := row.users + 1 }) s.shared)))
  | .rowLock call entry =>
      if s.tableLock = none then some (goTo i (.rowTest call entry) (s.setTableLock (some i))) else none
  | .rowTest call entry =>
      some (if call.waitsFor (row s.shared entry).mode then goTo i (.rowLock call entry) (s.setTableLock none)
        else goTo i (.rowUnlock call) s)
  | .rowUnlock call =>
      some (goTo i (if call.writes then .searching call else .finishLock call) (s.setTableLock none))
  | .searching call =>
      if s.tableLock = none then some (goTo i (.writeEvent call (eventFinder (-1) s.shared)) s) else none
  -- an assignment to the row of index -1
  | .writeEvent _ none => none
  | .writeEvent call (some index) =>
      some (goTo i (.writeMode call index)
        (s.setShared (modifyRow index (fun row => { row with event := call.eventNo }) s.shared)))
  | .writeMode call index =>
      some (goTo i (.writeUsers call index)
        (s.setShared (modifyRow index (fun row => { row with mode := call.mode }) s.shared)))
  | .writeUsers call index =>
      some (goTo i call.working
        (s.setShared (modifyRow index (fun row => { row with users := row.users + 1 }) s.shared)))
  | .work call first rest =>
      some (goTo i (.next call (call.rest s.shared first rest)) (s.setShared (call.perform s.shared first)))
  | .finishLock call =>
      if s.concurrencyLock = none then some (goTo i (.lower call) (s.setConcurrencyLock (some i))) else none
  | .lower call =>
      some (goTo i (.refind call) (s.setShared { s.shared with concurrency := s.shared.concurrency - 1 }))
  | .refind call =>
      if s.tableLock = none then
        some (goTo i (match eventFinder call.eventNo s.shared with
          | none => .signal 2
          | some entry => .clear call entry) s)
      else none
  | .clear _ entry =>
      if s.tableLock = none then some (goTo i (.signal 2) (s.setShared (tableDefault entry s.shared))) else none
  | .signal 0 => some (goTo i .query (s.setConcurrencyLock none))
  | .signal (left + 1) => some (goTo i (.signal left) s)

/-- The test of `concurrency` goes with the increment, or leads to the wait. -/
def step (s : Office n) : Deed n → Option (Office n)
  | .begin i call =>
      if s.workers i = .query ∧ s.shared.concurrency < max ∧ call.Drawn s.shared then
        some (goTo i (.entered call) (s.setShared { s.shared with concurrency := s.shared.concurrency + 1 }))
      else none
  | .full i =>
      if s.workers i = .query ∧ max ≤ s.shared.concurrency then some (goTo i .gateLock s) else none
  | .go i => advance i s (s.workers i)

end Office
end NetworkOs.Reservation
