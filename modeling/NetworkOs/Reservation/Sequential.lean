import Mathlib
import NetworkOs.Library.Runs

/-! Event reservation with queries that run one after another. A query that
would wait for a condition variable never wakes up here, since no other thread
signals it: its result is `none`. -/
namespace NetworkOs.Reservation
open Runs

def events : Nat := 100
def capacity : Int := 500
def max : Nat := 5

/-- A row of `shared_table`: the event, 1 for a writer and 0 for readers, a counter. -/
structure Row where
  event : Int
  mode : Int
  users : Int
deriving Repr, DecidableEq

/-- The values of a row that is not in use. -/
def defaultRow : Row := ⟨-1, -1, -1⟩

structure Shared where
  eventsArr : Nat → Int
  concurrency : Int
  sharedTable : List Row
  bookings : List Nat
  /-- The numbers of available seats printed so far. -/
  shown : List Int

def start : Shared where
  eventsArr := fun _ => 0
  concurrency := 0
  sharedTable := List.replicate max defaultRow
  bookings := []
  shown := []

def tableDefault (rowNo : Nat) (s : Shared) : Shared :=
  { s with sharedTable := s.sharedTable.set rowNo defaultRow }

/-- The last row that carries the event, `none` for -1. -/
def eventFinder (eventNo : Int) (s : Shared) : Option Nat :=
  (List.range max).foldl
    (fun res i => if (s.sharedTable.getD i defaultRow).event = eventNo then some i else res) none

def availableSeats (eventNo : Nat) (s : Shared) : Int := 500 - s.eventsArr eventNo

def printSeats (eventNo : Nat) (s : Shared) : Shared :=
  { s with shown := s.shown ++ [availableSeats eventNo s] }

/-- The row writes of a call that has found a free row. -/
def takeRow (index : Nat) (eventNo : Nat) (mode : Int) (s : Shared) : Shared :=
  { s with sharedTable := s.sharedTable.modify index fun row => ⟨eventNo, mode, row.users + 1⟩ }

/-- The end of every call: the slot is given back and the event's row cleared. -/
def release (eventNo : Nat) (s : Shared) : Shared :=
  let s := { s with concurrency := s.concurrency - 1 }
  match eventFinder eventNo s with
  | some entry => tableDefault entry s
  | none => s

def enquiry (eventNo : Nat) (s : Shared) : Option Shared :=
  match eventFinder eventNo s with
  | some entry =>
      if (s.sharedTable.getD entry defaultRow).mode ≠ 1 then
        let s := { s with sharedTable := s.sharedTable.modify entry fun row =>
          { row with users := row.users + 1 } }
        some (release eventNo (printSeats eventNo s))
      else none
  | none =>
      match eventFinder (-1) s with
      | some index => some (release eventNo (printSeats eventNo (takeRow index eventNo 0 s)))
      | none => none

/-- A writer goes on when no row of its event is held, and writes its own row. -/
def acquire (eventNo : Nat) (s : Shared) : Option Shared :=
  let waits := match eventFinder eventNo s with
    | some entry =>
        let mode := (s.sharedTable.getD entry defaultRow).mode
        mode == 1 || mode == 0
    | none => false
  if waits then none
  else (eventFinder (-1) s).map fun index => takeRow index eventNo 1 s

def bookTickets (eventNo : Nat) (totalSeats : Int) (s : Shared) : Option Shared :=
  (acquire eventNo s).map fun s =>
    release eventNo <|
      if s.eventsArr eventNo + totalSeats ≤ capacity then
        printSeats eventNo
          { s with eventsArr := Function.update s.eventsArr eventNo (s.eventsArr eventNo + totalSeats) }
      else s

def cancelTicket (eventNo : Nat) (s : Shared) : Option Shared :=
  (acquire eventNo s).map fun s =>
    let s := printSeats eventNo s
    release eventNo <|
      printSeats eventNo { s with eventsArr := Function.update s.eventsArr eventNo (s.eventsArr eventNo - 1) }

/-- The values `rand` yields during one pass of `query_function`. -/
structure Draws where
  querySelector : Nat
  eventNo : Nat
  noOfSeats : Nat
  tktCancel : Nat
deriving Repr, DecidableEq

/-- The event a cancellation picks from the bookings list. -/
def cancelled (s : Shared) (r : Draws) : Nat :=
  s.bookings.getD (r.tktCancel % s.bookings.length) 0

/-- One pass of the loop in `query_function`. -/
def queryFunction (s : Shared) (r : Draws) : Option Shared :=
  if s.concurrency < max then
    let querySelector := r.querySelector % 3 + 1
    let eventNo := r.eventNo % events
    let noOfSeats : Int := r.noOfSeats % capacity + 1
    let entered := { s with concurrency := s.concurrency + 1 }
    if querySelector = 1 then enquiry eventNo entered
    else if querySelector = 2 then
      bookTickets eventNo noOfSeats { entered with bookings := s.bookings ++ [eventNo] }
    else if s.bookings.length = 0 then some s
    else cancelTicket (cancelled s r) entered
  else none

/-- No event has fewer seats booked than none or more than the capacity, and
neither has any number of available seats that was shown. -/
def InBounds (s : Shared) : Prop :=
  (∀ e, 0 ≤ s.eventsArr e ∧ s.eventsArr e ≤ capacity) ∧ ∀ v ∈ s.shown, 0 ≤ v ∧ v ≤ capacity

/-- If the query cancels, the event it picks still has a booked seat. -/
def CancelsBooked (s : Shared) (r : Draws) : Prop :=
  r.querySelector % 3 + 1 = 3 → s.bookings ≠ [] → 0 < s.eventsArr (cancelled s r)

/-- Between queries no row is in use and no query is counted. -/
structure Quiet (s : Shared) : Prop where
  table : s.sharedTable = List.replicate max defaultRow
  concurrency : s.concurrency = 0

theorem start_quiet : Quiet start := ⟨rfl, rfl⟩

theorem start_inBounds : InBounds start := by
  constructor
  · intro e
    simp [start, capacity]
  · intro v member
    cases member

/-- In a quiet table no row carries an event, and the last row is free. -/
theorem Quiet.eventFinder_none {s : Shared} (h : Quiet s) (eventNo : Nat) :
    eventFinder eventNo s = none := by
  have other : (-1 : Int) ≠ eventNo := by omega
  simp [eventFinder, h.table, max, defaultRow, List.range_succ, other]

theorem Quiet.eventFinder_free {s : Shared} (h : Quiet s) : eventFinder (-1) s = some 4 := by
  simp [eventFinder, h.table, max, defaultRow, List.range_succ]

/-- The state a query passes to the call it selects. -/
def enter (s : Shared) : Shared := { s with concurrency := s.concurrency + 1 }

theorem enter_finder (s : Shared) (eventNo : Int) :
    eventFinder eventNo (enter s) = eventFinder eventNo s := rfl

/-- The release of the only call in progress clears the row it took, whatever
the call did to the seats, the bookings and the output. -/
theorem Quiet.release_takeRow {s : Shared} (h : Quiet s) (eventNo : Nat) (mode : Int)
    (eventsArr : Nat → Int) (bookings : List Nat) (shown : List Int) :
    release eventNo { takeRow 4 eventNo mode (enter s) with eventsArr, bookings, shown } =
      { s with eventsArr, bookings, shown } := by
  have free : (-1 : Int) ≠ eventNo := by omega
  have taken : (takeRow 4 eventNo mode (enter s)).sharedTable =
      [defaultRow, defaultRow, defaultRow, defaultRow, ⟨eventNo, mode, 0⟩] := by
    simp [takeRow, enter, h.table, max, defaultRow]
  have found : eventFinder eventNo
      { takeRow 4 eventNo mode (enter s) with
        eventsArr, bookings, shown, concurrency := (enter s).concurrency - 1 } = some 4 := by
    simp [eventFinder, taken, max, List.range_succ, defaultRow, free]
  unfold release
  change (match eventFinder eventNo
      { takeRow 4 eventNo mode (enter s) with
        eventsArr, bookings, shown, concurrency := (enter s).concurrency - 1 } with
    | some entry => tableDefault entry _
    | none => _) = _
  rw [found]
  simp [tableDefault, takeRow, h.table, max, enter, h.concurrency, defaultRow]

theorem Quiet.acquire {s : Shared} (h : Quiet s) (eventNo : Nat) :
    acquire eventNo (enter s) = some (takeRow 4 eventNo 1 (enter s)) := by
  unfold Reservation.acquire
  rw [enter_finder, enter_finder, h.eventFinder_none, h.eventFinder_free]
  rfl

theorem Quiet.enquiry {s : Shared} (h : Quiet s) (eventNo : Nat) :
    enquiry eventNo (enter s) = some (printSeats eventNo s) := by
  unfold Reservation.enquiry
  rw [enter_finder, enter_finder, h.eventFinder_none, h.eventFinder_free]
  exact congrArg some (h.release_takeRow eventNo 0 s.eventsArr s.bookings _)

/-- The outcome of a booking that has a free table. -/
def booked (eventNo : Nat) (totalSeats : Int) (s : Shared) : Shared :=
  if s.eventsArr eventNo + totalSeats ≤ capacity then
    printSeats eventNo
      { s with eventsArr := Function.update s.eventsArr eventNo (s.eventsArr eventNo + totalSeats) }
  else s

theorem Quiet.bookTickets {s : Shared} (h : Quiet s) (eventNo : Nat) (totalSeats : Int) :
    bookTickets eventNo totalSeats (enter s) = some (booked eventNo totalSeats s) := by
  unfold Reservation.bookTickets booked
  rw [h.acquire, Option.map_some]
  change some (release eventNo (if s.eventsArr eventNo + totalSeats ≤ capacity then _ else _)) = _
  split_ifs
  · exact congrArg some (h.release_takeRow eventNo 1 _ s.bookings _)
  · exact congrArg some (h.release_takeRow eventNo 1 s.eventsArr s.bookings s.shown)

/-- The outcome of a cancellation that has a free table. -/
def afterCancel (eventNo : Nat) (s : Shared) : Shared :=
  printSeats eventNo
    { printSeats eventNo s with
      eventsArr := Function.update s.eventsArr eventNo (s.eventsArr eventNo - 1) }

theorem Quiet.cancelTicket {s : Shared} (h : Quiet s) (eventNo : Nat) :
    cancelTicket eventNo (enter s) = some (afterCancel eventNo s) := by
  unfold Reservation.cancelTicket
  rw [h.acquire, Option.map_some]
  exact congrArg some (h.release_takeRow eventNo 1 _ s.bookings _)

/-- What one query run to completion does, one case for each call it selects. -/
inductive Query (s : Shared) (r : Draws) : Shared → Prop
  | enquiry : r.querySelector % 3 + 1 = 1 → Query s r (printSeats (r.eventNo % events) s)
  | book : r.querySelector % 3 + 1 = 2 →
      Query s r (booked (r.eventNo % events) (r.noOfSeats % capacity + 1)
        { s with bookings := s.bookings ++ [r.eventNo % events] })
  | noBookings : r.querySelector % 3 + 1 = 3 → s.bookings = [] → Query s r s
  | cancel : r.querySelector % 3 + 1 = 3 → s.bookings ≠ [] →
      Query s r (afterCancel (cancelled s r) s)

theorem Quiet.queryFunction {s : Shared} (h : Quiet s) (r : Draws) :
    ∃ t, queryFunction s r = some t ∧ Query s r t := by
  have admitted : s.concurrency < max := by rw [h.concurrency]; decide
  have pushed : Quiet { s with bookings := s.bookings ++ [r.eventNo % events] } :=
    ⟨h.table, h.concurrency⟩
  unfold Reservation.queryFunction
  rw [if_pos admitted]
  have selector : r.querySelector % 3 < 3 := Nat.mod_lt _ (by decide)
  by_cases first : r.querySelector % 3 + 1 = 1
  · exact ⟨_, (if_pos first).trans (h.enquiry _), .enquiry first⟩
  by_cases second : r.querySelector % 3 + 1 = 2
  · exact ⟨_, (if_neg first).trans ((if_pos second).trans (pushed.bookTickets _ _)), .book second⟩
  have third : r.querySelector % 3 + 1 = 3 := by omega
  by_cases empty : s.bookings.length = 0
  · exact ⟨s, (if_neg first).trans ((if_neg second).trans (if_pos empty)),
      .noBookings third (List.length_eq_zero_iff.mp empty)⟩
  · exact ⟨_, (if_neg first).trans ((if_neg second).trans ((if_neg empty).trans (h.cancelTicket _))),
      .cancel third (fun none_ => empty (List.length_eq_zero_iff.mpr none_))⟩

theorem Quiet.query {s t : Shared} {r : Draws} (h : Quiet s) (taken : Query s r t) : Quiet t := by
  cases taken with
  | enquiry => exact ⟨h.table, h.concurrency⟩
  | book =>
      unfold booked
      split_ifs
      · exact ⟨h.table, h.concurrency⟩
      · exact ⟨h.table, h.concurrency⟩
  | noBookings => exact h
  | cancel => exact ⟨h.table, h.concurrency⟩

theorem printSeats_inBounds {s : Shared} (h : InBounds s) (eventNo : Nat) :
    InBounds (printSeats eventNo s) := by
  refine ⟨h.1, ?_⟩
  intro v member
  rcases List.mem_append.mp member with old | new
  · exact h.2 v old
  · obtain rfl := List.mem_singleton.mp new
    have bound := h.1 eventNo
    simp only [availableSeats, capacity] at bound ⊢
    omega

theorem update_inBounds {s : Shared} (h : InBounds s) (eventNo : Nat) {n : Int}
    (bound : 0 ≤ n ∧ n ≤ capacity) :
    InBounds { s with eventsArr := Function.update s.eventsArr eventNo n } := by
  refine ⟨?_, h.2⟩
  intro e
  by_cases same : e = eventNo
  · subst e; simpa using bound
  · simpa [same] using h.1 e

/-- One query stays in bounds exactly when a cancellation finds a booked seat. -/
theorem query_inBounds_iff {s t : Shared} {r : Draws} (h : InBounds s) (taken : Query s r t) :
    InBounds t ↔ CancelsBooked s r := by
  cases taken with
  | enquiry first =>
      exact ⟨fun _ third => absurd third (by omega), fun _ => printSeats_inBounds h _⟩
  | book second =>
      refine ⟨fun _ third => absurd third (by omega), fun _ => ?_⟩
      have bookings : InBounds { s with bookings := s.bookings ++ [r.eventNo % events] } := h
      unfold booked
      split_ifs with room
      · apply printSeats_inBounds
        apply update_inBounds bookings
        have low := (h.1 (r.eventNo % events)).1
        have seats := Int.emod_nonneg (r.noOfSeats : Int) (show capacity ≠ 0 by decide)
        exact ⟨by simp only; omega, room⟩
      · exact bookings
  | noBookings third empty => exact ⟨fun _ _ some_ => absurd empty some_, fun _ => h⟩
  | cancel third some_ =>
      constructor
      · intro after _ _
        have low := (after.1 (cancelled s r)).1
        simp only [afterCancel, printSeats, Function.update_self] at low
        omega
      · intro booked_
        have seat := booked_ third some_
        have bound := h.1 (cancelled s r)
        exact printSeats_inBounds
          (update_inBounds (printSeats_inBounds h _) _ ⟨by omega, by omega⟩) _

/-- Over every sequence of queries run one after another, the seats stay in
bounds exactly when every cancellation picks an event with a booked seat. -/
theorem queries_inBounds_iff (queries : List Draws) :
    Always queryFunction InBounds start queries ↔ Guarded queryFunction CancelsBooked start queries := by
  refine always_iff_guarded (Q := Quiet) ?_ ?_ start_quiet start_inBounds queries
  · intro s r t quiet taken
    obtain ⟨u, also, query⟩ := quiet.queryFunction r
    obtain rfl : u = t := Option.some.inj (also.symm.trans taken)
    exact quiet.query query
  · intro s r quiet bounds
    obtain ⟨u, taken, query⟩ := quiet.queryFunction r
    constructor
    · rintro ⟨t, also, after⟩
      obtain rfl : u = t := Option.some.inj (taken.symm.trans also)
      exact (query_inBounds_iff bounds query).mp after
    · intro booked_
      exact ⟨u, taken, (query_inBounds_iff bounds query).mpr booked_⟩

/-- One booking of one seat, cancelled twice. -/
theorem double_cancellation_goes_negative :
    ¬ ∀ queries : List Draws, Always queryFunction InBounds start queries := by
  intro claim
  obtain ⟨s1, first, _, s2, second, _, s3, third, bounds, _⟩ :=
    claim [⟨1, 0, 0, 0⟩, ⟨2, 0, 0, 0⟩, ⟨2, 0, 0, 0⟩]
  have final : (run queryFunction start [⟨1, 0, 0, 0⟩, ⟨2, 0, 0, 0⟩, ⟨2, 0, 0, 0⟩]).map
      (·.eventsArr 0) = some (-1) := by decide
  simp only [run, first, second, third, Option.bind_some, Option.map_some, Option.some.injEq] at final
  have low := (bounds.1 0).1
  omega

end NetworkOs.Reservation
