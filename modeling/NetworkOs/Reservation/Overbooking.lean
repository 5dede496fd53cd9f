import NetworkOs.Library.Census
import NetworkOs.Reservation.Concurrent

/-! Bookings by any number of threads, in the steps that the mutexes leave: one row of a
scan, one assignment, one test. The capacity is tested in one step and the seats are added in
a later one. -/
namespace NetworkOs.Reservation
open Runs Census

/-- The arguments that `query_function` draws for `book_tickets`. -/
structure Booking where
  eventNo : Nat
  totalSeats : Nat
  listed : eventNo < events
  positive : 1 ≤ totalSeats
  bounded : (totalSeats : Int) ≤ capacity
deriving DecidableEq

/-- Where a thread stands in `book_tickets`; `i` is the row a scan comes to and `res` what it
has found. Behind `astray` a row is written at the index -1. -/
inductive Booker where
  | idle
  | finding (b : Booking) (i : Nat) (res : Option Nat)
  | waiting (b : Booking) (entry : Nat)
  | searching (b : Booking) (i : Nat) (res : Option Nat)
  | astray (b : Booking)
  | writingEvent (b : Booking) (index : Nat)
  | writingMode (b : Booking) (index : Nat)
  | writingUsers (b : Booking) (index : Nat)
  | testing (b : Booking)
  | adding (b : Booking)
  | releasing (b : Booking)
deriving DecidableEq

/-- The table, the threads, and the bookings reported as done. -/
structure Hall (n : Nat) where
  shared : Shared
  bookers : Fin n → Booker
  done : List Booking

/-- One region of `event_finder`. -/
def lookAt (eventNo : Int) (i : Nat) (res : Option Nat) (s : Shared) : Option Nat :=
  if (row s i).event = eventNo then some i else res

def modifyRow (index : Nat) (f : Row → Row) (s : Shared) : Shared :=
  { s with sharedTable := s.sharedTable.modify index f }

namespace Booker

/-- The first scan is over. -/
def found (b : Booking) : Option Nat → Booker
  | none => .searching b 0 none
  | some entry => .waiting b entry

/-- The scan for a free row is over. -/
def free (b : Booking) : Option Nat → Booker
  | none => .astray b
  | some index => .writingEvent b index

/-- The next step of a thread; the test of a local variable goes with the step before it. -/
def advance (s : Shared) : Booker → Option (Shared × Booker)
  | .idle => none
  | .finding b i res =>
      let res := lookAt b.eventNo i res s
      some (s, if i + 1 < max then .finding b (i + 1) res else found b res)
  | .waiting b entry =>
      if (row s entry).mode = 1 ∨ (row s entry).mode = 0 then none else some (s, .searching b 0 none)
  | .searching b i res =>
      let res := lookAt (-1) i res s
      some (s, if i + 1 < max then .searching b (i + 1) res else free b res)
  | .astray _ => none
  | .writingEvent b index =>
      some (modifyRow index (fun row => { row with event := b.eventNo }) s, .writingMode b index)
  | .writingMode b index => some (modifyRow index (fun row => { row with mode := 1 }) s, .writingUsers b index)
  | .writingUsers b index => some (modifyRow index (fun row => { row with users := row.users + 1 }) s, .testing b)
  | .testing b =>
      some (s, if s.eventsArr b.eventNo + b.totalSeats ≤ capacity then .adding b else .releasing b)
  | .adding b =>
      some (printSeats b.eventNo { s with
        eventsArr := Function.update s.eventsArr b.eventNo (s.eventsArr b.eventNo + b.totalSeats) }, .releasing b)
  | .releasing b => some (release b.eventNo s, .idle)

/-- "Booking done" is reported with the seats added. -/
def report : Booker → List Booking
  | .adding b => [b]
  | _ => []

/-- The seats of this event that the thread has found room for and not added. -/
def pending (e : Nat) : Booker → Nat
  | .adding b => if b.eventNo = e then b.totalSeats else 0
  | _ => 0

end Booker

inductive Act (n : Nat) where
  | call (i : Fin n) (b : Booking)
  | go (i : Fin n)

namespace Hall
variable {n : Nat}

def begin (n : Nat) : Hall n := ⟨Reservation.start, fun _ => .idle, []⟩

def set (s : Hall n) (i : Fin n) (result : Shared × Booker) (report : List Booking) : Hall n :=
  ⟨result.1, Function.update s.bookers i result.2, s.done ++ report⟩

def step (s : Hall n) : Act n → Option (Hall n)
  | .call i b =>
      if s.bookers i = .idle then
        some (s.set i ((Call.bookTickets b.eventNo b.totalSeats).enter s.shared, .finding b 0 none) [])
      else none
  | .go i => ((s.bookers i).advance s.shared).map fun result => s.set i result (s.bookers i).report

/-- The seats of the event in these bookings. -/
def seats (e : Nat) (done : List Booking) : Nat :=
  (done.map fun b => if b.eventNo = e then b.totalSeats else 0).sum

/-- The seats of the event that are found to fit and not added yet. -/
def pending (e : Nat) (s : Hall n) : Nat := ∑ i, (s.bookers i).pending e

/-- If the test of the capacity succeeds, the seats fit with those that are still to be added. -/
def Fitting (s : Hall n) : Act n → Prop
  | .call _ _ => True
  | .go i =>
      match s.bookers i with
      | .testing b =>
          s.shared.eventsArr b.eventNo + b.totalSeats ≤ capacity →
            s.shared.eventsArr b.eventNo + s.pending b.eventNo + b.totalSeats ≤ capacity
      | _ => True

/-- The booked seats are those reported, and leave room for those still to be added. -/
def Ledger (s : Hall n) : Prop :=
  ∀ e, s.shared.eventsArr e = seats e s.done ∧ s.shared.eventsArr e + s.pending e ≤ capacity

instance (s : Hall n) : ∀ m, Decidable (s.Fitting m)
  | .call _ _ => isTrue trivial
  | .go i =>
      match place : s.bookers i with
      | .testing b => decidable_of_iff (s.shared.eventsArr b.eventNo + b.totalSeats ≤ capacity →
          s.shared.eventsArr b.eventNo + s.pending b.eventNo + b.totalSeats ≤ capacity) (by simp [Fitting, place])
      | .idle | .finding .. | .waiting .. | .searching .. | .astray .. | .writingEvent .. | .writingMode ..
      | .writingUsers .. | .adding .. | .releasing .. => isTrue (by simp [Fitting, place])

end Hall

section Steps
variable {n : Nat} {s t : Hall n} {i : Fin n}

theorem release_eventsArr (eventNo : Nat) (s : Shared) : (release eventNo s).eventsArr = s.eventsArr := by
  unfold release
  dsimp only
  split <;> rfl

/-- What a step can do: pass the test of the capacity, add the seats, or neither. -/
theorem advance_cases {shared shared' : Shared} {place place' : Booker}
    (taken : place.advance shared = some (shared', place')) :
    (shared'.eventsArr = shared.eventsArr ∧ place.report = [] ∧ (∀ e, place.pending e = 0) ∧
      ∀ e, place'.pending e = 0) ∨
    (∃ b, place = .testing b ∧ shared' = shared ∧ place' = .adding b ∧
      shared.eventsArr b.eventNo + b.totalSeats ≤ capacity) ∨
    ∃ b, place = .adding b ∧ place' = .releasing b ∧ shared'.eventsArr =
      Function.update shared.eventsArr b.eventNo (shared.eventsArr b.eventNo + b.totalSeats) := by
  cases place with
  | idle => exact nomatch taken
  | astray b => exact nomatch taken
  | finding b i res =>
      obtain ⟨rfl, rfl⟩ := Prod.mk.inj (Option.some.inj taken)
      refine .inl ⟨rfl, rfl, fun _ => rfl, fun e => ?_⟩
      split_ifs
      · rfl
      · cases lookAt b.eventNo i res shared <;> rfl
  | searching b i res =>
      obtain ⟨rfl, rfl⟩ := Prod.mk.inj (Option.some.inj taken)
      refine .inl ⟨rfl, rfl, fun _ => rfl, fun e => ?_⟩
      split_ifs
      · rfl
      · cases lookAt (-1) i res shared <;> rfl
  | waiting b entry =>
      simp only [Booker.advance] at taken
      split_ifs at taken
      obtain ⟨rfl, rfl⟩ := Prod.mk.inj (Option.some.inj taken)
      exact .inl ⟨rfl, rfl, fun _ => rfl, fun _ => rfl⟩
  | writingEvent b index | writingMode b index | writingUsers b index =>
      obtain ⟨rfl, rfl⟩ := Prod.mk.inj (Option.some.inj taken)
      exact .inl ⟨rfl, rfl, fun _ => rfl, fun _ => rfl⟩
  | testing b =>
      obtain ⟨rfl, rfl⟩ := Prod.mk.inj (Option.some.inj taken)
      by_cases room : shared.eventsArr b.eventNo + b.totalSeats ≤ capacity
      · exact .inr (.inl ⟨b, rfl, rfl, if_pos room, room⟩)
      · refine .inl ⟨rfl, rfl, fun _ => rfl, fun e => ?_⟩
        rw [if_neg room]
        rfl
  | adding b =>
      obtain ⟨rfl, rfl⟩ := Prod.mk.inj (Option.some.inj taken)
      exact .inr (.inr ⟨b, rfl, rfl, rfl⟩)
  | releasing b =>
      obtain ⟨rfl, rfl⟩ := Prod.mk.inj (Option.some.inj taken)
      exact .inl ⟨release_eventsArr _ _, rfl, fun _ => rfl, fun _ => rfl⟩

namespace Hall

/-- One thread moves: what the others have found room for stays. -/
theorem pending_set (s : Hall n) (i : Fin n) (shared : Shared) (place : Booker) (report : List Booking) (e : Nat) :
    (s.set i (shared, place) report).pending e + (s.bookers i).pending e = s.pending e + place.pending e :=
  sum_update (Booker.pending e) s.bookers i place

theorem seats_append (e : Nat) (done report : List Booking) : seats e (done ++ report) = seats e done + seats e report := by
  simp [seats]

/-- A step that books nothing. -/
theorem Ledger.quiet (h : s.Ledger) {shared : Shared} {place : Booker} (arr : shared.eventsArr = s.shared.eventsArr)
    (before : ∀ e, (s.bookers i).pending e = 0) (after : ∀ e, place.pending e = 0) :
    (s.set i (shared, place) []).Ledger := by
  intro e
  obtain ⟨booked, room⟩ := h e
  have pending := s.pending_set i shared place [] e
  rw [before, after] at pending
  have same : (s.set i (shared, place) []).shared.eventsArr e = s.shared.eventsArr e := congrFun arr e
  have done : (s.set i (shared, place) []).done = s.done := List.append_nil _
  rw [same, done]
  exact ⟨booked, by omega⟩

/-- The seats found to fit are held. -/
theorem Ledger.test (h : s.Ledger) {b : Booking} (place : s.bookers i = .testing b)
    (fits : s.shared.eventsArr b.eventNo + s.pending b.eventNo + b.totalSeats ≤ capacity) :
    (s.set i (s.shared, .adding b) []).Ledger := by
  intro e
  obtain ⟨booked, room⟩ := h e
  have pending := s.pending_set i s.shared (.adding b) [] e
  rw [place] at pending
  have done : (s.set i (s.shared, .adding b) []).done = s.done := List.append_nil _
  refine ⟨done ▸ booked, ?_⟩
  change s.shared.eventsArr e + _ ≤ capacity
  simp only [Booker.pending] at pending
  split_ifs at pending with same
  · subst same
    omega
  · omega

/-- The seats held are added and reported. -/
theorem Ledger.add (h : s.Ledger) {b : Booking} (place : s.bookers i = .adding b) {shared : Shared}
    (arr : shared.eventsArr =
      Function.update s.shared.eventsArr b.eventNo (s.shared.eventsArr b.eventNo + b.totalSeats)) :
    (s.set i (shared, .releasing b) [b]).Ledger := by
  intro e
  obtain ⟨booked, room⟩ := h e
  have pending := s.pending_set i shared (.releasing b) [b] e
  rw [place] at pending
  have held : (s.set i (shared, .releasing b) [b]).shared.eventsArr e =
      if e = b.eventNo then s.shared.eventsArr b.eventNo + b.totalSeats else s.shared.eventsArr e := by
    change shared.eventsArr e = _
    rw [arr, Function.update_apply]
  have done : seats e (s.set i (shared, .releasing b) [b]).done =
      seats e s.done + if b.eventNo = e then b.totalSeats else 0 := by
    change seats e (s.done ++ [b]) = _
    rw [seats_append, seats, seats, List.map_singleton, List.sum_singleton]
  rw [held, done]
  simp only [Booker.pending] at pending
  by_cases same : b.eventNo = e
  · subst same
    rw [if_pos rfl] at pending ⊢
    rw [if_pos rfl]
    push_cast
    exact ⟨by omega, by omega⟩
  · rw [if_neg same] at pending ⊢
    rw [if_neg (Ne.symm same)]
    exact ⟨by omega, by omega⟩

theorem Ledger.step (h : s.Ledger) {m : Act n} (fitting : s.Fitting m) (taken : s.step m = some t) : t.Ledger := by
  cases m with
  | call i b =>
      simp only [Hall.step] at taken
      split_ifs at taken with idle
      exact Option.some.inj taken ▸ h.quiet rfl (fun e => by rw [idle]; rfl) fun _ => rfl
  | go i =>
      obtain ⟨⟨shared, place'⟩, advanced, rfl⟩ := Option.map_eq_some_iff.mp taken
      rcases advance_cases advanced with ⟨arr, report, before, after⟩ | ⟨b, place, rfl, rfl, room⟩ | ⟨b, place, rfl, arr⟩
      · rw [report]
        exact h.quiet arr before after
      · have fits : s.shared.eventsArr b.eventNo + s.pending b.eventNo + b.totalSeats ≤ capacity := by
          simp only [Fitting, place] at fitting
          exact fitting room
        rw [place]
        exact h.test place fits
      · rw [place]
        exact h.add place arr

theorem begin_ledger (n : Nat) : (begin n).Ledger := by
  intro e
  have nothing : (begin n).pending e = 0 := Finset.sum_eq_zero fun _ _ => rfl
  rw [nothing]
  exact ⟨rfl, (by decide : (0 : Int) + (0 : Nat) ≤ capacity)⟩

/-- Once more seats are found to fit than there are, adding them overbooks the event. By
induction on what is still to be added. -/
theorem overbooked_reached (pending : Nat) {e : Nat} (open_ : s.pending e = pending)
    (more : capacity < s.shared.eventsArr e + pending) :
    ∃ t, Reached Hall.step s t ∧ capacity < t.shared.eventsArr e := by
  induction pending using Nat.strong_induction_on generalizing s with
  | _ pending ih =>
      by_cases already : capacity < s.shared.eventsArr e
      · exact ⟨s, .refl s, already⟩
      · obtain ⟨i, _, holds⟩ := Finset.exists_ne_zero_of_sum_ne_zero (show s.pending e ≠ 0 by omega)
        obtain ⟨b, place, rfl⟩ : ∃ b, s.bookers i = .adding b ∧ b.eventNo = e := by
          cases place : s.bookers i with
          | adding b =>
              rw [place] at holds
              exact ⟨b, rfl, by_contra fun other => holds (if_neg other)⟩
          | _ => rw [place] at holds; exact absurd rfl holds
        let shared := printSeats b.eventNo { s.shared with
          eventsArr := Function.update s.shared.eventsArr b.eventNo (s.shared.eventsArr b.eventNo + b.totalSeats) }
        have taken : s.step (.go i) = some (s.set i (shared, .releasing b) [b]) := by
          simp only [Hall.step, place, Booker.advance, Option.map_some, Booker.report, shared]
        have moved := s.pending_set i shared (.releasing b) [b] b.eventNo
        have added : (s.set i (shared, .releasing b) [b]).shared.eventsArr b.eventNo =
            s.shared.eventsArr b.eventNo + b.totalSeats := Function.update_self ..
        have positive := b.positive
        simp only [place, Booker.pending, if_true] at moved
        obtain ⟨t, reached, overbooked⟩ := ih _ (s := s.set i (shared, .releasing b) [b]) (by omega) rfl
          (by rw [added]; omega)
        exact ⟨t, ((Reached.refl s).snoc taken).trans reached, overbooked⟩

/-- A test that succeeds although the seats do not fit leads to an overbooked event. -/
theorem overbooked_of_not_fitting {m : Act n} (unfit : ¬ s.Fitting m) :
    ∃ t e, Reached Hall.step s t ∧ capacity < t.shared.eventsArr e := by
  cases m with
  | call i b => exact absurd trivial unfit
  | go i =>
      obtain ⟨b, place, room, more⟩ : ∃ b, s.bookers i = .testing b ∧
          s.shared.eventsArr b.eventNo + b.totalSeats ≤ capacity ∧
          capacity < s.shared.eventsArr b.eventNo + s.pending b.eventNo + b.totalSeats := by
        simp only [Fitting] at unfit
        split at unfit
        next b place =>
          obtain ⟨room, more⟩ := Classical.not_imp.mp unfit
          exact ⟨b, place, room, not_le.mp more⟩
        next => exact absurd trivial unfit
      have taken : s.step (.go i) = some (s.set i (s.shared, .adding b) []) := by
        simp only [Hall.step, place, Booker.advance, if_pos room, Option.map_some, Booker.report]
      have moved := s.pending_set i s.shared (.adding b) [] b.eventNo
      simp only [place, Booker.pending, if_true] at moved
      obtain ⟨t, reached, overbooked⟩ := overbooked_reached _ rfl (s := s.set i (s.shared, .adding b) [])
        (e := b.eventNo) (by rw [show (s.set i (s.shared, .adding b) []).shared = s.shared from rfl]; omega)
      exact ⟨t, b.eventNo, ((Reached.refl s).snoc taken).trans reached, overbooked⟩

end Hall
end Steps

/-- In every run whose bookings are tested together with those still to be added, no event
is overbooked and the seats booked are those reported. -/
theorem never_overbooked_when_fitting {n : Nat} {acts : List (Act n)} {s : Hall n}
    (fitting : Guarded Hall.step Hall.Fitting (Hall.begin n) acts) (ran : run Hall.step (Hall.begin n) acts = some s)
    (e : Nat) : s.shared.eventsArr e ≤ capacity ∧ s.shared.eventsArr e = Hall.seats e s.done := by
  have kept : ∀ (s : Hall n) m t, s.Ledger → s.Fitting m → s.step m = some t → t.Ledger := fun _ _ _ h => h.step
  obtain ⟨booked, room⟩ := guarded_run_invariant kept (Hall.begin_ledger n) fitting ran e
  exact ⟨by omega, booked⟩

/-- 300 seats of the event 7. -/
def large : Booking := ⟨7, 300, by decide, by decide, by decide⟩

/-- The call and its first scan. -/
def scanned {n : Nat} (i : Fin n) : List (Act n) := .call i large :: List.replicate max (.go i)

/-- The second scan and the three assignments to the row. -/
def entered {n : Nat} (i : Fin n) : List (Act n) := List.replicate (max + 3) (.go i)

/-- One booking after the other. -/
def inTurn : List (Act 2) :=
  [scanned 0, entered 0, List.replicate 3 (.go 0), scanned 1, entered 1, List.replicate 2 (.go 1)].flatten

/-- The second booking is refused. -/
theorem never_overbooked_when_fitting_pair :
    ∃ s : Hall 2, run Hall.step (Hall.begin 2) inTurn = some s ∧ s.shared.eventsArr 7 = Hall.seats 7 s.done := by
  have fitting : Guarded Hall.step Hall.Fitting (Hall.begin 2) inTurn := by decide
  obtain ⟨s, ran⟩ : ∃ s, run Hall.step (Hall.begin 2) inTurn = some s := Option.isSome_iff_exists.mp (by decide)
  exact ⟨s, ran, (never_overbooked_when_fitting fitting ran 7).2⟩

/-- Both bookings step by step. -/
def inStep : List (Act 2) :=
  [scanned 0, scanned 1, entered 0, entered 1, [.go 0, .go 1], [.go 0, .go 1]].flatten

/-- Two threads test the capacity before either adds its seats. -/
theorem tested_together_overbooks : ¬ ∀ (n : Nat) (acts : List (Act n)) (s : Hall n),
    run Hall.step (Hall.begin n) acts = some s →
      ∀ e, s.shared.eventsArr e ≤ capacity ∧ s.shared.eventsArr e = Hall.seats e s.done := by
  intro claim
  have booked : (run Hall.step (Hall.begin 2) inStep).map (fun s => s.shared.eventsArr 7) = some 600 := by decide
  obtain ⟨s, ran, many⟩ := Option.map_eq_some_iff.mp booked
  exact absurd (claim 2 inStep s ran 7).1 (by rw [many]; decide)

end NetworkOs.Reservation
