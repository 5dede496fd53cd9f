import NetworkOs.Reservation.Concurrent

/-! The shared table as a lock. It excludes as long as every call that holds an event
has a row for it, which finishing calls and calls that have waited can break. -/
namespace NetworkOs.Reservation
open Runs

/-- What the table says of the event of the call: an enquiry has a row to share, a
booking or cancellation finds none. -/
def Call.admitted (call : Call) (s : Shared) : Bool :=
  match eventFinder call.eventNo s with
  | none => call.writes
  | some entry => !call.waitsFor (row s entry).mode

/-- What the steps that go on from a wait and those that release must leave alone. -/
def Place.inOrder {n : Nat} (s : State n) (i : Fin n) : Place → Prop
  | .waiting call _ => call.admitted s.shared = true
  | .served call => ∀ j, j ≠ i → (s.threads j).holds.map Call.eventNo ≠ some call.eventNo
  | .idle | .called _ | .acquired _ => True

/-- A call goes on from its wait when a new scan would let it share or write a row, and
it releases its event when no other call holds it. -/
def InOrder {n : Nat} (s : State n) : Move n → Prop
  | .start _ _ => True
  | .go i => (s.threads i).inOrder s i

instance {n : Nat} (s : State n) (i : Fin n) : ∀ place, Decidable (Place.inOrder s i place)
  | .waiting call _ => inferInstanceAs (Decidable (call.admitted s.shared = true))
  | .served call =>
      inferInstanceAs (Decidable (∀ j, j ≠ i → (s.threads j).holds.map Call.eventNo ≠ some call.eventNo))
  | .idle | .called _ | .acquired _ => isTrue trivial

instance {n : Nat} (s : State n) : ∀ m, Decidable (InOrder s m)
  | .start _ _ => isTrue trivial
  | .go i => inferInstanceAs (Decidable ((s.threads i).inOrder s i))

/-- No two rows carry the same event, and a row that carries one is a reader's or a writer's. -/
structure Table (s : Shared) : Prop where
  length : s.sharedTable.length = max
  unique : ∀ a b, (row s a).event ≠ -1 → (row s a).event = (row s b).event → a = b
  modes : ∀ a, (row s a).event ≠ -1 → (row s a).mode = 0 ∨ (row s a).mode = 1

section Rows
variable {s : Shared} {e : Int} {a index : Nat}

theorem eventFinder_cases (e : Int) (s : Shared) :
    (∃ a, eventFinder e s = some a ∧ a < max ∧ (row s a).event = e) ∨
      (eventFinder e s = none ∧ ∀ a, a < max → (row s a).event ≠ e) := by
  have scan : ∀ (l : List Nat) (res : Option Nat),
      (∃ a, l.foldl (fun res i => if (row s i).event = e then some i else res) res = some a ∧ a ∈ l ∧
        (row s a).event = e) ∨
      (l.foldl (fun res i => if (row s i).event = e then some i else res) res = res ∧
        ∀ a ∈ l, (row s a).event ≠ e) := by
    intro l
    induction l with
    | nil => exact fun res => .inr ⟨rfl, fun a member => absurd member List.not_mem_nil⟩
    | cons i rest ih =>
        intro res
        rw [List.foldl_cons]
        rcases ih (if (row s i).event = e then some i else res) with ⟨a, found, member, carries⟩ | ⟨kept, others⟩
        · exact .inl ⟨a, found, List.mem_cons_of_mem i member, carries⟩
        · rw [kept]
          by_cases carries : (row s i).event = e
          · exact .inl ⟨i, if_pos carries, List.mem_cons_self, carries⟩
          · exact .inr ⟨if_neg carries, List.forall_mem_cons.mpr ⟨carries, others⟩⟩
  rcases scan (List.range max) none with ⟨a, found, member, carries⟩ | ⟨kept, others⟩
  · exact .inl ⟨a, found, List.mem_range.mp member, carries⟩
  · exact .inr ⟨kept, fun a lt => others a (List.mem_range.mpr lt)⟩

theorem event_of_found (found : eventFinder e s = some a) : a < max ∧ (row s a).event = e := by
  rcases eventFinder_cases e s with ⟨b, found', lt, carries⟩ | ⟨none_, _⟩
  · rw [found, Option.some.injEq] at found'
    exact found' ▸ ⟨lt, carries⟩
  · rw [found] at none_
    exact nomatch none_

theorem row_beyond (length : s.sharedTable.length = max) (beyond : max ≤ a) : row s a = defaultRow :=
  List.getD_eq_default _ _ (length ▸ beyond)

theorem event_of_absent (length : s.sharedTable.length = max) (absent : eventFinder e s = none) (real : e ≠ -1)
    (a : Nat) : (row s a).event ≠ e := by
  rcases eventFinder_cases e s with ⟨b, found, _⟩ | ⟨_, others⟩
  · rw [absent] at found
    exact nomatch found
  · rcases Nat.lt_or_ge a max with lt | beyond
    · exact others a lt
    · rw [row_beyond length beyond]
      exact real.symm

theorem row_takeRow (eventNo : Nat) (mode : Int) (inside : index < s.sharedTable.length) (a : Nat) :
    row (takeRow index eventNo mode s) a =
      if a = index then ⟨eventNo, mode, (row s index).users + 1⟩ else row s a := by
  unfold row takeRow
  rw [List.getD_eq_getElem?_getD, List.getD_eq_getElem?_getD, List.getD_eq_getElem?_getD, List.getElem?_modify]
  by_cases same : a = index
  · subst same
    simp [inside]
  · simp [same, Ne.symm same]

theorem row_tableDefault (index a : Nat) (s : Shared) :
    row (tableDefault index s) a = if a = index then defaultRow else row s a := by
  unfold row tableDefault
  rw [List.getD_eq_getElem?_getD, List.getD_eq_getElem?_getD, List.getElem?_set]
  by_cases same : a = index
  · subst same
    by_cases inside : a < s.sharedTable.length
    · simp [inside]
    · simp [inside]
  · simp [same, Ne.symm same]

/-- What the scans and the waits read of a row. -/
def signs (s : Shared) (a : Nat) : Int × Int := ((row s a).event, (row s a).mode)

theorem signs_congr {t : Shared} (same : t.sharedTable = s.sharedTable) (a : Nat) : signs t a = signs s a := by
  unfold signs row
  rw [same]

theorem signs_share (entry a : Nat) (s : Shared) :
    signs { s with sharedTable := s.sharedTable.modify entry fun row => { row with users := row.users + 1 } } a =
      signs s a := by
  unfold signs row
  rw [List.getD_eq_getElem?_getD, List.getD_eq_getElem?_getD, List.getElem?_modify]
  by_cases same : entry = a
  · subst same
    cases s.sharedTable[entry]? <;> simp
  · simp [same]

theorem row_release (eventNo a : Nat) (s : Shared) : row (release eventNo s) a =
    if eventFinder eventNo s = some a then defaultRow else row s a := by
  have finder : eventFinder eventNo { s with concurrency := s.concurrency - 1 } = eventFinder eventNo s := rfl
  unfold release
  dsimp only
  rw [finder]
  cases found : eventFinder eventNo s with
  | none => simp [row]
  | some entry =>
      rw [row_tableDefault]
      by_cases same : a = entry
      · simp [same]
      · simp [same, Ne.symm same, row]

theorem enter_sharedTable (call : Call) (s : Shared) : (call.enter s).sharedTable = s.sharedTable := by
  cases call <;> rfl

theorem serve_sharedTable (call : Call) (s : Shared) : (call.serve s).sharedTable = s.sharedTable := by
  cases call with
  | enquiry => rfl
  | bookTickets eventNo totalSeats =>
      change (booked eventNo totalSeats s).sharedTable = _
      unfold booked
      split_ifs <;> rfl
  | cancelTicket => rfl

theorem Table.of_signs {t : Shared} (h : Table s) (length : t.sharedTable.length = s.sharedTable.length)
    (same : ∀ a, signs t a = signs s a) : Table t := by
  have event : ∀ a, (row t a).event = (row s a).event := fun a => congrArg Prod.fst (same a)
  have mode : ∀ a, (row t a).mode = (row s a).mode := fun a => congrArg Prod.snd (same a)
  refine ⟨length.trans h.length, fun a b real eq => ?_, fun a real => ?_⟩
  · rw [event] at real
    rw [event, event] at eq
    exact h.unique a b real eq
  · rw [event] at real
    rw [mode]
    exact h.modes a real

theorem Table.congr {t : Shared} (h : Table s) (same : t.sharedTable = s.sharedTable) : Table t :=
  h.of_signs (congrArg List.length same) (signs_congr same)

theorem Table.takeRow (h : Table s) {eventNo : Nat} {mode : Int} (modes : mode = 0 ∨ mode = 1)
    (absent : eventFinder eventNo s = none) (free : eventFinder (-1) s = some index) :
    Table (takeRow index eventNo mode s) := by
  have inside : index < s.sharedTable.length := h.length.symm ▸ (event_of_found free).1
  have others : ∀ a, (row s a).event ≠ eventNo := event_of_absent h.length absent (by omega)
  have rows := row_takeRow eventNo mode inside
  refine ⟨(List.length_modify _ _ _).trans h.length, fun a b real same => ?_, fun a real => ?_⟩
  · rw [rows] at real
    rw [rows, rows] at same
    split_ifs at real same with first second second
    · exact first.trans second.symm
    · exact absurd same.symm (others b)
    · exact absurd same (others a)
    · exact h.unique a b real same
  · rw [rows] at real ⊢
    split_ifs at real ⊢
    · exact modes
    · exact h.modes a real

theorem Table.release (h : Table s) (eventNo : Nat) : Table (release eventNo s) := by
  have rows := fun a => row_release eventNo a s
  have length : (Reservation.release eventNo s).sharedTable.length = s.sharedTable.length := by
    unfold Reservation.release
    dsimp only
    split
    · exact List.length_set
    · rfl
  refine ⟨length.trans h.length, fun a b real same => ?_, fun a real => ?_⟩
  · rw [rows] at real
    rw [rows, rows] at same
    split_ifs at real same
    · exact absurd rfl real
    · exact absurd rfl real
    · exact absurd same real
    · exact h.unique a b real same
  · rw [rows] at real ⊢
    split_ifs at real ⊢
    · exact absurd rfl real
    · exact h.modes a real

end Rows

/-- Every call that holds an event has a row for it, a writer's if it writes. -/
structure Protected {n : Nat} (s : State n) : Prop where
  table : Table s.shared
  held : ∀ i call, (s.threads i).holds = some call →
    ∃ a, (row s.shared a).event = call.eventNo ∧ (call.writes = true → (row s.shared a).mode = 1)
  exclusive : Exclusive s

section Steps
variable {n : Nat} {s t : State n} {i : Fin n}

/-- A step of one thread that leaves the rows of the others alone and shares its event
with readers only. -/
theorem Protected.set (h : Protected s) {shared : Shared} {place : Place} (table : Table shared)
    (kept : ∀ j, j ≠ i → ∀ other, (s.threads j).holds = some other → ∀ a, (row s.shared a).event = other.eventNo →
      signs shared a = signs s.shared a)
    (own : ∀ call, place.holds = some call →
      (∃ a, (row shared a).event = call.eventNo ∧ (call.writes = true → (row shared a).mode = 1)) ∧
      ∀ j, j ≠ i → ∀ other, (s.threads j).holds = some other → other.eventNo = call.eventNo →
        call.writes = false ∧ other.writes = false) : Protected (s.set i (shared, place)) := by
  have place_ : ((s.set i (shared, place)).threads i) = place := Function.update_self ..
  have others : ∀ j, j ≠ i → (s.set i (shared, place)).threads j = s.threads j :=
    fun j other => Function.update_of_ne other _ _
  refine ⟨table, fun j call holds => ?_, fun j k call other holds holds' writes same => ?_⟩
  · by_cases self : j = i
    · subst self
      rw [place_] at holds
      exact (own call holds).1
    · rw [others j self] at holds
      obtain ⟨a, event, mode⟩ := h.held j call holds
      have signs_ := kept j self call holds a event
      have event' : (row shared a).event = (row s.shared a).event := congrArg Prod.fst signs_
      have mode' : (row shared a).mode = (row s.shared a).mode := congrArg Prod.snd signs_
      exact ⟨a, event'.trans event, fun writes => mode'.trans (mode writes)⟩
  · by_cases self : j = i
    · subst self
      by_contra apart
      rw [place_] at holds
      rw [others k (Ne.symm apart)] at holds'
      have readers := (own call holds).2 k (Ne.symm apart) other holds' same
      exact Bool.false_ne_true (readers.1.symm.trans writes)
    · rw [others j self] at holds
      by_cases self' : k = i
      · subst self'
        rw [place_] at holds'
        have readers := (own other holds').2 j self call holds same.symm
        exact absurd (readers.2.symm.trans writes) Bool.false_ne_true
      · rw [others k self'] at holds'
        exact h.exclusive j k call other holds holds' writes same

theorem Protected.start (h : Protected s) (i : Fin n) (call : Call) :
    Protected (s.set i (call.enter s.shared, .called call)) := by
  have same := enter_sharedTable call s.shared
  refine h.set (h.table.congr same) ?_ nofun
  exact fun j _ other _ a _ => signs_congr same a

theorem Protected.take (h : Protected s) {call : Call} {result : Shared × Place}
    (absent : eventFinder call.eventNo s.shared = none) (taken : takeFree call s.shared = some result) :
    Protected (s.set i result) := by
  obtain ⟨index, free, rfl⟩ := Option.map_eq_some_iff.mp taken
  obtain ⟨inside, empty⟩ := event_of_found free
  rw [← h.table.length] at inside
  have rows := row_takeRow call.eventNo (if call.writes then 1 else 0) inside
  refine h.set (h.table.takeRow ?_ absent free) ?_ ?_
  · split_ifs
    · exact .inr rfl
    · exact .inl rfl
  · intro j _ other _ a event
    have apart : a ≠ index := by
      rintro rfl
      rw [empty] at event
      omega
    unfold signs
    rw [rows, if_neg apart]
  · intro call' holds
    obtain rfl : call = call' := Option.some.inj holds
    refine ⟨⟨index, ?_, fun writes => ?_⟩, fun j _ other holds' same => ?_⟩
    · rw [rows, if_pos rfl]
    · rw [rows, if_pos rfl, if_pos writes]
    · obtain ⟨a, event, _⟩ := h.held j other holds'
      exact absurd (event.trans (by rw [same])) (event_of_absent h.table.length absent (by omega) a)

/-- An enquiry shares a row that is not a writer's. -/
theorem Protected.share (h : Protected s) {call : Call} {entry : Nat} {shared : Shared} {place : Place}
    (reader : call.writes = false) (found : eventFinder call.eventNo s.shared = some entry)
    (mode : (row s.shared entry).mode ≠ 1) (table : Table shared) (same : ∀ a, signs shared a = signs s.shared a)
    (holds : place.holds = some call) : Protected (s.set i (shared, place)) := by
  have carries := (event_of_found found).2
  refine h.set table (fun _ _ _ _ a _ => same a) fun call' holds' => ?_
  obtain rfl : call = call' := Option.some.inj (holds.symm.trans holds')
  refine ⟨⟨entry, ?_, fun writes => absurd (reader.symm.trans writes) Bool.false_ne_true⟩, fun j _ other holds' same' => ?_⟩
  · exact (congrArg Prod.fst (same entry) : (row shared entry).event = _).trans carries
  · refine ⟨reader, Bool.eq_false_iff.mpr fun writes => ?_⟩
    obtain ⟨b, event, writer⟩ := h.held j other holds'
    have own : entry = b := by
      refine h.table.unique entry b ?_ ?_
      · rw [carries]
        omega
      · rw [carries, event, same']
    exact mode (own ▸ writer writes)

theorem Protected.scan (h : Protected s) {call : Call} {result : Shared × Place}
    (taken : scan call s.shared = some result) : Protected (s.set i result) := by
  unfold Reservation.scan at taken
  cases found : eventFinder call.eventNo s.shared with
  | none =>
      simp only [found] at taken
      exact h.take found taken
  | some entry =>
      simp only [found] at taken
      split_ifs at taken with waits writes
      · rw [← Option.some.inj taken]
        exact h.set h.table (fun _ _ _ _ _ _ => rfl) nofun
      · -- every row that carries an event keeps a writer waiting
        have carries := (event_of_found found).2
        rcases h.table.modes entry (by rw [carries]; omega) with mode | mode
        · exact absurd (by simp [Call.waitsFor, writes, mode]) waits
        · exact absurd (by simp [Call.waitsFor, mode]) waits
      · rw [← Option.some.inj taken]
        have mode : (row s.shared entry).mode ≠ 1 := fun one => waits (by simp [Call.waitsFor, one])
        have same := fun a => signs_share entry a s.shared
        exact h.share (Bool.eq_false_iff.mpr writes) found mode
          (h.table.of_signs (List.length_modify _ _ _) same) same rfl

theorem Protected.wake (h : Protected s) {call : Call} {entry : Nat} {result : Shared × Place}
    (admitted : call.admitted s.shared = true) (taken : wake call entry s.shared = some result) :
    Protected (s.set i result) := by
  unfold Reservation.wake at taken
  unfold Call.admitted at admitted
  cases found : eventFinder call.eventNo s.shared with
  | none =>
      simp only [found] at admitted
      rw [if_pos admitted] at taken
      split_ifs at taken
      exact h.take found taken
  | some entry' =>
      simp only [found, Bool.not_eq_true'] at admitted
      have mode : (row s.shared entry').mode ≠ 1 := by
        intro one
        simp [Call.waitsFor, one] at admitted
      cases writes : call.writes with
      | true =>
          have carries := (event_of_found found).2
          rcases h.table.modes entry' (by rw [carries]; omega) with zero | one
          · simp [Call.waitsFor, writes, zero] at admitted
          · exact absurd one mode
      | false =>
          rw [writes, if_neg Bool.false_ne_true] at taken
          split_ifs at taken
          rw [← Option.some.inj taken]
          exact h.share writes found mode h.table (fun _ => rfl) rfl

theorem Protected.serve (h : Protected s) {call : Call} (place : s.threads i = .acquired call) :
    Protected (s.set i (call.serve s.shared, .served call)) := by
  have same := signs_congr (serve_sharedTable call s.shared)
  have holds : (s.threads i).holds = some call := by rw [place, Place.holds]
  refine h.set (h.table.congr (serve_sharedTable call s.shared)) (fun _ _ _ _ a _ => same a) fun call' holds' => ?_
  obtain rfl : call = call' := Option.some.inj holds'
  refine ⟨?_, fun j apart other other_ event => ⟨?_, ?_⟩⟩
  · obtain ⟨a, event, mode⟩ := h.held i call holds
    have event' : (row (call.serve s.shared) a).event = _ := congrArg Prod.fst (same a)
    have mode' : (row (call.serve s.shared) a).mode = _ := congrArg Prod.snd (same a)
    exact ⟨a, event'.trans event, fun writes => mode'.trans (mode writes)⟩
  · exact Bool.eq_false_iff.mpr fun writes => apart (h.exclusive i j call other holds other_ writes event).symm
  · exact Bool.eq_false_iff.mpr fun writes => apart (h.exclusive j i other call other_ holds writes event.symm)

theorem Protected.finish (h : Protected s) {call : Call}
    (last : ∀ j, j ≠ i → (s.threads j).holds.map Call.eventNo ≠ some call.eventNo) :
    Protected (s.set i (release call.eventNo s.shared, .idle)) := by
  refine h.set (h.table.release call.eventNo) (fun j apart other holds a event => ?_) nofun
  have elsewhere : eventFinder call.eventNo s.shared ≠ some a := by
    intro found
    have same : other.eventNo = call.eventNo := Int.ofNat.inj (event.symm.trans (event_of_found found).2)
    exact last j apart (by rw [holds, Option.map_some, same])
  unfold signs
  rw [row_release, if_neg elsewhere]

theorem Protected.step (h : Protected s) {m : Move n} (inOrder : InOrder s m) (taken : step s m = some t) :
    Protected t := by
  cases m with
  | start i call =>
      change (if s.threads i = .idle then _ else none) = some t at taken
      split_ifs at taken
      exact Option.some.inj taken ▸ h.start i call
  | go i =>
      change (s.threads i).inOrder s i at inOrder
      obtain ⟨result, advanced, rfl⟩ := Option.map_eq_some_iff.mp taken
      cases place : s.threads i with
      | idle => simp [place, advance] at advanced
      | called call =>
          rw [place] at advanced
          exact h.scan advanced
      | waiting call entry =>
          rw [place] at advanced inOrder
          exact h.wake inOrder advanced
      | acquired call =>
          rw [place] at advanced
          exact Option.some.inj advanced ▸ h.serve place
      | served call =>
          rw [place] at advanced inOrder
          exact Option.some.inj advanced ▸ h.finish inOrder

theorem begin_protected (n : Nat) : Protected (begin n) := by
  have empty : ∀ a, row (begin n).shared a = defaultRow := by
    intro a
    unfold row
    rw [List.getD_eq_getElem?_getD]
    change (List.replicate max defaultRow)[a]?.getD defaultRow = defaultRow
    rw [List.getElem?_replicate]
    split_ifs <;> rfl
  refine ⟨⟨List.length_replicate, fun a b real _ => ?_, fun a real => ?_⟩, nofun, nofun⟩
  · exact absurd (congrArg Row.event (empty a)) real
  · exact absurd (congrArg Row.event (empty a)) real

end Steps

/-- With any number of threads: in a run whose releases and whose steps after a wait are
all in order, no call holds an event together with a booking or cancellation of it. -/
theorem exclusive_when_in_order {n : Nat} {moves : List (Move n)} {s : State n}
    (inOrder : Guarded step InOrder (begin n) moves) (ran : run step (begin n) moves = some s) : Exclusive s := by
  have kept : ∀ (s : State n) m t, Protected s → InOrder s m → step s m = some t → Protected t :=
    fun _ _ _ h => h.step
  exact (guarded_run_invariant kept (begin_protected n) inOrder ran).exclusive

/-- A booking of one thread, and an enquiry of another one that waits for it. -/
theorem exclusive_when_in_order_pair : ∃ s : State 2,
    run step (begin 2) [.start 0 (.bookTickets 7 2), .go 0, .start 1 (.enquiry 7), .go 1, .go 0] = some s ∧
      Exclusive s := by
  let moves : List (Move 2) := [.start 0 (.bookTickets 7 2), .go 0, .start 1 (.enquiry 7), .go 1, .go 0]
  have inOrder : Guarded step InOrder (begin 2) moves := by decide
  obtain ⟨s, ran⟩ : ∃ s, run step (begin 2) moves = some s := Option.isSome_iff_exists.mp (by decide)
  exact ⟨s, ran, exclusive_when_in_order inOrder ran⟩

/-- Two enquiries share a row, which the first one to finish clears: a booking of the same
event then goes on while the other enquiry still holds it. -/
theorem shared_row_cleared : ¬ ∀ (n : Nat) (moves : List (Move n)) (s : State n),
    run step (begin n) moves = some s → Exclusive s := by
  intro claim
  let moves : List (Move 2) := [.start 0 (.enquiry 7), .go 0, .start 1 (.enquiry 7), .go 1, .go 0, .go 0,
    .start 0 (.bookTickets 7 2), .go 0]
  obtain ⟨s, ran⟩ : ∃ s, run step (begin 2) moves = some s := Option.isSome_iff_exists.mp (by decide)
  have places : (run step (begin 2) moves).map (fun s => (s.threads 0, s.threads 1)) =
      some (.acquired (.bookTickets 7 2), .acquired (.enquiry 7)) := by decide
  rw [ran, Option.map_some, Option.some.injEq, Prod.mk.injEq] at places
  have exclusive := claim 2 moves s ran 0 1 (.bookTickets 7 2) (.enquiry 7)
  exact absurd (exclusive (by rw [places.1]; rfl) (by rw [places.2]; rfl) rfl rfl) (by decide)

end NetworkOs.Reservation
