import NetworkOs.Reservation.Exclusion
import NetworkOs.Reservation.Workers

/-! When a call that needs a row finds a free one. Every row in use belongs to a call that has
written it and not come to its end; `concurrency` is lowered before this end. -/
namespace NetworkOs.Reservation
open Runs Census

namespace Office
variable {n : Nat}

/-- A call begins only while fewer than `max` calls are active. One that has lowered
`concurrency` is active until its row is cleared. -/
def Uncrowded (s : Office n) : Deed n → Prop
  | .begin _ _ => census Worker.Active s.workers < max
  | .full _ | .go _ => True

instance (s : Office n) : ∀ m, Decidable (s.Uncrowded m)
  | .begin _ _ => inferInstanceAs (Decidable (_ < _))
  | .full _ | .go _ => isTrue trivial

/-- The result of the scan for a free row is a row wherever it is an index. -/
def RowsFound (s : Office n) : Prop :=
  ∀ i call index, s.workers i = .writeEvent call index → ∃ a, index = some a ∧ a < max

end Office

/-- The rows that carry the event. -/
def rowsOf (x : Int) (s : Shared) : Finset Nat := (Finset.range max).filter fun a => (row s a).event = x

/-- The calls that may have a row with the event. -/
def holders {n : Nat} (x : Int) (workers : Fin n → Worker) : Nat := census (fun w : Worker => w.holds = some x) workers

/-- What a step of thread `i` from `w` to `w'` does to rows and holders. -/
inductive Change {n : Nat} (s t : Office n) (w w' : Worker) : Prop where
  | keep (events : ∀ a, (row t.shared a).event = (row s.shared a).event) (holds : w'.holds = w.holds ∨ w.holds = none)
      (unscanned : ∀ call a, w' ≠ .clear call a)
  | write (call : Call) (a : Nat) (before : w = .writeEvent call (some a)) (after : w' = .writeMode call a)
      (shared : t.shared = modifyRow a (fun row => { row with event := call.eventNo }) s.shared)
  | leave (call : Call) (before : w = .refind call) (after : w' = .signal 2)
      (absent : eventFinder call.eventNo s.shared = none) (shared : t.shared = s.shared)
  | scan (call : Call) (a : Nat) (before : w = .refind call) (after : w' = .clear call a)
      (found : eventFinder call.eventNo s.shared = some a) (shared : t.shared = s.shared)
  | clear (call : Call) (a : Nat) (before : w = .clear call a) (after : w' = .signal 2)
      (shared : t.shared = tableDefault a s.shared)

/-- What it does to `concurrency_lock`. -/
inductive LockChange {n : Nat} (i : Fin n) (s t : Office n) (w w' : Worker) : Prop where
  | keep (same : t.concurrencyLock = s.concurrencyLock) (inside : w'.Locked → w.Locked)
  | take (free : s.concurrencyLock = none) (mine : t.concurrencyLock = some i)
  | give (inside : w.Locked) (outside : ¬ w'.Locked)

structure Effect {n : Nat} (i : Fin n) (s t : Office n) (w w' : Worker) : Prop where
  workers : t.workers = Function.update s.workers i w'
  change : Change s t w w'
  lock : LockChange i s t w w'
  active : w'.Active → w.Active
  result : ∀ call index, w' = .writeEvent call index → w = .searching call ∧ index = eventFinder (-1) s.shared

section Effects
variable {n : Nat} {s t : Office n} {i : Fin n}

theorem event_modifyRow {f : Row → Row} (same : ∀ r, (f r).event = r.event) (index a : Nat) (s : Shared) :
    (row (modifyRow index f s) a).event = (row s a).event := by
  unfold row modifyRow
  rw [List.getD_eq_getElem?_getD, List.getD_eq_getElem?_getD, List.getElem?_modify]
  by_cases own : index = a
  · subst own
    cases s.sharedTable[index]? with
    | none => rfl
    | some r => simpa using same r
  · simp [own]

theorem event_tableDefault (index a : Nat) (s : Shared) :
    (row (tableDefault index s) a).event = if a = index then -1 else (row s a).event := by
  rw [row_tableDefault]
  split_ifs <;> rfl

theorem perform_sharedTable (call : Call) (s : Shared) (work : Work) :
    (call.perform s work).sharedTable = s.sharedTable := by
  cases work with
  | show_ | test | subtract => rfl
  | add => cases call <;> rfl

theorem working_holds (call : Call) : call.working.holds = some call.eventNo := by cases call <;> rfl

theorem working_unscanned (call other : Call) (a : Nat) : call.working ≠ .clear other a := by
  cases call <;> exact nofun

theorem working_result (call other : Call) (index : Option Nat) : call.working ≠ .writeEvent other index := by
  cases call <;> exact nofun

theorem working_unlocked (call : Call) : ¬ call.working.Locked := by cases call <;> exact id

theorem next_holds (call : Call) (rest : List Work) : (Worker.next call rest).holds = some call.eventNo := by
  cases rest <;> rfl

/-- A step with no effect on rows and holders. -/
theorem Effect.plain {w w' : Worker} (workers : t.workers = Function.update s.workers i w')
    (events : ∀ a, (row t.shared a).event = (row s.shared a).event) (holds : w'.holds = w.holds ∨ w.holds = none)
    (lock : LockChange i s t w w') (active : w'.Active → w.Active) (unscanned : ∀ call a, w' ≠ .clear call a)
    (result : ∀ call index, w' ≠ .writeEvent call index) : Effect i s t w w' :=
  ⟨workers, .keep events holds unscanned, lock, active, fun call index eq => absurd eq (result call index)⟩

theorem gate_effect {w : Worker} (place : w.part = .gate) (taken : Office.advance i s w = some t) :
    ∃ w', Effect i s t w w' := by
  have kept : ∀ a, (row s.shared a).event = (row s.shared a).event := fun _ => rfl
  cases w with
  | query => exact nomatch taken
  | gateLock =>
      simp only [Office.advance] at taken
      split_ifs at taken with free
      obtain rfl := Option.some.inj taken
      exact ⟨_, .plain rfl kept (.inl rfl) (.take free rfl) id nofun nofun⟩
  | gateTest =>
      obtain rfl := Option.some.inj taken
      split_ifs
      · exact ⟨_, .plain rfl kept (.inl rfl) (.give trivial id) id nofun nofun⟩
      · exact ⟨_, .plain rfl kept (.inl rfl) (.keep rfl id) id nofun nofun⟩
  | gateUnlock =>
      obtain rfl := Option.some.inj taken
      exact ⟨_, .plain rfl kept (.inl rfl) (.give trivial id) id nofun nofun⟩
  | _ => cases place

/-- The lookup changes no row. -/
theorem lookup_effect {w : Worker} (place : w.part = .lookup) (taken : Office.advance i s w = some t) :
    ∃ w', Effect i s t w w' := by
  have kept : ∀ a, (row s.shared a).event = (row s.shared a).event := fun _ => rfl
  cases w with
  | entered call =>
      obtain rfl := Option.some.inj taken
      split_ifs
      · exact ⟨_, .plain rfl kept (.inl rfl) (.keep rfl id) id nofun nofun⟩
      · exact ⟨_, .plain rfl kept (.inl rfl) (.keep rfl id) id nofun nofun⟩
  | finding call =>
      simp only [Office.advance] at taken
      split_ifs at taken
      · obtain rfl := Option.some.inj taken
        split
        · exact ⟨_, .plain rfl kept (.inl rfl) (.keep rfl id) id nofun nofun⟩
        · exact ⟨_, .plain rfl kept (.inl rfl) (.keep rfl id) id nofun nofun⟩
      · obtain rfl := Option.some.inj taken
        split
        · exact ⟨_, .plain rfl kept (.inl rfl) (.keep rfl id) id nofun nofun⟩
        · exact ⟨_, .plain rfl kept (.inl rfl) (.keep rfl id) id nofun nofun⟩
  | modeTest call entry =>
      obtain rfl := Option.some.inj taken
      split_ifs
      · exact ⟨_, .plain rfl kept (.inl rfl) (.keep rfl id) id nofun nofun⟩
      · exact ⟨_, .plain rfl kept (.inl rfl) (.keep rfl id) id nofun nofun⟩
  | rowLock call entry =>
      simp only [Office.advance] at taken
      split_ifs at taken
      obtain rfl := Option.some.inj taken
      exact ⟨_, .plain rfl kept (.inl rfl) (.keep rfl id) id nofun nofun⟩
  | rowTest call entry =>
      obtain rfl := Option.some.inj taken
      split_ifs
      · exact ⟨_, .plain rfl kept (.inl rfl) (.keep rfl id) id nofun nofun⟩
      · exact ⟨_, .plain rfl kept (.inl rfl) (.keep rfl id) id nofun nofun⟩
  | rowUnlock call =>
      obtain rfl := Option.some.inj taken
      split_ifs
      · exact ⟨_, .plain rfl kept (.inl rfl) (.keep rfl id) id nofun nofun⟩
      · exact ⟨_, .plain rfl kept (.inr rfl) (.keep rfl id) id nofun nofun⟩
  | searching call =>
      simp only [Office.advance] at taken
      split_ifs at taken
      obtain rfl := Option.some.inj taken
      refine ⟨_, rfl, .keep kept (.inl rfl) nofun, .keep rfl id, id, fun call' index eq => ?_⟩
      obtain ⟨rfl, rfl⟩ := Worker.writeEvent.inj eq
      exact ⟨rfl, rfl⟩
  | _ => cases place

/-- Only the first write gives a row another event. -/
theorem writes_effect {w : Worker} (place : w.part = .writes) (taken : Office.advance i s w = some t) :
    ∃ w', Effect i s t w w' := by
  cases w with
  | share call entry =>
      obtain rfl := Option.some.inj taken
      exact ⟨_, .plain rfl (fun a => event_modifyRow (by exact fun _ => rfl) entry a _) (.inr rfl)
        (.keep rfl fun inside => absurd inside (working_unlocked call)) (fun _ => trivial) (working_unscanned call)
        (working_result call)⟩
  | writeEvent call index =>
      cases index with
      | none => exact nomatch taken
      | some index =>
          obtain rfl := Option.some.inj taken
          exact ⟨_, rfl, .write call index rfl rfl rfl, .keep rfl id, id, nofun⟩
  | writeMode call index =>
      obtain rfl := Option.some.inj taken
      exact ⟨_, .plain rfl (fun a => event_modifyRow (by exact fun _ => rfl) index a _) (.inl rfl) (.keep rfl id) id nofun
        nofun⟩
  | writeUsers call index =>
      obtain rfl := Option.some.inj taken
      exact ⟨_, .plain rfl (fun a => event_modifyRow (by exact fun _ => rfl) index a _) (.inl (working_holds call))
        (.keep rfl fun inside => absurd inside (working_unlocked call)) (fun _ => trivial) (working_unscanned call)
        (working_result call)⟩
  | work call first rest =>
      obtain rfl := Option.some.inj taken
      have events : ∀ a, (row (call.perform s.shared first) a).event = (row s.shared a).event := fun a =>
        congrArg Prod.fst (signs_congr (perform_sharedTable call s.shared first) a)
      refine ⟨_, .plain rfl events (.inl (next_holds call _)) (.keep rfl fun inside => ?_) (fun _ => trivial) ?_ ?_⟩
      · cases left : call.rest s.shared first rest <;> exact (left ▸ inside : Worker.Locked (.next call _))
      · cases call.rest s.shared first rest <;> exact nofun
      · cases call.rest s.shared first rest <;> exact nofun
  | _ => cases place

/-- The last of the call is the row, which is cleared if the scan finds it. -/
theorem leaving_effect {w : Worker} (place : w.part = .leaving) (taken : Office.advance i s w = some t) :
    ∃ w', Effect i s t w w' := by
  have kept : ∀ a, (row s.shared a).event = (row s.shared a).event := fun _ => rfl
  cases w with
  | finishLock call =>
      simp only [Office.advance] at taken
      split_ifs at taken with free
      obtain rfl := Option.some.inj taken
      exact ⟨_, .plain rfl kept (.inl rfl) (.take free rfl) id nofun nofun⟩
  | lower call =>
      obtain rfl := Option.some.inj taken
      exact ⟨_, .plain rfl kept (.inl rfl) (.keep rfl id) id nofun nofun⟩
  | refind call =>
      simp only [Office.advance] at taken
      split_ifs at taken
      obtain rfl := Option.some.inj taken
      cases found : eventFinder call.eventNo s.shared with
      | none => exact ⟨_, rfl, .leave call rfl rfl found rfl, .keep rfl id, fun _ => trivial, nofun⟩
      | some entry => exact ⟨_, rfl, .scan call entry rfl rfl found rfl, .keep rfl id, id, nofun⟩
  | clear call entry =>
      simp only [Office.advance] at taken
      split_ifs at taken
      obtain rfl := Option.some.inj taken
      exact ⟨_, rfl, .clear call entry rfl rfl rfl, .keep rfl id, fun _ => trivial, nofun⟩
  | signal left =>
      cases left with
      | zero =>
          obtain rfl := Option.some.inj taken
          exact ⟨_, .plain rfl kept (.inl rfl) (.give trivial id) id nofun nofun⟩
      | succ left =>
          obtain rfl := Option.some.inj taken
          exact ⟨_, .plain rfl kept (.inl rfl) (.keep rfl id) id nofun nofun⟩
  | _ => cases place

/-- What each statement can do. -/
theorem advance_effect {w : Worker} (taken : Office.advance i s w = some t) : ∃ w', Effect i s t w w' := by
  cases place : w.part with
  | gate => exact gate_effect place taken
  | lookup => exact lookup_effect place taken
  | writes => exact writes_effect place taken
  | leaving => exact leaving_effect place taken

end Effects

/-- Who is between the lock and the unlock of `concurrency_lock` holds it. -/
def LocksHeld {n : Nat} (s : Office n) : Prop := ∀ i, (s.workers i).Locked → s.concurrencyLock = some i

/-- Every row in use has its own call. A call about to clear a row counts without it. -/
structure Counted {n : Nat} (s : Office n) : Prop where
  rows : ∀ x, x ≠ -1 → (rowsOf x s.shared).card ≤ holders x s.workers
  scanned : ∀ i call a, s.workers i = .clear call a →
    ((rowsOf call.eventNo s.shared).erase a).card + 1 ≤ holders call.eventNo s.workers

section Invariants
variable {n : Nat} {s t : Office n} {i : Fin n} {w w' : Worker} {x : Int}

/-- What holds of the places of all threads when one of them moves. -/
theorem places_update (P : Fin n → Worker → Prop) (workers : t.workers = Function.update s.workers i w')
    (own : P i w') (others : ∀ j, j ≠ i → P j (s.workers j)) (j : Fin n) : P j (t.workers j) := by
  rw [workers]
  exact (Function.forall_update_iff s.workers P).mpr ⟨own, others⟩ j

theorem LocksHeld.update (workers : t.workers = Function.update s.workers i w')
    (own : w'.Locked → t.concurrencyLock = some i)
    (others : ∀ j, j ≠ i → (s.workers j).Locked → t.concurrencyLock = some j) : LocksHeld t :=
  places_update (fun j w => w.Locked → t.concurrencyLock = some j) workers own others

theorem Office.RowsFound.update (h : s.RowsFound) (workers : t.workers = Function.update s.workers i w')
    (own : ∀ call index, w' = .writeEvent call index → ∃ a, index = some a ∧ a < max) : t.RowsFound :=
  places_update (fun _ w => ∀ call index, w = .writeEvent call index → ∃ a, index = some a ∧ a < max) workers own
    fun j _ => h j

theorem Counted.update (workers : t.workers = Function.update s.workers i w')
    (rows : ∀ x, x ≠ -1 → (rowsOf x t.shared).card ≤ holders x t.workers)
    (own : ∀ call a, w' = .clear call a →
      ((rowsOf call.eventNo t.shared).erase a).card + 1 ≤ holders call.eventNo t.workers)
    (others : ∀ j, j ≠ i → ∀ call a, s.workers j = .clear call a →
      ((rowsOf call.eventNo t.shared).erase a).card + 1 ≤ holders call.eventNo t.workers) : Counted t :=
  ⟨rows, places_update (fun _ w => ∀ call a, w = .clear call a →
    ((rowsOf call.eventNo t.shared).erase a).card + 1 ≤ holders call.eventNo t.workers) workers own others⟩

theorem LocksHeld.effect (h : LocksHeld s) (place : s.workers i = w) (effect : Effect i s t w w') : LocksHeld t := by
  refine .update effect.workers (fun inside => ?_) fun j other inside => ?_
  · cases effect.lock with
    | keep same locked => exact same.trans (h i (place ▸ locked inside))
    | take _ mine => exact mine
    | give _ outside => exact absurd inside outside
  · have mine := h j inside
    cases effect.lock with
    | keep same => exact same.trans mine
    | take free => exact nomatch free.symm.trans mine
    | give locked => exact absurd (Option.some.inj (mine.symm.trans (h i (place ▸ locked)))) other

/-- A thread that finishes its call is alone in doing so. -/
theorem LocksHeld.alone (h : LocksHeld s) (inside : (s.workers i).Locked) {j : Fin n} {call : Call} {a : Nat}
    (clears : s.workers j = .clear call a) : j = i :=
  Option.some.inj ((h j (clears ▸ trivial)).symm.trans (h i inside))

theorem mem_rowsOf {shared : Shared} {a : Nat} : a ∈ rowsOf x shared ↔ a < max ∧ (row shared a).event = x := by
  rw [rowsOf, Finset.mem_filter, Finset.mem_range]

theorem rowsOf_congr {shared shared' : Shared} (events : ∀ a, (row shared' a).event = (row shared a).event) (x : Int) :
    rowsOf x shared' = rowsOf x shared := by
  ext a
  rw [mem_rowsOf, mem_rowsOf, events]

theorem holders_update (workers : Fin n → Worker) (i : Fin n) (w' : Worker) (x : Int) :
    holders x (Function.update workers i w') + (if (workers i).holds = some x then 1 else 0) =
      holders x workers + if w'.holds = some x then 1 else 0 := census_update i w'

theorem event_write (a b : Nat) (x : Int) (shared : Shared) :
    (row (modifyRow a (fun row => { row with event := x }) shared) b).event =
      if a = b ∧ b < shared.sharedTable.length then x else (row shared b).event := by
  unfold row modifyRow
  rw [List.getD_eq_getElem?_getD, List.getD_eq_getElem?_getD, List.getElem?_modify]
  by_cases own : a = b
  · subst own
    by_cases inside : a < shared.sharedTable.length <;> simp [inside]
  · simp [own]

/-- A row written is one more of its event, and one less of another one at most. -/
theorem rowsOf_write (a : Nat) (x y : Int) (shared : Shared) :
    rowsOf y (modifyRow a (fun row => { row with event := x }) shared) ⊆
      if y = x then insert a (rowsOf y shared) else rowsOf y shared := by
  intro b member
  rw [mem_rowsOf, event_write] at member
  obtain ⟨inside, carries⟩ := member
  split_ifs at carries with own
  · rw [if_pos carries.symm, ← own.1]
    exact Finset.mem_insert_self ..
  · have kept := mem_rowsOf.mpr ⟨inside, carries⟩
    split_ifs
    · exact Finset.mem_insert_of_mem kept
    · exact kept

theorem rowsOf_clear (a : Nat) (shared : Shared) (real : x ≠ -1) :
    rowsOf x (tableDefault a shared) = (rowsOf x shared).erase a := by
  ext b
  rw [mem_rowsOf, event_tableDefault, Finset.mem_erase, mem_rowsOf]
  by_cases own : b = a
  · simp [own, real.symm]
  · simp [own]

theorem rowsOf_absent {shared : Shared} (absent : eventFinder x shared = none) : rowsOf x shared = ∅ := by
  rcases eventFinder_cases x shared with ⟨a, found, _⟩ | ⟨_, others⟩
  · rw [absent] at found
    exact nomatch found
  · exact Finset.filter_eq_empty_iff.mpr fun a member => others a (Finset.mem_range.mp member)

/-- No step of another thread takes a holder away but the end of a call. -/
theorem Counted.keep (h : Counted s) (workers : t.workers = Function.update s.workers i w')
    (events : ∀ a, (row t.shared a).event = (row s.shared a).event)
    (holds : w'.holds = (s.workers i).holds ∨ (s.workers i).holds = none) (unscanned : ∀ call a, w' ≠ .clear call a) :
    Counted t := by
  have more : ∀ x, holders x s.workers ≤ holders x t.workers := by
    intro x
    have moved := holders_update s.workers i w' x
    rw [workers]
    rcases holds with same | none_
    · rw [same] at moved
      omega
    · rw [none_, if_neg nofun] at moved
      omega
  refine .update workers (fun x real => ?_) (fun call a clears => absurd clears (unscanned call a))
    fun j _ call a clears => ?_
  · rw [rowsOf_congr events]
    exact (h.rows x real).trans (more x)
  · rw [rowsOf_congr events]
    exact (h.scanned j call a clears).trans (more _)

theorem Counted.write (h : Counted s) (workers : t.workers = Function.update s.workers i w') {call : Call} {a : Nat}
    (before : s.workers i = .writeEvent call (some a)) (after : w' = .writeMode call a)
    (shared : t.shared = modifyRow a (fun row => { row with event := call.eventNo }) s.shared) : Counted t := by
  have more : ∀ x, holders x t.workers = holders x s.workers + if x = call.eventNo then 1 else 0 := by
    intro x
    have moved := holders_update s.workers i w' x
    rw [before, after] at moved
    rw [workers, after]
    simpa [Worker.holds, eq_comm] using moved
  have grown : ∀ x (b : Finset Nat), ((rowsOf x t.shared) \ b).card ≤
      ((rowsOf x s.shared) \ b).card + if x = call.eventNo then 1 else 0 := by
    intro x b
    have part := rowsOf_write a call.eventNo x s.shared
    rw [← shared] at part
    by_cases own : x = call.eventNo
    · rw [if_pos own] at part ⊢
      have within : rowsOf x t.shared \ b ⊆ insert a (rowsOf x s.shared \ b) := by
        intro z member
        obtain ⟨inside, outside⟩ := Finset.mem_sdiff.mp member
        rcases Finset.mem_insert.mp (part inside) with rfl | kept
        · exact Finset.mem_insert_self ..
        · exact Finset.mem_insert_of_mem (Finset.mem_sdiff.mpr ⟨kept, outside⟩)
      exact (Finset.card_le_card within).trans (Finset.card_insert_le _ _)
    · rw [if_neg own] at part ⊢
      exact Finset.card_le_card (Finset.sdiff_subset_sdiff part le_rfl)
  refine .update workers (fun x real => ?_) (fun call' b clears => ?_) fun j _ call' b clears => ?_
  · have size := grown x ∅
    rw [Finset.sdiff_empty, Finset.sdiff_empty] at size
    have rows := h.rows x real
    rw [more]
    omega
  · rw [after] at clears
    exact nomatch clears
  · have size := grown call'.eventNo {b}
    rw [Finset.sdiff_singleton_eq_erase, Finset.sdiff_singleton_eq_erase] at size
    have scanned := h.scanned j call' b clears
    rw [more]
    omega

/-- The end of a call takes one holder away, with a row of its event if there is one. -/
theorem Counted.finish (h : Counted s) (locks : LocksHeld s) (inside : (s.workers i).Locked) {call : Call}
    (holds : (s.workers i).holds = some (call.eventNo : Int))
    (workers : t.workers = Function.update s.workers i (.signal 2))
    (rows : ∀ x, x ≠ -1 → rowsOf x t.shared ⊆ rowsOf x s.shared)
    (own : (rowsOf call.eventNo t.shared).card + 1 ≤ holders call.eventNo s.workers ∨
      rowsOf call.eventNo t.shared = ∅) :
    Counted t := by
  refine .update workers (fun x real => ?_) nofun fun j other call' b clears => ?_
  · have moved := holders_update s.workers i (.signal 2) x
    rw [holds, if_neg (show (Worker.signal 2).holds ≠ some x from nofun)] at moved
    rw [workers]
    by_cases same : x = call.eventNo
    · subst same
      rw [if_pos rfl] at moved
      rcases own with fewer | none_
      · omega
      · rw [none_, Finset.card_empty]
        exact Nat.zero_le _
    · rw [if_neg fun eq => same (Option.some.inj eq).symm] at moved
      have before := h.rows x real
      have fewer := Finset.card_le_card (rows x real)
      omega
  · exact absurd (locks.alone inside clears) other

theorem Counted.scan (h : Counted s) (locks : LocksHeld s) {call : Call} {a : Nat} (before : s.workers i = .refind call)
    (workers : t.workers = Function.update s.workers i (.clear call a))
    (found : eventFinder call.eventNo s.shared = some a) (shared : t.shared = s.shared) : Counted t := by
  have same : ∀ x, holders x t.workers = holders x s.workers := by
    intro x
    have moved := holders_update s.workers i (.clear call a) x
    rw [before] at moved
    rw [workers]
    exact Nat.add_right_cancel moved
  obtain ⟨inside, carries⟩ := event_of_found found
  refine .update workers (fun x real => ?_) (fun call' b clears => ?_) fun j other call' b clears => ?_
  · rw [same, shared]
    exact h.rows x real
  · obtain ⟨rfl, rfl⟩ := Worker.clear.inj clears
    have member : a ∈ rowsOf call.eventNo s.shared := mem_rowsOf.mpr ⟨inside, carries⟩
    rw [same, shared, Finset.card_erase_add_one member]
    exact h.rows _ (by omega)
  · exact absurd (locks.alone (i := i) (before ▸ trivial) clears) other

theorem Counted.effect (h : Counted s) (locks : LocksHeld s) (place : s.workers i = w) (effect : Effect i s t w w') :
    Counted t := by
  have workers := effect.workers
  cases effect.change with
  | keep events holds unscanned => exact h.keep workers events (place ▸ holds) unscanned
  | write call a before after shared => exact h.write workers (place.trans before) after shared
  | leave call before after absent shared =>
      have refinds := place.trans before
      rw [after] at workers
      refine h.finish locks (i := i) (by rw [refinds]; trivial) (by rw [refinds]; rfl) workers (fun x _ => ?_) (.inr ?_)
      · rw [shared]
      · rw [shared]
        exact rowsOf_absent absent
  | scan call a before after found shared =>
      rw [after] at workers
      exact h.scan locks (place.trans before) workers found shared
  | clear call a before after shared =>
      have clears := place.trans before
      rw [after] at workers
      refine h.finish locks (i := i) (by rw [clears]; trivial) (by rw [clears]; rfl) workers (fun x real => ?_) (.inl ?_)
      · rw [shared, rowsOf_clear a s.shared real]
        exact Finset.erase_subset _ _
      · rw [shared, rowsOf_clear a s.shared (by omega)]
        exact h.scanned i call a clears

/-- Rows in use are no more than the calls that may have one. -/
theorem Counted.used (h : Counted s) :
    ((Finset.range max).filter fun a => (row s.shared a).event ≠ -1).card ≤
      census (fun w : Worker => w.holds.isSome = true) s.workers := by
  let used := (Finset.range max).filter fun a => (row s.shared a).event ≠ -1
  let present := used.image fun a => (row s.shared a).event
  let holding := Finset.univ.filter fun k => (s.workers k).holds.isSome = true
  have within : ∀ x ∈ present, (used.filter fun a => (row s.shared a).event = x).card ≤
      (holding.filter fun k => (s.workers k).holds = some x).card := by
    intro x member
    obtain ⟨a, inUse, rfl⟩ := Finset.mem_image.mp member
    have rows : (used.filter fun b => (row s.shared b).event = (row s.shared a).event) ⊆
        rowsOf (row s.shared a).event s.shared := by
      intro b found
      obtain ⟨inUse', same⟩ := Finset.mem_filter.mp found
      exact mem_rowsOf.mpr ⟨Finset.mem_range.mp (Finset.mem_filter.mp inUse').1, same⟩
    have calls : (Finset.univ.filter fun k => (s.workers k).holds = some (row s.shared a).event) ⊆
        holding.filter fun k => (s.workers k).holds = some (row s.shared a).event := by
      intro k found
      have holds := (Finset.mem_filter.mp found).2
      exact Finset.mem_filter.mpr ⟨Finset.mem_filter.mpr ⟨Finset.mem_univ k, by rw [holds]; rfl⟩, holds⟩
    exact (Finset.card_le_card rows).trans
      ((h.rows _ (Finset.mem_filter.mp inUse).2).trans (Finset.card_le_card calls))
  have split : used.card = ∑ x ∈ present, (used.filter fun a => (row s.shared a).event = x).card :=
    Finset.card_eq_sum_card_image _ _
  calc used.card = ∑ x ∈ present, (used.filter fun a => (row s.shared a).event = x).card := split
    _ ≤ ∑ x ∈ present, (holding.filter fun k => (s.workers k).holds = some x).card := Finset.sum_le_sum within
    _ ≤ holding.card := by
        rw [← Finset.card_biUnion]
        · refine Finset.card_le_card (Finset.biUnion_subset.mpr fun x _ => Finset.filter_subset _ _)
        · intro x _ y _ apart
          refine Finset.disjoint_left.mpr fun k first second => apart ?_
          exact Option.some.inj ((Finset.mem_filter.mp first).2.symm.trans (Finset.mem_filter.mp second).2)

theorem active_of_holds {w : Worker} (holds : w.holds.isSome = true) : w.Active := by
  cases w <;> trivial

/-- While a call looks for a free row, fewer calls than rows can have one. -/
theorem Counted.found (h : Counted s) (few : census Worker.Active s.workers ≤ max) {call : Call}
    (searches : s.workers i = .searching call) : ∃ a, eventFinder (-1) s.shared = some a ∧ a < max := by
  rcases eventFinder_cases (-1) s.shared with ⟨a, found, inside, _⟩ | ⟨_, others⟩
  · exact ⟨a, found, inside⟩
  · have allUsed : ((Finset.range max).filter fun a => (row s.shared a).event ≠ -1) = Finset.range max :=
      Finset.filter_true_of_mem fun a member => others a (Finset.mem_range.mp member)
    have used := h.used
    rw [allUsed, Finset.card_range] at used
    have fewer : census (fun w : Worker => w.holds.isSome = true) s.workers < census Worker.Active s.workers := by
      refine Finset.card_lt_card ⟨?_, fun back => ?_⟩
      · exact Finset.monotone_filter_right _ fun k _ => active_of_holds
      · have mine := (Finset.mem_filter.mp (back (Finset.mem_filter.mpr ⟨Finset.mem_univ i, searches ▸ trivial⟩))).2
        rw [searches] at mine
        exact nomatch mine
    omega

end Invariants

/-- What an uncrowded run keeps. -/
structure Housed {n : Nat} (s : Office n) : Prop where
  locks : LocksHeld s
  counted : Counted s
  few : census Worker.Active s.workers ≤ max
  found : s.RowsFound

section Run
variable {n : Nat} {s t : Office n} {i : Fin n} {w w' : Worker}

theorem Housed.effect (h : Housed s) (place : s.workers i = w) (effect : Effect i s t w w') : Housed t where
  locks := h.locks.effect place effect
  counted := h.counted.effect h.locks place effect
  few := by
    have moved := census_update (p := Worker.Active) (f := s.workers) i w'
    have few := h.few
    have active := effect.active
    rw [place] at moved
    rw [effect.workers]
    split_ifs at moved with before after
    · omega
    · omega
    · exact absurd (active ‹_›) before
    · omega
  found := by
    refine h.found.update effect.workers fun call index writes => ?_
    obtain ⟨searches, rfl⟩ := effect.result call index writes
    exact h.counted.found h.few (place.trans searches)

/-- A thread outside a call goes on without one row more or less. -/
theorem Housed.idle (h : Housed s) (idle : s.workers i = .query) (workers : t.workers = Function.update s.workers i w')
    (rows : t.shared.sharedTable = s.shared.sharedTable) (lock : t.concurrencyLock = s.concurrencyLock)
    (outside : ¬ w'.Locked) (few : census Worker.Active t.workers ≤ max) (unscanned : ∀ call a, w' ≠ .clear call a)
    (unwritten : ∀ call index, w' ≠ .writeEvent call index) : Housed t where
  locks := .update workers (fun inside => absurd inside outside) fun j _ inside => lock.trans (h.locks j inside)
  counted :=
    h.counted.keep workers (fun a => congrArg Prod.fst (signs_congr rows a)) (.inr (by rw [idle]; rfl)) unscanned
  few := few
  found := h.found.update workers fun call index writes => absurd writes (unwritten call index)

theorem Housed.step (h : Housed s) {m : Deed n} (uncrowded : s.Uncrowded m) (taken : s.step m = some t) : Housed t := by
  cases m with
  | begin i call =>
      simp only [Office.step] at taken
      split_ifs at taken with ready
      obtain rfl := Option.some.inj taken
      have outside : ¬ (s.workers i).Active := by rw [ready.1]; exact id
      refine h.idle ready.1 rfl rfl rfl id ?_ nofun nofun
      exact (census_enter (p := Worker.Active) (v := .entered call) outside trivial).trans_le uncrowded
  | full i =>
      simp only [Office.step] at taken
      split_ifs at taken with ready
      obtain rfl := Option.some.inj taken
      refine h.idle ready.1 rfl rfl rfl id ?_ nofun nofun
      exact (census_stay (v := .gateLock) (by rw [ready.1]; exact Iff.rfl)).trans_le h.few
  | go i =>
      obtain ⟨w', effect⟩ := advance_effect taken
      exact h.effect rfl effect

theorem start_housed (n : Nat) : Housed (Office.start n) where
  locks := nofun
  counted := by
    refine ⟨fun x real => ?_, nofun⟩
    have none_ : rowsOf x (Office.start n).shared = ∅ := by
      refine Finset.filter_eq_empty_iff.mpr fun a member => ?_
      have free : ∀ a < max, (row start a).event = -1 := by decide
      exact fun carries => real (carries.symm.trans (free a (Finset.mem_range.mp member)))
    rw [none_]
    exact Nat.zero_le _
  few := (census_eq_zero_iff.mpr fun _ => id).trans_le (Nat.zero_le _)
  found := nofun

end Run

/-- In every run that enters a call only while fewer than `max` are active, a scan for a free row finds one. -/
theorem rows_found_when_uncrowded {n : Nat} {deeds : List (Deed n)} {s : Office n}
    (uncrowded : Guarded Office.step Office.Uncrowded (Office.start n) deeds)
    (ran : run Office.step (Office.start n) deeds = some s) : s.RowsFound := by
  have kept : ∀ (s : Office n) m t, Housed s → s.Uncrowded m → s.step m = some t → Housed t := fun _ _ _ h => h.step
  exact (guarded_run_invariant kept (start_housed n) uncrowded ran).found

/-- An enquiry from its beginning to the write of its row. -/
def enters {n : Nat} (i : Fin n) : List (Deed n) := .begin i (.enquiry i) :: List.replicate 4 (.go i)

/-- Five calls at once: each has found a row. -/
theorem rows_found_when_uncrowded_five :
    ∃ s : Office 5, run Office.step (Office.start 5) ((List.finRange 5).flatMap enters) = some s ∧ s.RowsFound := by
  have uncrowded : Guarded Office.step Office.Uncrowded (Office.start 5) ((List.finRange 5).flatMap enters) := by
    decide
  obtain ⟨s, ran⟩ : ∃ s, run Office.step (Office.start 5) ((List.finRange 5).flatMap enters) = some s :=
    Option.isSome_iff_exists.mp (by decide)
  exact ⟨s, ran, rows_found_when_uncrowded uncrowded ran⟩

/-- Five calls, and a sixth one while the first finishes. -/
def crowded : List (Deed 6) :=
  [((List.finRange 6).take max).flatMap enters, List.replicate 5 (.go 0), [.begin 5 (.enquiry 5)],
    List.replicate 3 (.go 5)].flatten

/-- The first of five calls has lowered `concurrency` and not yet cleared its row: a sixth one
is let in and finds no row. -/
theorem sixth_call_finds_none : ¬ ∀ (n : Nat) (deeds : List (Deed n)) (s : Office n),
    run Office.step (Office.start n) deeds = some s → s.RowsFound := by
  intro claim
  have reached : (run Office.step (Office.start 6) crowded).map (fun s => s.workers 5) =
      some (.writeEvent (.enquiry 5) none) := by decide
  obtain ⟨s, ran, writes⟩ := Option.map_eq_some_iff.mp reached
  obtain ⟨a, found, _⟩ := claim 6 crowded s ran 5 (.enquiry 5) none writes
  exact nomatch found

end NetworkOs.Reservation
