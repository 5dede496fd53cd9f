import NetworkOs.Library.Mutex
import NetworkOs.Reservation.FreeRows

/-! What the calls give back: under every schedule `concurrency` is the number of the calls
that have still to lower it, and when all calls are over no row carries an event. -/
namespace NetworkOs.Reservation
open Runs Census

namespace Worker

/-- In a call that has not lowered `concurrency`. -/
def Counts : Worker → Prop
  | .query | .gateLock | .gateTest | .gateUnlock | .refind _ | .clear _ _ | .signal _ => False
  | _ => True

instance : DecidablePred Counts
  | .query | .gateLock | .gateTest | .gateUnlock | .refind _ | .clear _ _ | .signal _ => isFalse id
  | .entered _ | .finding _ | .modeTest _ _ | .share _ _ | .rowLock _ _ | .rowTest _ _ | .rowUnlock _ | .searching _
  | .writeEvent _ _ | .writeMode _ _ | .writeUsers _ _ | .work _ _ _ | .finishLock _ | .lower _ => isTrue trivial

/-- Between a lock and an unlock of `table_lock` that are steps of their own. -/
def InTable : Worker → Prop
  | .rowTest _ _ | .rowUnlock _ => True
  | _ => False

end Worker

/-- What a step of thread `i` from `w` to `w'` does to the counter and the two mutexes. -/
structure Account {n : Nat} (i : Fin n) (s t : Office n) (w w' : Worker) : Prop where
  workers : t.workers = Function.update s.workers i w'
  count : t.shared.concurrency + (if w.Counts then 1 else 0) = s.shared.concurrency + if w'.Counts then 1 else 0
  table : Mutex.Change i s.tableLock t.tableLock w.InTable w'.InTable
  gate : Mutex.Change i s.concurrencyLock t.concurrencyLock w.Locked w'.Locked

section Accounts
variable {n : Nat} {s t : Office n} {i : Fin n}

theorem perform_concurrency (call : Call) (s : Shared) (work : Work) :
    (call.perform s work).concurrency = s.concurrency := by
  cases work with
  | show_ | test | subtract => rfl
  | add => cases call <;> rfl

theorem working_counts (call : Call) : call.working.Counts := by cases call <;> trivial

theorem working_outside (call : Call) : ¬ call.working.InTable := by cases call <;> exact id

theorem next_counts (call : Call) (rest : List Work) : (Worker.next call rest).Counts := by cases rest <;> trivial

theorem next_outside (call : Call) (rest : List Work) : ¬ (Worker.next call rest).InTable := by cases rest <;> exact id

theorem next_unlocked (call : Call) (rest : List Work) : ¬ (Worker.next call rest).Locked := by cases rest <;> exact id

/-- A step between two places of the same kind. -/
theorem Account.plain {w w' : Worker} (workers : t.workers = Function.update s.workers i w')
    (concurrency : t.shared.concurrency = s.shared.concurrency) (tableLock : t.tableLock = s.tableLock)
    (concurrencyLock : t.concurrencyLock = s.concurrencyLock) (counts : w'.Counts ↔ w.Counts)
    (inTable : w'.InTable ↔ w.InTable) (locked : w'.Locked ↔ w.Locked) : Account i s t w w' where
  workers := workers
  count := by simp only [concurrency, counts]
  table := .keep tableLock inTable
  gate := .keep concurrencyLock locked

/-- At the gate only the mutex of `concurrency` changes hands. -/
theorem gate_account {w : Worker} (place : w.part = .gate) (taken : Office.advance i s w = some t) :
    ∃ w', Account i s t w w' ∧ (w'.Counts → w.Counts) := by
  cases w with
  | query => exact nomatch taken
  | gateLock =>
      simp only [Office.advance] at taken
      split_ifs at taken with free
      obtain rfl := Option.some.inj taken
      exact ⟨_, ⟨rfl, rfl, .keep rfl .rfl, .lock free rfl trivial⟩, id⟩
  | gateTest =>
      obtain rfl := Option.some.inj taken
      split_ifs
      · exact ⟨_, ⟨rfl, rfl, .keep rfl .rfl, .unlock trivial rfl id⟩, id⟩
      · exact ⟨_, .plain rfl rfl rfl rfl .rfl .rfl .rfl, id⟩
  | gateUnlock =>
      obtain rfl := Option.some.inj taken
      exact ⟨_, ⟨rfl, rfl, .keep rfl .rfl, .unlock trivial rfl id⟩, id⟩
  | _ => cases place

/-- The lookup of a row takes and gives back the mutex of the table. -/
theorem lookup_account {w : Worker} (place : w.part = .lookup) (taken : Office.advance i s w = some t) :
    ∃ w', Account i s t w w' ∧ (w'.Counts → w.Counts) := by
  cases w with
  | entered call =>
      obtain rfl := Option.some.inj taken
      split_ifs
      · exact ⟨_, .plain rfl rfl rfl rfl .rfl .rfl .rfl, id⟩
      · exact ⟨_, .plain rfl rfl rfl rfl .rfl .rfl .rfl, id⟩
  | finding call =>
      simp only [Office.advance] at taken
      split_ifs at taken
      · obtain rfl := Option.some.inj taken
        split
        · exact ⟨_, .plain rfl rfl rfl rfl .rfl .rfl .rfl, id⟩
        · exact ⟨_, .plain rfl rfl rfl rfl .rfl .rfl .rfl, id⟩
      · obtain rfl := Option.some.inj taken
        split
        · exact ⟨_, .plain rfl rfl rfl rfl .rfl .rfl .rfl, id⟩
        · exact ⟨_, .plain rfl rfl rfl rfl .rfl .rfl .rfl, id⟩
  | modeTest call entry =>
      obtain rfl := Option.some.inj taken
      split_ifs
      · exact ⟨_, .plain rfl rfl rfl rfl .rfl .rfl .rfl, id⟩
      · exact ⟨_, .plain rfl rfl rfl rfl .rfl .rfl .rfl, id⟩
  | rowLock call entry =>
      simp only [Office.advance] at taken
      split_ifs at taken with free
      obtain rfl := Option.some.inj taken
      exact ⟨_, ⟨rfl, rfl, .lock free rfl trivial, .keep rfl .rfl⟩, id⟩
  | rowTest call entry =>
      obtain rfl := Option.some.inj taken
      split_ifs
      · exact ⟨_, ⟨rfl, rfl, .unlock trivial rfl id, .keep rfl .rfl⟩, id⟩
      · exact ⟨_, .plain rfl rfl rfl rfl .rfl .rfl .rfl, id⟩
  | rowUnlock call =>
      obtain rfl := Option.some.inj taken
      split_ifs
      · exact ⟨_, ⟨rfl, rfl, .unlock trivial rfl id, .keep rfl .rfl⟩, id⟩
      · exact ⟨_, ⟨rfl, rfl, .unlock trivial rfl id, .keep rfl .rfl⟩, id⟩
  | searching call =>
      simp only [Office.advance] at taken
      split_ifs at taken
      obtain rfl := Option.some.inj taken
      exact ⟨_, .plain rfl rfl rfl rfl .rfl .rfl .rfl, id⟩
  | _ => cases place

theorem writes_account {w : Worker} (place : w.part = .writes) (taken : Office.advance i s w = some t) :
    ∃ w', Account i s t w w' ∧ (w'.Counts → w.Counts) := by
  cases w with
  | share call entry =>
      obtain rfl := Option.some.inj taken
      exact ⟨_, .plain rfl rfl rfl rfl (iff_of_true (working_counts call) trivial)
        (iff_of_false (working_outside call) id) (iff_of_false (working_unlocked call) id), fun _ => trivial⟩
  | writeEvent call index =>
      cases index with
      | none => simp [Office.advance] at taken
      | some index =>
          obtain rfl := Option.some.inj taken
          exact ⟨_, .plain rfl rfl rfl rfl .rfl .rfl .rfl, id⟩
  | writeMode call index =>
      obtain rfl := Option.some.inj taken
      exact ⟨_, .plain rfl rfl rfl rfl .rfl .rfl .rfl, id⟩
  | writeUsers call index =>
      obtain rfl := Option.some.inj taken
      exact ⟨_, .plain rfl rfl rfl rfl (iff_of_true (working_counts call) trivial)
        (iff_of_false (working_outside call) id) (iff_of_false (working_unlocked call) id), fun _ => trivial⟩
  | work call first rest =>
      obtain rfl := Option.some.inj taken
      exact ⟨_, .plain rfl (perform_concurrency call s.shared first) rfl rfl (iff_of_true (next_counts call _) trivial)
        (iff_of_false (next_outside call _) id) (iff_of_false (next_unlocked call _) id), fun _ => trivial⟩
  | _ => cases place

/-- At the end of a call `concurrency` is lowered. -/
theorem leaving_account {w : Worker} (place : w.part = .leaving) (taken : Office.advance i s w = some t) :
    ∃ w', Account i s t w w' ∧ (w'.Counts → w.Counts) := by
  cases w with
  | finishLock call =>
      simp only [Office.advance] at taken
      split_ifs at taken with free
      obtain rfl := Option.some.inj taken
      exact ⟨_, ⟨rfl, rfl, .keep rfl .rfl, .lock free rfl trivial⟩, id⟩
  | lower call =>
      obtain rfl := Option.some.inj taken
      refine ⟨_, ⟨rfl, ?_, .keep rfl .rfl, .keep rfl .rfl⟩, False.elim⟩
      change s.shared.concurrency - 1 + 1 = s.shared.concurrency + 0
      omega
  | refind call =>
      simp only [Office.advance] at taken
      split_ifs at taken
      obtain rfl := Option.some.inj taken
      split
      · exact ⟨_, .plain rfl rfl rfl rfl .rfl .rfl .rfl, id⟩
      · exact ⟨_, .plain rfl rfl rfl rfl .rfl .rfl .rfl, id⟩
  | clear call entry =>
      simp only [Office.advance] at taken
      split_ifs at taken
      obtain rfl := Option.some.inj taken
      exact ⟨_, .plain rfl rfl rfl rfl .rfl .rfl .rfl, id⟩
  | signal left =>
      cases left with
      | zero =>
          obtain rfl := Option.some.inj taken
          exact ⟨_, ⟨rfl, rfl, .keep rfl .rfl, .unlock trivial rfl id⟩, id⟩
      | succ left =>
          obtain rfl := Option.some.inj taken
          exact ⟨_, .plain rfl rfl rfl rfl .rfl .rfl .rfl, id⟩
  | _ => cases place

/-- No statement of a call raises `concurrency`. -/
theorem advance_account {w : Worker} (taken : Office.advance i s w = some t) :
    ∃ w', Account i s t w w' ∧ (w'.Counts → w.Counts) := by
  cases place : w.part with
  | gate => exact gate_account place taken
  | lookup => exact lookup_account place taken
  | writes => exact writes_account place taken
  | leaving => exact leaving_account place taken

end Accounts

/-- What every schedule keeps. -/
structure Settles {n : Nat} (s : Office n) : Prop where
  count : s.shared.concurrency = census Worker.Counts s.workers
  few : census Worker.Counts s.workers ≤ max
  table : Mutex.Held s.tableLock fun i => (s.workers i).InTable
  gate : Mutex.Held s.concurrencyLock fun i => (s.workers i).Locked
  rows : Counted s

section Run
variable {n : Nat} {s t : Office n} {i : Fin n} {w : Worker}

theorem Settles.locksHeld (h : Settles s) : LocksHeld s := fun i inside => (h.gate i).mp inside

theorem Settles.account (h : Settles s) (w' : Worker) (place : s.workers i = w) (account : Account i s t w w')
    (few : census Worker.Counts t.workers ≤ max) (rows : Counted t) : Settles t := by
  subst place
  have others : ∀ j, j ≠ i → t.workers j = s.workers j := fun j other => by
    rw [account.workers, Function.update_of_ne other]
  have own : t.workers i = w' := by rw [account.workers, Function.update_self]
  refine ⟨?_, few, ?_, ?_, rows⟩
  · have moved := census_update (p := Worker.Counts) (f := s.workers) i w'
    have count := h.count
    have balance := account.count
    rw [account.workers]
    split_ifs at moved balance <;> omega
  · refine h.table.change (i := i) ?_ fun j other => by rw [others j other]
    rw [own]
    exact account.table
  · refine h.gate.change (i := i) ?_ fun j other => by rw [others j other]
    rw [own]
    exact account.gate

theorem Settles.step (h : Settles s) {m : Deed n} (taken : s.step m = some t) : Settles t := by
  cases m with
  | begin i call =>
      simp only [Office.step] at taken
      split_ifs at taken with ready
      obtain rfl := Option.some.inj taken
      refine h.account (.entered call) ready.1 ⟨rfl, Int.add_zero _, .keep rfl .rfl, .keep rfl .rfl⟩ ?_
        (h.rows.keep rfl (fun _ => rfl) (.inr (by rw [ready.1]; rfl)) (by simp))
      have outside : ¬ (s.workers i).Counts := by rw [ready.1]; exact id
      have entered := census_enter (p := Worker.Counts) (v := .entered call) outside trivial
      have room := ready.2.1
      have count := h.count
      change census Worker.Counts (Function.update s.workers i (.entered call)) ≤ max
      omega
  | full i =>
      simp only [Office.step] at taken
      split_ifs at taken with ready
      obtain rfl := Option.some.inj taken
      refine h.account .gateLock ready.1 (.plain rfl rfl rfl rfl .rfl .rfl .rfl) ?_
        (h.rows.keep rfl (fun _ => rfl) (.inr (by rw [ready.1]; rfl)) (by simp))
      exact (census_stay (by rw [ready.1]; exact Iff.rfl)).trans_le h.few
  | go i =>
      obtain ⟨w', account, lower⟩ := advance_account taken
      obtain ⟨w'', effect⟩ := advance_effect taken
      refine h.account w' rfl account ?_ (h.rows.effect h.locksHeld rfl effect)
      have moved := census_update (p := Worker.Counts) (f := s.workers) i w'
      have few := h.few
      rw [account.workers]
      split_ifs at moved with before after
      · omega
      · omega
      · exact absurd (lower ‹_›) before
      · omega

theorem start_settles (n : Nat) : Settles (Office.start n) where
  count := by
    rw [census_eq_zero_iff.mpr fun _ => id]
    rfl
  few := (census_eq_zero_iff.mpr fun _ => id).trans_le (Nat.zero_le _)
  table _ := iff_of_false id nofun
  gate _ := iff_of_false id nofun
  rows := (start_housed n).counted

theorem run_settles {deeds : List (Deed n)} (ran : run Office.step (Office.start n) deeds = some s) : Settles s :=
  run_invariant (fun _ _ _ h taken => h.step taken) (start_settles n) ran

end Run

/-- How many statements of its own a thread is from unlocking a mutex. -/
def Worker.left : Worker → Nat
  | .rowTest _ _ | .gateTest => 2
  | .rowUnlock _ | .gateUnlock => 1
  | .lower _ => 6
  | .refind _ => 5
  | .clear _ _ => 4
  | .signal left => left + 1
  | _ => 0

section Mutexes
variable {n : Nat} {s : Office n} {i j : Fin n} {w : Worker}

/-- Who holds `table_lock` goes on, and comes nearer to unlocking it. -/
theorem unlocks_table (inTable : w.InTable) : ∃ u w', Office.advance i s w = some (Office.goTo i w' u) ∧
    u.workers = s.workers ∧ (w'.InTable → w'.left < w.left) := by
  cases w with
  | rowTest call entry =>
      by_cases waits : call.waitsFor (row s.shared entry).mode
      · exact ⟨s.setTableLock none, .rowLock call entry, by rw [Office.advance, if_pos waits], rfl, False.elim⟩
      · exact ⟨s, .rowUnlock call, by rw [Office.advance, if_neg waits], rfl, fun _ => (by decide : 1 < 2)⟩
  | rowUnlock call =>
      refine ⟨s.setTableLock none, if call.writes then .searching call else .finishLock call, rfl, rfl, ?_⟩
      intro inside
      split_ifs at inside <;> exact inside.elim
  | _ => exact inTable.elim

/-- With `table_lock` free so does who holds `concurrency_lock`. -/
theorem unlocks_gate (free : s.tableLock = none) (locked : w.Locked) :
    ∃ u w', Office.advance i s w = some (Office.goTo i w' u) ∧ u.workers = s.workers ∧ u.tableLock = none ∧
      (w'.Locked → w'.left < w.left) := by
  cases w with
  | gateTest =>
      by_cases full : max ≤ s.shared.concurrency
      · exact ⟨s.setConcurrencyLock none, .gateLock, by rw [Office.advance, if_pos full], rfl, free, False.elim⟩
      · exact ⟨s, .gateUnlock, by rw [Office.advance, if_neg full], rfl, free, fun _ => (by decide : 1 < 2)⟩
  | gateUnlock => exact ⟨s.setConcurrencyLock none, .query, rfl, rfl, free, False.elim⟩
  | lower call => exact ⟨_, .refind call, rfl, rfl, free, fun _ => (by decide : 5 < 6)⟩
  | refind call =>
      cases found : eventFinder call.eventNo s.shared with
      | none =>
          refine ⟨s, .signal 2, ?_, rfl, free, fun _ => (by decide : 3 < 5)⟩
          rw [Office.advance, if_pos free, found]
      | some entry =>
          refine ⟨s, .clear call entry, ?_, rfl, free, fun _ => (by decide : 4 < 5)⟩
          rw [Office.advance, if_pos free, found]
  | clear call entry => exact ⟨_, .signal 2, if_pos free, rfl, free, fun _ => (by decide : 3 < 4)⟩
  | signal left =>
      cases left with
      | zero => exact ⟨s.setConcurrencyLock none, .query, rfl, rfl, free, False.elim⟩
      | succ left => exact ⟨s, .signal left, rfl, rfl, free, fun _ => Nat.lt_succ_self _⟩
  | _ => exact locked.elim

/-- A thread that holds neither mutex goes on when both are free, unless it is about to write a row that is none. -/
theorem goes_on (table : s.tableLock = none) (gate : s.concurrencyLock = none) (busy : w ≠ .query)
    (row : ∀ call, w ≠ .writeEvent call none) : ∃ t, Office.advance i s w = some t := by
  cases w with
  | query => exact absurd rfl busy
  | gateLock => exact ⟨_, if_pos gate⟩
  | finding call => exact ⟨_, if_pos table⟩
  | rowLock call entry => exact ⟨_, if_pos table⟩
  | searching call => exact ⟨_, if_pos table⟩
  | writeEvent call index =>
      cases index with
      | none => exact absurd rfl (row call)
      | some index => exact ⟨_, rfl⟩
  | finishLock call => exact ⟨_, if_pos gate⟩
  | refind call => exact ⟨_, if_pos table⟩
  | clear call entry => exact ⟨_, if_pos table⟩
  | signal left => cases left <;> exact ⟨_, rfl⟩
  | _ => exact ⟨_, rfl⟩

/-- All threads but `i` are where they were. -/
def Waited (i : Fin n) (s t : Office n) : Prop := ∀ j, j ≠ i → t.workers j = s.workers j

theorem Waited.goTo {t u : Office n} {w' : Worker} (h : Waited i s t) (workers : u.workers = t.workers) :
    Waited i s (Office.goTo i w' u) := by
  intro j other
  change Function.update u.workers i w' j = _
  rw [Function.update_of_ne other, workers]
  exact h j other

/-- Whoever holds `table_lock` can leave it while the others wait. -/
theorem table_freed (h : Settles s) : ∃ t, Reached Office.step s t ∧ Settles t ∧ t.tableLock = none ∧
    ∀ j, ¬ (s.workers j).InTable → t.workers j = s.workers j := by
  cases holder : s.tableLock with
  | none => exact ⟨s, .refl s, h, holder, fun _ _ => rfl⟩
  | some i =>
      have inside := (h.table i).mpr holder
      have nearer : ∀ t, Settles t ∧ Waited i s t → (t.workers i).InTable →
          ∃ u, Reached Office.step t u ∧ (Settles u ∧ Waited i s u) ∧
            ((u.workers i).InTable → (u.workers i).left < (t.workers i).left) := by
        rintro t ⟨settles, waited⟩ inside
        obtain ⟨u, w', taken, same, nearer⟩ := unlocks_table (i := i) inside
        have moved : t.step (.go i) = some (Office.goTo i w' u) := taken
        have own : (Office.goTo i w' u).workers i = w' := Function.update_self ..
        refine ⟨_, (Reached.refl t).snoc moved, ⟨settles.step moved, waited.goTo same⟩, ?_⟩
        rwa [own]
      obtain ⟨t, reached, ⟨settles, waited⟩, outside⟩ := reached_outside _ _ _ nearer ⟨h, fun _ _ => rfl⟩
      refine ⟨t, reached, settles, ?_, fun j out => waited j fun same => out (same ▸ inside)⟩
      exact h.table.freed settles.table inside outside fun j other inside => waited j other ▸ inside

/-- So can whoever holds `concurrency_lock`, when `table_lock` is free. -/
theorem gate_freed (h : Settles s) (free : s.tableLock = none) : ∃ t, Reached Office.step s t ∧ Settles t ∧
    t.tableLock = none ∧ t.concurrencyLock = none ∧ ∀ j, ¬ (s.workers j).Locked → t.workers j = s.workers j := by
  cases holder : s.concurrencyLock with
  | none => exact ⟨s, .refl s, h, free, holder, fun _ _ => rfl⟩
  | some i =>
      have inside := (h.gate i).mpr holder
      have nearer : ∀ t, Settles t ∧ t.tableLock = none ∧ Waited i s t → (t.workers i).Locked →
          ∃ u, Reached Office.step t u ∧ (Settles u ∧ u.tableLock = none ∧ Waited i s u) ∧
            ((u.workers i).Locked → (u.workers i).left < (t.workers i).left) := by
        rintro t ⟨settles, free, waited⟩ inside
        obtain ⟨u, w', taken, same, free', nearer⟩ := unlocks_gate (i := i) free inside
        have moved : t.step (.go i) = some (Office.goTo i w' u) := taken
        have own : (Office.goTo i w' u).workers i = w' := Function.update_self ..
        refine ⟨_, (Reached.refl t).snoc moved, ⟨settles.step moved, free', waited.goTo same⟩, ?_⟩
        rwa [own]
      obtain ⟨t, reached, ⟨settles, free', waited⟩, outside⟩ := reached_outside _ _ _ nearer ⟨h, free, fun _ _ => rfl⟩
      refine ⟨t, reached, settles, free', ?_, fun j out => waited j fun same => out (same ▸ inside)⟩
      exact h.gate.freed settles.gate inside outside fun j other inside => waited j other ▸ inside

end Mutexes

/-- Under every schedule each mutex is held exactly between its lock and its unlock, and no thread waits
for a mutex in vain: whoever is not at the top of its loop, nor at the write of a row that is none, takes its
next step after some steps of those who hold the mutexes. -/
theorem mutexes_never_deadlock {n : Nat} {deeds : List (Deed n)} {s : Office n}
    (ran : run Office.step (Office.start n) deeds = some s) :
    (∀ i, ((s.workers i).InTable ↔ s.tableLock = some i) ∧ ((s.workers i).Locked ↔ s.concurrencyLock = some i)) ∧
      ∀ i, s.workers i ≠ .query → (∀ call, s.workers i ≠ .writeEvent call none) →
        ∃ t, Reached Office.step s t ∧ t.workers i = s.workers i ∧ ∃ u, t.step (.go i) = some u := by
  have h := run_settles ran
  refine ⟨fun i => ⟨h.table i, h.gate i⟩, fun i busy row => ?_⟩
  by_cases inTable : (s.workers i).InTable
  · obtain ⟨u, w', taken, -⟩ := unlocks_table (s := s) (i := i) inTable
    exact ⟨s, .refl s, rfl, _, taken⟩
  obtain ⟨s1, first, settles, table, kept⟩ := table_freed h
  have place := kept i inTable
  by_cases locked : (s.workers i).Locked
  · obtain ⟨u, w', taken, -⟩ := unlocks_gate (i := i) table locked
    exact ⟨s1, first, place, _, (congrArg (Office.advance i s1) place).trans taken⟩
  obtain ⟨s2, later, -, table', gate, kept'⟩ := gate_freed settles table
  have place' := (kept' i (place ▸ locked)).trans place
  obtain ⟨u, taken⟩ := goes_on (i := i) table' gate busy row
  exact ⟨s2, first.trans later, place', u, (congrArg (Office.advance i s2) place').trans taken⟩

/-- Two enquiries, of which the second one is the first to finish. -/
def contended {n : Nat} (i j : Fin n) : List (Deed n) :=
  .begin i (.enquiry 7) :: .begin j (.enquiry 3) :: (List.replicate 7 (.go i) ++ List.replicate 8 (.go j))

theorem mutexes_never_deadlock_contended : ∃ s : Office 2, run Office.step (Office.start 2) (contended 0 1) = some s ∧
    s.concurrencyLock = some 1 ∧ s.workers 0 = .finishLock (.enquiry 7) ∧
      ∃ t, Reached Office.step s t ∧ t.workers 0 = s.workers 0 ∧ ∃ u, t.step (.go 0) = some u := by
  have places : (run Office.step (Office.start 2) (contended 0 1)).map (fun s => (s.concurrencyLock, s.workers 0)) =
      some (some 1, .finishLock (.enquiry 7)) := by decide
  obtain ⟨s, ran, places⟩ := Option.map_eq_some_iff.mp places
  obtain ⟨holder, place⟩ := Prod.mk.inj places
  refine ⟨s, ran, holder, place, (mutexes_never_deadlock ran).2 0 ?_ fun call => ?_⟩
  · rw [place]
    exact nofun
  · rw [place]
    exact nofun

end NetworkOs.Reservation
