import NetworkOs.Bridge.Crossings
import NetworkOs.Library.Census

/-! How runs of the bridge end. None of them gets stuck or goes on for ever, and no side
is shut out: every order of crossings is the order of some run. -/
namespace NetworkOs.Bridge
open Runs Census

section Progress
variable {threads : Nat} {s t : State threads} {m : Move threads}

def Place.steps : Place → Nat
  | .unborn | .arriving => 0
  | .entering => 1
  | .travelling => 2
  | .leaving => 3
  | .gone => 4

def MainAt.steps : MainAt threads → Nat
  | .createNorth i => 2 * min i threads
  | .createSouth i _ => 2 * i + 1
  | .joinNorth i => 2 * threads + 1 + 2 * min i threads
  | .joinSouth i => 2 * threads + 2 + 2 * i
  | .complain | .destroy => 4 * threads + 2
  | .returning _ => 4 * threads + 3
  | .returned _ => 4 * threads + 4

/-- How far a run has come. -/
def State.progress (s : State threads) : Nat := s.main.steps + ∑ who, (s.place who).steps

theorem progress_goTo (s : State threads) (who : Traveller threads) (place : Place) :
    ∑ other, ((s.goTo who place).place other).steps + (s.place who).steps =
      ∑ other, (s.place other).steps + place.steps :=
  sum_update Place.steps s.place who place

theorem progress_create {who : Traveller threads} (unborn : s.place who = .unborn) (succeeds : Bool) :
    ∑ other, ((create who succeeds s).place other).steps = ∑ other, (s.place other).steps := by
  cases succeeds with
  | false => rfl
  | true =>
      have moved := progress_goTo s who .arriving
      simpa [unborn, Place.steps] using moved

theorem progress_raised {who : Traveller threads} (s : State threads) (place : Place) (higher : (s.place who).steps < place.steps) :
    s.main.steps + ∑ other, (s.place other).steps <
      s.main.steps + ∑ other, ((s.goTo who place).place other).steps := by
  have moved := progress_goTo s who place
  omega

theorem Travels.progress {who : Traveller threads} (took : Travels who s t) : s.progress < t.progress := by
  cases took with
  | lock place free => exact progress_raised s .entering (by simp [place, Place.steps])
  | announce place =>
      exact progress_raised (s.print (.isTravelling who)) _ (by simp [place, Place.steps])
  | report place =>
      exact progress_raised (s.print (.completedTravelling who)) _ (by simp [place, Place.steps])
  | unlock place => exact progress_raised s .gone (by simp [place, Place.steps])

theorem Directs.progress {succeeds : Bool} (staged : Staged s) (took : Directs succeeds s t) :
    s.progress < t.progress := by
  unfold State.progress
  cases took with
  | createNorth i main =>
      have same := progress_create (staged.unborn (.north, i) (by simp [main, MainAt.Awaits])) succeeds
      simp only [same, main, MainAt.steps]
      omega
  | createSouth i temp1 main =>
      have same := progress_create (staged.unborn (.south, i) (by simp [main, MainAt.Awaits])) succeeds
      simp only [same, main]
      split_ifs <;> simp only [MainAt.steps] <;> omega
  | created i all ok main | joined i all ok main => simp only [main, MainAt.steps]; omega
  | joinNorth i ok main | joinSouth i ok main => simp only [main, MainAt.steps]; omega
  | complain ok main => simp only [main, MainAt.steps, print_place]; omega
  | destroy ok main => simp only [main, MainAt.steps]; omega
  | «return» status ok main => simp only [main, MainAt.steps]; omega

theorem Sound.progress (h : Sound s) (took : step s m = some t) : s.progress < t.progress := by
  cases m with
  | main | mainRefused => exact (mainThread_directs took).progress h.staged
  | traveller who => exact (travel_running took).2.progress

theorem progress_le (s : State threads) : s.progress ≤ 12 * threads + 4 := by
  have travellers : ∑ who, (s.place who).steps ≤ ∑ _who : Traveller threads, 4 :=
    Finset.sum_le_sum fun who _ => by cases s.place who <;> simp [Place.steps]
  have main : s.main.steps ≤ 4 * threads + 4 := by
    cases s.main <;> simp only [MainAt.steps] <;> omega
  have both : Fintype.card Side = 2 := rfl
  simp only [Finset.sum_const, Finset.card_univ, Fintype.card_prod, Fintype.card_fin, both, smul_eq_mul] at travellers
  unfold State.progress
  omega

theorem Travels.step {who : Traveller threads} (took : Travels who s t)
    (running : ∀ status, s.main ≠ .returned status) : Bridge.step s (.traveller who) = some t := by
  have eq : Bridge.step s (.traveller who) = people who s := travel_eq running
  rw [eq]
  unfold people
  cases took with
  | lock place free => rw [place]; exact if_pos free
  | announce place | report place | unlock place => rw [place]

/-- Who stands on the bridge can go on. -/
theorem moves_on_bridge {who : Traveller threads} (running : ∀ status, s.main ≠ .returned status)
    (on : (s.place who).OnBridge) : ∃ t, step s (.traveller who) = some t := by
  rcases on with place | place | place
  · exact ⟨_, (Travels.announce place).step running⟩
  · exact ⟨_, (Travels.report place).step running⟩
  · exact ⟨_, (Travels.unlock place).step running⟩

/-- A thread that `main` waits for can go on, or another one holds the lock and can. -/
theorem Sound.moves_awaited (h : Sound s) {who : Traveller threads} (created : s.main.Created who)
    (waiting : s.place who ≠ .gone) (joining : s.bridgeLock ≠ .destroyed)
    (running : ∀ status, s.main ≠ .returned status) : ∃ other t, step s (.traveller other) = some t := by
  obtain ⟨⟨crossed, orderly⟩, staged⟩ := h
  cases place : s.place who with
  | unborn => exact absurd place (staged.born who created)
  | gone => exact absurd place waiting
  | entering => exact ⟨who, moves_on_bridge running (.inl place)⟩
  | travelling => exact ⟨who, moves_on_bridge running (.inr (.inl place))⟩
  | leaving => exact ⟨who, moves_on_bridge running (.inr (.inr place))⟩
  | arriving =>
      cases lock : s.bridgeLock with
      | destroyed => exact absurd lock joining
      | held holder => exact ⟨holder, moves_on_bridge running ((orderly.holder holder).mp lock)⟩
      | free => exact ⟨who, _, (Travels.lock place lock).step running⟩

/-- Before `main` returns some thread can go on without a failing `pthread_create`. -/
theorem Sound.moves (h : Sound s) (running : ∀ status, s.main ≠ .returned status) :
    ∃ m t, m ≠ .mainRefused ∧ step s m = some t := by
  have awaited : ∀ who, s.main.Created who → s.bridgeLock ≠ .destroyed → s.place who ≠ .gone →
      ∃ m t, m ≠ .mainRefused ∧ step s m = some t := by
    intro who created joining waiting
    obtain ⟨other, t, took⟩ := h.moves_awaited created waiting joining running
    exact ⟨.traveller other, t, by simp, took⟩
  have intact : (∀ status, s.main ≠ .returning status) → s.bridgeLock ≠ .destroyed := by
    intro before destroyed
    exact (h.staged.destroyed.mp destroyed).elim (before 0) (running 0)
  cases main : s.main with
  | returned status => exact absurd main (running status)
  | createNorth i =>
      by_cases inside : i < threads
      · exact ⟨.main, _, by simp, by simp only [step, mainThread, main, dif_pos inside]; rfl⟩
      · exact ⟨.main, _, by simp, by simp only [step, mainThread, main, dif_neg inside]; rfl⟩
  | createSouth i temp1 | complain | destroy | returning status =>
      exact ⟨.main, _, by simp, by simp only [step, mainThread, main]; rfl⟩
  | joinNorth i =>
      by_cases inside : i < threads
      · by_cases gone : s.place (.north, ⟨i, inside⟩) = .gone
        · exact ⟨.main, _, by simp, by simp only [step, mainThread, main, dif_pos inside, gone, and_self]; rfl⟩
        · exact awaited _ (by simp [main, MainAt.Created]) (intact (by simp [main])) gone
      · exact ⟨.main, _, by simp, by simp only [step, mainThread, main, dif_neg inside]; rfl⟩
  | joinSouth i =>
      by_cases gone : s.place (.south, i) = .gone
      · exact ⟨.main, _, by simp, by simp only [step, mainThread, main, gone, and_self]; rfl⟩
      · exact awaited _ (by simp [main, MainAt.Created]) (intact (by simp [main])) gone

/-- Some creation has failed. -/
def MainAt.Failed : MainAt threads → Prop
  | .createSouth _ temp1 => temp1 = false
  | .complain => True
  | .returning status | .returned status => status ≠ 0
  | _ => False

theorem Travels.main {who : Traveller threads} (took : Travels who s t) : t.main = s.main := by
  cases took <;> rfl

theorem Directs.failed {succeeds : Bool} (took : Directs succeeds s t) :
    t.main.Failed ↔ s.main.Failed ∨ succeeds = false := by
  cases took with
  | createNorth i main => simp [main, MainAt.Failed]
  | createSouth i temp1 main => cases temp1 <;> cases succeeds <;> simp [main, MainAt.Failed]
  | created i all ok main | joined i all ok main => simp [main, ok, MainAt.Failed]
  | complain ok main | destroy ok main => simp [main, ok, MainAt.Failed]
  | joinNorth i ok main | joinSouth i ok main => simp [main, ok, MainAt.Failed]
  | «return» status ok main => simp [main, ok, MainAt.Failed]

theorem failed_step (took : step s m = some t) : t.main.Failed ↔ s.main.Failed ∨ m = .mainRefused := by
  cases m with
  | main | mainRefused => simpa using (mainThread_directs took).failed
  | traveller who => simp [(travel_running took).2.main]

theorem failed_run {moves : List (Move threads)} (ran : run step s moves = some t) :
    t.main.Failed ↔ s.main.Failed ∨ .mainRefused ∈ moves := by
  induction moves generalizing s with
  | nil =>
      obtain rfl := Option.some.inj ran
      simp
  | cons m rest ih =>
      obtain ⟨u, taken, later⟩ := Option.bind_eq_some_iff.mp ran
      rw [ih later, failed_step taken, List.mem_cons, or_assoc, eq_comm (a := m)]

/-- Runs are bounded and can be continued until `main` returns; it returns 0 when no
creation has failed, and then, or when the mutex is destroyed, everybody has crossed. -/
theorem everyone_crosses {moves : List (Move threads)} (ran : run step (start threads) moves = some s) :
    moves.length ≤ 12 * threads + 4 ∧
      ((∀ status, s.main ≠ .returned status) → ∃ m t, m ≠ .mainRefused ∧ step s m = some t) ∧
      (∀ status, s.main = .returned status → (status = 0 ↔ .mainRefused ∉ moves)) ∧
      (s.main = .returned 0 ∨ s.bridgeLock = .destroyed → ∀ who, s.place who = .gone) := by
  have sound := run_sound ran
  refine ⟨?_, sound.moves, fun status returned => ?_, fun ended who => ?_⟩
  · have raised := run_length_le (fun _ _ _ sound took => ⟨sound.kept took, sound.progress took⟩) start_sound ran
    have bound := progress_le s
    omega
  · have failed := failed_run ran
    simp only [returned, MainAt.Failed, start, false_or] at failed
    rw [← failed, not_not]
  · refine sound.staged.gone who ?_
    rcases ended with main | destroyed
    · rw [main, MainAt.Joined]
    · rcases sound.staged.destroyed.mp destroyed with main | main <;> rw [main, MainAt.Joined]

/-- One traveller from each side, in as many steps as there can be. -/
theorem everyone_crosses_two :
    let moves : List (Move 1) := List.replicate 3 .main ++ List.replicate 4 (.traveller (.south, 0)) ++
      List.replicate 4 (.traveller (.north, 0)) ++ List.replicate 5 .main
    ∃ s, run step (start 1) moves = some s ∧ moves.length = 12 * 1 + 4 ∧ ∀ who, s.place who = .gone := by
  intro moves
  obtain ⟨s, ran, main⟩ : ∃ s, run step (start 1) moves = some s ∧ s.main = .returned 0 := ⟨_, rfl, rfl⟩
  exact ⟨s, ran, rfl, (everyone_crosses ran).2.2.2 (.inl main)⟩

end Progress
section Orders
variable {threads : Nat}

/-- `main` has created the threads of the indices below `i`. -/
def born (i : Nat) : State threads where
  place who := if who.2 < i then .arriving else .unborn
  bridgeLock := .free
  output := []
  main := .createNorth i

/-- All threads are there, and those of `done` have crossed. -/
def across (done : List (Traveller threads)) (output : List (Line threads)) : State threads where
  place who := if who ∈ done then .gone else .arriving
  bridgeLock := .free
  output := output
  main := .joinNorth 0

/-- Everybody has crossed, and `main` has joined the threads of the indices below `i`. -/
def joined (i : Nat) (output : List (Line threads)) : State threads where
  place _ := .gone
  bridgeLock := .free
  output := output
  main := .joinNorth i

theorem born_next {i : Nat} (inside : i < threads) : Reached step (born i : State threads) (born (i + 1)) := by
  refine ⟨[.main, .main], ?_⟩
  simp only [run, step, mainThread, born, dif_pos inside, Option.bind_some, create, if_true, Bool.and_self,
    Option.some.injEq, State.goTo, State.mk.injEq, and_true]
  funext who
  obtain ⟨side, j⟩ := who
  rcases lt_trichotomy j ⟨i, inside⟩ with earlier | rfl | later
  · have below : (j : Nat) < i := earlier
    simp [earlier.ne, below, below.trans (Nat.lt_succ_self i)]
  · cases side <;> simp
  · have above : i < (j : Nat) := later
    simp [later.ne', above.not_gt, Nat.not_lt.mpr (Nat.succ_le_of_lt above)]

theorem born_reached {i : Nat} (within : i ≤ threads) : Reached step (start threads) (born i) := by
  induction i with
  | zero =>
      have same : start threads = born 0 := by simp [start, born]
      exact same ▸ Reached.refl _
  | succ i ih => exact (ih (Nat.le_of_succ_le within)).trans (born_next within)

theorem across_nobody : Reached step (start threads) (across [] []) := by
  refine (born_reached le_rfl).snoc (i := .main) ?_
  simp [step, mainThread, born, across]

/-- Whoever has not crossed can be the next one. -/
theorem across_next {done : List (Traveller threads)} {who : Traveller threads} (waiting : who ∉ done)
    (output : List (Line threads)) :
    Reached step (across done output) (across (done ++ [who]) (output ++ trip who)) := by
  have lock : Travels who (across done output) _ := .lock (by simp [across, waiting]) rfl
  have locked := (Reached.refl _).snoc (lock.step (by simp [across]))
  have announced := locked.snoc ((show Travels who _ _ from .announce (by simp)).step (by simp [across]))
  have reported := announced.snoc
    ((show Travels who _ _ from .report (by simp)).step (by simp [across, State.print]))
  have unlocked := reported.snoc
    ((show Travels who _ _ from .unlock (by simp)).step (by simp [across, State.print]))
  refine Eq.subst (motive := Reached step (across done output)) ?_ unlocked
  simp only [across, State.goTo, State.print, trip, List.append_assoc, List.cons_append, List.nil_append,
    State.mk.injEq, and_true]
  funext other
  by_cases same : other = who
  · simp [same]
  · simp [same]

theorem across_all {done order : List (Traveller threads)} (once : (done ++ order).Nodup)
    (output : List (Line threads)) :
    Reached step (across done output) (across (done ++ order) (output ++ order.flatMap trip)) := by
  induction order generalizing done output with
  | nil => simpa using Reached.refl _
  | cons who rest ih =>
      have waiting : who ∉ done := by
        have apart := (List.nodup_append.mp once).2.2
        exact fun member => apart who member who List.mem_cons_self rfl
      have once' : (done ++ [who] ++ rest).Nodup := by simpa using once
      have later := ih once' (output ++ trip who)
      simpa using (across_next waiting output).trans later

theorem joined_next {i : Nat} (inside : i < threads) (output : List (Line threads)) :
    Reached step (joined i output) (joined (i + 1) output) :=
  ⟨[.main, .main], by simp [run, step, mainThread, joined, inside]⟩

theorem joined_reached {i : Nat} (within : i ≤ threads) (output : List (Line threads)) :
    Reached step (joined 0 output) (joined i output) := by
  induction i with
  | zero => exact Reached.refl _
  | succ i ih => exact (ih (Nat.le_of_succ_le within)).trans (joined_next within output)

/-- The outputs of the runs in which no creation fails are the crossings of all travellers
in any order: no side can keep the other one from the bridge. -/
theorem outputs_iff (lines : List (Line threads)) :
    (∃ moves s, .mainRefused ∉ moves ∧ run step (start threads) moves = some s ∧ s.main = .returned 0 ∧
        s.output = lines) ↔
      ∃ order : List (Traveller threads), order.Nodup ∧ (∀ who, who ∈ order) ∧ lines = order.flatMap trip := by
  constructor
  · rintro ⟨moves, s, _, ran, main, rfl⟩
    obtain ⟨⟨crossed, orderly⟩, staged⟩ := run_sound ran
    have gone : ∀ who, s.place who = .gone := fun who => staged.gone who (by rw [main, MainAt.Joined])
    refine ⟨crossed, orderly.once, fun who => (orderly.crossed_iff who).mpr (.inr (gone who)), ?_⟩
    have silent : Line.creationUnsuccessful ∉ s.output := by
      intro member
      simpa [main] using staged.complained member
    have all : s.lines = s.output := by
      refine List.filter_eq_self.mpr fun line member => ?_
      cases line with
      | creationUnsuccessful => exact absurd member silent
      | isTravelling | completedTravelling => rfl
    rw [← all, orderly.lines, State.begun, staged.destroyed.mpr (.inr main), List.append_nil]
  · rintro ⟨order, once, every, rfl⟩
    have once' : ([] ++ order).Nodup := once
    have crossed := across_nobody.trans (across_all once' [])
    have same : across ([] ++ order) ([] ++ order.flatMap trip) = joined 0 (order.flatMap trip) := by
      simp [across, joined, every]
    rw [same] at crossed
    obtain ⟨moves, ran⟩ := crossed.trans (joined_reached le_rfl _)
    have closing : run step (joined threads (order.flatMap trip)) [.main, .main, .main] =
        some ⟨fun _ => .gone, .destroyed, order.flatMap trip, .returned 0⟩ := by
      simp [run, step, mainThread, joined]
    have whole : run step (start threads) (moves ++ [.main, .main, .main]) =
        some ⟨fun _ => .gone, .destroyed, order.flatMap trip, .returned 0⟩ := by
      rw [run_append, ran, Option.bind_some, closing]
    refine ⟨_, _, fun refused => ?_, whole, rfl, rfl⟩
    simpa [MainAt.Failed] using (failed_run whole).mpr (.inr refused)

end Orders
end NetworkOs.Bridge
