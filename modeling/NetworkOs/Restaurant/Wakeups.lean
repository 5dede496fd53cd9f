import NetworkOs.Restaurant.Doors

/-! The wake-up the main thread can miss. It waits for the back door without having
looked at it since it was notified, so a batch that is gone by then is waited for in
vain. Runs in which the main thread is in time never get stuck. -/
namespace NetworkOs.Restaurant
open Runs Census

/-- The step of this diner is the one that leaves the restaurant empty: it is the last
one inside, or it is a batch of its own. -/
def Empties (N : Nat) (s : State d) (id : Fin d) : Prop :=
  s.diners id = .wokenBack ∧ s.dinersInside = 1 ∨
    (s.diners id = .outside ∨ s.diners id = .wokenFront) ∧ s.front = true ∧ N = 1

/-- When the step empties the restaurant, the main thread already waits for that. -/
def InTime (N : Nat) (s : State d) : Thread d → Prop
  | .main => True
  | .diner id => Empties N s id → s.main = .waitLast

instance (N : Nat) (s : State d) (id : Fin d) : Decidable (Empties N s id) :=
  inferInstanceAs (Decidable (_ ∨ _))

instance (N : Nat) (s : State d) (th : Thread d) : Decidable (InTime N s th) :=
  match th with
  | .main => isTrue trivial
  | .diner id => inferInstanceAs (Decidable (Empties N s id → s.main = .waitLast))

/-- In an empty restaurant the main thread is on its way to the front door. -/
def Prompt (s : State d) : Prop :=
  s.front = false → s.back = false → s.main = .loopTop ∨ s.main = .wokenLast

section Steps
variable {N d : Nat} {s t : State d} {id : Fin d}

theorem leave_front : (leave id s).front = s.front := by
  unfold leave
  dsimp only
  split_ifs <;> rfl

theorem leave_last (last : s.dinersInside = 1) :
    (leave id s).back = false ∧ (leave id s).main = s.main.notifyBack := by
  rw [leave_eq_of_last (by omega : s.dinersInside - 1 = 0)]
  exact ⟨rfl, rfl⟩

theorem leave_others (others : s.dinersInside ≠ 1) (some_ : 0 < s.dinersInside) :
    (leave id s).back = s.back := by
  rw [leave_eq_of_others (by omega)]
  rfl

theorem enter_others (others : s.dinersInside + 1 ≠ N) : (enter N id s).front = s.front := by
  rw [enter_eq_of_room others]
  rfl

/-- The diner that completes a batch leaves at once; the others are still inside. -/
theorem enter_full (id : Fin d) (full : s.dinersInside + 1 = N) (main : s.main = .waitFront) :
    (enter N id s).front = false ∧ (enter N id s).back = decide (N ≠ 1) ∧
      (enter N id s).main = .wokenFront := by
  by_cases single : N = 1
  · subst single
    simp [enter, leave, note, goTo, notifyBack, notifyFront, full, main, MainAt.notifyFront, MainAt.notifyBack]
  · have more : N - 1 ≠ 0 := by omega
    simp [enter, leave, note, goTo, notifyBack, notifyFront, full, main, MainAt.notifyFront,
      MainAt.notifyBack, more, single]

theorem Ordered.prompt_tryEnter (h : Ordered N s) (prompt : Prompt s) (inTime : InTime N s (.diner id))
    (place : s.diners id = .outside ∨ s.diners id = .wokenFront) : Prompt (tryEnter N id s) := by
  unfold tryEnter
  split_ifs with front
  · obtain ⟨-, main, -⟩ := h.phase.of_front front
    intro shut gone
    by_cases full : s.dinersInside + 1 = N
    · obtain ⟨_, back, _⟩ := enter_full id full main
      have single : N = 1 := by
        by_contra more
        exact absurd (gone.symm.trans (back.trans (decide_eq_true more))) (by decide)
      exact absurd ((inTime (.inr ⟨place, front, single⟩)).symm.trans main) (by decide)
    · exact absurd (shut.symm.trans ((enter_others full).trans front)) (by decide)
  · exact prompt

theorem Ordered.prompt_leave (h : Ordered N s) (inTime : InTime N s (.diner id))
    (place : s.diners id = .wokenBack) : Prompt (Restaurant.leave id s) := by
  obtain ⟨-, back, some_, -, -⟩ := h.of_wokenBack place
  intro _ gone
  by_cases last : s.dinersInside = 1
  · have waits := inTime (.inl ⟨place, last⟩)
    rw [(leave_last last).2, waits]
    exact .inr rfl
  · exact absurd (gone.symm.trans ((leave_others last some_).trans back)) (by decide)

theorem Ordered.prompt_main (h : Ordered N s) (prompt : Prompt s)
    (taken : Restaurant.mainThread N s = some t) : Prompt t := by
  unfold Restaurant.mainThread at taken
  cases place : s.main with
  | waitFront => simp [place] at taken
  | waitBack => simp [place] at taken
  | waitLast => simp [place] at taken
  | loopTop =>
      simp only [place, Option.some.injEq] at taken
      subst taken
      have room : s.dinersInside < N := h.fewer
      intro shut
      simp [Restaurant.openDoor, notifyFront, note, room] at shut
  | wokenFront =>
      simp only [place, Option.some.injEq] at taken
      subst taken
      cases h.phase with
      | filling _ _ main => exact absurd (place.symm.trans main) (by decide)
      | empty front back _ => rcases prompt front back with main | main <;> exact absurd (place.symm.trans main) (by decide)
      | serving front back some_ =>
          rw [awaitService_serving back some_]
          intro _ gone
          exact absurd (back.symm.trans gone) (by decide)
  | wokenBack => exact absurd place h.phase.main_ne_wokenBack
  | wokenLast =>
      simp only [place, Option.some.injEq] at taken
      subst taken
      exact fun _ _ => .inl rfl

theorem Ordered.prompt (h : Ordered N s) (prompt : Prompt s) {th : Thread d} (inTime : InTime N s th)
    (taken : Restaurant.step N s th = some t) : Prompt t := by
  cases th with
  | main => exact h.prompt_main prompt taken
  | diner id =>
      change Restaurant.diner N id s = some t at taken
      unfold Restaurant.diner at taken
      cases place : s.diners id with
      | waitFront => simp [place] at taken
      | waitBack => simp [place] at taken
      | outside =>
          simp only [place, Option.some.injEq] at taken
          exact taken ▸ h.prompt_tryEnter prompt inTime (.inl place)
      | wokenFront =>
          simp only [place, Option.some.injEq] at taken
          exact taken ▸ h.prompt_tryEnter prompt inTime (.inr place)
      | wokenBack =>
          simp only [place, Option.some.injEq] at taken
          exact taken ▸ h.prompt_leave inTime place

theorem waiting_of_stuck (stuck : Stuck (step N) s) (id : Fin d) :
    s.diners id = .waitFront ∨ s.diners id = .waitBack := by
  have none_ : diner N id s = none := stuck (.diner id)
  unfold diner at none_
  cases place : s.diners id <;> simp [place] at none_ ⊢

/-- As long as the main thread is prompt somebody can run. -/
theorem Ordered.not_stuck (h : Ordered N s) (enough : N ≤ d) (prompt : Prompt s) :
    ¬ Stuck (Restaurant.step N) s := by
  intro stuck
  have waiting := waiting_of_stuck stuck
  cases h.phase with
  | filling front back main diners =>
      -- everybody would be inside, but there are more diners than that
      have all : census DinerAt.Inside s.diners = Fintype.card (Fin d) :=
        census_of_forall fun k => .inl ((waiting k).resolve_left (diners k).1)
      have counted := h.counted
      have fewer := h.fewer
      rw [Fintype.card_fin] at all
      omega
  | serving front back some_ main diners =>
      obtain ⟨k, inside⟩ := census_pos_iff.mp (h.counted ▸ some_)
      rcases inside with waits | woken
      · exact diners k waits
      · rcases waiting k with waits | waits <;> exact absurd (woken.symm.trans waits) (by decide)
  | empty front back none_ _ =>
      have runs : Restaurant.mainThread N s = none := stuck .main
      unfold Restaurant.mainThread at runs
      rcases prompt front back with main | main <;> simp [main] at runs

/-- An empty restaurant whose main thread waits for a back door that stays shut. -/
structure Missed (N : Nat) (s : State d) : Prop where
  ordered : Ordered N s
  front : s.front = false
  back : s.back = false
  none_ : s.dinersInside = 0
  main : s.main = .waitBack

theorem Missed.wait (h : Missed N s) (id : Fin d) :
    ∃ t, Reached (step N) s t ∧ Missed N t ∧ t.diners id = .waitFront ∧
      ∀ k, s.diners k = .waitFront → t.diners k = .waitFront := by
  by_cases already : s.diners id = .waitFront
  · exact ⟨s, .refl s, h, already, fun _ waits => waits⟩
  · have tried : tryEnter N id s = goTo id .waitFront s := if_neg (by rw [h.front]; decide)
    have place : s.diners id = .outside ∨ s.diners id = .wokenFront := by
      cases held : s.diners id with
      | outside => exact .inl rfl
      | wokenFront => exact .inr rfl
      | waitFront => exact absurd held already
      | waitBack => exact absurd held (h.ordered.nobody h.none_ id).1
      | wokenBack => exact absurd held (h.ordered.nobody h.none_ id).2
    have taken : step N s (.diner id) = some (goTo id .waitFront s) := by
      change diner N id s = _
      unfold diner
      rcases place with held | held <;> rw [held, tried]
    refine ⟨goTo id .waitFront s, (Reached.refl s).snoc taken,
      ⟨h.ordered.step taken, h.front, h.back, h.none_, h.main⟩, ?_, ?_⟩
    · simp [goTo]
    · intro k waits
      by_cases same : k = id
      · subst same
        simp [goTo]
      · simpa [goTo, same] using waits

/-- All diners end up waiting for the front door, by induction on those still to run. -/
theorem Missed.waitAll (h : Missed N s) (ids : List (Fin d)) :
    ∃ t, Reached (step N) s t ∧ Missed N t ∧ (∀ k ∈ ids, t.diners k = .waitFront) ∧
      ∀ k, s.diners k = .waitFront → t.diners k = .waitFront := by
  induction ids generalizing s with
  | nil => exact ⟨s, .refl s, h, by simp, fun _ waits => waits⟩
  | cons id ids ih =>
      obtain ⟨t, reached, missed, waits, kept⟩ := h.wait id
      obtain ⟨u, reached', missed', all, kept'⟩ := ih missed
      refine ⟨u, reached.trans reached', missed', ?_, fun k held => kept' k (kept k held)⟩
      intro k member
      rcases List.mem_cons.mp member with rfl | later
      · exact kept' k waits
      · exact all k later

theorem Missed.stuck (h : Missed N s) : ∃ t, Reached (step N) s t ∧ Stuck (step N) t := by
  obtain ⟨t, reached, missed, all, _⟩ := h.waitAll (List.finRange d)
  refine ⟨t, reached, fun th => ?_⟩
  cases th with
  | main =>
      change mainThread N t = none
      simp [mainThread, missed.main]
  | diner id =>
      change diner N id t = none
      simp [diner, all id (List.mem_finRange id)]

/-- A batch that is gone before the main thread looks again is missed. -/
theorem Ordered.late (h : Ordered N s) {th : Thread d} (late : ¬ InTime N s th)
    (taken : Restaurant.step N s th = some t) :
    t.front = false ∧ t.back = false ∧ t.main = .wokenFront := by
  cases th with
  | main => exact absurd trivial late
  | diner id =>
      obtain ⟨empties, elsewhere⟩ := Classical.not_imp.mp late
      change Restaurant.diner N id s = some t at taken
      unfold Restaurant.diner at taken
      rcases empties with ⟨place, last⟩ | ⟨place, front, single⟩
      · simp only [place, Option.some.injEq] at taken
        subst taken
        obtain ⟨front, -, -, main, -⟩ := h.of_wokenBack place
        have woken := main.resolve_right elsewhere
        refine ⟨leave_front.trans front, (leave_last last).1, ?_⟩
        rw [(leave_last last).2, woken]
        rfl
      · have entered : Restaurant.enter N id s = t := by
          rcases place with held | held <;>
            simpa only [held, tryEnter, front, if_true, Option.some.injEq] using taken
        obtain ⟨-, main, -⟩ := h.phase.of_front front
        have fewer := h.fewer
        have full : s.dinersInside + 1 = N := by omega
        have result := enter_full id full main
        rw [entered] at result
        refine ⟨result.1, ?_, result.2.2⟩
        rw [result.2.1, single]
        rfl

/-- From there the main thread goes on to wait for the back door. -/
theorem Ordered.missed (h : Ordered N s) (front : s.front = false) (back : s.back = false)
    (main : s.main = .wokenFront) :
    ∃ t, Reached (Restaurant.step N) s t ∧ Missed N t := by
  have taken : Restaurant.step N s .main = some { s with main := .waitBack } := by
    change Restaurant.mainThread N s = _
    simp only [Restaurant.mainThread, main, awaitService_missed back]
  refine ⟨_, (Reached.refl s).snoc taken, h.step taken, front, back, ?_, rfl⟩
  cases h.phase with
  | filling open_ => exact absurd (open_.symm.trans front) (by decide)
  | serving _ open_ => exact absurd (open_.symm.trans back) (by decide)
  | empty _ _ none_ => exact none_

end Steps

/-- Runs in which the main thread is in time never get stuck; and after any step for
which it is not, every thread can end up waiting for ever. -/
theorem never_stuck_when_in_time {N d : Nat} (positive : 0 < N) (enough : N ≤ d) :
    (∀ (schedule : List (Thread d)) (s : State d), Guarded (step N) (InTime N) (start d) schedule →
      run (step N) (start d) schedule = some s → ¬ Stuck (step N) s) ∧
    ∀ (s t : State d) (th : Thread d), Reached (step N) (start d) s → ¬ InTime N s th →
      step N s th = some t → ∃ u, Reached (step N) t u ∧ Stuck (step N) u := by
  constructor
  · intro schedule s guarded ran
    have kept : Ordered N s ∧ Prompt s := by
      refine guarded_run_invariant (P := fun s => Ordered N s ∧ Prompt s) ?_ ?_ guarded ran
      · exact fun s th t h inTime taken => ⟨h.1.step taken, h.1.prompt h.2 inTime taken⟩
      · exact ⟨start_ordered positive d, fun _ _ => .inl rfl⟩
    exact kept.1.not_stuck enough kept.2
  · rintro s t th ⟨schedule, ran⟩ late taken
    have h := run_ordered positive ran
    obtain ⟨front, back, main⟩ := h.late late taken
    obtain ⟨u, reached, missed⟩ := (h.step taken).missed front back main
    obtain ⟨v, reached', stuck⟩ := missed.stuck
    exact ⟨v, reached.trans reached', stuck⟩

/-- Two diners of four, with the main thread back before the second one leaves. -/
theorem never_stuck_when_in_time_pair :
    ∃ s : State 4, run (step 2) (start 4) [.main, .diner 0, .diner 1, .main, .diner 0, .main] = some s ∧
      ¬ Stuck (step 2) s := by
  let schedule : List (Thread 4) := [.main, .diner 0, .diner 1, .main, .diner 0, .main]
  obtain ⟨s, ran⟩ : ∃ s, run (step 2) (start 4) schedule = some s :=
    Option.isSome_iff_exists.mp (by decide)
  have guarded : Guarded (step 2) (InTime 2) (start 4) schedule := by decide
  exact ⟨s, ran, (never_stuck_when_in_time (by decide) (by decide)).1 schedule s guarded ran⟩

/-- Two diners come and go before the main thread runs again: then it waits for the back
door, and all four diners wait for the front door. -/
theorem served_batch_missed :
    ¬ ∀ (N d : Nat), 1 ≤ N → N ≤ d → ∀ (schedule : List (Thread d)) (s : State d),
      run (step N) (start d) schedule = some s → ¬ Stuck (step N) s := by
  intro claim
  let schedule : List (Thread 4) :=
    [.main, .diner 0, .diner 1, .diner 0, .main, .diner 0, .diner 1, .diner 2, .diner 3]
  obtain ⟨s, ran⟩ : ∃ s, run (step 2) (start 4) schedule = some s :=
    Option.isSome_iff_exists.mp (by decide)
  have waiting : (run (step 2) (start 4) schedule).all fun s =>
      decide (s.main = .waitBack) && decide (∀ k, s.diners k = .waitFront) := by decide
  rw [ran, Option.all_some, Bool.and_eq_true, decide_eq_true_eq, decide_eq_true_eq] at waiting
  refine claim 2 4 (by decide) (by decide) schedule s ran fun th => ?_
  cases th with
  | main => simp [step, mainThread, waiting.1]
  | diner id => simp [step, diner, waiting.2 id]

end NetworkOs.Restaurant
