import NetworkOs.Restaurant.Threads

/-! What the doors are for: the order in which batches of `N` diners may come and go.
Every run of the threads keeps to this order, whatever the schedule. -/
namespace NetworkOs.Restaurant
open Runs Census

/-- The doors as the guests see them: `entered` counts since the front door was opened
last, `left` since the back door was. -/
structure Doors where
  front : Bool
  back : Bool
  inside : Nat
  entered : Nat
  left : Nat
deriving DecidableEq, Repr

def Doors.shut : Doors := ⟨false, false, 0, 0, 0⟩

/-- The rules of the house: what may happen next. -/
def Doors.follow (N : Nat) (b : Doors) : Event → Option Doors
  | .openFront =>
      if b.inside = 0 ∧ b.back = false then some { b with front := true, entered := 0 } else none
  | .closeFront => some { b with front := false }
  | .openBack =>
      if b.entered = N ∧ b.front = false then some { b with back := true, left := 0 } else none
  | .closeBack =>
      if b.left = N ∧ b.inside = 0 then some { b with back := false } else none
  | .enter =>
      if b.front = true ∧ b.back = false then
        some { b with inside := b.inside + 1, entered := b.entered + 1 }
      else none
  | .leave =>
      if b.back = true ∧ 0 < b.inside then
        some { b with inside := b.inside - 1, left := b.left + 1 }
      else none

/-- A diner between its entry and its exit that does not hold the mutex. -/
def DinerAt.Inside (place : DinerAt) : Prop := place = .waitBack ∨ place = .wokenBack

instance : DecidablePred DinerAt.Inside := fun _ => inferInstanceAs (Decidable (_ ∨ _))

/-- The events so far were admitted, and left the doors as the variables say. -/
structure Follows (N : Nat) (s : State d) (b : Doors) : Prop where
  admitted : run (Doors.follow N) Doors.shut s.log = some b
  front : b.front = s.front
  back : b.back = s.back
  inside : b.inside = s.dinersInside
  entered : s.front = true → b.entered = s.dinersInside
  left : s.back = true → b.left + s.dinersInside = N

/-- The three phases of a batch, with the mutex free. -/
inductive Phase (s : State d) : Prop where
  | filling (front : s.front = true) (back : s.back = false) (main : s.main = .waitFront)
      (diners : ∀ k, s.diners k ≠ .waitFront ∧ s.diners k ≠ .wokenBack)
  | serving (front : s.front = false) (back : s.back = true) (some_ : 0 < s.dinersInside)
      (main : s.main = .wokenFront ∨ s.main = .waitLast) (diners : ∀ k, s.diners k ≠ .waitBack)
  | empty (front : s.front = false) (back : s.back = false) (none_ : s.dinersInside = 0)
      (main : s.main = .loopTop ∨ s.main = .wokenFront ∨ s.main = .waitBack ∨ s.main = .wokenLast)

/-- What holds whenever the mutex is free. -/
structure Ordered (N : Nat) (s : State d) : Prop where
  phase : Phase s
  counted : census DinerAt.Inside s.diners = s.dinersInside
  fewer : s.dinersInside < N
  follows : ∃ b, Follows N s b

section Notified
variable {d : Nat} {s : State d}

@[simp] theorem DinerAt.notifyFront_inside (place : DinerAt) : place.notifyFront.Inside ↔ place.Inside := by
  cases place <;> decide

@[simp] theorem DinerAt.notifyBack_inside (place : DinerAt) : place.notifyBack.Inside ↔ place.Inside := by
  cases place <;> decide

theorem DinerAt.notifyFront_ne (place : DinerAt) : place.notifyFront ≠ .waitFront := by
  cases place <;> decide

theorem DinerAt.notifyBack_ne (place : DinerAt) : place.notifyBack ≠ .waitBack := by
  cases place <;> decide

theorem DinerAt.notifyFront_wokenBack {place : DinerAt} (h : place ≠ .wokenBack) :
    place.notifyFront ≠ .wokenBack := by
  cases place <;> first | decide | exact absurd rfl h

/-- With nobody inside no diner waits for the back door or has been called to it. -/
theorem Ordered.nobody (h : Ordered N s) (none_ : s.dinersInside = 0) (k : Fin d) :
    s.diners k ≠ .waitBack ∧ s.diners k ≠ .wokenBack := by
  have nobody := census_eq_zero_iff.mp (h.counted.trans none_) k
  exact ⟨fun waits => nobody (.inl waits), fun woken => nobody (.inr woken)⟩

end Notified

section Steps
variable {N d : Nat} {s : State d} {b : Doors} {id : Fin d}

/-- Only the log, the doors and the number of diners matter to the rules. -/
theorem Follows.congr (h : Follows N s b) {t : State d} (log : t.log = s.log) (front : t.front = s.front)
    (back : t.back = s.back) (inside : t.dinersInside = s.dinersInside) : Follows N t b where
  admitted := log ▸ h.admitted
  front := front ▸ h.front
  back := back ▸ h.back
  inside := inside ▸ h.inside
  entered open_ := inside ▸ h.entered (front ▸ open_)
  left open_ := inside ▸ h.left (back ▸ open_)

theorem Follows.openFront (h : Follows N s b) (none_ : s.dinersInside = 0) (back : s.back = false) :
    Follows N (note .openFront { s with front := true }) { b with front := true, entered := 0 } where
  admitted := run_concat h.admitted (if_pos ⟨h.inside.trans none_, h.back.trans back⟩)
  front := rfl
  back := h.back
  inside := h.inside
  entered _ := none_.symm
  left open_ := absurd (back.symm.trans open_) Bool.false_ne_true

theorem Follows.enter (h : Follows N s b) (front : s.front = true) (back : s.back = false) :
    Follows N (note .enter { s with dinersInside := s.dinersInside + 1 })
      { b with inside := b.inside + 1, entered := b.entered + 1 } where
  admitted := run_concat h.admitted (if_pos ⟨h.front.trans front, h.back.trans back⟩)
  front := h.front
  back := h.back
  inside := congrArg (· + 1) h.inside
  entered _ := congrArg (· + 1) (h.entered front)
  left open_ := absurd (back.symm.trans open_) Bool.false_ne_true

theorem Follows.closeFront (h : Follows N s b) :
    Follows N (note .closeFront { s with front := false }) { b with front := false } where
  admitted := run_concat h.admitted rfl
  front := rfl
  back := h.back
  inside := h.inside
  entered open_ := absurd open_ Bool.false_ne_true
  left := h.left

theorem Follows.openBack (h : Follows N s b) (whole : b.entered = N) (front : s.front = false)
    (full : s.dinersInside = N) :
    Follows N (note .openBack { s with back := true }) { b with back := true, left := 0 } where
  admitted := run_concat h.admitted (if_pos ⟨whole, h.front.trans front⟩)
  front := h.front
  back := rfl
  inside := h.inside
  entered := h.entered
  left _ := (Nat.zero_add _).trans full

theorem Follows.leave (h : Follows N s b) (front : s.front = false) (back : s.back = true)
    (some_ : 0 < s.dinersInside) :
    Follows N (note .leave { s with dinersInside := s.dinersInside - 1, dinersServed := s.dinersServed + 1 })
      { b with inside := b.inside - 1, left := b.left + 1 } where
  admitted := run_concat h.admitted (if_pos ⟨h.back.trans back, h.inside ▸ some_⟩)
  front := h.front
  back := h.back
  inside := congrArg (· - 1) h.inside
  entered open_ := absurd (front.symm.trans open_) Bool.false_ne_true
  left _ := by
    have left := h.left back
    change b.left + 1 + (s.dinersInside - 1) = N
    omega

theorem Follows.closeBack (h : Follows N s b) (back : s.back = true) (none_ : s.dinersInside = 0) :
    Follows N (note .closeBack { s with back := false }) { b with back := false } where
  admitted := by
    have left := h.left back
    rw [none_, Nat.add_zero] at left
    exact run_concat h.admitted (if_pos ⟨left, h.inside.trans none_⟩)
  front := h.front
  back := rfl
  inside := h.inside
  entered := h.entered
  left open_ := absurd open_ Bool.false_ne_true

theorem forall_goTo {P : DinerAt → Prop} {place : DinerAt} (moved : P place)
    (others : ∀ k, k ≠ id → P (s.diners k)) (k : Fin d) : P ((goTo id place s).diners k) := by
  by_cases same : k = id
  · subst same
    simpa [goTo] using moved
  · simpa [goTo, same] using others k same

theorem Phase.of_front (h : Phase s) (front : s.front = true) :
    s.back = false ∧ s.main = .waitFront ∧
      ∀ k, s.diners k ≠ .waitFront ∧ s.diners k ≠ .wokenBack := by
  cases h with
  | filling _ back main diners => exact ⟨back, main, diners⟩
  | serving shut => exact absurd (front.symm.trans shut) (by decide)
  | empty shut => exact absurd (front.symm.trans shut) (by decide)

/-- The main thread opens the front door, or comes back from the last diner, only
between two batches. -/
theorem Phase.of_main (h : Phase s) (main : s.main = .loopTop ∨ s.main = .wokenLast) :
    s.front = false ∧ s.back = false ∧ s.dinersInside = 0 := by
  cases h with
  | empty front back none_ => exact ⟨front, back, none_⟩
  | filling _ _ waits => rw [waits] at main; exact absurd main (by decide)
  | serving _ _ _ awaits =>
      rcases awaits with place | place <;> rw [place] at main <;> exact absurd main (by decide)

/-- Nobody ever wakes the main thread from its first wait on `cv_back`. -/
theorem Phase.main_ne_wokenBack (h : Phase s) : s.main ≠ .wokenBack := by
  intro place
  cases h with
  | filling _ _ main => exact absurd (place.symm.trans main) (by decide)
  | serving _ _ _ main => rcases main with main | main <;> exact absurd (place.symm.trans main) (by decide)
  | empty _ _ _ main =>
      rcases main with main | main | main | main <;> exact absurd (place.symm.trans main) (by decide)

/-- A diner called to the back door finds it open. -/
theorem Ordered.of_wokenBack (h : Ordered N s) (place : s.diners id = .wokenBack) :
    s.front = false ∧ s.back = true ∧ 0 < s.dinersInside ∧ (s.main = .wokenFront ∨ s.main = .waitLast) ∧
      ∀ k, s.diners k ≠ .waitBack := by
  cases h.phase with
  | filling _ _ _ diners => exact absurd place (diners id).2
  | empty _ _ none_ => exact absurd place (h.nobody none_ id).2
  | serving front back some_ main diners => exact ⟨front, back, some_, main, diners⟩

theorem census_notifyBack_left (diners : Fin d → DinerAt) (id : Fin d) :
    census DinerAt.Inside (Function.update (DinerAt.notifyBack ∘ diners) id .outside) =
      census DinerAt.Inside (Function.update diners id .outside) := by
  have outside : Function.update (DinerAt.notifyBack ∘ diners) id .outside =
      DinerAt.notifyBack ∘ Function.update diners id .outside :=
    (Function.comp_update DinerAt.notifyBack diners id .outside).symm
  rw [outside]
  exact census_congr fun k => DinerAt.notifyBack_inside _

/-- Neither notification moves a diner through a door. -/
theorem census_notified_outside (diners : Fin d → DinerAt) (outside : ¬ (diners id).Inside) :
    census DinerAt.Inside (Function.update (DinerAt.notifyBack ∘ DinerAt.notifyFront ∘ diners) id .outside) =
      census DinerAt.Inside diners := by
  refine census_congr fun k => ?_
  by_cases same : k = id
  · subst same
    simpa [DinerAt.Inside] using outside
  · simp [same]

/-- A diner on its way out, which is counted in `diners_inside` but not in its place. -/
structure Leaving (N : Nat) (s : State d) (id : Fin d) : Prop where
  front : s.front = false
  back : s.back = true
  main : s.main = .wokenFront ∨ s.main = .waitLast
  diners : ∀ k, k ≠ id → s.diners k ≠ .waitBack
  counted : census DinerAt.Inside (Function.update s.diners id .outside) + 1 = s.dinersInside
  bounded : s.dinersInside ≤ N
  follows : ∃ b, Follows N s b

theorem leave_eq_of_last (last : s.dinersInside - 1 = 0) :
    leave id s = goTo id .outside { notifyBack (note .closeBack { note .leave { s with
      dinersInside := s.dinersInside - 1, dinersServed := s.dinersServed + 1 } with back := false })
      with dinersServed := 0 } := by
  simp only [leave, note, last, if_true]

theorem leave_eq_of_others (others : s.dinersInside - 1 ≠ 0) :
    leave id s = goTo id .outside (note .leave { s with
      dinersInside := s.dinersInside - 1, dinersServed := s.dinersServed + 1 }) := by
  simp only [leave, note, others, if_false]

/-- The last diner shuts the back door and calls the main thread. -/
theorem Leaving.last (h : Leaving N s id) (last : s.dinersInside - 1 = 0) : Ordered N (leave id s) := by
  obtain ⟨b, follows⟩ := h.follows
  have one := h.counted
  have bounded := h.bounded
  have gone := follows.leave h.front h.back (by omega)
  rw [leave_eq_of_last last]
  refine ⟨.empty h.front rfl last ?_, ?_, ?_, _, (gone.closeBack h.back last).congr rfl rfl rfl rfl⟩
  · rcases h.main with woken | waits
    · exact .inr (.inl (by simp [goTo, notifyBack, note, woken, MainAt.notifyBack]))
    · exact .inr (.inr (.inr (by simp [goTo, notifyBack, note, waits, MainAt.notifyBack])))
  · refine (census_notifyBack_left s.diners id).trans ?_
    change _ = s.dinersInside - 1
    omega
  · change s.dinersInside - 1 < N
    omega

theorem Leaving.others (h : Leaving N s id) (others : s.dinersInside - 1 ≠ 0) : Ordered N (leave id s) := by
  obtain ⟨b, follows⟩ := h.follows
  have one := h.counted
  have bounded := h.bounded
  have gone := follows.leave h.front h.back (by omega)
  rw [leave_eq_of_others others]
  refine ⟨.serving h.front h.back (Nat.pos_of_ne_zero others) h.main ?_, ?_, ?_,
    _, gone.congr rfl rfl rfl rfl⟩
  · exact forall_goTo (P := (· ≠ .waitBack)) (by decide) h.diners
  · change census DinerAt.Inside (Function.update s.diners id .outside) = s.dinersInside - 1
    omega
  · change s.dinersInside - 1 < N
    omega

theorem Leaving.leave (h : Leaving N s id) : Ordered N (leave id s) := by
  by_cases last : s.dinersInside - 1 = 0
  · exact h.last last
  · exact h.others last

theorem enter_eq_of_full (full : s.dinersInside + 1 = N) :
    enter N id s = leave id (notifyBack (note .openBack { notifyFront (note .closeFront
      { note .enter { s with dinersInside := s.dinersInside + 1 } with front := false })
      with back := true })) := by
  simp only [enter, note, full, if_true]

theorem enter_eq_of_room (room : s.dinersInside + 1 ≠ N) :
    enter N id s = goTo id .waitBack (note .enter { s with dinersInside := s.dinersInside + 1 }) := by
  simp only [enter, note, room, if_false]

/-- The diner that completes the batch shuts the front door, opens the back door and
goes straight on to leave. -/
theorem Ordered.enterFull (h : Ordered N s) (front : s.front = true) (outside : ¬ (s.diners id).Inside)
    (full : s.dinersInside + 1 = N) : Ordered N (enter N id s) := by
  obtain ⟨b, follows⟩ := h.follows
  obtain ⟨back, main, -⟩ := h.phase.of_front front
  have came := follows.enter front back
  have opened := came.closeFront.openBack ((came.entered front).trans full) rfl full
  rw [enter_eq_of_full full]
  refine Leaving.leave ⟨rfl, rfl, .inl ?_, ?_, ?_, full.le, _, opened.congr rfl rfl rfl rfl⟩
  · simp [notifyBack, notifyFront, note, main, MainAt.notifyFront, MainAt.notifyBack]
  · exact fun k _ => DinerAt.notifyBack_ne _
  · exact congrArg (· + 1) ((census_notified_outside s.diners outside).trans h.counted)

theorem Ordered.enterRoom (h : Ordered N s) (front : s.front = true) (outside : ¬ (s.diners id).Inside)
    (room : s.dinersInside + 1 ≠ N) : Ordered N (enter N id s) := by
  obtain ⟨b, follows⟩ := h.follows
  obtain ⟨back, main, diners⟩ := h.phase.of_front front
  have fewer := h.fewer
  rw [enter_eq_of_room room]
  refine ⟨.filling front back main ?_, ?_, ?_, _, (follows.enter front back).congr rfl rfl rfl rfl⟩
  · exact forall_goTo (P := fun place => place ≠ .waitFront ∧ place ≠ .wokenBack) (by decide)
      fun k _ => diners k
  · exact (census_enter outside (.inl rfl)).trans (congrArg (· + 1) h.counted)
  · change s.dinersInside + 1 < N
    omega

theorem Ordered.enter (h : Ordered N s) (front : s.front = true) (outside : ¬ (s.diners id).Inside) :
    Ordered N (enter N id s) := by
  by_cases full : s.dinersInside + 1 = N
  · exact h.enterFull front outside full
  · exact h.enterRoom front outside full

/-- A diner that finds the front door shut waits for it, and nothing else changes. -/
theorem Ordered.waitFront (h : Ordered N s) (shut : s.front = false) (outside : ¬ (s.diners id).Inside) :
    Ordered N (goTo id .waitFront s) := by
  obtain ⟨b, follows⟩ := h.follows
  refine ⟨?_, ?_, h.fewer, b, follows.congr rfl rfl rfl rfl⟩
  · cases h.phase with
    | filling front => exact absurd (front.symm.trans shut) (by decide)
    | empty front back none_ main => exact .empty front back none_ main
    | serving front back some_ main diners =>
        refine .serving front back some_ main ?_
        exact forall_goTo (P := (· ≠ .waitBack)) (by decide) fun k _ => diners k
  · refine (census_stay ?_).trans h.counted
    exact iff_of_false outside (by decide)

theorem Ordered.leave (h : Ordered N s) (place : s.diners id = .wokenBack) :
    Ordered N (Restaurant.leave id s) := by
  have counted : census DinerAt.Inside (Function.update s.diners id .outside) + 1 = s.dinersInside :=
    (census_leave (.inr place) (by decide)).trans h.counted
  obtain ⟨front, back, -, main, diners⟩ := h.of_wokenBack place
  exact Leaving.leave ⟨front, back, main, fun k _ => diners k, counted, h.fewer.le, h.follows⟩

theorem Ordered.diner (h : Ordered N s) {t : State d} (taken : diner N id s = some t) : Ordered N t := by
  have tried : ¬ (s.diners id).Inside → Ordered N (tryEnter N id s) := by
    intro outside
    unfold tryEnter
    split_ifs with front
    · exact h.enter front outside
    · exact h.waitFront (Bool.eq_false_iff.mpr front) outside
  unfold Restaurant.diner at taken
  cases place : s.diners id with
  | outside => exact Option.some.inj (place ▸ taken) ▸ tried (place ▸ by decide)
  | wokenFront => exact Option.some.inj (place ▸ taken) ▸ tried (place ▸ by decide)
  | wokenBack => exact Option.some.inj (place ▸ taken) ▸ h.leave place
  | waitFront => exact nomatch (place ▸ taken)
  | waitBack => exact nomatch (place ▸ taken)

theorem Ordered.moveMain (h : Ordered N s) (place : MainAt) (phase : Phase { s with main := place }) :
    Ordered N { s with main := place } := by
  obtain ⟨b, follows⟩ := h.follows
  exact ⟨phase, h.counted, h.fewer, b, follows.congr rfl rfl rfl rfl⟩

theorem openDoor_room (room : s.dinersInside < N) :
    openDoor N s = { notifyFront (note .openFront { s with front := true }) with main := .waitFront } := by
  simp only [openDoor, notifyFront, note, room, if_true]

theorem Ordered.openDoor (h : Ordered N s) (place : s.main = .loopTop) : Ordered N (openDoor N s) := by
  obtain ⟨b, follows⟩ := h.follows
  obtain ⟨-, back, none_⟩ := h.phase.of_main (.inl place)
  rw [openDoor_room h.fewer]
  refine ⟨.filling rfl back rfl fun k => ⟨?_, ?_⟩, ?_, h.fewer,
    _, (follows.openFront none_ back).congr rfl rfl rfl rfl⟩
  · exact DinerAt.notifyFront_ne _
  · exact DinerAt.notifyFront_wokenBack (h.nobody none_ k).2
  · exact (census_congr fun k => DinerAt.notifyFront_inside _).trans h.counted

theorem awaitService_serving (back : s.back = true) (some_ : 0 < s.dinersInside) :
    awaitService s = { s with main := .waitLast } := by
  rw [awaitService, if_neg (by rw [back]; decide), awaitEmpty, if_pos some_]

/-- The back door is shut again before the main thread looks: it waits for it. -/
theorem awaitService_missed (back : s.back = false) : awaitService s = { s with main := .waitBack } := by
  rw [awaitService, if_pos (by rw [back]; decide)]

theorem Ordered.mainThread (h : Ordered N s) {t : State d} (taken : mainThread N s = some t) :
    Ordered N t := by
  unfold Restaurant.mainThread at taken
  cases place : s.main with
  | loopTop => exact Option.some.inj (place ▸ taken) ▸ h.openDoor place
  | waitFront => exact nomatch (place ▸ taken)
  | waitBack => exact nomatch (place ▸ taken)
  | waitLast => exact nomatch (place ▸ taken)
  | wokenFront =>
      simp only [place, Option.some.injEq] at taken
      subst taken
      cases h.phase with
      | filling _ _ main => exact absurd (place.symm.trans main) (by decide)
      | serving front back some_ _ diners =>
          rw [awaitService_serving back some_]
          exact h.moveMain .waitLast (.serving front back some_ (.inr rfl) diners)
      | empty front back none_ _ =>
          rw [awaitService_missed back]
          exact h.moveMain .waitBack (.empty front back none_ (.inr (.inr (.inl rfl))))
  | wokenBack => exact absurd place h.phase.main_ne_wokenBack
  | wokenLast =>
      simp only [place, Option.some.injEq] at taken
      subst taken
      obtain ⟨front, back, none_⟩ := h.phase.of_main (.inr place)
      exact h.moveMain .loopTop (.empty front back none_ (.inl rfl))

theorem Ordered.step (h : Ordered N s) {th : Thread d} {t : State d} (taken : step N s th = some t) :
    Ordered N t := by
  cases th with
  | main => exact h.mainThread taken
  | diner id => exact h.diner taken

theorem start_ordered (positive : 0 < N) (d : Nat) : Ordered N (start d) := by
  refine ⟨.empty rfl rfl rfl (.inl rfl), ?_, positive, ?_⟩
  · exact census_eq_zero_iff.mpr fun _ => (by decide : ¬ DinerAt.Inside .outside)
  · exact ⟨.shut, rfl, rfl, rfl, rfl, fun _ => rfl, fun open_ => absurd open_ Bool.false_ne_true⟩

/-- What holds of every schedule, by induction on it. -/
theorem run_ordered (positive : 0 < N) {schedule : List (Thread d)}
    (ran : run (Restaurant.step N) (start d) schedule = some s) : Ordered N s :=
  run_invariant (fun _ _ _ h taken => h.step taken) (start_ordered positive d) ran

end Steps

/-- Under every schedule of any number of diners the rules of the house are kept, the
doors are never both open, and fewer than `N` diners are inside when the mutex is free. -/
theorem batches_admitted {N d : Nat} (positive : 0 < N) {schedule : List (Thread d)} {s : State d}
    (ran : run (step N) (start d) schedule = some s) :
    (s.dinersInside ≤ N - 1 ∧ census DinerAt.Inside s.diners = s.dinersInside) ∧
      ¬ (s.front = true ∧ s.back = true) ∧
      ∃ b, run (Doors.follow N) Doors.shut s.log = some b ∧
        b.front = s.front ∧ b.back = s.back ∧ b.inside = s.dinersInside := by
  have h := run_ordered positive ran
  obtain ⟨b, follows⟩ := h.follows
  refine ⟨⟨Nat.le_sub_one_of_lt h.fewer, h.counted⟩, ?_,
    b, follows.admitted, follows.front, follows.back, follows.inside⟩
  rintro ⟨front, back⟩
  exact absurd (back.symm.trans (h.phase.of_front front).1) (by decide)

/-- A batch of two of three diners, up to the next opening. -/
theorem batches_admitted_pair :
    ∃ s : State 3, run (step 2) (start 3)
        [.main, .diner 0, .diner 2, .main, .diner 0, .main, .main] = some s ∧
      s.log = [.openFront, .enter, .enter, .closeFront, .openBack, .leave, .leave, .closeBack, .openFront] ∧
      ∃ b, run (Doors.follow 2) Doors.shut s.log = some b ∧
        b.front = s.front ∧ b.back = s.back ∧ b.inside = s.dinersInside := by
  let schedule : List (Thread 3) := [.main, .diner 0, .diner 2, .main, .diner 0, .main, .main]
  obtain ⟨s, ran⟩ : ∃ s, run (step 2) (start 3) schedule = some s :=
    Option.isSome_iff_exists.mp (by decide)
  have log : (run (step 2) (start 3) schedule).map State.log = some [.openFront, .enter, .enter, .closeFront,
      .openBack, .leave, .leave, .closeBack, .openFront] := by decide
  rw [ran, Option.map_some, Option.some.injEq] at log
  exact ⟨s, ran, log, (batches_admitted (by decide) ran).2.2⟩

end NetworkOs.Restaurant
