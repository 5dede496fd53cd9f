import NetworkOs.Restaurant.Doors

/-! The restaurant when a wait may return without a notification. The diners' wait for
the front door looks at the door again; the waits for the back door do not. -/
namespace NetworkOs.Restaurant
open Runs Census

/-- A thread runs as before, or a waiting thread gets the mutex back unnotified. -/
inductive Move (d : Nat) where
  | thread (th : Thread d)
  | unnotified (th : Thread d)
deriving DecidableEq, Repr

section Moves
variable {d : Nat} (N : Nat)

/-- A wait of the thread returns, and the thread goes on behind it. -/
def comeBack (s : State d) : Thread d → Option (State d)
  | .main =>
      match s.main with
      | .waitFront => some (awaitService s)
      | .waitBack => some (awaitEmpty s)
      | .waitLast => some { s with main := .loopTop }
      | _ => none
  | .diner id =>
      match s.diners id with
      | .waitFront => some (tryEnter N id s)
      | .waitBack => some (leave id s)
      | _ => none

def move (s : State d) : Move d → Option (State d)
  | .thread th => step N s th
  | .unnotified th => comeBack N s th

/-- The unnotified returns that do no harm: from `cv_front`, a diner's from `cv_back` while
the back door is open, and the main thread's from `cv_back` between two batches. -/
def Harmless (s : State d) : Move d → Prop
  | .thread _ => True
  | .unnotified .main => s.main = .waitFront ∨ N = 1 ∨ s.front = false ∧ s.dinersInside = 0
  | .unnotified (.diner id) => s.diners id = .waitFront ∨ s.back = true

instance (s : State d) : ∀ i, Decidable (Harmless N s i)
  | .thread _ => isTrue trivial
  | .unnotified .main => inferInstanceAs (Decidable (_ ∨ _))
  | .unnotified (.diner _) => inferInstanceAs (Decidable (_ ∨ _))

end Moves

/-- The back door, and the diners inside by batch: the front door's closing ends a batch. -/
structure House where
  back : Bool
  previous : Nat
  current : Nat
deriving DecidableEq, Repr

def House.shut : House := ⟨false, 0, 0⟩

/-- The two door rules: who leaves finds the back door open, and the front door is opened
on nobody of the previous batch. -/
def House.follow (b : House) : Event → Option House
  | .openFront => if b.previous = 0 then some b else none
  | .closeFront => some { b with previous := b.previous + b.current, current := 0 }
  | .openBack => some { b with back := true }
  | .closeBack => some { b with back := false }
  | .enter => some { b with current := b.current + 1 }
  | .leave =>
      if b.back = true then
        some (if 0 < b.previous then { b with previous := b.previous - 1 }
          else { b with current := b.current - 1 })
      else none

/-- The events so far kept the door rules, and left the house as the variables say. -/
structure Obeys (s : State d) (b : House) : Prop where
  admitted : run House.follow House.shut s.log = some b
  back : b.back = s.back
  inside : b.previous + b.current = s.dinersInside
  previous : s.front = true → b.previous = 0
  current : s.front = false → b.current = 0

/-- The phases of a batch, with the mutex free and unnotified returns of the main thread. -/
inductive Stage (N : Nat) (s : State d) : Prop where
  | filling (front : s.front = true) (back : s.back = false)
      (main : s.main = .waitFront ∨ s.main = .waitBack ∨ N = 1)
      (diners : ∀ k, s.diners k ≠ .waitFront ∧ s.diners k ≠ .wokenBack)
  | serving (front : s.front = false) (back : s.back = true) (some_ : 0 < s.dinersInside)
      (main : s.main = .wokenFront ∨ s.main = .wokenBack ∨ s.main = .waitLast)
      (diners : ∀ k, s.diners k ≠ .waitBack)
  | empty (front : s.front = false) (back : s.back = false) (none_ : s.dinersInside = 0)

/-- What harmless moves keep. -/
structure Steady (N : Nat) (s : State d) : Prop where
  stage : Stage N s
  counted : census DinerAt.Inside s.diners = s.dinersInside
  fewer : s.dinersInside < N
  obeys : ∃ b, Obeys s b

section Rules
variable {d : Nat} {s : State d} {b : House}

theorem Obeys.congr (h : Obeys s b) {t : State d} (log : t.log = s.log) (front : t.front = s.front)
    (back : t.back = s.back) (inside : t.dinersInside = s.dinersInside) : Obeys t b where
  admitted := log ▸ h.admitted
  back := back ▸ h.back
  inside := inside ▸ h.inside
  previous open_ := h.previous (front ▸ open_)
  current shut := h.current (front ▸ shut)

theorem Obeys.openFront (h : Obeys s b) (none_ : b.previous = 0) :
    Obeys (note .openFront { s with front := true }) b where
  admitted := run_concat h.admitted (if_pos none_)
  back := h.back
  inside := h.inside
  previous _ := none_
  current shut := absurd shut.symm Bool.false_ne_true

theorem Obeys.enter (h : Obeys s b) (front : s.front = true) :
    Obeys (note .enter { s with dinersInside := s.dinersInside + 1 }) { b with current := b.current + 1 } where
  admitted := run_concat h.admitted rfl
  back := h.back
  inside := congrArg (· + 1) h.inside
  previous := h.previous
  current shut := absurd (front.symm.trans shut) (by decide)

theorem Obeys.closeFront (h : Obeys s b) :
    Obeys (note .closeFront { s with front := false })
      { b with previous := b.previous + b.current, current := 0 } where
  admitted := run_concat h.admitted rfl
  back := h.back
  inside := h.inside
  previous open_ := absurd open_ Bool.false_ne_true
  current _ := rfl

theorem Obeys.openBack (h : Obeys s b) :
    Obeys (note .openBack { s with back := true }) { b with back := true } where
  admitted := run_concat h.admitted rfl
  back := rfl
  inside := h.inside
  previous := h.previous
  current := h.current

theorem Obeys.closeBack (h : Obeys s b) :
    Obeys (note .closeBack { s with back := false }) { b with back := false } where
  admitted := run_concat h.admitted rfl
  back := rfl
  inside := h.inside
  previous := h.previous
  current := h.current

theorem Obeys.leave (h : Obeys s b) (front : s.front = false) (back : s.back = true)
    (some_ : 0 < s.dinersInside) :
    Obeys (note .leave { s with dinersInside := s.dinersInside - 1, dinersServed := s.dinersServed + 1 })
      { b with previous := b.previous - 1 } where
  admitted := by
    have nobody := h.current front
    have inside := h.inside
    exact run_concat h.admitted ((if_pos (h.back.trans back)).trans (by rw [if_pos (by omega)]))
  back := h.back
  inside := by
    have nobody := h.current front
    have inside := h.inside
    change b.previous - 1 + b.current = s.dinersInside - 1
    omega
  previous open_ := absurd (front.symm.trans open_) (by decide)
  current := h.current

end Rules

section Steps
variable {N d : Nat} {s : State d} {id : Fin d}

theorem Steady.nobody (h : Steady N s) (none_ : s.dinersInside = 0) (k : Fin d) :
    s.diners k ≠ .waitBack ∧ s.diners k ≠ .wokenBack := by
  have nobody := census_eq_zero_iff.mp (h.counted.trans none_) k
  exact ⟨fun waits => nobody (.inl waits), fun woken => nobody (.inr woken)⟩

theorem Stage.of_front (h : Stage N s) (front : s.front = true) :
    s.back = false ∧ (s.main = .waitFront ∨ s.main = .waitBack ∨ N = 1) ∧
      ∀ k, s.diners k ≠ .waitFront ∧ s.diners k ≠ .wokenBack := by
  cases h with
  | filling _ back main diners => exact ⟨back, main, diners⟩
  | serving shut => exact absurd (front.symm.trans shut) (by decide)
  | empty shut => exact absurd (front.symm.trans shut) (by decide)

theorem Stage.of_back (h : Stage N s) (back : s.back = true) :
    s.front = false ∧ (s.main = .wokenFront ∨ s.main = .wokenBack ∨ s.main = .waitLast) ∧
      ∀ k, s.diners k ≠ .waitBack := by
  cases h with
  | filling _ shut => exact absurd (back.symm.trans shut) (by decide)
  | serving front _ _ main diners => exact ⟨front, main, diners⟩
  | empty _ shut => exact absurd (back.symm.trans shut) (by decide)

/-- A diner on its way out, with the main thread on its way to the last wait. -/
structure Departing (N : Nat) (s : State d) (id : Fin d) : Prop where
  front : s.front = false
  back : s.back = true
  main : s.main = .wokenFront ∨ s.main = .wokenBack ∨ s.main = .waitLast ∨ N = 1
  diners : ∀ k, k ≠ id → s.diners k ≠ .waitBack
  counted : census DinerAt.Inside (Function.update s.diners id .outside) + 1 = s.dinersInside
  bounded : s.dinersInside ≤ N
  obeys : ∃ b, Obeys s b

theorem Departing.last (h : Departing N s id) (last : s.dinersInside - 1 = 0) : Steady N (leave id s) := by
  obtain ⟨b, obeys⟩ := h.obeys
  have one := h.counted
  have bounded := h.bounded
  have gone := obeys.leave h.front h.back (by omega)
  rw [leave_eq_of_last last]
  refine ⟨.empty h.front rfl last, ?_, ?_, _, gone.closeBack.congr rfl rfl rfl rfl⟩
  · refine (census_notifyBack_left s.diners id).trans ?_
    change _ = s.dinersInside - 1
    omega
  · change s.dinersInside - 1 < N
    omega

theorem Departing.others (h : Departing N s id) (others : s.dinersInside - 1 ≠ 0) :
    Steady N (leave id s) := by
  obtain ⟨b, obeys⟩ := h.obeys
  have one := h.counted
  have bounded := h.bounded
  have gone := obeys.leave h.front h.back (by omega)
  have main : s.main = .wokenFront ∨ s.main = .wokenBack ∨ s.main = .waitLast := by
    rcases h.main with woken | called | waits | single
    · exact .inl woken
    · exact .inr (.inl called)
    · exact .inr (.inr waits)
    · omega
  rw [leave_eq_of_others others]
  refine ⟨.serving h.front h.back (Nat.pos_of_ne_zero others) main ?_, ?_, ?_, _, gone.congr rfl rfl rfl rfl⟩
  · exact forall_goTo (P := (· ≠ .waitBack)) (by decide) h.diners
  · change census DinerAt.Inside (Function.update s.diners id .outside) = s.dinersInside - 1
    omega
  · change s.dinersInside - 1 < N
    omega

theorem Departing.leave (h : Departing N s id) : Steady N (leave id s) := by
  by_cases last : s.dinersInside - 1 = 0
  · exact h.last last
  · exact h.others last

/-- Whom the two notifications of a full house find where. -/
theorem MainAt.notified {place : MainAt} (main : place = .waitFront ∨ place = .waitBack ∨ N = 1) :
    place.notifyFront.notifyBack = .wokenFront ∨ place.notifyFront.notifyBack = .wokenBack ∨
      place.notifyFront.notifyBack = .waitLast ∨ N = 1 := by
  rcases main with rfl | rfl | single
  · exact .inl rfl
  · exact .inr (.inl rfl)
  · exact .inr (.inr (.inr single))

theorem Steady.enterFull (h : Steady N s) (front : s.front = true) (outside : ¬ (s.diners id).Inside)
    (full : s.dinersInside + 1 = N) : Steady N (enter N id s) := by
  obtain ⟨b, obeys⟩ := h.obeys
  obtain ⟨_, main, _⟩ := h.stage.of_front front
  rw [enter_eq_of_full full]
  refine Departing.leave ⟨rfl, rfl, MainAt.notified main, ?_, ?_, full.le,
    _, (obeys.enter front).closeFront.openBack.congr rfl rfl rfl rfl⟩
  · exact fun k _ => DinerAt.notifyBack_ne _
  · exact congrArg (· + 1) ((census_notified_outside s.diners outside).trans h.counted)

theorem Steady.enterRoom (h : Steady N s) (front : s.front = true) (outside : ¬ (s.diners id).Inside)
    (room : s.dinersInside + 1 ≠ N) : Steady N (enter N id s) := by
  obtain ⟨b, obeys⟩ := h.obeys
  obtain ⟨back, main, diners⟩ := h.stage.of_front front
  have fewer := h.fewer
  rw [enter_eq_of_room room]
  refine ⟨.filling front back main ?_, ?_, ?_, _, (obeys.enter front).congr rfl rfl rfl rfl⟩
  · exact forall_goTo (P := fun place => place ≠ .waitFront ∧ place ≠ .wokenBack) (by decide)
      fun k _ => diners k
  · exact (census_enter outside (.inl rfl)).trans (congrArg (· + 1) h.counted)
  · change s.dinersInside + 1 < N
    omega

theorem Steady.waitFront (h : Steady N s) (shut : s.front = false) (outside : ¬ (s.diners id).Inside) :
    Steady N (goTo id .waitFront s) := by
  obtain ⟨b, obeys⟩ := h.obeys
  refine ⟨?_, ?_, h.fewer, b, obeys.congr rfl rfl rfl rfl⟩
  · cases h.stage with
    | filling front => exact absurd (front.symm.trans shut) (by decide)
    | empty front back none_ => exact .empty front back none_
    | serving front back some_ main diners =>
        refine .serving front back some_ main ?_
        exact forall_goTo (P := (· ≠ .waitBack)) (by decide) fun k _ => diners k
  · refine (census_stay ?_).trans h.counted
    exact iff_of_false outside (by decide)

theorem Steady.tryEnter (h : Steady N s) (outside : ¬ (s.diners id).Inside) : Steady N (tryEnter N id s) := by
  unfold Restaurant.tryEnter
  split_ifs with front
  · by_cases full : s.dinersInside + 1 = N
    · exact h.enterFull front outside full
    · exact h.enterRoom front outside full
  · exact h.waitFront (Bool.eq_false_iff.mpr front) outside

/-- A diner inside leaves through the open back door. -/
theorem Steady.leave (h : Steady N s) (inside : (s.diners id).Inside) (back : s.back = true) :
    Steady N (Restaurant.leave id s) := by
  have counted : census DinerAt.Inside (Function.update s.diners id .outside) + 1 = s.dinersInside :=
    (census_leave inside (by decide)).trans h.counted
  obtain ⟨front, main, diners⟩ := h.stage.of_back back
  refine Departing.leave ⟨front, back, ?_, fun k _ => diners k, counted, h.fewer.le, h.obeys⟩
  exact main.imp_right (Or.imp_right Or.inl)

theorem Steady.back_of_wokenBack (h : Steady N s) (place : s.diners id = .wokenBack) : s.back = true := by
  cases h.stage with
  | filling _ _ _ diners => exact absurd place (diners id).2
  | empty _ _ none_ => exact absurd place (h.nobody none_ id).2
  | serving _ back => exact back

theorem Steady.diner (h : Steady N s) {t : State d} (taken : diner N id s = some t) : Steady N t := by
  unfold Restaurant.diner at taken
  cases place : s.diners id with
  | outside => exact Option.some.inj (place ▸ taken) ▸ h.tryEnter (place ▸ by decide)
  | wokenFront => exact Option.some.inj (place ▸ taken) ▸ h.tryEnter (place ▸ by decide)
  | wokenBack => exact Option.some.inj (place ▸ taken) ▸ h.leave (.inr place) (h.back_of_wokenBack place)
  | waitFront => exact nomatch (place ▸ taken)
  | waitBack => exact nomatch (place ▸ taken)

theorem Steady.moveMain (h : Steady N s) (place : MainAt) (stage : Stage N { s with main := place }) :
    Steady N { s with main := place } := by
  obtain ⟨b, obeys⟩ := h.obeys
  exact ⟨stage, h.counted, h.fewer, b, obeys.congr rfl rfl rfl rfl⟩

/-- The main thread may start over between two batches, and always if a batch is one diner. -/
theorem Steady.toTop (h : Steady N s) (safe : N = 1 ∨ s.front = false ∧ s.dinersInside = 0) :
    Steady N { s with main := .loopTop } := by
  refine h.moveMain .loopTop ?_
  have fewer := h.fewer
  cases h.stage with
  | filling front back _ diners =>
      rcases safe with single | ⟨shut, _⟩
      · exact .filling front back (.inr (.inr single)) diners
      · exact absurd (front.symm.trans shut) (by decide)
  | serving _ _ some_ => omega
  | empty front back none_ => exact .empty front back none_

theorem Steady.awaitEmpty (h : Steady N s) (safe : N = 1 ∨ s.front = false) : Steady N (awaitEmpty s) := by
  have fewer := h.fewer
  unfold Restaurant.awaitEmpty
  split_ifs with some_
  · refine h.moveMain .waitLast ?_
    cases h.stage with
    | filling front =>
        rcases safe with single | shut
        · omega
        · exact absurd (front.symm.trans shut) (by decide)
    | serving front back some_ _ diners => exact .serving front back some_ (.inr (.inr rfl)) diners
    | empty _ _ none_ => omega
  · exact h.toTop (safe.imp_right fun shut => ⟨shut, by omega⟩)

/-- From its first wait the main thread goes on to one of the waits for the back door. -/
theorem Steady.awaitService (h : Steady N s) : Steady N (awaitService s) := by
  cases h.stage with
  | filling front back _ diners =>
      rw [awaitService_missed back]
      exact h.moveMain .waitBack (.filling front back (.inr (.inl rfl)) diners)
  | serving front back some_ _ diners =>
      rw [awaitService_serving back some_]
      exact h.moveMain .waitLast (.serving front back some_ (.inr (.inr rfl)) diners)
  | empty front back none_ =>
      rw [awaitService_missed back]
      exact h.moveMain .waitBack (.empty front back none_)

theorem Steady.openDoor (h : Steady N s) (back : s.back = false) (none_ : s.dinersInside = 0) :
    Steady N (openDoor N s) := by
  obtain ⟨b, obeys⟩ := h.obeys
  have nobody : b.previous = 0 := by
    have inside := obeys.inside
    omega
  rw [openDoor_room h.fewer]
  refine ⟨.filling rfl back (.inl rfl) fun k => ⟨?_, ?_⟩, ?_, h.fewer,
    _, (obeys.openFront nobody).congr rfl rfl rfl rfl⟩
  · exact DinerAt.notifyFront_ne _
  · exact DinerAt.notifyFront_wokenBack (h.nobody none_ k).2
  · exact (census_congr fun k => DinerAt.notifyFront_inside _).trans h.counted

/-- A main thread that has come through its waits finds the restaurant empty. -/
theorem Steady.of_main (h : Steady N s) (place : s.main = .loopTop ∨ s.main = .wokenLast) :
    s.back = false ∧ s.dinersInside = 0 ∧ (N = 1 ∨ s.front = false) := by
  have fewer := h.fewer
  cases h.stage with
  | filling _ back main =>
      rcases main with main | main | single
      · rw [main] at place
        exact absurd place (by decide)
      · rw [main] at place
        exact absurd place (by decide)
      · exact ⟨back, by omega, .inl single⟩
  | serving _ _ _ main =>
      rcases main with main | main | main <;> rw [main] at place <;> exact absurd place (by decide)
  | empty front back none_ => exact ⟨back, none_, .inr front⟩

theorem Steady.mainThread (h : Steady N s) {t : State d} (taken : mainThread N s = some t) : Steady N t := by
  unfold Restaurant.mainThread at taken
  cases place : s.main with
  | loopTop =>
      obtain ⟨back, none_, _⟩ := h.of_main (.inl place)
      exact Option.some.inj (place ▸ taken) ▸ h.openDoor back none_
  | wokenFront => exact Option.some.inj (place ▸ taken) ▸ h.awaitService
  | wokenBack =>
      refine Option.some.inj (place ▸ taken) ▸ h.awaitEmpty ?_
      cases h.stage with
      | filling _ _ main =>
          rw [place] at main
          exact .inl (main.resolve_left (by decide) |>.resolve_left (by decide))
      | serving front => exact .inr front
      | empty front => exact .inr front
  | wokenLast =>
      obtain ⟨_, none_, safe⟩ := h.of_main (.inr place)
      exact Option.some.inj (place ▸ taken) ▸ h.toTop (safe.imp_right fun shut => ⟨shut, none_⟩)
  | waitFront => exact nomatch (place ▸ taken)
  | waitBack => exact nomatch (place ▸ taken)
  | waitLast => exact nomatch (place ▸ taken)

theorem Steady.comeBackMain (h : Steady N s) (harmless : Harmless N s (.unnotified .main)) {t : State d}
    (taken : comeBack N s .main = some t) : Steady N t := by
  unfold comeBack at taken
  cases place : s.main with
  | waitFront => exact Option.some.inj (by simpa [place] using taken) ▸ h.awaitService
  | waitBack =>
      have safe := harmless.resolve_left (by rw [place]; decide)
      exact Option.some.inj (by simpa [place] using taken) ▸ h.awaitEmpty (safe.imp_right And.left)
  | waitLast =>
      have safe := harmless.resolve_left (by rw [place]; decide)
      exact Option.some.inj (by simpa [place] using taken) ▸ h.toTop safe
  | loopTop | wokenFront | wokenBack | wokenLast => simp [place] at taken

theorem Steady.comeBackDiner (h : Steady N s) (harmless : Harmless N s (.unnotified (.diner id))) {t : State d}
    (taken : comeBack N s (.diner id) = some t) : Steady N t := by
  unfold comeBack at taken
  cases place : s.diners id with
  | waitFront => exact Option.some.inj (by simpa [place] using taken) ▸ h.tryEnter (place ▸ by decide)
  | waitBack =>
      have open_ := harmless.resolve_left (by rw [place]; decide)
      exact Option.some.inj (by simpa [place] using taken) ▸ h.leave (.inl place) open_
  | outside | wokenFront | wokenBack => simp [place] at taken

/-- Every harmless move keeps the invariant. -/
theorem Steady.move (h : Steady N s) {i : Move d} (harmless : Harmless N s i) {t : State d}
    (taken : move N s i = some t) : Steady N t := by
  cases i with
  | thread th =>
      cases th with
      | main => exact h.mainThread taken
      | diner id => exact h.diner taken
  | unnotified th =>
      cases th with
      | main => exact h.comeBackMain harmless taken
      | diner id => exact h.comeBackDiner harmless taken

theorem start_steady (positive : 0 < N) (d : Nat) : Steady N (start d) := by
  refine ⟨.empty rfl rfl rfl, ?_, positive, .shut, rfl, rfl, rfl, fun _ => rfl, fun _ => rfl⟩
  exact census_eq_zero_iff.mpr fun _ => (by decide : ¬ DinerAt.Inside .outside)

end Steps

/-- In every run whose unnotified returns are harmless diners leave through an open back
door, and the front door is opened on nobody of the previous batch. -/
theorem door_rules_kept {N d : Nat} (positive : 0 < N) {moves : List (Move d)} {s : State d}
    (harmless : Guarded (move N) (Harmless N) (start d) moves) (ran : run (move N) (start d) moves = some s) :
    ∃ b, run House.follow House.shut s.log = some b ∧ b.back = s.back ∧
      b.previous + b.current = s.dinersInside := by
  have h : Steady N s :=
    guarded_run_invariant (fun _ _ _ h harmless taken => h.move harmless taken) (start_steady positive d) harmless ran
  obtain ⟨b, obeys⟩ := h.obeys
  exact ⟨b, obeys.admitted, obeys.back, obeys.inside⟩

/-- A batch of two during which the main thread and a waiting diner come back unnotified. -/
theorem door_rules_kept_pair :
    ∃ s : State 3, run (move 2) (start 3)
        [.thread (.diner 2), .unnotified (.diner 2), .thread .main, .unnotified .main, .thread (.diner 0),
          .thread (.diner 1), .thread .main, .thread (.diner 0), .thread .main] = some s ∧
      ∃ b, run House.follow House.shut s.log = some b ∧ b.back = s.back ∧
        b.previous + b.current = s.dinersInside := by
  let moves : List (Move 3) := [.thread (.diner 2), .unnotified (.diner 2), .thread .main, .unnotified .main,
    .thread (.diner 0), .thread (.diner 1), .thread .main, .thread (.diner 0), .thread .main]
  obtain ⟨s, ran⟩ : ∃ s, run (move 2) (start 3) moves = some s := Option.isSome_iff_exists.mp (by decide)
  exact ⟨s, ran, door_rules_kept (by decide) (by decide : Guarded (move 2) (Harmless 2) (start 3) moves) ran⟩

/-- A diner that waits for the back door comes back unnotified and leaves with the door shut. -/
theorem unnotified_diner_leaves :
    ¬ ∀ (N d : Nat), 0 < N → N ≤ d → ∀ (moves : List (Move d)) (s : State d),
      run (move N) (start d) moves = some s → ∃ b, run House.follow House.shut s.log = some b := by
  intro claim
  let moves : List (Move 2) := [.thread .main, .thread (.diner 0), .unnotified (.diner 0)]
  obtain ⟨s, ran⟩ : ∃ s, run (move 2) (start 2) moves = some s := Option.isSome_iff_exists.mp (by decide)
  obtain ⟨b, admitted⟩ := claim 2 2 (by decide) le_rfl moves s ran
  have refused : ((run (move 2) (start 2) moves).bind fun s => run House.follow House.shut s.log) = none := by decide
  rw [ran, Option.bind_some, admitted] at refused
  exact nomatch refused

end NetworkOs.Restaurant
