import NetworkOs.Bridge.Threads

/-! What the bridge is for: crossings that follow one another, whoever comes from which
side. Every run of the threads keeps to this. -/
namespace NetworkOs.Bridge
open Runs

section Specification
variable {threads : Nat}

/-- The lines of one crossing. -/
def trip (who : Traveller threads) : List (Line threads) := [.isTravelling who, .completedTravelling who]

def Line.ofTraveller : Line threads → Bool
  | .creationUnsuccessful => false
  | _ => true

/-- What the travellers have printed. -/
def State.lines (s : State threads) : List (Line threads) := s.output.filter Line.ofTraveller

/-- Between `lock` and `unlock`. -/
def Place.OnBridge (place : Place) : Prop := place = .entering ∨ place = .travelling ∨ place = .leaving

instance : DecidablePred Place.OnBridge := fun _ => inferInstanceAs (Decidable (_ ∨ _ ∨ _))

/-- The line of a crossing that is not completed. -/
def State.begun (s : State threads) : List (Line threads) :=
  match s.bridgeLock with
  | .held who => if s.place who = .travelling then [.isTravelling who] else []
  | .free | .destroyed => []

/-- `crossed` have crossed in this order, and whoever holds the lock is on the bridge. -/
structure Orderly (s : State threads) (crossed : List (Traveller threads)) : Prop where
  once : crossed.Nodup
  crossed_iff : ∀ who, who ∈ crossed ↔ s.place who = .leaving ∨ s.place who = .gone
  holder : ∀ who, s.bridgeLock = .held who ↔ (s.place who).OnBridge
  lines : s.lines = crossed.flatMap trip ++ s.begun

/-- `main` has not come to the creation of this thread. -/
def MainAt.Awaits : MainAt threads → Traveller threads → Prop
  | .createNorth i, who => i ≤ who.2
  | .createSouth i _, (.north, j) => i < j
  | .createSouth i _, (.south, j) => i ≤ j
  | _, _ => False

/-- The thread has been created. -/
def MainAt.Created : MainAt threads → Traveller threads → Prop
  | .createNorth i, who => who.2 < i
  | .createSouth i temp1, (.north, j) => j < i ∨ j = i ∧ temp1 = true
  | .createSouth i _, (.south, j) => j < i
  | .joinNorth _, _ | .joinSouth _, _ | .destroy, _ => True
  | .complain, _ | .returning _, _ | .returned _, _ => False

/-- The thread has been joined. -/
def MainAt.Joined : MainAt threads → Traveller threads → Prop
  | .joinNorth i, who => who.2 < i
  | .joinSouth i, (.north, j) => j ≤ i
  | .joinSouth i, (.south, j) => j < i
  | .destroy, _ => True
  | .returning status, _ | .returned status, _ => status = 0
  | _, _ => False

/-- The travellers are as far as `main` says. -/
structure Staged (s : State threads) : Prop where
  unborn : ∀ who, s.main.Awaits who → s.place who = .unborn
  born : ∀ who, s.main.Created who → s.place who ≠ .unborn
  gone : ∀ who, s.main.Joined who → s.place who = .gone
  destroyed : s.bridgeLock = .destroyed ↔ s.main = .returning 0 ∨ s.main = .returned 0
  complained : Line.creationUnsuccessful ∈ s.output → s.main = .returning 1 ∨ s.main = .returned 1

structure Sound (s : State threads) : Prop where
  orderly : ∃ crossed, Orderly s crossed
  staged : Staged s

end Specification

section Steps
variable {threads : Nat} {s t : State threads} {who : Traveller threads} {crossed : List (Traveller threads)}

/-- What a traveller's step does. -/
inductive Travels (who : Traveller threads) (s : State threads) : State threads → Prop where
  | lock (place : s.place who = .arriving) (free : s.bridgeLock = .free) :
      Travels who s { s.goTo who .entering with bridgeLock := .held who }
  | announce (place : s.place who = .entering) :
      Travels who s ((s.print (.isTravelling who)).goTo who .travelling)
  | report (place : s.place who = .travelling) :
      Travels who s ((s.print (.completedTravelling who)).goTo who .leaving)
  | unlock (place : s.place who = .leaving) :
      Travels who s { s.goTo who .gone with bridgeLock := .free }

theorem people_travels (took : people who s = some t) : Travels who s t := by
  unfold people at took
  cases place : s.place who with
  | unborn | gone => simp only [place, reduceCtorEq] at took
  | arriving =>
      simp only [place, Option.ite_none_right_eq_some, Option.some.injEq] at took
      exact took.2 ▸ .lock place took.1
  | entering =>
      simp only [place, Option.some.injEq] at took
      exact took ▸ .announce place
  | travelling =>
      simp only [place, Option.some.injEq] at took
      exact took ▸ .report place
  | leaving =>
      simp only [place, Option.some.injEq] at took
      exact took ▸ .unlock place

theorem travel_eq (running : ∀ status, s.main ≠ .returned status) : travel s who = people who s := by
  obtain ⟨side, i⟩ := who
  unfold travel
  cases main : s.main with
  | returned status => exact absurd main (running status)
  | _ => cases side <;> rfl

theorem travel_running (took : travel s who = some t) : (∀ status, s.main ≠ .returned status) ∧ Travels who s t := by
  have running : ∀ status, s.main ≠ .returned status := by
    intro status main
    obtain ⟨side, i⟩ := who
    simp only [travel, main, reduceCtorEq] at took
  exact ⟨running, people_travels (travel_eq running ▸ took)⟩

/-- What a step of the main thread does. -/
inductive Directs (succeeds : Bool) (s : State threads) : State threads → Prop where
  | createNorth (i : Fin threads) (main : s.main = .createNorth i) :
      Directs succeeds s { create (.north, i) succeeds s with main := .createSouth i succeeds }
  | created (i : Nat) (all : threads ≤ i) (ok : succeeds = true) (main : s.main = .createNorth i) :
      Directs succeeds s { s with main := .joinNorth 0 }
  | createSouth (i : Fin threads) (temp1 : Bool) (main : s.main = .createSouth i temp1) :
      Directs succeeds s { create (.south, i) succeeds s with
        main := if temp1 && succeeds then .createNorth (i + 1) else .complain }
  | complain (ok : succeeds = true) (main : s.main = .complain) :
      Directs succeeds s { s.print .creationUnsuccessful with main := .returning 1 }
  | joinNorth (i : Fin threads) (ok : succeeds = true) (main : s.main = .joinNorth i)
      (gone : s.place (.north, i) = .gone) : Directs succeeds s { s with main := .joinSouth i }
  | joined (i : Nat) (all : threads ≤ i) (ok : succeeds = true) (main : s.main = .joinNorth i) :
      Directs succeeds s { s with main := .destroy }
  | joinSouth (i : Fin threads) (ok : succeeds = true) (main : s.main = .joinSouth i)
      (gone : s.place (.south, i) = .gone) : Directs succeeds s { s with main := .joinNorth (i + 1) }
  | destroy (ok : succeeds = true) (main : s.main = .destroy) :
      Directs succeeds s { s with bridgeLock := .destroyed, main := .returning 0 }
  | return (status : Nat) (ok : succeeds = true) (main : s.main = .returning status) :
      Directs succeeds s { s with main := .returned status }

theorem mainThread_directs {succeeds : Bool} (took : mainThread succeeds s = some t) : Directs succeeds s t := by
  unfold mainThread at took
  cases main : s.main with
  | returned status => simp only [main, reduceCtorEq] at took
  | createNorth i =>
      simp only [main] at took
      split_ifs at took with inside ok
      · exact Option.some.inj took ▸ .createNorth ⟨i, inside⟩ main
      · exact Option.some.inj took ▸ .created i (by omega) ok main
  | createSouth i temp1 =>
      simp only [main, Option.some.injEq] at took
      exact took ▸ .createSouth i temp1 main
  | complain =>
      simp only [main, Option.ite_none_right_eq_some, Option.some.injEq] at took
      exact took.2 ▸ .complain took.1 main
  | joinNorth i =>
      simp only [main] at took
      split_ifs at took with inside ok ok
      · exact Option.some.inj took ▸ .joinNorth ⟨i, inside⟩ ok.1 main ok.2
      · exact Option.some.inj took ▸ .joined i (by omega) ok main
  | joinSouth i =>
      simp only [main, Option.ite_none_right_eq_some, Option.some.injEq] at took
      exact took.2 ▸ .joinSouth i took.1.1 main took.1.2
  | destroy =>
      simp only [main, Option.ite_none_right_eq_some, Option.some.injEq] at took
      exact took.2 ▸ .destroy took.1 main
  | returning status =>
      simp only [main, Option.ite_none_right_eq_some, Option.some.injEq] at took
      exact took.2 ▸ .return status took.1 main

@[simp] theorem goTo_place (other : Traveller threads) (place : Place) :
    (s.goTo who place).place other = if other = who then place else s.place other :=
  Function.update_apply ..

@[simp] theorem goTo_bridgeLock (place : Place) : (s.goTo who place).bridgeLock = s.bridgeLock := rfl

@[simp] theorem goTo_main (place : Place) : (s.goTo who place).main = s.main := rfl

@[simp] theorem goTo_output (place : Place) : (s.goTo who place).output = s.output := rfl

@[simp] theorem print_place (line : Line threads) : (s.print line).place = s.place := rfl

@[simp] theorem print_bridgeLock (line : Line threads) : (s.print line).bridgeLock = s.bridgeLock := rfl

@[simp] theorem print_output (line : Line threads) : (s.print line).output = s.output ++ [line] := rfl

theorem Orderly.arrive (h : Orderly s crossed) (unborn : s.place who = .unborn) :
    Orderly (s.goTo who .arriving) crossed where
  once := h.once
  crossed_iff other := by
    by_cases same : other = who
    · simp [same, h.crossed_iff who, unborn]
    · simp [same, h.crossed_iff other]
  holder other := by
    by_cases same : other = who
    · simp [same, h.holder who, unborn, Place.OnBridge]
    · simpa [same] using h.holder other
  lines := by
    refine h.lines.trans (congrArg _ ?_)
    simp only [State.begun, goTo_bridgeLock, goTo_place]
    cases lock : s.bridgeLock with
    | free | destroyed => rfl
    | held holder =>
        have other : holder ≠ who := by
          rintro rfl
          simpa [unborn, Place.OnBridge] using (h.holder holder).mp lock
        simp only [if_neg other]

theorem Orderly.lock (h : Orderly s crossed) (place : s.place who = .arriving) (free : s.bridgeLock = .free) :
    Orderly { s.goTo who .entering with bridgeLock := .held who } crossed where
  once := h.once
  crossed_iff other := by
    by_cases same : other = who
    · simp [same, h.crossed_iff who, place]
    · simp [same, h.crossed_iff other]
  holder other := by
    by_cases same : other = who
    · simp [same, Place.OnBridge]
    · simpa [same, free, Ne.symm same] using h.holder other
  lines := by
    refine h.lines.trans (congrArg _ ?_)
    simp [State.begun, free]

theorem Orderly.holds (h : Orderly s crossed) (on : (s.place who).OnBridge) : s.bridgeLock = .held who :=
  (h.holder who).mpr on

theorem Orderly.announce (h : Orderly s crossed) (place : s.place who = .entering) :
    Orderly ((s.print (.isTravelling who)).goTo who .travelling) crossed where
  once := h.once
  crossed_iff other := by
    by_cases same : other = who
    · simp [same, h.crossed_iff who, place]
    · simpa [same] using h.crossed_iff other
  holder other := by
    by_cases same : other = who
    · simp [same, h.holder who, place, Place.OnBridge]
    · simpa [same] using h.holder other
  lines := by
    have held := h.holds (.inl place)
    have before := h.lines
    simp only [State.begun, held, place, reduceCtorEq, if_false, List.append_nil] at before
    simp [State.lines, State.begun, held, Line.ofTraveller, ← before]

theorem Orderly.report (h : Orderly s crossed) (place : s.place who = .travelling) :
    Orderly ((s.print (.completedTravelling who)).goTo who .leaving) (crossed ++ [who]) where
  once := by
    have fresh : who ∉ crossed := by simp [h.crossed_iff who, place]
    exact List.concat_eq_append ▸ h.once.concat fresh
  crossed_iff other := by
    by_cases same : other = who
    · simp [same]
    · simpa [same] using h.crossed_iff other
  holder other := by
    by_cases same : other = who
    · simp [same, h.holder who, place, Place.OnBridge]
    · simpa [same] using h.holder other
  lines := by
    have held := h.holds (.inr (.inl place))
    have before := h.lines
    simp only [State.begun, held, place, if_true] at before
    simp only [State.lines] at before
    simp [State.lines, State.begun, held, Line.ofTraveller, before, trip]

theorem Orderly.unlock (h : Orderly s crossed) (place : s.place who = .leaving) :
    Orderly { s.goTo who .gone with bridgeLock := .free } crossed where
  once := h.once
  crossed_iff other := by
    by_cases same : other = who
    · simp [same, h.crossed_iff who, place]
    · simpa [same] using h.crossed_iff other
  holder other := by
    have held := h.holds (.inr (.inr place))
    by_cases same : other = who
    · simp [same, Place.OnBridge]
    · simpa [same, held, Ne.symm same] using h.holder other
  lines := by
    refine h.lines.trans (congrArg _ ?_)
    simp [State.begun, h.holds (.inr (.inr place)), place]

theorem Orderly.travels (h : Orderly s crossed) (took : Travels who s t) : ∃ crossed, Orderly t crossed := by
  cases took with
  | lock place free => exact ⟨crossed, h.lock place free⟩
  | announce place => exact ⟨crossed, h.announce place⟩
  | report place => exact ⟨crossed ++ [who], h.report place⟩
  | unlock place => exact ⟨crossed, h.unlock place⟩

/-- The order of the crossings does not depend on where `main` stands. -/
theorem Orderly.main (h : Orderly s crossed) (place : MainAt threads) : Orderly { s with main := place } crossed :=
  ⟨h.once, h.crossed_iff, h.holder, h.lines⟩

theorem Orderly.create (h : Orderly s crossed) (unborn : s.place who = .unborn) (succeeds : Bool) :
    Orderly (Bridge.create who succeeds s) crossed := by
  cases succeeds with
  | false => exact h
  | true => exact h.arrive unborn

theorem Orderly.complain (h : Orderly s crossed) : Orderly (s.print .creationUnsuccessful) crossed := by
  refine ⟨h.once, h.crossed_iff, h.holder, Eq.trans ?_ h.lines⟩
  simp [State.lines, Line.ofTraveller]

/-- When everybody has gone, nobody holds the lock. -/
theorem Orderly.destroy (h : Orderly s crossed) (gone : ∀ who, s.place who = .gone) :
    Orderly { s with bridgeLock := .destroyed } crossed where
  once := h.once
  crossed_iff := h.crossed_iff
  holder other := by simp [gone other, Place.OnBridge]
  lines := by
    refine h.lines.trans (congrArg _ ?_)
    unfold State.begun
    cases s.bridgeLock with
    | free | destroyed => rfl
    | held who => simp [gone who]

theorem Orderly.directs {succeeds : Bool} (h : Orderly s crossed) (staged : Staged s)
    (took : Directs succeeds s t) : Orderly t crossed := by
  cases took with
  | createNorth i main =>
      exact (h.create (staged.unborn (.north, i) (by simp [main, MainAt.Awaits])) succeeds).main _
  | createSouth i temp1 main =>
      exact (h.create (staged.unborn (.south, i) (by simp [main, MainAt.Awaits])) succeeds).main _
  | created | joinNorth | joined | joinSouth | «return» => exact h.main _
  | complain ok main => exact h.complain.main _
  | destroy ok main => exact (h.destroy fun who => staged.gone who (by simp [main, MainAt.Joined])).main _

theorem Staged.travels (h : Staged s) (orderly : Orderly s crossed) (took : Travels who s t) : Staged t := by
  have moves : ∀ place : Place, place ≠ .unborn → s.place who ≠ .unborn → s.place who ≠ .gone →
      (∀ other, s.main.Awaits other → (s.goTo who place).place other = .unborn) ∧
      (∀ other, s.main.Created other → (s.goTo who place).place other ≠ .unborn) ∧
      (∀ other, s.main.Joined other → (s.goTo who place).place other = .gone) := by
    intro place born before here
    refine ⟨fun other awaits => ?_, fun other created => ?_, fun other joined => ?_⟩
    · have different : other ≠ who := fun same => before (same ▸ h.unborn other awaits)
      simpa [different] using h.unborn other awaits
    · rw [goTo_place]
      split_ifs
      · exact born
      · exact h.born other created
    · have different : other ≠ who := fun same => here (same ▸ h.gone other joined)
      simpa [different] using h.gone other joined
  cases took with
  | lock place free =>
      obtain ⟨unborn, born, gone⟩ := moves .entering (by simp) (by simp [place]) (by simp [place])
      have intact := h.destroyed
      exact ⟨unborn, born, gone, by simpa [free] using intact, h.complained⟩
  | announce place =>
      obtain ⟨unborn, born, gone⟩ := moves .travelling (by simp) (by simp [place]) (by simp [place])
      exact ⟨unborn, born, gone, h.destroyed, by simpa [State.print] using h.complained⟩
  | report place =>
      obtain ⟨unborn, born, gone⟩ := moves .leaving (by simp) (by simp [place]) (by simp [place])
      exact ⟨unborn, born, gone, h.destroyed, by simpa [State.print] using h.complained⟩
  | unlock place =>
      obtain ⟨unborn, born, gone⟩ := moves .gone (by simp) (by simp [place]) (by simp [place])
      have intact := h.destroyed
      rw [orderly.holds (.inr (.inr place))] at intact
      exact ⟨unborn, born, gone, by simpa using intact, h.complained⟩

@[simp] theorem create_place (other : Traveller threads) (succeeds : Bool) :
    (create who succeeds s).place other = if other = who ∧ succeeds = true then .arriving else s.place other := by
  cases succeeds <;> simp [create]

@[simp] theorem create_bridgeLock (succeeds : Bool) : (create who succeeds s).bridgeLock = s.bridgeLock := by
  cases succeeds <;> rfl

@[simp] theorem create_output (succeeds : Bool) : (create who succeeds s).output = s.output := by
  cases succeeds <;> rfl

theorem Staged.createNorth (h : Staged s) {i : Fin threads} (main : s.main = .createNorth i) (succeeds : Bool) :
    Staged { create (.north, i) succeeds s with main := .createSouth i succeeds } where
  unborn := by
    have before := h.unborn
    simp only [main, MainAt.Awaits] at before
    rintro ⟨side, j⟩ awaits
    cases side with
    | north =>
        have later : i < j := awaits
        simpa [later.ne'] using before (.north, j) later.le
    | south => simpa using before (.south, j) awaits
  born := by
    have before := h.born
    simp only [main, MainAt.Created] at before
    rintro ⟨side, j⟩ created
    cases side with
    | north =>
        rcases created with earlier | ⟨rfl, ok⟩
        · simpa [earlier.ne] using before (.north, j) earlier
        · simp [ok]
    | south => simpa using before (.south, j) created
  gone who joined := by cases who.1 <;> simp [MainAt.Joined] at joined
  destroyed := by simpa [main] using h.destroyed
  complained := by simpa [main] using h.complained

theorem Staged.createSouth (h : Staged s) {i : Fin threads} {temp1 : Bool} (main : s.main = .createSouth i temp1)
    (succeeds : Bool) : Staged { create (.south, i) succeeds s with
      main := if temp1 && succeeds then .createNorth (i + 1) else .complain } where
  unborn := by
    have before := h.unborn
    simp only [main] at before
    rintro ⟨side, j⟩ awaits
    by_cases ok : (temp1 && succeeds) = true
    · simp only [ok, if_true, MainAt.Awaits] at awaits
      have different : ((side, j) : Traveller threads) ≠ (.south, i) := by
        rintro ⟨_, _⟩
        omega
      simp only [create_place, different, false_and, if_false]
      cases side with
      | north => exact before (.north, j) (by simp only [MainAt.Awaits]; omega)
      | south => exact before (.south, j) (by simp only [MainAt.Awaits]; omega)
    · simp [ok, MainAt.Awaits] at awaits
  born := by
    have before := h.born
    simp only [main] at before
    rintro ⟨side, j⟩ created
    by_cases ok : (temp1 && succeeds) = true
    · simp only [ok, if_true, MainAt.Created] at created
      rw [Bool.and_eq_true] at ok
      simp only [create_place]
      split_ifs with same
      · simp
      · have near : j ≤ i := Nat.lt_succ_iff.mp created
        cases side with
        | north => exact before (.north, j) (near.lt_or_eq.imp_right fun last => ⟨last, ok.1⟩)
        | south =>
            have other : j ≠ i := fun last => same ⟨by rw [last], ok.2⟩
            exact before (.south, j) (lt_of_le_of_ne near other)
    · simp [ok, MainAt.Created] at created
  gone who joined := by split_ifs at joined <;> simp [MainAt.Joined] at joined
  destroyed := by
    have intact := h.destroyed
    split_ifs <;> simpa [main] using intact
  complained := by
    have silent := h.complained
    split_ifs <;> simpa [main] using silent

theorem Staged.directs {succeeds : Bool} (h : Staged s) (took : Directs succeeds s t) : Staged t := by
  have unborn := h.unborn
  have born := h.born
  have gone := h.gone
  have destroyed := h.destroyed
  have complained := h.complained
  cases took with
  | createNorth i main => exact h.createNorth main succeeds
  | createSouth i temp1 main => exact h.createSouth main succeeds
  | created i all ok main =>
      simp only [main, MainAt.Created] at born
      refine ⟨by simp [MainAt.Awaits], fun who _ => born who (who.2.isLt.trans_le all), by simp [MainAt.Joined], ?_, ?_⟩
      · simpa [main] using destroyed
      · simpa [main] using complained
  | complain ok main =>
      refine ⟨by simp [MainAt.Awaits], by simp [MainAt.Created], by simp [MainAt.Joined], ?_, fun _ => .inl rfl⟩
      simpa [main] using destroyed
  | joinNorth i ok main here =>
      simp only [main, MainAt.Created, MainAt.Joined] at born gone
      refine ⟨by simp [MainAt.Awaits], fun who _ => born who trivial, ?_, ?_, ?_⟩
      · rintro ⟨side, j⟩ joined
        cases side with
        | north =>
            rcases (show j ≤ i from joined).lt_or_eq with earlier | rfl
            · exact gone (.north, j) earlier
            · exact here
        | south => exact gone (.south, j) joined
      · simpa [main] using destroyed
      · simpa [main] using complained
  | joined i all ok main =>
      simp only [main, MainAt.Created, MainAt.Joined] at born gone
      refine ⟨by simp [MainAt.Awaits], fun who _ => born who trivial, fun who _ => gone who (who.2.isLt.trans_le all), ?_, ?_⟩
      · simpa [main] using destroyed
      · simpa [main] using complained
  | joinSouth i ok main here =>
      simp only [main] at born gone
      refine ⟨by simp [MainAt.Awaits], fun who _ => born who (by simp [MainAt.Created]), ?_, ?_, ?_⟩
      · rintro ⟨side, j⟩ joined
        have within : j ≤ i := by simpa [MainAt.Joined, Nat.lt_succ_iff] using joined
        cases side with
        | north => exact gone (.north, j) within
        | south =>
            rcases within.lt_or_eq with earlier | rfl
            · exact gone (.south, j) earlier
            · exact here
      · simpa [main] using destroyed
      · simpa [main] using complained
  | destroy ok main =>
      simp only [main, MainAt.Joined] at gone
      exact ⟨by simp [MainAt.Awaits], by simp [MainAt.Created], fun who _ => gone who trivial, by simp,
        by simpa [main] using complained⟩
  | «return» status ok main =>
      refine ⟨by simp [MainAt.Awaits], by simp [MainAt.Created], ?_, ?_, ?_⟩
      · simpa [main, MainAt.Joined] using gone
      · simpa [main] using destroyed
      · simpa [main] using complained

end Steps

section Runs
variable {threads : Nat} {s t : State threads} {m : Move threads}

theorem start_sound : Sound (start threads) where
  orderly := ⟨[], List.nodup_nil, by simp [start], by simp [start, Place.OnBridge], rfl⟩
  staged := ⟨fun _ _ => rfl, by simp [start, MainAt.Created], by simp [start, MainAt.Joined], by simp [start],
    by simp [start]⟩

theorem Sound.kept (h : Sound s) (took : step s m = some t) : Sound t := by
  obtain ⟨⟨crossed, orderly⟩, staged⟩ := h
  cases m with
  | main =>
      have directs := mainThread_directs took
      exact ⟨⟨crossed, orderly.directs staged directs⟩, staged.directs directs⟩
  | mainRefused =>
      have directs := mainThread_directs took
      exact ⟨⟨crossed, orderly.directs staged directs⟩, staged.directs directs⟩
  | traveller who =>
      obtain ⟨_, travels⟩ := travel_running took
      exact ⟨orderly.travels travels, staged.travels orderly travels⟩

theorem run_sound {moves : List (Move threads)} (ran : run step (start threads) moves = some s) : Sound s :=
  run_invariant (fun _ _ _ sound took => sound.kept took) start_sound ran

/-- Whoever is on the bridge holds the lock, so it is one traveller at most; and the travellers' lines
are one crossing after another, of which only the last one may not be completed. -/
theorem one_at_a_time {moves : List (Move threads)} (ran : run step (start threads) moves = some s) :
    (∀ who, s.bridgeLock = .held who ↔ (s.place who).OnBridge) ∧
      (∀ who other, (s.place who).OnBridge → (s.place other).OnBridge → who = other) ∧
      ∃ crossed : List (Traveller threads), crossed.Nodup ∧
        (s.lines = crossed.flatMap trip ∨
          ∃ who ∉ crossed, s.bridgeLock = .held who ∧ s.lines = crossed.flatMap trip ++ [.isTravelling who]) := by
  obtain ⟨⟨crossed, orderly⟩, _⟩ := run_sound ran
  refine ⟨orderly.holder, fun who other on also => ?_, crossed, orderly.once, ?_⟩
  · exact Lock.held.inj ((orderly.holds on).symm.trans (orderly.holds also))
  · have lines := orderly.lines
    unfold State.begun at lines
    cases lock : s.bridgeLock with
    | free | destroyed => exact .inl (by simpa [lock] using lines)
    | held who =>
        simp only [lock] at lines
        split_ifs at lines with travelling
        · exact .inr ⟨who, by simp [orderly.crossed_iff who, travelling], rfl, lines⟩
        · exact .inl (by simpa using lines)

/-- A traveller is on the bridge when `main` fails to create the next one and says so. -/
theorem one_at_a_time_refused :
    let moves : List (Move 1) := [.main, .traveller (.north, 0), .traveller (.north, 0), .mainRefused, .main]
    ∃ s, run step (start 1) moves = some s ∧ s.output = [.isTravelling (.north, 0), .creationUnsuccessful] ∧
      s.bridgeLock = .held (.north, 0) ∧ ∀ who, (s.place who).OnBridge → who = (.north, 0) := by
  intro moves
  obtain ⟨s, ran, on, output⟩ : ∃ s, run step (start 1) moves = some s ∧ s.place (.north, 0) = .travelling ∧
      s.output = [.isTravelling (.north, 0), .creationUnsuccessful] := ⟨_, rfl, rfl, rfl⟩
  obtain ⟨holder, alone, -⟩ := one_at_a_time ran
  exact ⟨s, ran, output, (holder _).mpr (.inr (.inl on)), fun who also => alone who _ also (.inr (.inl on))⟩

end Runs
end NetworkOs.Bridge
