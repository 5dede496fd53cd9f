import NetworkOs.Library.Outputs
import NetworkOs.Restaurant.Doors

/-! What the restaurant prints. Its lines come in batches of `N` different diners who all
come in, are served and go out again, and every sequence of such batches can be printed. -/
namespace NetworkOs.Restaurant
open Runs Census

/-- The lines of the output. -/
inductive Line (d : Nat) where
  /-- `Restaurant is open. Waiting for diners to enter...` -/
  | isOpen
  /-- `Diner id entered the restaurant.` -/
  | entered (id : Fin d)
  /-- `All diners inside. Service starting.` -/
  | serviceStarting
  /-- `Diner id exited the restaurant.` -/
  | exited (id : Fin d)
  /-- `All diners served. Next batch can enter.` -/
  | allServed
deriving DecidableEq, Repr

section Output
variable {d : Nat} (N : Nat)

def leaveLines (id : Fin d) (s : State d) : List (Line d) :=
  .exited id :: if s.dinersInside - 1 = 0 then [.allServed] else []

def enterLines (id : Fin d) (s : State d) : List (Line d) :=
  .entered id :: if s.dinersInside + 1 = N then
    .serviceStarting :: leaveLines id { s with dinersInside := s.dinersInside + 1 }
  else []

/-- What a step prints. -/
def lines (s : State d) : Thread d → List (Line d)
  | .main => if s.main = .loopTop then [.isOpen] else []
  | .diner id =>
      match s.diners id with
      | .outside | .wokenFront => if s.front then enterLines N id s else []
      | .wokenBack => leaveLines id s
      | .waitFront | .waitBack => []

end Output

/-- A batch: the diners in the order in which they come, and in which they go. Who comes
last goes first. -/
structure Batch (N d : Nat) where
  came : List (Fin d)
  went : List (Fin d)
  whole : came.length = N
  once : came.Nodup
  same : went.Perm came
  first : went.head? = came.getLast?

def Batch.lines {N d : Nat} (b : Batch N d) : List (Line d) :=
  .isOpen :: (b.came.map .entered ++ .serviceStarting :: (b.went.map .exited ++ [.allServed]))

/-- What has been printed fits to where the diners are. -/
inductive Printed (N : Nat) (s : State d) (text : List (Line d)) : Prop where
  | between (done : List (Batch N d)) (front : s.front = false) (back : s.back = false)
      (diners : ∀ k, ¬ (s.diners k).Inside) (eq : text = done.flatMap Batch.lines)
  | filling (done : List (Batch N d)) (came : List (Fin d)) (front : s.front = true) (once : came.Nodup)
      (diners : ∀ k, (s.diners k).Inside ↔ k ∈ came) (count : came.length = s.dinersInside)
      (eq : text = done.flatMap Batch.lines ++ .isOpen :: came.map .entered)
  | serving (done : List (Batch N d)) (came went inside : List (Fin d)) (front : s.front = false) (back : s.back = true)
      (whole : came.length = N) (once : came.Nodup) (same : (went ++ inside).Perm came)
      (first : went.head? = came.getLast?) (some_ : went ≠ [])
      (diners : ∀ k, (s.diners k).Inside ↔ k ∈ inside) (count : inside.length = s.dinersInside)
      (eq : text = done.flatMap Batch.lines ++
        .isOpen :: (came.map .entered ++ .serviceStarting :: went.map .exited))

section Steps
variable {N d : Nat} {s t : State d} {id : Fin d} {text : List (Line d)}

/-- The main thread moves no diner and prints nothing. -/
theorem Printed.congr (h : Printed N s text) (front : t.front = s.front) (back : t.back = s.back)
    (count : t.dinersInside = s.dinersInside) (diners : ∀ k, (t.diners k).Inside ↔ (s.diners k).Inside) :
    Printed N t text := by
  cases h with
  | between done front' back' none_ eq =>
      exact .between done (front.trans front') (back.trans back') (fun k => mt (diners k).mp (none_ k)) eq
  | filling done came front' once own count' eq =>
      exact .filling done came (front.trans front') once (fun k => (diners k).trans (own k)) (count'.trans count.symm) eq
  | serving done came went inside front' back' whole once same first some_ own count' eq =>
      exact .serving done came went inside (front.trans front') (back.trans back') whole once same first some_
        (fun k => (diners k).trans (own k)) (count'.trans count.symm) eq

/-- A diner goes out, and with the last one the batch is complete. -/
theorem printed_leave (done : List (Batch N d)) (came went rest : List (Fin d)) (front : s.front = false)
    (back : s.back = true) (whole : came.length = N) (once : came.Nodup) (same : (went ++ id :: rest).Perm came)
    (first : (went ++ [id]).head? = came.getLast?) (diners : ∀ k, k ≠ id → ((s.diners k).Inside ↔ k ∈ rest))
    (count : rest.length + 1 = s.dinersInside) :
    Printed N (leave id s) (done.flatMap Batch.lines ++
      .isOpen :: (came.map .entered ++ .serviceStarting :: went.map .exited) ++ leaveLines id s) := by
  have apart : id ∉ rest := by
    have distinct := same.nodup_iff.mpr once
    exact (List.nodup_cons.mp (List.nodup_append.mp distinct).2.1).1
  by_cases last : s.dinersInside - 1 = 0
  · obtain rfl : rest = [] := List.length_eq_zero_iff.mp (by omega)
    rw [leave_eq_of_last last]
    refine .between (done ++ [⟨came, went ++ [id], whole, once, same, first⟩]) front rfl ?_ ?_
    · refine forall_goTo (P := fun place => ¬ place.Inside) (by decide) fun k other => ?_
      have outside : ¬ (s.diners k).Inside := fun inside => List.not_mem_nil ((diners k other).mp inside)
      exact fun inside => outside ((DinerAt.notifyBack_inside _).mp inside)
    · simp [leaveLines, last, Batch.lines]
  · rw [leave_eq_of_others last]
    refine .serving done came (went ++ [id]) rest front back whole once ?_ first (by simp) ?_ ?_ ?_
    · rwa [List.append_assoc]
    · intro k
      by_cases own : k = id
      · subst own
        exact iff_of_false (by simp [goTo, DinerAt.Inside]) apart
      · simpa [goTo, note, own] using diners k own
    · change rest.length = s.dinersInside - 1
      omega
    · simp [leaveLines, last]

theorem Printed.enter (h : Printed N s text) (front : s.front = true) (outside : ¬ (s.diners id).Inside) :
    Printed N (enter N id s) (text ++ enterLines N id s) := by
  cases h with
  | between _ shut => exact absurd (front.symm.trans shut) (by decide)
  | serving _ _ _ _ shut => exact absurd (front.symm.trans shut) (by decide)
  | filling done came _ once diners count eq =>
      have absent : id ∉ came := mt (diners id).mpr outside
      have once' : (came ++ [id]).Nodup := by
        rw [List.nodup_append_comm]
        exact List.nodup_cons.mpr ⟨absent, once⟩
      by_cases full : s.dinersInside + 1 = N
      · rw [enter_eq_of_full full]
        have whole : (came ++ [id]).length = N := by
          rw [List.length_append, count]
          exact full
        have gone := printed_leave (s := notifyBack (note .openBack { notifyFront (note .closeFront
          { note .enter { s with dinersInside := s.dinersInside + 1 } with front := false }) with back := true }))
          done (came ++ [id]) [] came rfl rfl whole once' (List.perm_append_singleton id came).symm (by simp)
          (fun k _ => ?_) (congrArg (· + 1) count)
        · have said : text ++ enterLines N id s = done.flatMap Batch.lines ++
              .isOpen :: ((came ++ [id]).map .entered ++ .serviceStarting :: ([] : List (Fin d)).map .exited) ++
                leaveLines id { s with dinersInside := s.dinersInside + 1 } := by
            simp [eq, enterLines, full]
          rw [said]
          exact gone
        · refine ((DinerAt.notifyBack_inside _).trans (DinerAt.notifyFront_inside _)).trans (diners k)
      · rw [enter_eq_of_room full]
        refine .filling done (came ++ [id]) front once' ?_ ?_ ?_
        · intro k
          by_cases own : k = id
          · subst own
            exact iff_of_true (by simp [goTo, DinerAt.Inside]) (by simp)
          · simpa [goTo, note, own] using diners k
        · rw [List.length_append]
          exact congrArg (· + 1) count
        · simp [enterLines, full, eq]

theorem Printed.tryEnter (h : Printed N s text) (outside : ¬ (s.diners id).Inside) :
    Printed N (tryEnter N id s) (text ++ if s.front then enterLines N id s else []) := by
  unfold Restaurant.tryEnter
  split_ifs with front
  · exact h.enter front outside
  · rw [List.append_nil]
    refine h.congr rfl rfl rfl fun k => ?_
    by_cases own : k = id
    · subst own
      exact iff_of_false (by simp [goTo, DinerAt.Inside]) outside
    · simp [goTo, own]

theorem Printed.leave (h : Printed N s text) (ordered : Ordered N s) (place : s.diners id = .wokenBack) :
    Printed N (leave id s) (text ++ leaveLines id s) := by
  obtain ⟨-, back, -, -, -⟩ := ordered.of_wokenBack place
  have own : (s.diners id).Inside := .inr place
  cases h with
  | between _ _ shut => exact absurd (back.symm.trans shut) (by decide)
  | filling _ _ front =>
      obtain ⟨shut, -⟩ := ordered.phase.of_front front
      exact absurd (back.symm.trans shut) (by decide)
  | serving done came went inside front _ whole once same first some_ diners count eq =>
      have member := (diners id).mp own
      have distinct : inside.Nodup := (List.nodup_append.mp (same.nodup_iff.mpr once)).2.1
      rw [eq]
      refine printed_leave done came went (inside.erase id) front back whole once ?_ ?_ (fun k other => ?_) ?_
      · exact ((List.perm_cons_erase member).symm.append_left went).trans same
      · rw [List.head?_append_of_ne_nil _ some_, first]
      · rw [diners k, List.mem_erase_of_ne other]
      · rw [List.length_erase_of_mem member, ← count]
        have positive := List.length_pos_of_mem member
        omega

theorem Printed.diner (h : Printed N s text) (ordered : Ordered N s) (taken : diner N id s = some t) :
    Printed N t (text ++ lines N s (.diner id)) := by
  unfold Restaurant.diner at taken
  unfold Restaurant.lines
  cases place : s.diners id with
  | outside =>
      simp only [place, Option.some.injEq] at taken ⊢
      exact taken ▸ h.tryEnter (place ▸ by decide)
  | wokenFront =>
      simp only [place, Option.some.injEq] at taken ⊢
      exact taken ▸ h.tryEnter (place ▸ by decide)
  | wokenBack =>
      simp only [place, Option.some.injEq] at taken ⊢
      exact taken ▸ h.leave ordered place
  | waitFront => simp [place] at taken
  | waitBack => simp [place] at taken

theorem Printed.openDoor (h : Printed N s text) (ordered : Ordered N s) (place : s.main = .loopTop) :
    Printed N (openDoor N s) (text ++ [.isOpen]) := by
  obtain ⟨shut, shut', none_⟩ := ordered.phase.of_main (.inl place)
  rw [openDoor_room ordered.fewer]
  cases h with
  | filling _ _ front => exact absurd (front.symm.trans shut) (by decide)
  | serving _ _ _ _ _ back => exact absurd (back.symm.trans shut') (by decide)
  | between done _ _ outside eq =>
      refine .filling done [] rfl List.nodup_nil (fun k => ?_) none_.symm (by rw [eq]; rfl)
      exact iff_of_false (mt (DinerAt.notifyFront_inside _).mp (outside k)) List.not_mem_nil

theorem Printed.mainThread (h : Printed N s text) (ordered : Ordered N s) (taken : mainThread N s = some t) :
    Printed N t (text ++ lines N s .main) := by
  unfold Restaurant.mainThread at taken
  unfold Restaurant.lines
  cases place : s.main with
  | loopTop =>
      simp only [place, Option.some.injEq] at taken
      exact taken ▸ h.openDoor ordered place
  | wokenFront =>
      simp only [place, Option.some.injEq] at taken
      subst taken
      rw [if_neg (by decide), List.append_nil]
      unfold awaitService awaitEmpty
      split_ifs <;> exact h.congr rfl rfl rfl fun k => Iff.rfl
  | wokenBack => exact absurd place ordered.phase.main_ne_wokenBack
  | wokenLast =>
      simp only [place, Option.some.injEq] at taken
      subst taken
      rw [if_neg (by decide), List.append_nil]
      exact h.congr rfl rfl rfl fun k => Iff.rfl
  | waitFront => simp [place] at taken
  | waitBack => simp [place] at taken
  | waitLast => simp [place] at taken

theorem run_printed (positive : 0 < N) {schedule : List (Thread d)} (ran : run (step N) (start d) schedule = some s) :
    Ordered N s ∧ Printed N s (written (step N) (lines N) (start d) schedule) := by
  have begun : Ordered N (start d) ∧ Printed N (start d) [] :=
    ⟨start_ordered positive d, .between [] rfl rfl (fun _ => (by decide : ¬ DinerAt.Inside .outside)) rfl⟩
  refine written_invariant (P := fun s text => Ordered N s ∧ Printed N s text) ?_ begun ran
  rintro s th t text ⟨ordered, printed⟩ taken
  refine ⟨ordered.step taken, ?_⟩
  cases th with
  | main => exact printed.mainThread ordered taken
  | diner id => exact printed.diner ordered taken

/-- There are always diners who can make up the batch. -/
theorem exists_batch {came : List (Fin d)} (once : came.Nodup) (few : came.length ≤ N) (enough : N ≤ d) :
    ∃ (b : Batch N d) (more : List (Fin d)), b.came = came ++ more := by
  have few' : came.toFinset.card ≤ N := (List.toFinset_card_of_nodup once).trans_le few
  obtain ⟨all, others, count⟩ := Finset.exists_superset_card_eq few' (enough.trans_eq (Fintype.card_fin d).symm)
  let more := (all \ came.toFinset).toList
  have whole : (came ++ more).length = N := by
    rw [List.length_append, Finset.length_toList, Finset.card_sdiff_of_subset others,
      List.toFinset_card_of_nodup once, count]
    omega
  have once' : (came ++ more).Nodup := by
    refine List.nodup_append.mpr ⟨once, Finset.nodup_toList _, fun a own b other same => ?_⟩
    have outside := (Finset.mem_sdiff.mp (Finset.mem_toList.mp other)).2
    exact outside (List.mem_toFinset.mpr (same ▸ own))
  exact ⟨⟨_, (came ++ more).reverse, whole, once', List.reverse_perm _, List.head?_reverse⟩, more, rfl⟩

/-- What has been printed is the beginning of whole batches. -/
theorem Printed.begins (h : Printed N s text) (ordered : Ordered N s) (enough : N ≤ d) :
    ∃ batches : List (Batch N d), text <+: batches.flatMap Batch.lines := by
  cases h with
  | between done _ _ _ eq => exact ⟨done, eq ▸ List.prefix_rfl⟩
  | filling done came _ once _ count eq =>
      obtain ⟨b, more, came'⟩ := exists_batch once (count.trans_le ordered.fewer.le) enough
      refine ⟨done ++ [b], more.map .entered ++ .serviceStarting :: (b.went.map .exited ++ [.allServed]), ?_⟩
      simp [eq, Batch.lines, came']
  | serving done came went inside _ _ whole once same first some_ _ _ eq =>
      have first' : (went ++ inside).head? = came.getLast? := by rw [List.head?_append_of_ne_nil _ some_, first]
      let batch : Batch N d := ⟨came, went ++ inside, whole, once, same, first'⟩
      refine ⟨done ++ [batch], inside.map .exited ++ [.allServed], ?_⟩
      simp [eq, Batch.lines, batch]

end Steps

/-! A schedule for every sequence of batches. -/

/-- The restaurant is open for those who have not come yet. -/
structure Filling (s : State d) (came : List (Fin d)) : Prop where
  front : s.front = true
  back : s.back = false
  count : s.dinersInside = came.length
  main : s.main = .waitFront
  inside : ∀ k ∈ came, s.diners k = .waitBack
  others : ∀ k, k ∉ came → s.diners k = .outside ∨ s.diners k = .wokenFront

/-- Those who are still inside can go. -/
structure Serving (s : State d) (main : MainAt) (inside : List (Fin d)) : Prop where
  front : s.front = false
  back : s.back = true
  count : s.dinersInside = inside.length
  main : s.main = main
  called : ∀ k ∈ inside, s.diners k = .wokenBack
  others : ∀ k, k ∉ inside → s.diners k = .outside ∨ s.diners k = .waitFront ∨ s.diners k = .wokenFront

/-- Nobody is inside. -/
structure Ready (s : State d) (main : MainAt) : Prop where
  front : s.front = false
  back : s.back = false
  count : s.dinersInside = 0
  main : s.main = main
  others : ∀ k, s.diners k = .outside ∨ s.diners k = .waitFront ∨ s.diners k = .wokenFront

section Schedule
variable {N d : Nat} {s : State d} {came inside : List (Fin d)} {id : Fin d}

theorem Ready.opens (h : Ready s .loopTop) (positive : 0 < N) :
    ∃ t, Writes (step N) (lines N) s [.isOpen] t ∧ Filling t [] := by
  have taken : step N s .main = some (openDoor N s) := by simp only [step, Restaurant.mainThread, h.main]
  refine ⟨_, .one taken (by simp [lines, h.main]), ?_⟩
  rw [openDoor_room (by rw [h.count]; exact positive)]
  refine ⟨rfl, h.back, h.count, rfl, fun k none_ => absurd none_ List.not_mem_nil, fun k _ => ?_⟩
  rcases h.others k with place | place | place
  · exact .inl (by simp [notifyFront, note, place, DinerAt.notifyFront])
  · exact .inr (by simp [notifyFront, note, place, DinerAt.notifyFront])
  · exact .inr (by simp [notifyFront, note, place, DinerAt.notifyFront])

theorem Filling.taken (h : Filling s came) (absent : id ∉ came) :
    step N s (.diner id) = some (enter N id s) ∧ lines N s (.diner id) = enterLines N id s := by
  rcases h.others id absent with place | place <;>
    simp [step, Restaurant.diner, Restaurant.tryEnter, lines, place, h.front]

theorem Filling.comes (h : Filling s came) (absent : id ∉ came) (room : came.length + 1 < N) :
    ∃ t, Writes (step N) (lines N) s [.entered id] t ∧ Filling t (came ++ [id]) := by
  obtain ⟨taken, prints⟩ := h.taken absent
  have room' : s.dinersInside + 1 ≠ N := by rw [h.count]; omega
  refine ⟨_, .one taken (by rw [prints, enterLines, if_neg room']), ?_⟩
  rw [enter_eq_of_room room']
  refine ⟨h.front, h.back, ?_, h.main, fun k own => ?_, fun k other => ?_⟩
  · rw [List.length_append]
    exact congrArg (· + 1) h.count
  · by_cases same : k = id
    · subst same
      simp [goTo]
    · have earlier : k ∈ came := (List.mem_append.mp own).resolve_right (by simpa using same)
      simpa [goTo, note, same] using h.inside k earlier
  · obtain ⟨before, same⟩ : k ∉ came ∧ k ≠ id := by simpa using other
    simpa [goTo, note, same] using h.others k before

theorem Filling.all (more : List (Fin d)) (h : Filling s came) (once : (came ++ more).Nodup)
    (room : came.length + more.length < N) :
    ∃ t, Writes (step N) (lines N) s (more.map .entered) t ∧ Filling t (came ++ more) := by
  induction more generalizing s came with
  | nil => exact ⟨s, .refl s, by rwa [List.append_nil]⟩
  | cons id more ih =>
      have absent : id ∉ came := fun own => (List.nodup_append.mp once).2.2 id own id List.mem_cons_self rfl
      rw [List.length_cons] at room
      obtain ⟨t, first, filling⟩ := h.comes (N := N) absent (by omega)
      have room' : (came ++ [id]).length + more.length < N := by
        rw [List.length_append, List.length_singleton]
        omega
      rw [← List.singleton_append, ← List.append_assoc] at once
      obtain ⟨u, later, filled⟩ := ih filling once room'
      rw [List.append_assoc, List.singleton_append] at filled
      exact ⟨u, first.trans later, filled⟩

/-- The diner that completes the batch is the first to go. -/
theorem Filling.completes (h : Filling s came) (absent : id ∉ came) (full : came.length + 1 = N)
    (some_ : came ≠ []) : ∃ t, Writes (step N) (lines N) s [.entered id, .serviceStarting, .exited id] t ∧
      Serving t .wokenFront came := by
  obtain ⟨taken, prints⟩ := h.taken absent
  have full' : s.dinersInside + 1 = N := by rw [h.count, full]
  have others : s.dinersInside + 1 - 1 ≠ 0 := h.count ▸ (List.length_pos_of_ne_nil some_).ne'
  refine ⟨_, .one taken (by rw [prints, enterLines, if_pos full', leaveLines, if_neg others]), ?_⟩
  rw [enter_eq_of_full full', leave_eq_of_others (by exact others)]
  refine ⟨rfl, rfl, h.count, ?_, fun k own => ?_, fun k other => ?_⟩
  · simp [goTo, note, notifyBack, notifyFront, h.main, MainAt.notifyFront, MainAt.notifyBack]
  · have apart : k ≠ id := fun same => absent (same ▸ own)
    simp [goTo, note, notifyBack, notifyFront, apart, h.inside k own, DinerAt.notifyFront, DinerAt.notifyBack]
  · by_cases same : k = id
    · subst same
      exact .inl (by simp [goTo])
    · rcases h.others k other with place | place
      · left
        simp [goTo, note, notifyBack, notifyFront, same, place, DinerAt.notifyFront, DinerAt.notifyBack]
      · right
        right
        simp [goTo, note, notifyBack, notifyFront, same, place, DinerAt.notifyFront, DinerAt.notifyBack]

/-- The main thread is in time to see the back door open. -/
theorem Serving.looks (h : Serving s .wokenFront inside) (some_ : inside ≠ []) :
    ∃ t, Writes (step N) (lines N) s [] t ∧ Serving t .waitLast inside := by
  have taken : step N s .main = some (awaitService s) := by simp only [step, Restaurant.mainThread, h.main]
  refine ⟨_, .one taken (by simp [lines, h.main]), ?_⟩
  rw [awaitService_serving h.back (h.count ▸ List.length_pos_of_ne_nil some_)]
  exact ⟨h.front, h.back, h.count, rfl, h.called, h.others⟩

theorem Serving.perm {main : MainAt} {inside' : List (Fin d)} (h : Serving s main inside) (perm : inside.Perm inside') :
    Serving s main inside' where
  front := h.front
  back := h.back
  count := h.count.trans perm.length_eq
  main := h.main
  called k own := h.called k (perm.mem_iff.mpr own)
  others k other := h.others k (mt perm.mem_iff.mp other)

theorem Serving.taken {rest : List (Fin d)} (h : Serving s .waitLast (id :: rest)) :
    step N s (.diner id) = some (leave id s) ∧ lines N s (.diner id) = leaveLines id s := by
  have place := h.called id List.mem_cons_self
  simp [step, Restaurant.diner, lines, place]

theorem Serving.goes {rest : List (Fin d)} (h : Serving s .waitLast (id :: rest)) (absent : id ∉ rest)
    (some_ : rest ≠ []) : ∃ t, Writes (step N) (lines N) s [.exited id] t ∧ Serving t .waitLast rest := by
  obtain ⟨taken, prints⟩ := h.taken (N := N)
  have count : s.dinersInside - 1 = rest.length := by rw [h.count, List.length_cons, Nat.add_sub_cancel]
  have others : s.dinersInside - 1 ≠ 0 := count ▸ (List.length_pos_of_ne_nil some_).ne'
  refine ⟨_, .one taken (by rw [prints, leaveLines, if_neg others]), ?_⟩
  rw [leave_eq_of_others others]
  refine ⟨h.front, h.back, count, h.main, fun k own => ?_, fun k other => ?_⟩
  · have apart : k ≠ id := fun same => absent (same ▸ own)
    simpa [goTo, note, apart] using h.called k (List.mem_cons_of_mem _ own)
  · by_cases same : k = id
    · subst same
      exact .inl (by simp [goTo])
    · simpa [goTo, note, same] using h.others k (by simp [same, other])

theorem Serving.last (h : Serving s .waitLast [id]) :
    ∃ t, Writes (step N) (lines N) s [.exited id, .allServed] t ∧ Ready t .wokenLast := by
  obtain ⟨taken, prints⟩ := h.taken (N := N)
  have last : s.dinersInside - 1 = 0 := by rw [h.count, List.length_singleton]
  refine ⟨_, .one taken (by rw [prints, leaveLines, if_pos last]), ?_⟩
  rw [leave_eq_of_last last]
  refine ⟨h.front, rfl, last, ?_, fun k => ?_⟩
  · simp [goTo, note, notifyBack, h.main, MainAt.notifyBack]
  · by_cases same : k = id
    · subst same
      exact .inl (by simp [goTo])
    · rcases h.others k (by simpa using same) with place | place | place <;>
        simp [goTo, note, notifyBack, same, place, DinerAt.notifyBack]

theorem Ready.returns (h : Ready s .wokenLast) : ∃ t, Writes (step N) (lines N) s [] t ∧ Ready t .loopTop := by
  have taken : step N s .main = some { s with main := .loopTop } := by simp only [step, Restaurant.mainThread, h.main]
  exact ⟨_, .one taken (by simp [lines, h.main]), h.front, h.back, h.count, rfl, h.others⟩

/-- The diners go in any order, and the last one calls the main thread. -/
theorem Serving.all (h : Serving s .waitLast inside) (once : inside.Nodup) (some_ : inside ≠ []) :
    ∃ t, Writes (step N) (lines N) s (inside.map .exited ++ [.allServed]) t ∧ Ready t .loopTop := by
  induction inside generalizing s with
  | nil => exact absurd rfl some_
  | cons id rest ih =>
      obtain ⟨absent, once'⟩ := List.nodup_cons.mp once
      by_cases none_ : rest = []
      · subst none_
        obtain ⟨t, last, ready⟩ := h.last (N := N)
        obtain ⟨u, back, ready'⟩ := ready.returns (N := N)
        exact ⟨u, last.trans back, ready'⟩
      · obtain ⟨t, first, serving⟩ := h.goes (N := N) absent none_
        obtain ⟨u, later, ready⟩ := ih serving once' none_
        exact ⟨u, first.trans later, ready⟩

theorem Ready.batch (several : 1 < N) (b : Batch N d) (h : Ready s .loopTop) :
    ∃ t, Writes (step N) (lines N) s b.lines t ∧ Ready t .loopTop := by
  obtain ⟨came, went, whole, once, same, first⟩ := b
  rcases came.eq_nil_or_concat' with rfl | ⟨before, id, rfl⟩
  · exact absurd whole (by simp; omega)
  obtain ⟨rest, rfl⟩ : ∃ rest, went = id :: rest := by
    rw [List.getLast?_concat] at first
    exact List.head?_eq_some_iff.mp first
  have others : rest.Perm before := (List.perm_cons id).mp (same.trans (List.perm_append_singleton id before))
  rw [List.length_append, List.length_singleton] at whole
  obtain ⟨once', -, apart⟩ := List.nodup_append.mp once
  have absent : id ∉ before := fun own => apart id own id (by simp) rfl
  have some_ : before ≠ [] := List.ne_nil_of_length_pos (by omega)
  obtain ⟨s1, opens, filling⟩ := h.opens (N := N) (by omega)
  obtain ⟨s2, come, filled⟩ := filling.all (N := N) before once' (by rw [List.length_nil]; omega)
  obtain ⟨s3, completes, serving⟩ := filled.completes (N := N) absent whole some_
  obtain ⟨s4, looks, waiting⟩ := serving.looks (N := N) some_
  have some_' : rest ≠ [] := fun none_ => some_ (none_ ▸ others.symm).eq_nil
  obtain ⟨s5, go, ready⟩ := (waiting.perm others.symm).all (N := N) (others.nodup_iff.mpr once') some_'
  refine ⟨s5, ?_, ready⟩
  have all := opens.trans (come.trans (completes.trans (looks.trans go)))
  simpa [Batch.lines] using all

end Schedule

/-- What the threads print, in whatever order they run, is the beginning of a sequence of
batches. With batches of more than one diner every such sequence can be printed. -/
theorem prints_batches {N d : Nat} (positive : 0 < N) (enough : N ≤ d) :
    (∀ schedule s, run (step N) (start d) schedule = some s →
      ∃ batches : List (Batch N d), written (step N) (lines N) (start d) schedule <+: batches.flatMap Batch.lines) ∧
    (1 < N → ∀ batches : List (Batch N d),
      ∃ s, Writes (step N) (lines N) (start d) (batches.flatMap Batch.lines) s) := by
  refine ⟨fun schedule s ran => ?_, fun several batches => ?_⟩
  · obtain ⟨ordered, printed⟩ := run_printed positive ran
    exact printed.begins ordered enough
  · have ready : Ready (start d) .loopTop := ⟨rfl, rfl, rfl, rfl, fun _ => .inl rfl⟩
    obtain ⟨s, writes, -⟩ := writes_flatMap (fun b s h => Ready.batch several b h) batches ready
    exact ⟨s, writes⟩

theorem prints_batches_pair :
    (∀ schedule s, run (step 2) (start 3) schedule = some s →
      ∃ batches : List (Batch 2 3), written (step 2) (lines 2) (start 3) schedule <+: batches.flatMap Batch.lines) ∧
    ∀ batches : List (Batch 2 3), ∃ s, Writes (step 2) (lines 2) (start 3) (batches.flatMap Batch.lines) s :=
  ⟨(prints_batches (by decide) (by decide)).1, (prints_batches (by decide) (by decide)).2 (by decide)⟩

end NetworkOs.Restaurant
