import NetworkOs.Pipes.Children

/-! Writes that move at once as much as there is room for. Then the order in which the
children run makes no difference: each run ends as `main` says, or blocks if it says so. -/
namespace NetworkOs.Pipes
open Runs Words

section Levels
variable (os : Os) (beyond1 beyond2 : Str) (fs : Files)

def firstMessage : Str := (opening os fs).1

/-- What child 2 leaves and sends when it has read as much as one `read` finds. -/
def answer : Files × Str := child2 os beyond2 (firstMessage os fs) fs

/-- What child 1 leaves, and the error it reports. -/
def ending : Files × Option Str := child1Receives os beyond1 (answer os beyond2 fs).2 (answer os beyond2 fs).1

/-- How far the children have come. `rest` and `rest2` are still to be written. -/
inductive Pass (s : State) : Prop where
  | begin (child1 : s.child1 = .begin) (child2 : s.child2 = .reading) (pipe1 : s.pipe1 = []) (pipe2 : s.pipe2 = [])
      (files : s.files = fs)
  | opened (child1 : s.child1 = .writing (firstMessage os fs) (opening os fs).2) (child2 : s.child2 = .reading)
      (pipe1 : s.pipe1 = []) (pipe2 : s.pipe2 = []) (files : s.files = fs)
  | sent (child1 : s.child1 = .toWrite ((firstMessage os fs).drop os.capacity) (opening os fs).2)
      (child2 : s.child2 = .reading) (pipe1 : s.pipe1 = (firstMessage os fs).take os.capacity) (pipe2 : s.pipe2 = [])
      (files : s.files = fs)
  | replying (rest : Str) (child1 : s.child1 = .toWrite rest (opening os fs).2)
      (left : s.pipe1.length + rest.length + (os.chunk (firstMessage os fs)).length = (firstMessage os fs).length)
      (child2 : s.child2 = .writing (answer os beyond2 fs).2) (pipe2 : s.pipe2 = [])
      (files : s.files = (answer os beyond2 fs).1)
  | replied (rest : Str) (child1 : s.child1 = .toWrite rest (opening os fs).2)
      (left : s.pipe1.length + rest.length + (os.chunk (firstMessage os fs)).length = (firstMessage os fs).length)
      (child2 : s.child2 = .toWrite ((answer os beyond2 fs).2.drop os.capacity))
      (pipe2 : s.pipe2 = (answer os beyond2 fs).2.take os.capacity) (files : s.files = (answer os beyond2 fs).1)
  | heard (reads : (opening os fs).2 = true)
      (ends : os.writeEnds (firstMessage os fs) (os.chunk (firstMessage os fs)).length)
      (rest rest2 : Str) (child1 : s.child1 = .toWrite rest false) (child2 : s.child2 = .toWrite rest2)
      (left : s.pipe1.length + rest.length = ((firstMessage os fs).drop (os.chunk (firstMessage os fs)).length ++
        ((ending os beyond1 beyond2 fs).2.map message).getD []).length)
      (left2 : s.pipe2.length + rest2.length + (os.chunk (answer os beyond2 fs).2).length =
        (answer os beyond2 fs).2.length)
      (files : s.files = (ending os beyond1 beyond2 fs).1)

/-- No pipe holds more than it can. -/
def Roomy (s : State) : Prop := s.pipe1.length ≤ os.capacity ∧ s.pipe2.length ≤ os.capacity

end Levels

section Chunks
variable {os : Os} {bytes : Str}

theorem chunk_chunk (bytes : Str) : os.chunk (os.chunk bytes) = os.chunk bytes := by
  rw [Os.chunk, Os.chunk, List.take_take, Nat.min_self]

/-- A read of a full pipe, or of all there is. -/
theorem take_capacity (bytes : Str) : (bytes.take os.capacity).take os.bufsiz = os.chunk bytes := by
  rw [List.take_take, Os.chunk]

theorem child2_chunk (beyond : Str) (fs : Files) :
    child2 os beyond (os.chunk bytes) fs = child2 os beyond bytes fs := by
  simp only [child2, Os.received, chunk_chunk]

theorem child1Receives_chunk (beyond : Str) (fs : Files) :
    child1Receives os beyond (os.chunk bytes) fs = child1Receives os beyond bytes fs := by
  simp only [child1Receives, Os.received, chunk_chunk]

theorem answer_ne_nil (os : Os) (beyond2 : Str) (fs : Files) : (answer os beyond2 fs).2 ≠ [] := by
  unfold answer child2
  dsimp only
  split
  · simp [message]
  · split <;> simp [message]

theorem firstMessage_ne_nil (os : Os) (fs : Files) : firstMessage os fs ≠ [] := opening_ne_nil

/-- The eager write. -/
theorem put_eager {pipe rest : Str} {r : Str × Str}
    (taken : put os (min rest.length (os.capacity - pipe.length)) pipe rest = some r) :
    pipe.length < os.capacity ∧
      r = (pipe ++ rest.take (os.capacity - pipe.length), rest.drop (os.capacity - pipe.length)) := by
  obtain ⟨some_, -, -, rfl⟩ := put_some taken
  refine ⟨by omega, ?_⟩
  by_cases fits : rest.length ≤ os.capacity - pipe.length
  · rw [Nat.min_eq_left fits, List.take_length, List.drop_length, List.take_of_length_le fits,
      List.drop_of_length_le fits]
  · rw [Nat.min_eq_right (Nat.le_of_not_le fits)]

end Chunks

section Moves
variable {os : Os} {beyond1 beyond2 : Str} {fs : Files} {s t : State} {n : Nat}

theorem roomy_step (h : Roomy os s) {turn : Turn} (taken : step os beyond1 beyond2 s turn = some t) : Roomy os t := by
  cases turn with
  | child1 n =>
      simp only [step, stepChild1] at taken
      split at taken
      · exact Option.some.inj taken ▸ h
      · obtain ⟨r, moved, rfl⟩ := Option.map_eq_some_iff.mp taken
        exact ⟨(put_length moved).2, h.2⟩
      · split_ifs at taken
        obtain rfl := Option.some.inj taken
        refine ⟨h.1, ?_⟩
        have bound := h.2
        change (s.pipe2.drop os.bufsiz).length ≤ _
        rw [List.length_drop]
        omega
      · cases taken
  | child2 n =>
      simp only [step, stepChild2] at taken
      split at taken
      · split_ifs at taken
        obtain rfl := Option.some.inj taken
        refine ⟨?_, h.2⟩
        have bound := h.1
        change (s.pipe1.drop os.bufsiz).length ≤ _
        rw [List.length_drop]
        omega
      · obtain ⟨r, moved, rfl⟩ := Option.map_eq_some_iff.mp taken
        exact ⟨h.1, (put_length moved).2⟩
      · cases taken

theorem Pass.child1 (h : Pass os beyond1 beyond2 fs s) (roomy : Roomy os s) (eager : Eager os s (.child1 n))
    (taken : stepChild1 os beyond1 n s = some t) : Pass os beyond1 beyond2 fs t := by
  cases h with
  | begin place child2 pipe1 pipe2 files =>
      simp only [stepChild1, place, Option.some.injEq] at taken
      subst taken
      exact .opened (by rw [files]; rfl) child2 pipe1 pipe2 files
  | opened place child2 pipe1 pipe2 files =>
      simp only [stepChild1, place, Option.map_eq_some_iff] at taken
      obtain ⟨r, moved, rfl⟩ := taken
      rw [eager _ _ place] at moved
      obtain ⟨-, rfl⟩ := put_eager moved
      simp only [pipe1, List.length_nil, Nat.sub_zero, List.nil_append]
      exact .sent rfl child2 rfl pipe2 files
  | sent place child2 pipe1 pipe2 files =>
      by_cases none_ : (firstMessage os fs).drop os.capacity = []
      · rw [none_, Child1.toWrite, if_pos rfl] at place
        cases reads : (opening os fs).2 <;> simp [stepChild1, place, reads, pipe2] at taken
      · -- what is left did not fit, so the pipe is full
        obtain ⟨r, moved, rfl⟩ := step_child1_writing place none_ taken
        have full : os.capacity ≤ s.pipe1.length := by
          rw [List.drop_eq_nil_iff] at none_
          rw [pipe1, List.length_take]
          omega
        rw [put_full full] at moved
        cases moved
  | replying rest place left child2 pipe2 files =>
      by_cases none_ : rest = []
      · rw [none_, Child1.toWrite, if_pos rfl] at place
        cases reads : (opening os fs).2 <;> simp [stepChild1, place, reads, pipe2] at taken
      · obtain ⟨r, moved, rfl⟩ := step_child1_writing place none_ taken
        exact .replying r.2 rfl (by rw [← left, ← (put_length moved).1]) child2 pipe2 files
  | replied rest place left child2 pipe2 files =>
      by_cases none_ : rest = []
      · subst none_
        rw [Child1.toWrite, if_pos rfl] at place
        cases reads : (opening os fs).2 with
        | false => simp [stepChild1, place, reads] at taken
        | true =>
            simp only [stepChild1, place, reads, if_true] at taken
            split_ifs at taken with empty
            obtain rfl := Option.some.inj taken
            have decoded : child1Receives os beyond1 (s.pipe2.take os.bufsiz) s.files =
                ending os beyond1 beyond2 fs := by
              rw [pipe2, take_capacity, child1Receives_chunk, files]
              rfl
            have bound := roomy.1
            rw [List.length_nil, Nat.add_zero] at left
            have unread : s.pipe2.drop os.bufsiz = ((answer os beyond2 fs).2.take os.capacity).drop os.bufsiz := by
              rw [pipe2]
            have left2 : (s.pipe2.drop os.bufsiz).length + ((answer os beyond2 fs).2.drop os.capacity).length +
                (os.chunk (answer os beyond2 fs).2).length = (answer os beyond2 fs).2.length := by
              rw [unread, Os.chunk]
              simp only [List.length_drop, List.length_take]
              omega
            refine .heard reads (by unfold Os.writeEnds; omega)
              (((ending os beyond1 beyond2 fs).2.map message).getD []) ((answer os beyond2 fs).2.drop os.capacity)
              ?_ child2 ?_ left2 (congrArg Prod.fst decoded)
            · cases failed : (ending os beyond1 beyond2 fs).2 with
              | none => simp [decoded, failed, Child1.toWrite]
              | some failure => simp [decoded, failed, Child1.toWrite, message]
            · rw [List.length_append, List.length_drop]
              change s.pipe1.length + _ = _
              omega
      · obtain ⟨r, moved, rfl⟩ := step_child1_writing place none_ taken
        exact .replied r.2 rfl (by rw [← left, ← (put_length moved).1]) child2 pipe2 files
  | heard reads ends rest rest2 place child2 left left2 files =>
      obtain ⟨r, moved, rfl⟩ := step_child1_closing place taken
      exact .heard reads ends r.2 rest2 rfl child2 (by rw [← left, ← (put_length moved).1]) left2 files

theorem Pass.child2 (h : Pass os beyond1 beyond2 fs s) (eager : Eager os s (.child2 n))
    (taken : stepChild2 os beyond2 n s = some t) : Pass os beyond1 beyond2 fs t := by
  cases h with
  | begin child1 place pipe1 => simp [stepChild2, place, pipe1] at taken
  | opened child1 place pipe1 => simp [stepChild2, place, pipe1] at taken
  | sent child1 place pipe1 pipe2 files =>
      simp only [stepChild2, place] at taken
      split_ifs at taken with empty
      obtain rfl := Option.some.inj taken
      have replied : Pipes.child2 os beyond2 (s.pipe1.take os.bufsiz) s.files = answer os beyond2 fs := by
        rw [pipe1, take_capacity, child2_chunk, files]
        rfl
      refine .replying _ child1 ?_ (congrArg (fun r : Files × Str => Child2.writing r.2) replied) pipe2
        (congrArg Prod.fst replied)
      change (s.pipe1.drop os.bufsiz).length + _ + _ = _
      rw [pipe1, Os.chunk]
      simp only [List.length_drop, List.length_take]
      omega
  | replying rest child1 left place pipe2 files =>
      simp only [stepChild2, place, Option.map_eq_some_iff] at taken
      obtain ⟨r, moved, rfl⟩ := taken
      rw [eager _ place] at moved
      obtain ⟨-, rfl⟩ := put_eager moved
      simp only [pipe2, List.length_nil, Nat.sub_zero, List.nil_append]
      exact .replied rest child1 left rfl rfl files
  | replied rest child1 left place pipe2 files =>
      obtain ⟨r, moved, rfl⟩ := step_child2_writing place taken
      by_cases none_ : (answer os beyond2 fs).2.drop os.capacity = []
      · rw [none_] at moved
        obtain ⟨some_, within, -⟩ := put_some moved
        rw [List.length_nil] at within
        omega
      · have full : os.capacity ≤ s.pipe2.length := by
          rw [List.drop_eq_nil_iff] at none_
          rw [pipe2, List.length_take]
          omega
        rw [put_full full] at moved
        cases moved
  | heard reads ends rest rest2 child1 place left left2 files =>
      obtain ⟨r, moved, rfl⟩ := step_child2_writing place taken
      exact .heard reads ends rest r.2 child1 rfl left (by rw [← left2, ← (put_length moved).1]) files

end Moves
section Ends
variable {os : Os} {beyond1 beyond2 : Str} {fs : Files} {s : State}

/-- When child 1 reads an answer: every `write` ends, that of an error too if there is one. -/
theorem main_reading (reads : (opening os fs).2 = true) {fs' : Files} : main os beyond1 beyond2 fs = some fs' ↔
    os.writeEnds (firstMessage os fs) (os.chunk (firstMessage os fs)).length ∧
      os.writeEnds (answer os beyond2 fs).2 (os.chunk (answer os beyond2 fs).2).length ∧
      (∀ failure, (ending os beyond1 beyond2 fs).2 = some failure →
        os.writeEnds ((firstMessage os fs).drop (os.chunk (firstMessage os fs)).length ++ message failure) 0) ∧
      (ending os beyond1 beyond2 fs).1 = fs' := by
  unfold opening at reads
  cases sends : child1Sends os fs with
  | error failure => simp [sends] at reads
  | ok msg =>
      have first : firstMessage os fs = message msg := by simp [firstMessage, opening, sends]
      have heard : ending os beyond1 beyond2 fs = child1Receives os beyond1 (child2 os beyond2 (message msg) fs).2
          (child2 os beyond2 (message msg) fs).1 := by rw [ending, answer, first]
      rw [heard, answer, first]
      unfold main
      rw [sends]
      dsimp only
      by_cases ends : os.writeEnds (message msg) (os.chunk (message msg)).length ∧
          os.writeEnds (child2 os beyond2 (message msg) fs).2 (os.chunk (child2 os beyond2 (message msg) fs).2).length
      · rw [if_pos ends]
        cases (child1Receives os beyond1 (child2 os beyond2 (message msg) fs).2
          (child2 os beyond2 (message msg) fs).1).2 with
        | none => simp [ends]
        | some failure => simp [ends]
      · rw [if_neg ends]
        exact iff_of_false (by simp) fun all => ends ⟨all.1, all.2.1⟩

theorem main_failing (fails : (opening os fs).2 = false) {fs' : Files} : main os beyond1 beyond2 fs = some fs' ↔
    os.writeEnds (firstMessage os fs) (os.chunk (firstMessage os fs)).length ∧
      os.writeEnds (answer os beyond2 fs).2 0 ∧ (answer os beyond2 fs).1 = fs' := by
  unfold opening at fails
  cases sends : child1Sends os fs with
  | ok msg => simp [sends] at fails
  | error failure =>
      have first : firstMessage os fs = message failure := by simp [firstMessage, opening, sends]
      rw [answer, first]
      unfold main
      rw [sends]
      simp [and_assoc]

theorem rest_of_done {rest : Str} {reads : Bool} (done : Child1.toWrite rest reads = .done) :
    rest = [] ∧ reads = false := by
  unfold Child1.toWrite at done
  split_ifs at done with none_ reads_
  · cases reads
    · exact ⟨none_, rfl⟩
    · exact absurd rfl reads_

theorem rest2_of_done {rest : Str} (done : Child2.toWrite rest = .done) : rest = [] := by
  unfold Child2.toWrite at done
  split_ifs at done with none_
  exact none_

/-- Where both children are done, `main` has a result, and the files are that. -/
theorem Pass.finished (h : Pass os beyond1 beyond2 fs s) (roomy : Roomy os s) (finished : Finished s) :
    main os beyond1 beyond2 fs = some s.files := by
  obtain ⟨done1, done2⟩ := finished
  obtain ⟨room1, room2⟩ := roomy
  cases h with
  | begin _ child2 => exact absurd (child2.symm.trans done2) (by simp)
  | opened _ child2 => exact absurd (child2.symm.trans done2) (by simp)
  | sent _ child2 => exact absurd (child2.symm.trans done2) (by simp)
  | replying _ _ _ child2 => exact absurd (child2.symm.trans done2) (by simp)
  | replied rest child1 left child2 pipe2 files =>
      obtain ⟨rfl, fails⟩ := rest_of_done (child1.symm.trans done1)
      have whole := List.drop_eq_nil_iff.mp (rest2_of_done (child2.symm.trans done2))
      rw [List.length_nil, Nat.add_zero] at left
      refine (main_failing fails).mpr ⟨?_, whole, files.symm⟩
      unfold Os.writeEnds
      omega
  | heard reads ends rest rest2 child1 child2 left left2 files =>
      obtain ⟨rfl, -⟩ := rest_of_done (child1.symm.trans done1)
      obtain rfl := rest2_of_done (child2.symm.trans done2)
      rw [List.length_nil, Nat.add_zero] at left left2
      refine (main_reading reads).mpr ⟨ends, ?_, fun failure reported => ?_, files.symm⟩
      · unfold Os.writeEnds
        omega
      · rw [reported] at left
        dsimp only [Option.map_some, Option.getD_some] at left
        unfold Os.writeEnds
        omega

/-- Where `main` has a result the children do not block. -/
theorem Pass.unblocked (h : Pass os beyond1 beyond2 fs s) (roomy : Roomy os s)
    (some_ : (main os beyond1 beyond2 fs).isSome) (stuck : Stuck (step os beyond1 beyond2) s) : Finished s := by
  have capacity := os.capacity_pos
  obtain ⟨fs', result⟩ := Option.isSome_iff_exists.mp some_
  obtain ⟨room1, room2⟩ := roomy
  cases h with
  | begin place => exact absurd (stuck (.child1 1)) (by simp [step, stepChild1, place])
  | opened place _ pipe1 =>
      rw [← Child1.toWrite_ne (firstMessage_ne_nil os fs)] at place
      rcases blocked_child1 stuck place with none_ | full
      · exact absurd none_ (firstMessage_ne_nil os fs)
      · rw [pipe1, List.length_nil] at full
        omega
  | sent _ place pipe1 =>
      have some_ : s.pipe1 ≠ [] := by
        have positive := List.length_pos_of_ne_nil (firstMessage_ne_nil os fs)
        rw [pipe1]
        refine List.ne_nil_of_length_pos ?_
        rw [List.length_take]
        omega
      exact absurd (stuck (.child2 1)) (by simp [step, stepChild2, place, some_])
  | replying rest _ _ place pipe2 =>
      rw [← Child2.toWrite_ne (answer_ne_nil os beyond2 fs)] at place
      rcases blocked_child2 stuck place with none_ | full
      · exact absurd none_ (answer_ne_nil os beyond2 fs)
      · rw [pipe2, List.length_nil] at full
        omega
  | replied rest child1 left child2 pipe2 files =>
      have none1 : os.writeEnds (firstMessage os fs) (os.chunk (firstMessage os fs)).length → rest = [] := by
        intro first
        unfold Os.writeEnds at first
        rcases blocked_child1 stuck child1 with none_ | full
        · exact none_
        · exact List.length_eq_zero_iff.mp (by omega)
      cases reads : (opening os fs).2 with
      | true =>
          -- child 1 would read the answer
          obtain rfl := none1 ((main_reading reads).mp result).1
          have place : s.child1 = .reading := by rw [child1, Child1.toWrite, if_pos rfl, if_pos reads]
          have some_ : s.pipe2 ≠ [] := by
            have positive := List.length_pos_of_ne_nil (answer_ne_nil os beyond2 fs)
            rw [pipe2]
            refine List.ne_nil_of_length_pos ?_
            rw [List.length_take]
            omega
          exact absurd (stuck (.child1 1)) (by simp [step, stepChild1, place, some_])
      | false =>
          obtain ⟨first, short, -⟩ := (main_failing reads).mp result
          obtain rfl := none1 first
          have whole : (answer os beyond2 fs).2.drop os.capacity = [] := List.drop_of_length_le short
          rw [whole] at child2
          exact ⟨by rw [child1, Child1.toWrite, if_pos rfl, reads]; rfl, child2⟩
  | heard reads first rest rest2 child1 child2 left left2 files =>
      obtain ⟨-, second, third, -⟩ := (main_reading reads).mp result
      unfold Os.writeEnds at first second
      have fits : s.pipe1.length + rest.length ≤ os.capacity := by
        rw [left]
        cases reported : (ending os beyond1 beyond2 fs).2 with
        | none =>
            rw [List.length_append, List.length_drop]
            change _ - _ + 0 ≤ _
            omega
        | some failure => exact third failure reported
      have none1 : rest = [] := by
        rcases blocked_child1 stuck child1 with none_ | full
        · exact none_
        · exact List.length_eq_zero_iff.mp (by omega)
      have none2 : rest2 = [] := by
        rcases blocked_child2 stuck child2 with none_ | full
        · exact none_
        · exact List.length_eq_zero_iff.mp (by omega)
      subst none1 none2
      exact ⟨child1, child2⟩

end Ends
/-- How much a child still has to do, apart from the bytes it is writing. -/
def Child1.stage : Child1 → Nat
  | .begin => 4
  | .writing _ true => 3
  | .reading => 2
  | .writing _ false => 1
  | .done => 0

def Child1.left : Child1 → Nat
  | .writing rest _ => rest.length
  | .begin | .reading | .done => 0

def Child2.stage : Child2 → Nat
  | .reading => 2
  | .writing _ => 1
  | .done => 0

def Child2.left : Child2 → Nat
  | .writing rest => rest.length
  | .reading | .done => 0

def State.rank (s : State) : ℕ ×ₗ ℕ := toLex (s.child1.stage + s.child2.stage, s.child1.left + s.child2.left)

section Termination
variable {os : Os} {beyond1 beyond2 : Str} {s t : State} {turn : Turn}

theorem Child1.toWrite_rank {rest rest' : Str} (reads : Bool) (shorter : rest'.length < rest.length) :
    (Child1.toWrite rest' reads).stage < (Child1.writing rest reads).stage ∨
      (Child1.toWrite rest' reads).stage = (Child1.writing rest reads).stage ∧
        (Child1.toWrite rest' reads).left < (Child1.writing rest reads).left := by
  unfold Child1.toWrite
  by_cases none_ : rest' = []
  · rw [if_pos none_]
    cases reads <;> exact .inl (by simp [Child1.stage])
  · rw [if_neg none_]
    cases reads <;> exact .inr ⟨rfl, shorter⟩

theorem Child2.toWrite_rank {rest rest' : Str} (shorter : rest'.length < rest.length) :
    (Child2.toWrite rest').stage < (Child2.writing rest).stage ∨
      (Child2.toWrite rest').stage = (Child2.writing rest).stage ∧
        (Child2.toWrite rest').left < (Child2.writing rest).left := by
  unfold Child2.toWrite
  by_cases none_ : rest' = []
  · rw [if_pos none_]
    exact .inl (by simp [Child2.stage])
  · rw [if_neg none_]
    exact .inr ⟨rfl, shorter⟩

theorem put_shorter {n : Nat} {pipe rest : Str} {r : Str × Str} (taken : put os n pipe rest = some r) :
    r.2.length < rest.length := by
  obtain ⟨some_, within, -, rfl⟩ := put_some taken
  rw [List.length_drop]
  omega

/-- Every step, eager or not, brings the children nearer to an end. -/
theorem rank_step (taken : step os beyond1 beyond2 s turn = some t) : t.rank < s.rank := by
  rw [State.rank, State.rank, Prod.Lex.toLex_lt_toLex]
  cases turn with
  | child1 n =>
      simp only [step, stepChild1] at taken
      split at taken
      · next place =>
          obtain rfl := Option.some.inj taken
          left
          cases reads : (opening os s.files).2 <;> simp [place, Child1.stage]
      · next rest reads place =>
          obtain ⟨r, moved, rfl⟩ := Option.map_eq_some_iff.mp taken
          rcases Child1.toWrite_rank reads (put_shorter moved) with fewer | ⟨same, shorter⟩
          · left
            rw [place]
            exact Nat.add_lt_add_right fewer _
          · right
            rw [place]
            exact ⟨congrArg (· + _) same, Nat.add_lt_add_right shorter _⟩
      · next place =>
          split_ifs at taken
          obtain rfl := Option.some.inj taken
          left
          dsimp only
          cases (child1Receives os beyond1 (s.pipe2.take os.bufsiz) s.files).2 <;> simp [place, Child1.stage]
      · cases taken
  | child2 n =>
      simp only [step, stepChild2] at taken
      split at taken
      · next place =>
          split_ifs at taken
          obtain rfl := Option.some.inj taken
          left
          simp [place, Child2.stage]
      · next rest place =>
          obtain ⟨r, moved, rfl⟩ := Option.map_eq_some_iff.mp taken
          rcases Child2.toWrite_rank (put_shorter moved) with fewer | ⟨same, shorter⟩
          · left
            rw [place]
            exact Nat.add_lt_add_left fewer _
          · right
            rw [place]
            exact ⟨congrArg (_ + ·) same, Nat.add_lt_add_left shorter _⟩
      · cases taken

/-- A child that can take a step can take an eager one. -/
theorem exists_eager (taken : step os beyond1 beyond2 s turn = some t) :
    ∃ turn' t', Eager os s turn' ∧ step os beyond1 beyond2 s turn' = some t' := by
  cases turn with
  | child1 n =>
      cases place : s.child1 with
      | writing rest reads =>
          simp only [step, stepChild1, place, Option.map_eq_some_iff] at taken
          obtain ⟨r, moved, -⟩ := taken
          obtain ⟨some_, within, room, -⟩ := put_some moved
          obtain ⟨r', moved'⟩ : ∃ r',
              put os (min rest.length (os.capacity - s.pipe1.length)) s.pipe1 rest = some r' :=
            ⟨_, if_pos (by omega)⟩
          refine ⟨.child1 (min rest.length (os.capacity - s.pipe1.length)),
            { s with pipe1 := r'.1, child1 := .toWrite r'.2 reads }, ?_, ?_⟩
          · intro rest' reads' place'
            obtain ⟨rfl, -⟩ := Child1.writing.inj (place.symm.trans place')
            rfl
          · simp only [step, stepChild1, place, moved', Option.map_some]
      | begin => exact ⟨.child1 n, t, fun _ _ writing => absurd (place.symm.trans writing) (by simp), taken⟩
      | reading => exact ⟨.child1 n, t, fun _ _ writing => absurd (place.symm.trans writing) (by simp), taken⟩
      | done => exact ⟨.child1 n, t, fun _ _ writing => absurd (place.symm.trans writing) (by simp), taken⟩
  | child2 n =>
      cases place : s.child2 with
      | writing rest =>
          simp only [step, stepChild2, place, Option.map_eq_some_iff] at taken
          obtain ⟨r, moved, -⟩ := taken
          obtain ⟨some_, within, room, -⟩ := put_some moved
          obtain ⟨r', moved'⟩ : ∃ r',
              put os (min rest.length (os.capacity - s.pipe2.length)) s.pipe2 rest = some r' :=
            ⟨_, if_pos (by omega)⟩
          refine ⟨.child2 (min rest.length (os.capacity - s.pipe2.length)),
            { s with pipe2 := r'.1, child2 := .toWrite r'.2 }, ?_, ?_⟩
          · intro rest' place'
            obtain rfl := Child2.writing.inj (place.symm.trans place')
            rfl
          · simp only [step, stepChild2, place, moved', Option.map_some]
      | reading => exact ⟨.child2 n, t, fun _ writing => absurd (place.symm.trans writing) (by simp), taken⟩
      | done => exact ⟨.child2 n, t, fun _ writing => absurd (place.symm.trans writing) (by simp), taken⟩

/-- Eager steps lead to a state without a next one. -/
theorem exists_eager_end (os : Os) (beyond1 beyond2 : Str) (s : State) : ∃ turns t,
    Guarded (step os beyond1 beyond2) (Eager os) s turns ∧ run (step os beyond1 beyond2) s turns = some t ∧
      Stuck (step os beyond1 beyond2) t := by
  induction rank : s.rank using WellFoundedLT.induction generalizing s with
  | ind r ih =>
      subst rank
      by_cases stuck : Stuck (step os beyond1 beyond2) s
      · exact ⟨[], s, trivial, rfl, stuck⟩
      obtain ⟨turn, moves⟩ := not_forall.mp stuck
      obtain ⟨t, taken⟩ := Option.ne_none_iff_exists'.mp moves
      obtain ⟨turn', t', eager, taken'⟩ := exists_eager taken
      obtain ⟨turns, u, guarded, ran, ended⟩ := ih _ (rank_step taken') t' rfl
      refine ⟨turn' :: turns, u, ⟨eager, fun v also => ?_⟩, ?_, ended⟩
      · exact Option.some.inj (taken'.symm.trans also) ▸ guarded
      · rw [run, taken']
        exact ran

end Termination

section Runs
variable {os : Os} {beyond1 beyond2 : Str} {fs : Files} {turns : List Turn} {s : State}

theorem eager_pass (eager : Guarded (step os beyond1 beyond2) (Eager os) (start fs) turns)
    (ran : run (step os beyond1 beyond2) (start fs) turns = some s) :
    Pass os beyond1 beyond2 fs s ∧ Roomy os s := by
  refine guarded_run_invariant (P := fun s => Pass os beyond1 beyond2 fs s ∧ Roomy os s) ?_
    ⟨.begin rfl rfl rfl rfl rfl, Nat.zero_le _, Nat.zero_le _⟩ eager ran
  rintro s turn t ⟨pass, roomy⟩ eager taken
  refine ⟨?_, roomy_step roomy taken⟩
  cases turn with
  | child1 n => exact pass.child1 roomy eager taken
  | child2 n => exact pass.child2 eager taken

end Runs

/-- In whatever order the children run, with eager writes: where a run can go no further both children
are done exactly if `main` has a result, and that are the files then. -/
theorem eager_runs_end_as_main (os : Os) (beyond1 beyond2 : Str) (fs : Files) :
    (∀ turns s, Guarded (step os beyond1 beyond2) (Eager os) (start fs) turns →
      run (step os beyond1 beyond2) (start fs) turns = some s → Stuck (step os beyond1 beyond2) s →
        (Finished s ↔ (main os beyond1 beyond2 fs).isSome)) ∧
    ∀ fs', main os beyond1 beyond2 fs = some fs' ↔
      ∃ turns s, Guarded (step os beyond1 beyond2) (Eager os) (start fs) turns ∧
        run (step os beyond1 beyond2) (start fs) turns = some s ∧ Finished s ∧ s.files = fs' := by
  have ends : ∀ turns s, Guarded (step os beyond1 beyond2) (Eager os) (start fs) turns →
      run (step os beyond1 beyond2) (start fs) turns = some s → Stuck (step os beyond1 beyond2) s →
        (Finished s ↔ (main os beyond1 beyond2 fs).isSome) := by
    intro turns s eager ran stuck
    obtain ⟨pass, roomy⟩ := eager_pass eager ran
    exact ⟨fun finished => pass.finished roomy finished ▸ rfl, fun some_ => pass.unblocked roomy some_ stuck⟩
  refine ⟨ends, fun fs' => ⟨fun result => ?_, ?_⟩⟩
  · obtain ⟨turns, s, eager, ran, stuck⟩ := exists_eager_end os beyond1 beyond2 (start fs)
    have finished := (ends turns s eager ran stuck).mpr (result ▸ rfl)
    obtain ⟨pass, roomy⟩ := eager_pass eager ran
    exact ⟨turns, s, eager, ran, finished, Option.some.inj ((pass.finished roomy finished).symm.trans result)⟩
  · rintro ⟨turns, s, eager, ran, finished, rfl⟩
    obtain ⟨pass, roomy⟩ := eager_pass eager ran
    exact pass.finished roomy finished

end NetworkOs.Pipes
