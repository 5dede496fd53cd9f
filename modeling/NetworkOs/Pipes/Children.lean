import NetworkOs.Library.Schedules
import NetworkOs.Pipes.Merging

/-! The two children as a machine: a write moves bytes into a pipe that has room for them, a
read waits until its pipe holds any. The machine leaves open how many bytes a write moves at a
time; the one of the children is `Eager`, it moves all there is room for. The parent holds all
ends of both pipes open, so no read sees an end of file and no write fails. -/
namespace NetworkOs.Pipes
open Runs Words

/-- Child 1 sends, reads once if `reads`, and sends again only to report an error. -/
inductive Child1 where
  | begin
  | writing (rest : Str) (reads : Bool)
  | reading
  | done
deriving DecidableEq

inductive Child2 where
  | reading
  | writing (rest : Str)
  | done
deriving DecidableEq

structure State where
  files : Files
  pipe1 : Str
  pipe2 : Str
  child1 : Child1
  child2 : Child2

/-- The child that moves, and how many bytes its write moves. -/
inductive Turn where
  | child1 (n : Nat)
  | child2 (n : Nat)

def start (fs : Files) : State := ⟨fs, [], [], .begin, .reading⟩

/-- What child 1 sends first, and whether it then reads. -/
def opening (os : Os) (fs : Files) : Str × Bool :=
  match child1Sends os fs with
  | .ok msg => (message msg, true)
  | .error failure => (message failure, false)

/-- Part of a `write`: the pipe and the bytes that remain. -/
def put (os : Os) (n : Nat) (pipe rest : Str) : Option (Str × Str) :=
  if 0 < n ∧ n ≤ rest.length ∧ pipe.length + n ≤ os.capacity then some (pipe ++ rest.take n, rest.drop n)
  else none

/-- Child 1 with these bytes still to write. -/
def Child1.toWrite (rest : Str) (reads : Bool) : Child1 :=
  if rest = [] then (if reads then .reading else .done) else .writing rest reads

def Child2.toWrite (rest : Str) : Child2 := if rest = [] then .done else .writing rest

section Steps
variable (os : Os) (beyond1 beyond2 : Str)

def stepChild1 (n : Nat) (s : State) : Option State :=
  match s.child1 with
  | .begin =>
      let first := opening os s.files
      some { s with child1 := .writing first.1 first.2 }
  | .writing rest reads =>
      (put os n s.pipe1 rest).map fun r => { s with pipe1 := r.1, child1 := .toWrite r.2 reads }
  | .reading =>
      if s.pipe2 = [] then none
      else
        let decoded := child1Receives os beyond1 (s.pipe2.take os.bufsiz) s.files
        some { s with
          files := decoded.1
          pipe2 := s.pipe2.drop os.bufsiz
          child1 := match decoded.2 with
            | none => .done
            | some failure => .writing (message failure) false }
  | .done => none

def stepChild2 (n : Nat) (s : State) : Option State :=
  match s.child2 with
  | .reading =>
      if s.pipe1 = [] then none
      else
        let replied := child2 os beyond2 (s.pipe1.take os.bufsiz) s.files
        some { s with files := replied.1, pipe1 := s.pipe1.drop os.bufsiz, child2 := .writing replied.2 }
  | .writing rest =>
      (put os n s.pipe2 rest).map fun r => { s with pipe2 := r.1, child2 := .toWrite r.2 }
  | .done => none

def step (s : State) : Turn → Option State
  | .child1 n => stepChild1 os beyond1 n s
  | .child2 n => stepChild2 os beyond2 n s

end Steps

/-- The write of a child takes all the room that its pipe has before the other child can read. -/
def Eager (os : Os) (s : State) : Turn → Prop
  | .child1 n =>
      ∀ rest reads, s.child1 = .writing rest reads → n = min rest.length (os.capacity - s.pipe1.length)
  | .child2 n => ∀ rest, s.child2 = .writing rest → n = min rest.length (os.capacity - s.pipe2.length)

def Finished (s : State) : Prop := s.child1 = .done ∧ s.child2 = .done

section Writes
variable {os : Os} {n : Nat} {pipe rest : Str}

theorem put_some {r : Str × Str} (taken : put os n pipe rest = some r) :
    0 < n ∧ n ≤ rest.length ∧ pipe.length + n ≤ os.capacity ∧ r = (pipe ++ rest.take n, rest.drop n) := by
  unfold put at taken
  split_ifs at taken with fits
  exact ⟨fits.1, fits.2.1, fits.2.2, (Option.some.inj taken).symm⟩

/-- A write moves bytes and keeps their number. -/
theorem put_length {r : Str × Str} (taken : put os n pipe rest = some r) :
    r.1.length + r.2.length = pipe.length + rest.length ∧ r.1.length ≤ os.capacity := by
  obtain ⟨_, some_, room, rfl⟩ := put_some taken
  simp only [List.length_append, List.length_take, List.length_drop]
  omega

theorem put_one (some_ : rest ≠ []) (room : pipe.length < os.capacity) : (put os 1 pipe rest).isSome := by
  have positive := List.length_pos_of_ne_nil some_
  unfold put
  rw [if_pos ⟨Nat.one_pos, positive, room⟩]
  rfl

theorem put_full (full : os.capacity ≤ pipe.length) : put os n pipe rest = none := by
  unfold put
  rw [if_neg (by omega)]

end Writes

section Inversions
variable {os : Os} {beyond1 beyond2 rest : Str} {fs : Files} {s t : State} {n : Nat} {reads : Bool}

theorem opening_ne_nil : (opening os fs).1 ≠ [] := by
  unfold opening
  split <;> simp [message]

theorem Child1.toWrite_ne (some_ : rest ≠ []) : Child1.toWrite rest reads = .writing rest reads := if_neg some_

theorem Child2.toWrite_ne (some_ : rest ≠ []) : Child2.toWrite rest = .writing rest := if_neg some_

theorem step_child1_writing (child1 : s.child1 = .toWrite rest reads) (some_ : rest ≠ [])
    (taken : stepChild1 os beyond1 n s = some t) :
    ∃ r, put os n s.pipe1 rest = some r ∧ t = { s with pipe1 := r.1, child1 := .toWrite r.2 reads } := by
  rw [Child1.toWrite_ne some_] at child1
  simp only [stepChild1, child1, Option.map_eq_some_iff] at taken
  obtain ⟨r, moved, rfl⟩ := taken
  exact ⟨r, moved, rfl⟩

theorem step_child1_closing (child1 : s.child1 = .toWrite rest false) (taken : stepChild1 os beyond1 n s = some t) :
    ∃ r, put os n s.pipe1 rest = some r ∧ t = { s with pipe1 := r.1, child1 := .toWrite r.2 false } := by
  by_cases none_ : rest = []
  · subst none_
    simp [stepChild1, child1, Child1.toWrite] at taken
  · exact step_child1_writing child1 none_ taken

theorem step_child2_writing (child2 : s.child2 = .toWrite rest) (taken : stepChild2 os beyond2 n s = some t) :
    ∃ r, put os n s.pipe2 rest = some r ∧ t = { s with pipe2 := r.1, child2 := .toWrite r.2 } := by
  by_cases none_ : rest = []
  · subst none_
    simp [stepChild2, child2, Child2.toWrite] at taken
  · rw [Child2.toWrite_ne none_] at child2
    simp only [stepChild2, child2, Option.map_eq_some_iff] at taken
    obtain ⟨r, moved, rfl⟩ := taken
    exact ⟨r, moved, rfl⟩

end Inversions

section Blocked
variable {os : Os} {beyond1 beyond2 : Str} {s : State}

/-- A child that cannot move has nothing left to write, or a full pipe. -/
theorem blocked_child1 {rest : Str} {reads : Bool} (stuck : Stuck (step os beyond1 beyond2) s)
    (place : s.child1 = .toWrite rest reads) : rest = [] ∨ os.capacity ≤ s.pipe1.length := by
  by_contra free
  obtain ⟨some_, room⟩ := not_or.mp free
  obtain ⟨r, moved⟩ := Option.isSome_iff_exists.mp (put_one some_ (not_le.mp room))
  have blocked := stuck (.child1 1)
  rw [Child1.toWrite_ne some_] at place
  simp [step, stepChild1, place, moved] at blocked

theorem blocked_child2 {rest : Str} (stuck : Stuck (step os beyond1 beyond2) s)
    (place : s.child2 = .toWrite rest) : rest = [] ∨ os.capacity ≤ s.pipe2.length := by
  by_contra free
  obtain ⟨some_, room⟩ := not_or.mp free
  obtain ⟨r, moved⟩ := Option.isSome_iff_exists.mp (put_one some_ (not_le.mp room))
  have blocked := stuck (.child2 1)
  rw [Child2.toWrite_ne some_] at place
  simp [step, stepChild2, place, moved] at blocked

end Blocked
end NetworkOs.Pipes
