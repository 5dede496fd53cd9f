import NetworkOs.Library.Duplex

/-! One end of a connection whose bytes arrive in pieces of any size: each `recv` returns
some of the bytes that it asks for, at least one. A `recv` of 0 bytes waits for some and takes none. -/
namespace Duplex
variable {T α β : Type}

/-- The program takes its bytes from the front of a stream. The log has the number of
bytes asked for and returned by each `recv`; the other results are the bytes it sends and
what is left of the stream. -/
inductive Feeds : Proc T α → List UInt8 → List (Nat × Nat) → List UInt8 → α → List UInt8 → Prop
  | ret (a stream) : Feeds (.ret a) stream [] [] a stream
  | send {m k stream log sent a left} (rest : Feeds k stream log sent a left) :
      Feeds (.send m k) stream log (m.bytes ++ sent) a left
  | recv {tag size k got stream log sent a left} (some : 0 < got.length) (most : got.length ≤ size)
      (rest : Feeds (k got) stream log sent a left) :
      Feeds (.recv tag size k) (got ++ stream) ((size, got.length) :: log) sent a left
  | wake {tag k stream log sent a left} (ready : stream ≠ []) (rest : Feeds (k []) stream log sent a left) :
      Feeds (.recv tag 0 k) stream ((0, 0) :: log) sent a left

/-- Every `recv` returned all the bytes it asked for. -/
def Whole (log : List (Nat × Nat)) : Prop := ∀ entry ∈ log, entry.2 = entry.1

instance (log : List (Nat × Nat)) : Decidable (Whole log) :=
  inferInstanceAs (Decidable (∀ entry ∈ log, entry.2 = entry.1))

@[simp] theorem whole_nil : Whole [] := by simp [Whole]

@[simp] theorem whole_cons (size length : Nat) (log : List (Nat × Nat)) :
    Whole ((size, length) :: log) ↔ length = size ∧ Whole log := by simp [Whole]

namespace Feeds
variable {p : Proc T α} {f : List UInt8 → Proc T β} {g : Unit → Proc T β} {stream left sent : List UInt8}
  {log : List (Nat × Nat)} {a : α} {b : β}

theorem pure_inv {a' : α} (h : Feeds (pure a : Proc T α) stream log sent a' left) :
    a' = a ∧ log = [] ∧ sent = [] ∧ left = stream := by
  cases h
  exact ⟨rfl, rfl, rfl, rfl⟩

theorem halt_inv (h : Feeds (.halt : Proc T α) stream log sent a left) : False := by cases h

theorem send_inv {tag : T} {bytes : List UInt8} (h : Feeds (Proc.sendBytes tag bytes >>= g) stream log sent b left) :
    ∃ later, Feeds (g ()) stream log later b left ∧ sent = bytes ++ later := by
  by_cases empty : bytes = []
  · subst empty
    exact ⟨sent, h, rfl⟩
  · rw [Proc.sendBytes, dif_neg empty] at h
    cases h with
    | send rest => exact ⟨_, rest, rfl⟩

theorem recv_inv {tag : T} {size : Nat} (h : Feeds (Proc.recvBytes tag size >>= f) stream log sent b left) :
    ∃ got rest later, stream = got ++ rest ∧ got.length ≤ size ∧ (0 < size → got ≠ []) ∧
      Feeds (f got) rest later sent b left ∧ (Whole log ↔ got.length = size ∧ Whole later) := by
  cases h with
  | recv some most rest => exact ⟨_, _, _, rfl, most, fun _ => List.length_pos_iff.mp some, rest, whole_cons _ _ _⟩
  | wake ready rest =>
      exact ⟨[], _, _, rfl, Nat.le_refl 0, fun positive => absurd positive (Nat.lt_irrefl 0), rest, whole_cons _ _ _⟩

theorem pure_iff {a' : α} : Feeds (pure a : Proc T α) stream log sent a' left ↔ a' = a ∧ log = [] ∧ sent = [] ∧ left = stream := by
  refine ⟨pure_inv, ?_⟩
  rintro ⟨rfl, rfl, rfl, rfl⟩
  exact .ret _ _

theorem send_iff {tag : T} {bytes : List UInt8} :
    Feeds (Proc.sendBytes tag bytes >>= g) stream log sent b left ↔
      ∃ later, Feeds (g ()) stream log later b left ∧ sent = bytes ++ later := by
  refine ⟨send_inv, ?_⟩
  rintro ⟨later, rest, rfl⟩
  unfold Proc.sendBytes
  split_ifs with empty
  · rw [empty]
    exact rest
  · exact .send rest

/-- A `recv` in a run whose log is known. -/
theorem recv_iff {tag : T} {size asked length : Nat} :
    Feeds (Proc.recvBytes tag size >>= f) stream ((asked, length) :: log) sent b left ↔
      (asked = size ∧ stream ≠ [] ∧ (0 < length ∨ size = 0) ∧ length ≤ size ∧ length ≤ stream.length) ∧
        Feeds (f (stream.take length)) (stream.drop length) log sent b left := by
  constructor
  · intro h
    cases h with
    | recv some most rest =>
        refine ⟨⟨rfl, ?_, .inl some, most, by simp⟩, ?_⟩
        · exact fun empty => List.length_pos_iff.mp some (List.append_eq_nil_iff.mp empty).1
        · rw [List.take_left, List.drop_left]
          exact rest
    | wake ready rest => exact ⟨⟨rfl, ready, .inr rfl, Nat.le_refl 0, Nat.zero_le _⟩, rest⟩
  · rintro ⟨⟨rfl, ready, some, most, there⟩, rest⟩
    rcases Nat.eq_zero_or_pos length with rfl | positive
    · obtain rfl : asked = 0 := some.resolve_left (Nat.lt_irrefl 0)
      exact .wake ready rest
    · have returned : (stream.take length).length = length := List.length_take_of_le there
      have first : Feeds (Proc.recvBytes tag asked >>= f) _ _ _ _ _ :=
        .recv (returned.symm ▸ positive) (returned.symm ▸ most) rest
      rw [List.take_append_drop, returned] at first
      exact first

/-- A `recv` that returns a whole message. -/
theorem recv_whole_iff {tag : T} {size : Nat} {bytes : List UInt8} (length : bytes.length = size) (positive : 0 < size) :
    Feeds (Proc.recvBytes tag size >>= f) (bytes ++ stream) ((size, size) :: log) sent b left ↔
      Feeds (f bytes) stream log sent b left := by
  have there : bytes ++ stream ≠ [] := by
    intro empty
    rw [(List.append_eq_nil_iff.mp empty).1] at length
    exact absurd length.symm positive.ne'
  have room : size ≤ (bytes ++ stream).length := by rw [List.length_append, length]; exact Nat.le_add_right _ _
  rw [recv_iff, List.take_left' length, List.drop_left' length]
  exact and_iff_right ⟨rfl, there, .inl positive, Nat.le_refl _, room⟩

theorem bind_inv {f : α → Proc T β} (h : Feeds (p >>= f) stream log sent b left) :
    ∃ a mid log₁ log₂ sent₁ sent₂, Feeds p stream log₁ sent₁ a mid ∧ Feeds (f a) mid log₂ sent₂ b left ∧
      log = log₁ ++ log₂ ∧ sent = sent₁ ++ sent₂ := by
  induction p generalizing stream log sent with
  | ret a => exact ⟨a, stream, [], log, [], sent, .ret a stream, h, rfl, rfl⟩
  | halt => cases h
  | send m k ih =>
      cases h with
      | send rest =>
          obtain ⟨a, mid, log₁, log₂, sent₁, sent₂, first, second, rfl, rfl⟩ := ih rest
          exact ⟨a, mid, log₁, log₂, m.bytes ++ sent₁, sent₂, .send first, second, rfl, (List.append_assoc _ _ _).symm⟩
  | recv tag size k ih =>
      cases h with
      | recv some most rest =>
          obtain ⟨a, mid, log₁, log₂, sent₁, sent₂, first, second, rfl, rfl⟩ := ih _ rest
          exact ⟨a, mid, _ :: log₁, log₂, sent₁, sent₂, .recv some most first, second, rfl, rfl⟩
      | wake ready rest =>
          obtain ⟨a, mid, log₁, log₂, sent₁, sent₂, first, second, rfl, rfl⟩ := ih _ rest
          exact ⟨a, mid, _ :: log₁, log₂, sent₁, sent₂, .wake ready first, second, rfl, rfl⟩

end Feeds

/-- What comes of a run. -/
structure Fed (α : Type) where
  log : List (Nat × Nat)
  sent : List UInt8
  result : α
  left : List UInt8

/-- A run on given sizes of the pieces. -/
def feed : Proc T α → List UInt8 → List Nat → Option (Fed α)
  | .ret a, stream, _ => some ⟨[], [], a, stream⟩
  | .send m k, stream, pieces => (feed k stream pieces).map fun x => { x with sent := m.bytes ++ x.sent }
  | .recv _ size k, stream, piece :: pieces =>
      if stream ≠ [] ∧ (0 < piece ∨ size = 0) ∧ piece ≤ size ∧ piece ≤ stream.length then
        (feed (k (stream.take piece)) (stream.drop piece) pieces).map fun x => { x with log := (size, piece) :: x.log }
      else none
  | .recv _ _ _, _, [] => none
  | .halt, _, _ => none

theorem feeds_of_feed {p : Proc T α} {stream : List UInt8} {pieces : List Nat} {x : Fed α}
    (h : feed p stream pieces = some x) : Feeds p stream x.log x.sent x.result x.left := by
  induction p generalizing stream pieces x with
  | ret a =>
      cases h
      exact .ret a stream
  | halt => cases h
  | send m k ih =>
      obtain ⟨y, rest, rfl⟩ := Option.map_eq_some_iff.mp h
      exact .send (ih rest)
  | recv tag size k ih =>
      cases pieces with
      | nil => cases h
      | cons piece pieces =>
          simp only [feed] at h
          split_ifs at h with fits
          obtain ⟨y, rest, rfl⟩ := Option.map_eq_some_iff.mp h
          exact Feeds.recv_iff.mpr ⟨⟨rfl, fits⟩, ih _ rest⟩

end Duplex
