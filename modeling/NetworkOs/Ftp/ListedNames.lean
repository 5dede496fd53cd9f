import NetworkOs.Ftp.Exchange
import NetworkOs.Ftp.Shell

/-! The names of a listing on their way to the other side: "mput" sends them behind a word
in 100 bytes, which the server reads as words again, and "mget" sends them in 20 bytes. -/
namespace NetworkOs.Ftp

/-- A name that a listing of these files can have. -/
structure Listable (extension name : Str) : Prop where
  matched : matchesPattern extension name = true
  slash : (47 : UInt8) ∉ name
  nul : (0 : UInt8) ∉ name
  feed : (10 : UInt8) ∉ name
  short : name.length ≤ 255

/-- The name that the server reads from the command for `line`. The end of its buffer is
the memory behind it. -/
def mputDecoded (os : Os) (line : Str) (c : Client) (s : Server) : Str :=
  let heard := s.hear (c.host.padded os 100 (commandText putWord line))
  (heard.2.name heard.1).filename

/-- The name that the client reads from the message for `file`. -/
def mgetDecoded (os : Os) (file : Str) (c : Client) (s : Server) : Str :=
  cString (overlay c.filename (s.host.padded os 20 file))

section Decoding
variable {os : Os} {name : Str}

theorem extract_plain {old : Str} (plain : ∀ b ∈ old, isSpace b = false) (stream : Str) :
    ∀ b ∈ (extract old stream).1, isSpace b = false := by
  unfold extract
  split
  · exact plain
  · intro b member
    simpa using List.mem_takeWhile_imp member

theorem extract_run (old : Str) {u : Str} (some_ : u ≠ []) (plain : ∀ b ∈ u, isSpace b = false) (v : Str) :
    (extract old (u ++ v)).1 = u ++ v.takeWhile (!isSpace ·) := by
  obtain ⟨b, tail, rfl⟩ := List.exists_cons_of_ne_nil some_
  have first : ((b :: tail) ++ v).dropWhile isSpace = (b :: tail) ++ v :=
    List.dropWhile_cons_of_neg (by simp [plain b List.mem_cons_self])
  rw [extract, first]
  change ((b :: tail) ++ v).takeWhile (!isSpace ·) = _
  exact List.takeWhile_append_of_pos fun b member => by rw [plain b member]; rfl

theorem Listable.nonempty {extension : Str} (listable : Listable extension name) : name ≠ [] := by
  have matched := listable.matched
  rintro rfl
  simp [matchesPattern] at matched

theorem Listable.terminates {extension : Str} (listable : Listable extension name) : ∀ b ∈ name, b ≠ 0 :=
  fun _ member nul => listable.nul (nul ▸ member)

theorem mputDecoded_eq (os : Os) (name : Str) (c : Client) (s : Server) :
    mputDecoded os name c s = (extract s.filename (cString (argumentBytes os c.host putWord name s))).1 := by
  have heard := (hear_command os token_put (by decide) c.host name s).1
  rw [← extract_space, ← heard]
  rfl

/-- Where the name fills the message, the server goes on reading in the memory behind it. -/
theorem mputDecoded_long {extension : Str} (listable : Listable extension name) (plain : ∀ b ∈ name, isSpace b = false)
    (long : 96 ≤ name.length) (os : Os) (c : Client) (s : Server) :
    mputDecoded os name c s = name.take 96 ++ (cString (s.buffer.drop 100)).takeWhile (!isSpace ·) := by
  have within : ∀ b ∈ name.take 96, b ∈ name := fun b member => List.mem_of_mem_take member
  have bytes : argumentBytes os c.host putWord name s = name.take 96 ++ s.buffer.drop 100 := by
    have room : 99 - putWord.length = 96 := by decide
    rw [argumentBytes, room, List.take_append_of_le_length long]
  have some_ : name.take 96 ≠ [] := by
    rw [ne_eq, List.take_eq_nil_iff, not_or]
    exact ⟨by decide, listable.nonempty⟩
  rw [mputDecoded_eq, bytes, cString_append fun b member => listable.terminates b (within b member)]
  exact extract_run _ some_ (fun b member => plain b (within b member)) _

theorem mputDecoded_short {extension : Str} (listable : Listable extension name) (plain : ∀ b ∈ name, isSpace b = false)
    (short : name.length ≤ 95) (os : Os) (c : Client) (s : Server) : mputDecoded os name c s = name := by
  have one : Token name := ⟨listable.nonempty, fun b member => ⟨listable.terminates b member, plain b member⟩⟩
  have fits : putWord.length + name.length ≤ 98 := by
    have word : putWord.length = 3 := by decide
    omega
  exact token_heard os token_put (by decide) c.host one fits _ s

theorem mgetDecoded_long {extension : Str} (listable : Listable extension name) (long : 20 ≤ name.length)
    (os : Os) (c : Client) (s : Server) : mgetDecoded os name c s = name.take 20 ++ cString (c.filename.drop 20) := by
  have bytes : s.host.padded os 20 name = name.take 20 := List.take_append_of_le_length long
  have length : (name.take 20).length = 20 := by simp [long]
  rw [mgetDecoded, overlay, bytes, length]
  exact cString_append fun b member => listable.terminates b (List.mem_of_mem_take member)

end Decoding

/-- With this memory behind the buffers a name is read differently that is cut off. -/
def behind (cut : Str) : Str := if cut = [] then [120] else []

theorem append_behind_ne {u cut name : Str} (split : u ++ cut = name) : u ++ behind cut ≠ name := by
  rw [← split]
  unfold behind
  intro same
  have same := List.append_cancel_left same
  split_ifs at same with empty
  · rw [empty] at same
    cases same
  · exact empty same.symm

theorem cString_behind (cut : Str) : cString (behind cut) = behind cut ∧
    (behind cut).takeWhile (!isSpace ·) = behind cut := by
  unfold behind
  split_ifs
  · exact ⟨by decide, by decide⟩
  · exact ⟨rfl, rfl⟩

/-- Whatever memory holds, the server reads the name the client listed exactly if it has
no whitespace and at most 95 characters, and the client the one the server listed exactly
if it has at most 19. -/
theorem names_decoded_iff {extension name : Str} (listable : Listable extension name) :
    ((∀ os c s, mputDecoded os name c s = name) ↔ (∀ b ∈ name, isSpace b = false) ∧ name.length ≤ 95) ∧
      ((∀ os c s, mgetDecoded os name c s = name) ↔ name.length ≤ 19) := by
  let client (beyond : Str) : Client := { Client.initial ∅ with filename := List.replicate 20 0 ++ beyond }
  let server (beyond : Str) : Server := { Server.initial ∅ with buffer := List.replicate 100 0 ++ beyond }
  constructor
  · constructor
    · intro decoded
      have plain : ∀ b ∈ name, isSpace b = false := by
        rw [← decoded unix (client []) (server []), mputDecoded_eq]
        exact extract_plain (fun b member => absurd member List.not_mem_nil) _
      refine ⟨plain, ?_⟩
      by_contra long
      have result := decoded unix (client []) (server (behind (name.drop 96)))
      rw [mputDecoded_long listable plain (by omega)] at result
      have beyond : (server (behind (name.drop 96))).buffer.drop 100 = behind (name.drop 96) :=
        List.drop_left' (by simp)
      rw [beyond, (cString_behind _).1, (cString_behind _).2] at result
      exact append_behind_ne (List.take_append_drop 96 name) result
    · rintro ⟨plain, short⟩ os c s
      exact mputDecoded_short listable plain short os c s
  · constructor
    · intro decoded
      by_contra long
      have result := decoded unix (client (behind (name.drop 20))) (server [])
      rw [mgetDecoded_long listable (by omega)] at result
      have beyond : (client (behind (name.drop 20))).filename.drop 20 = behind (name.drop 20) :=
        List.drop_left' (by simp)
      rw [beyond, (cString_behind _).1] at result
      exact append_behind_ne (List.take_append_drop 20 name) result
    · intro short os c s
      exact text_received os listable.terminates short s.host c.filename

theorem listable_of_pattern (extension name : Str) (matched : matchesPattern extension name = true)
    (plain : name.all (fun b => b != 47 && b != 0 && b != 10) = true) (short : name.length ≤ 255) :
    Listable extension name := by
  have other : ∀ b ∈ name, b ≠ 47 ∧ b ≠ 0 ∧ b ≠ 10 := by simpa [and_assoc] using plain
  exact ⟨matched, fun member => (other _ member).1 rfl, fun member => (other _ member).2.1 rfl,
    fun member => (other _ member).2.2 rfl, short⟩

theorem names_decoded_iff_letter :
    ((∀ os c s, mputDecoded os (ascii ['a', '.', 't']) c s = ascii ['a', '.', 't']) ↔
      (∀ b ∈ ascii ['a', '.', 't'], isSpace b = false) ∧ (ascii ['a', '.', 't']).length ≤ 95) ∧
    ((∀ os c s, mgetDecoded os (ascii ['a', '.', 't']) c s = ascii ['a', '.', 't']) ↔
      (ascii ['a', '.', 't']).length ≤ 19) :=
  names_decoded_iff (listable_of_pattern (ascii ['t']) _ (by decide) (by decide) (by decide))

/-- The server reads "a b.t" as "a", and the client reads a name of 20 characters together
with what stands behind its buffer. -/
theorem names_changed_on_the_way :
    (¬ ∀ extension name, Listable extension name → ∀ os c s, mputDecoded os name c s = name) ∧
      ¬ ∀ extension name, Listable extension name → ∀ os c s, mgetDecoded os name c s = name := by
  constructor
  · intro claim
    have listable : Listable (ascii ['t']) (ascii ['a', ' ', 'b', '.', 't']) :=
      listable_of_pattern _ _ (by decide) (by decide) (by decide)
    exact absurd (claim _ _ listable unix (Client.initial ∅) (Server.initial ∅)) (by decide)
  · intro claim
    have listable : Listable (ascii ['t']) (List.replicate 18 97 ++ ascii ['.', 't']) :=
      listable_of_pattern _ _ (by decide) (by decide) (by decide)
    have read := claim _ _ listable unix { Client.initial ∅ with filename := List.replicate 20 0 ++ [120] } (Server.initial ∅)
    exact absurd read (by decide)

end NetworkOs.Ftp
