import NetworkOs.Ftp.Programs

/-! What a message that arrives whole is read as. -/
namespace NetworkOs.Ftp

@[simp] theorem length_intBytes (x : BitVec 32) : (intBytes x).length = 4 := rfl

theorem intOfBytes_intBytes (x : BitVec 32) : intOfBytes (intBytes x) = x := by
  apply BitVec.eq_of_toNat_eq
  have small := x.isLt
  simp only [intOfBytes, intBytes, natOfBytes, BitVec.toNat_ofNat, UInt8.toNat_ofNat']
  omega

theorem overlay_whole {old bytes : Str} (length : bytes.length = old.length) : overlay old bytes = bytes := by
  rw [overlay, length, List.drop_length, List.append_nil]

@[simp] theorem recvInt_intBytes (old x : BitVec 32) : recvInt old (intBytes x) = x := by
  rw [recvInt, overlay_whole (length_intBytes x), intOfBytes_intBytes]

/-- A size that an `int` can hold. -/
theorem size_toInt {size : Nat} (small : size < 2147483648) : (BitVec.ofNat 32 size).toInt = size := by
  rw [BitVec.toInt_eq_toNat_cond, BitVec.toNat_ofNat]
  split_ifs
  all_goals omega

theorem toInt_eq_toNat {x : BitVec 32} (positive : ¬ x.toInt < 0) : x.toInt = x.toNat := by
  have small := x.isLt
  rw [BitVec.toInt_eq_toNat_cond] at positive ⊢
  split_ifs at positive ⊢
  · rfl
  · omega

theorem eq_zero_of_toInt {x : BitVec 32} (positive : ¬ x.toInt < 0) : x.toInt ≤ 0 ↔ x = 0 := by
  rw [toInt_eq_toNat positive, ← BitVec.toNat_inj]
  change (x.toNat : Int) ≤ 0 ↔ x.toNat = 0
  omega

namespace Host

@[simp] theorem length_unsetBytes (os : Os) (size : Nat) (h : Host) : (h.unsetBytes os size).length = size := by
  simp [unsetBytes]

theorem length_padded (os : Os) (size : Nat) (s : Str) (h : Host) : (h.padded os size s).length = size := by
  simp only [padded, List.length_take, List.length_append, List.length_cons, length_unsetBytes]
  omega

theorem length_sendfile_le (source : Descriptor) (count : BitVec 32) (h : Host) :
    (h.sendfile source count).length ≤ count.toNat := by
  unfold sendfile
  split
  · split
    · split_ifs
      · exact Nat.zero_le _
      · exact List.length_take_le _ _
    · exact Nat.zero_le _
  · exact Nat.zero_le _

/-- A readable file goes out in the size that was announced, unless that is negative. -/
theorem length_sendfile {os : Os} {name : Str} {h : Host} {size : Nat} (readable : h.openRead os name ≠ .failed)
    (sized : h.fileSize name = some size) (positive : ¬ (BitVec.ofNat 32 size).toInt < 0) :
    (h.sendfile (h.openRead os name) (BitVec.ofNat 32 size)).length = (BitVec.ofNat 32 size).toNat := by
  cases found : h.dir.lookup name with
  | none => simp [fileSize, found] at sized
  | some file =>
      simp only [openRead, found] at readable ⊢
      split at readable
      next allowed =>
        rw [fileSize, found] at sized
        have length : file.content.length = size := Option.some.inj sized
        simp only [allowed, if_true, sendfile, found, if_neg positive, List.length_take, length]
        exact Nat.min_eq_left ((BitVec.toNat_ofNat size 32).le.trans (Nat.mod_le _ _))
      next => exact absurd rfl readable

end Host

/-- A word without spaces, as the ones that start a command. -/
structure Token (word : Str) : Prop where
  nonempty : word ≠ []
  plain : ∀ b ∈ word, b ≠ 0 ∧ isSpace b = false

/-- The name of an entry of the working directory other than the two directories, not a path. -/
structure Entry (name : Str) : Prop where
  slash : (47 : UInt8) ∉ name
  file : isDirectory name = false

instance (name : Str) : Decidable (Entry name) :=
  decidable_of_iff ((47 : UInt8) ∉ name ∧ isDirectory name = false) ⟨fun h => ⟨h.1, h.2⟩, fun h => ⟨h.slash, h.file⟩⟩

theorem Entry.exists_eq {name : Str} (entry : Entry name) (h : Host) :
    h.fileExists name = (h.dir.lookup name).isSome := by
  rw [Host.fileExists, entry.file, Bool.or_false]

/-- A file name as the client's buffer holds it: one token of at most 19 characters. -/
structure Name (name : Str) : Prop extends Token name, Entry name where
  fits : name.length ≤ 19

theorem cString_append {word rest : Str} (plain : ∀ b ∈ word, b ≠ 0) :
    cString (word ++ rest) = word ++ cString rest := by
  apply List.takeWhile_append_of_pos
  intro b member
  exact decide_eq_true (plain b member)

theorem cString_terminated {word rest : Str} (plain : ∀ b ∈ word, b ≠ 0) : cString (word ++ 0 :: rest) = word := by
  rw [cString_append plain]
  exact List.append_nil word

theorem extract_token (old : Str) {word rest : Str} (token : Token word) (ends : rest = [] ∨ ∃ more, rest = 32 :: more) :
    extract old (word ++ rest) = (word, rest) := by
  have word_taken : ∀ b ∈ word, (!isSpace b) = true := fun b member => by rw [(token.plain b member).2]; rfl
  have stop : rest.takeWhile (!isSpace ·) = [] ∧ rest.dropWhile (!isSpace ·) = rest := by
    rcases ends with rfl | ⟨more, rfl⟩
    · exact ⟨rfl, rfl⟩
    · exact ⟨rfl, rfl⟩
  obtain ⟨b, tail, rfl⟩ := List.exists_cons_of_ne_nil token.nonempty
  have first : ((b :: tail) ++ rest).dropWhile isSpace = (b :: tail) ++ rest :=
    List.dropWhile_cons_of_neg (by simp [(token.plain b (by simp)).2])
  rw [extract, first]
  change (((b :: tail) ++ rest).takeWhile (!isSpace ·), ((b :: tail) ++ rest).dropWhile (!isSpace ·)) = _
  rw [List.takeWhile_append_of_pos word_taken, List.dropWhile_append_of_pos word_taken, stop.1, stop.2,
    List.append_nil]

theorem extract_space (old stream : Str) : extract old (32 :: stream) = extract old stream := rfl

theorem token_put : Token putWord := ⟨by decide +kernel, by decide +kernel⟩
theorem token_get : Token getWord := ⟨by decide +kernel, by decide +kernel⟩
theorem token_mget : Token mgetWord := ⟨by decide +kernel, by decide +kernel⟩

/-- What is left in the buffer behind the word and the space. -/
def argumentBytes (os : Os) (h : Host) (word argument : Str) (s : Server) : Str :=
  (argument ++ 0 :: h.unsetBytes os 100).take (99 - word.length) ++ s.buffer.drop 100

theorem hear_command (os : Os) {word : Str} (token : Token word) (short : word.length ≤ 4) (h : Host)
    (argument : Str) (s : Server) :
    (s.hear (h.padded os 100 (commandText word argument))).1 = 32 :: cString (argumentBytes os h word argument s) ∧
      (s.hear (h.padded os 100 (commandText word argument))).2.action = word := by
  have buffer : overlay s.buffer (h.padded os 100 (commandText word argument)) =
      word ++ 32 :: argumentBytes os h word argument s := by
    have split : 100 - word.length = (99 - word.length) + 1 := by omega
    rw [overlay, Host.length_padded, Host.padded, commandText, List.append_assoc, List.take_append,
      List.take_of_length_le (by omega : word.length ≤ 100), split, List.cons_append, List.take_succ_cons,
      List.append_assoc]
    rfl
  have text : cString (overlay s.buffer (h.padded os 100 (commandText word argument))) =
      word ++ 32 :: cString (argumentBytes os h word argument s) := by
    rw [buffer, cString_append fun b member => (token.plain b member).1]
    rfl
  simp only [Server.hear, text, extract_token _ token (.inr ⟨_, rfl⟩), and_self]

/-- The argument of a whole command, where it is one token that fits with its terminator. -/
theorem token_heard (os : Os) {word argument : Str} (token : Token word) (short : word.length ≤ 4) (h : Host)
    (one : Token argument) (fits : word.length + argument.length ≤ 98) (old : Str) (s : Server) :
    (extract old (s.hear (h.padded os 100 (commandText word argument))).1).1 = argument := by
  have room : 99 - word.length = argument.length + (98 - word.length - argument.length + 1) := by omega
  have bytes : argumentBytes os h word argument s =
      argument ++ 0 :: ((h.unsetBytes os 100).take (98 - word.length - argument.length) ++ s.buffer.drop 100) := by
    rw [argumentBytes, room, List.take_length_add_append, List.take_succ_cons, List.append_assoc]
    rfl
  rw [(hear_command os token short h argument s).1, extract_space, bytes,
    cString_terminated fun b member => (one.plain b member).1]
  simpa only [List.append_nil] using congrArg Prod.fst (extract_token old one (.inl rfl))

theorem argument_heard (os : Os) {word argument : Str} (token : Token word) (short : word.length ≤ 4) (h : Host)
    (one : Name argument) (old : Str) (s : Server) :
    (extract old (s.hear (h.padded os 100 (commandText word argument))).1).1 = argument :=
  token_heard os token short h one.toToken (by have fits := one.fits; omega) old s

theorem text_received (os : Os) {name : Str} (plain : ∀ b ∈ name, b ≠ 0) (fits : name.length ≤ 19) (h : Host) (old : Str) :
    cString (overlay old (h.padded os 20 name)) = name := by
  have room : 20 - name.length = (19 - name.length) + 1 := by omega
  have split : overlay old (h.padded os 20 name) =
      name ++ 0 :: ((h.unsetBytes os 20).take (19 - name.length) ++ old.drop 20) := by
    rw [overlay, Host.length_padded, Host.padded, List.take_append, List.take_of_length_le (by omega : name.length ≤ 20),
      room, List.take_succ_cons, List.append_assoc]
    rfl
  rw [split]
  exact cString_terminated plain

theorem name_received (os : Os) {name : Str} (one : Name name) (h : Host) (old : Str) :
    cString (overlay old (h.padded os 20 name)) = name :=
  text_received os (fun b member => (one.plain b member).1) one.fits h old

theorem name_entered {name : Str} (one : Name name) (c : Client) : cString (c.enter name).filename = name := by
  change cString ((name ++ [0]) ++ c.filename.drop (name ++ [0]).length) = name
  rw [List.append_assoc]
  exact cString_terminated fun b member => (one.plain b member).1

end NetworkOs.Ftp
