import NetworkOs.Pipes.Directories

/-! The framing of the files on the pipes: names and contents come back exactly when each
content is one word on a line and both messages fit into one read. -/
namespace NetworkOs.Pipes
open Words

/-- The directory has these entries and no other. -/
def Holds (dir : Str) (entries : List (Str × Str)) (fs : Files) : Prop :=
  ∀ name, Plain name → fs (pathOf dir name) = entries.lookup name

def line (w : Str) : Str := w ++ [newline]

/-- One word on a line of its own. -/
def OneWord (contents : Str) : Prop := ∃ w, IsWord isspace w ∧ contents = line w

/-- What `encode` appends for one file. -/
def framed (file contents : Str) : Str := file ++ space :: (contents ++ [newline])

section Paths
variable {os : Os} {dir dir' name name' : Str}

theorem pathOf_inj (own : dir = d1 ∨ dir = d2) (own' : dir' = d1 ∨ dir' = d2)
    (same : pathOf dir name = pathOf dir' name') : dir = dir' ∧ name = name' := by
  have size : dir.length = dir'.length := by rcases own with rfl | rfl <;> rcases own' with rfl | rfl <;> rfl
  obtain ⟨dirs, names⟩ := List.append_inj same size
  exact ⟨dirs, List.tail_eq_of_cons_eq names⟩

theorem isspace_space : isspace space = true := by decide
theorem isspace_newline : isspace newline = true := by decide

theorem solid_file : ∀ name ∈ [file1, file2, file3, file4], ∀ a ∈ name, isspace a = false := by decide +kernel

theorem isWord_file1 : IsWord isspace file1 := ⟨by decide, solid_file file1 (by simp)⟩
theorem isWord_file2 : IsWord isspace file2 := ⟨by decide, solid_file file2 (by simp)⟩
theorem isWord_file3 : IsWord isspace file3 := ⟨by decide, solid_file file3 (by simp)⟩
theorem isWord_file4 : IsWord isspace file4 := ⟨by decide, solid_file file4 (by simp)⟩

end Paths

/-- The names that the decoder takes from these words. -/
def targets : List Str → List Str
  | file :: _ :: rest => file :: targets rest
  | _ => []

section Writes
variable {os : Os} {dir failed : Str} {fs : Files}

/-- A file that is written gets one word on a line, and stays. -/
def Written (fs fs' : Files) : Prop :=
  (∀ p, fs' p = fs p ∨ ∃ contents, OneWord contents ∧ fs' p = some contents) ∧ ∀ p, fs p ≠ none → fs' p ≠ none

theorem Written.refl (fs : Files) : Written fs fs := ⟨fun _ => .inl rfl, fun _ some_ => some_⟩

theorem Written.trans {fs' fs'' : Files} (first : Written fs fs') (second : Written fs' fs'') : Written fs fs'' := by
  refine ⟨fun p => ?_, fun p some_ => second.2 p (first.2 p some_)⟩
  rcases second.1 p with same | written
  · rw [same]
    exact first.1 p
  · exact .inr written

theorem written_update {p w : Str} (word : IsWord isspace w) :
    Written fs (Function.update fs p (some (line w))) := by
  constructor
  · intro q
    by_cases same : q = p
    · subst same
      exact .inr ⟨_, ⟨w, word, rfl⟩, Function.update_self ..⟩
    · exact .inl (Function.update_of_ne same _ _)
  · intro q some_
    by_cases same : q = p
    · subst same
      rw [Function.update_self]
      exact Option.some_ne_none _
    · rwa [Function.update_of_ne same]

theorem decode_written (tokens : List Str) (solid : ∀ w ∈ tokens, IsWord isspace w) :
    Written fs (decode os dir failed tokens fs).1 := by
  induction tokens, fs using decode.induct os dir with
  | case1 file contents rest fs creates ih =>
      rw [decode, if_pos creates]
      refine (written_update (solid contents (by simp))).trans (ih fun w later => solid w ?_)
      exact List.mem_cons_of_mem _ (List.mem_cons_of_mem _ later)
  | case2 file contents rest fs fails =>
      rw [decode, if_neg fails]
      exact .refl fs
  | case3 tokens fs short =>
      rw [decode]
      · exact .refl fs
      · exact short

theorem decode_completes {tokens : List Str} (failed : Str) (fs : Files)
    (creates : ∀ name ∈ targets tokens, os.canCreate (pathOf dir name) = true) :
    (decode os dir failed tokens fs).2 = none := by
  induction tokens, fs using decode.induct os dir with
  | case1 file contents rest fs creates_ ih =>
      rw [decode, if_pos creates_]
      exact ih fun name later => creates name (List.mem_cons_of_mem _ later)
  | case2 file contents rest fs fails => exact absurd (creates file List.mem_cons_self) fails
  | case3 tokens fs short =>
      rw [decode]
      exact short

theorem child2_written (beyond bytes : Str) : Written fs (child2 os beyond bytes fs).1 := by
  have decoded : Written fs (decode os d2 (ascii "Error in create ".toList)
      (words isspace (os.received beyond bytes)) fs).1 := decode_written _ fun w member => isWord_of_mem member
  unfold child2
  dsimp only
  split
  · exact decoded
  · split <;> exact decoded

theorem child1Receives_written (beyond bytes : Str) : Written fs (child1Receives os beyond bytes fs).1 :=
  decode_written _ fun _ member => isWord_of_mem member

theorem main_written {beyond1 beyond2 : Str} {fs' : Files} (ran : main os beyond1 beyond2 fs = some fs') :
    Written fs fs' := by
  unfold main at ran
  split at ran
  · dsimp only at ran
    split_ifs at ran
    exact Option.some.inj ran ▸ child2_written _ _
  · dsimp only at ran
    split_ifs at ran
    have both : ∀ bytes1, Written fs (child1Receives os beyond1 (child2 os beyond2 bytes1 fs).2
        (child2 os beyond2 bytes1 fs).1).1 :=
      fun bytes1 => (child2_written _ _).trans (child1Receives_written _ _)
    split at ran
    · exact Option.some.inj ran ▸ both _
    · split_ifs at ran
      exact Option.some.inj ran ▸ both _

end Writes
/-- The files of the two directories can be opened. -/
def Os.Openable (os : Os) : Prop := ∀ dir, dir = d1 ∨ dir = d2 → ∀ name, Plain name →
  os.canRead (pathOf dir name) = true ∧ os.canCreate (pathOf dir name) = true

section Frames
variable {os : Os} {dir failed file file' contents contents' w : Str} {fs : Files}

theorem words_framed (name : IsWord isspace file) (word : IsWord isspace w) (rest : Str) :
    words isspace (framed file (line w) ++ rest) = file :: w :: words isspace rest := by
  have shape : framed file (line w) ++ rest = file ++ space :: (w ++ newline :: (newline :: rest)) := by
    simp [framed, line]
  rw [shape, name.words_append _ isspace_space, word.words_append _ isspace_newline,
    words_cons_blank _ isspace_newline]

theorem encode_pair (own : dir = d1 ∨ dir = d2) (plain : Plain file) (plain' : Plain file')
    (reads : ∀ name ∈ [file, file'], os.canRead (pathOf dir name) = true)
    (held : fs (pathOf dir file) = some contents) (held' : fs (pathOf dir file') = some contents') :
    encode os dir failed [file, file'] fs = .ok (framed file contents ++ framed file' contents') := by
  have reads_ : ∀ name ∈ [file, file'], Plain name → os.readFile (pathOf dir name) fs = fs (pathOf dir name) := by
    intro name member plain_
    unfold Os.readFile
    rw [if_pos (reads name member), os.resolve_entry dir own name plain_]
  simp only [encode, List.foldlM_cons, List.foldlM_nil, reads_ file (by simp) plain, reads_ file' (by simp) plain',
    held, held', List.nil_append]
  rfl

theorem decode_nil : decode os dir failed [] fs = (fs, none) := rfl

theorem decode_entry (creates : os.canCreate (pathOf dir file) = true) (own : dir = d1 ∨ dir = d2) (plain : Plain file)
    (rest : List Str) : decode os dir failed (file :: w :: rest) fs =
      decode os dir failed rest (Function.update fs (pathOf dir file) (some (line w))) := by
  rw [decode, if_pos creates, os.resolve_entry dir own file plain]
  rfl

/-- The first name is created before anything can fail. -/
theorem decode_first {name w : Str} {rest : List Str} (own : dir = d1 ∨ dir = d2)
    (solid : ∀ w ∈ rest, IsWord isspace w) (creates : os.canCreate (pathOf dir name) = true) (plain : Plain name) :
    (decode os dir failed (name :: w :: rest) fs).1 (pathOf dir name) ≠ none := by
  rw [decode_entry creates own plain]
  refine (decode_written rest solid).2 _ ?_
  rw [Function.update_self]
  exact Option.some_ne_none _

theorem takeWhile_nonzero {text : Str} (nul : 0 ∉ text) (rest : Str) :
    (text ++ 0 :: rest).takeWhile (· ≠ 0) = text := by
  rw [List.takeWhile_append_of_pos]
  · simp
  · intro b member
    exact decide_eq_true fun zero => nul (zero ▸ member)

theorem received_whole {msg : Str} (nul : 0 ∉ msg) (fits : msg.length + 1 ≤ min os.bufsiz os.capacity) (beyond : Str) :
    os.received beyond (message msg) = msg := by
  have whole : os.chunk (message msg) = message msg := List.take_of_length_le (by simpa [message] using fits)
  unfold Os.received
  rw [whole, if_pos (by simp [message])]
  simpa [message] using takeWhile_nonzero nul beyond

/-- A read without a NUL goes on beyond its end. -/
theorem received_target {msg target : Str} (start : os.chunk (message msg) <+: target) (nul : 0 ∉ target) :
    ∃ beyond, os.received beyond (message msg) = target := by
  have positive : 0 < min os.bufsiz os.capacity := lt_min os.bufsiz_pos os.capacity_pos
  have some_ : 0 < (os.chunk (message msg)).length := by
    simp only [Os.chunk, message, List.length_take, List.length_append, List.length_cons, List.length_nil]
    omega
  obtain ⟨beyond, rfl⟩ := start
  refine ⟨beyond, ?_⟩
  unfold Os.received
  rw [if_pos some_, List.takeWhile_eq_self_iff]
  exact fun b member => decide_eq_true fun zero => nul (zero ▸ member)

/-- Of a longer one the end is read from beyond, where more can follow. -/
theorem received_cut {msg extra : Str} (nul : 0 ∉ msg) (more : 0 ∉ extra)
    (cut : min os.bufsiz os.capacity ≤ msg.length) : ∃ beyond, os.received beyond (message msg) = msg ++ extra := by
  refine received_target ?_ fun zero => (List.mem_append.mp zero).elim nul more
  have chunk : os.chunk (message msg) = msg.take (min os.bufsiz os.capacity) :=
    List.take_append_of_le_length cut
  rw [chunk]
  exact (List.take_prefix _ _).trans (List.prefix_append _ _)

theorem writeEnds_whole {bytes : Str} (fits : bytes.length ≤ min os.bufsiz os.capacity) (taken : Nat) :
    os.writeEnds bytes taken := by
  unfold Os.writeEnds
  omega

end Frames
end NetworkOs.Pipes
