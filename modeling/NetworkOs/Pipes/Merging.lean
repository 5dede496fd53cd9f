import NetworkOs.Pipes.Framing

/-! When the directories are merged: the run on contents of one word each, and what every
other content and every longer message leads to. -/
namespace NetworkOs.Pipes
open Words

/-- The directories before the forks. -/
structure Before (c1 c2 c3 c4 : Str) (fs : Files) : Prop where
  first : Holds d1 [(file1, c1), (file2, c2)] fs
  second : Holds d2 [(file3, c3), (file4, c4)] fs

/-- Both directories hold all files. -/
structure Merged (c1 c2 c3 c4 : Str) (fs : Files) : Prop where
  first : Holds d1 [(file1, c1), (file2, c2), (file3, c3), (file4, c4)] fs
  second : Holds d2 [(file1, c1), (file2, c2), (file3, c3), (file4, c4)] fs

/-- What child 1 sends. -/
def msg1 (c1 c2 : Str) : Str := framed file1 c1 ++ framed file2 c2

/-- What child 2 sends. -/
def msg2 (c3 c4 : Str) : Str := framed file3 c3 ++ framed file4 c4

/-- The children finish with both directories merged, whatever lies beyond what they read. -/
def Merges (os : Os) (c1 c2 c3 c4 : Str) (fs : Files) : Prop :=
  ∀ beyond1 beyond2, ∃ fs', main os beyond1 beyond2 fs = some fs' ∧ Merged c1 c2 c3 c4 fs'

/-- The message with two files and its NUL fits into one read. -/
def Fits (os : Os) (contents contents' : Str) : Prop :=
  contents.length + contents'.length + 15 ≤ min os.bufsiz os.capacity

theorem plain_file1 : Plain file1 := by decide
theorem plain_file2 : Plain file2 := by decide
theorem plain_file3 : Plain file3 := by decide
theorem plain_file4 : Plain file4 := by decide

section Stores
variable {dir dir' file contents : Str} {entries : List (Str × Str)} {fs : Files}

def store (dir file contents : Str) (fs : Files) : Files := Function.update fs (pathOf dir file) (some contents)

theorem Holds.store (own : dir = d1 ∨ dir = d2) (h : Holds dir entries fs) (file contents : Str) :
    Holds dir ((file, contents) :: entries) (store dir file contents fs) := by
  intro name plain
  by_cases same : name = file
  · subst same
    simp [Pipes.store]
  · have apart : pathOf dir name ≠ pathOf dir file := fun eq => same (pathOf_inj own own eq).2
    simp [Pipes.store, apart, List.lookup_cons, beq_false_of_ne same, h name plain]

theorem Holds.store_other (own : dir = d1 ∨ dir = d2) (own' : dir' = d1 ∨ dir' = d2) (apart : dir ≠ dir')
    (h : Holds dir entries fs) (file contents : Str) : Holds dir entries (Pipes.store dir' file contents fs) := by
  intro name plain
  have other : pathOf dir name ≠ pathOf dir' file := fun eq => apart (pathOf_inj own own' eq).1
  simp [Pipes.store, other, h name plain]

theorem lookup_perm {entries' : List (Str × Str)} (perm : entries.Perm entries')
    (once : (entries.map Prod.fst).Nodup) (name : Str) : entries.lookup name = entries'.lookup name := by
  induction perm with
  | nil => rfl
  | cons entry _ ih =>
      obtain ⟨key, value⟩ := entry
      rw [List.lookup_cons, List.lookup_cons, ih (List.nodup_cons.mp once).2]
  | swap entry entry' rest =>
      obtain ⟨key, value⟩ := entry
      obtain ⟨key', value'⟩ := entry'
      have apart : key' ≠ key := by
        have outside := (List.nodup_cons.mp once).1
        exact fun same => outside (same ▸ List.mem_cons_self)
      simp only [List.lookup_cons]
      by_cases own : name = key
      · subst own
        simp [beq_false_of_ne apart.symm]
      · simp [beq_false_of_ne own]
  | trans first _ ih ih' => exact (ih once).trans (ih' ((first.map Prod.fst).nodup_iff.mp once))

theorem Holds.perm {entries' : List (Str × Str)} (h : Holds dir entries fs) (perm : entries.Perm entries')
    (once : (entries.map Prod.fst).Nodup) : Holds dir entries' fs :=
  fun name plain => (h name plain).trans (lookup_perm perm once name)

end Stores

section Run
variable {os : Os} {c1 c2 c3 c4 w1 w2 w3 w4 : Str} {fs : Files}

theorem Before.sends (h : Before c1 c2 c3 c4 fs) (reads : ∀ name ∈ [file1, file2], os.canRead (pathOf d1 name) = true) :
    child1Sends os fs = .ok (msg1 c1 c2) :=
  encode_pair (.inl rfl) plain_file1 plain_file2 reads (h.first file1 plain_file1) (h.first file2 plain_file2)

theorem Os.Openable.reads (openable : os.Openable) {dir : Str} (own : dir = d1 ∨ dir = d2) {files : List Str}
    (plain : ∀ name ∈ files, Plain name) : ∀ name ∈ files, os.canRead (pathOf dir name) = true :=
  fun name member => (openable dir own name (plain name member)).1

theorem plain_first : ∀ name ∈ [file1, file2], Plain name := by decide
theorem plain_second : ∀ name ∈ [file3, file4], Plain name := by decide

/-- The files of a message are stored one after another, and then what follows it. -/
theorem decode_pair {dir failed file file' w w' : Str} (extra : Str) (openable : os.Openable) (own : dir = d1 ∨ dir = d2)
    (name : IsWord isspace file) (plain : Plain file) (name' : IsWord isspace file') (plain' : Plain file')
    (word : IsWord isspace w) (word' : IsWord isspace w') :
    decode os dir failed (words isspace ((framed file (line w) ++ framed file' (line w')) ++ extra)) fs =
      decode os dir failed (words isspace extra) (store dir file' (line w') (store dir file (line w) fs)) := by
  rw [List.append_assoc, words_framed name word, words_framed name' word',
    decode_entry (openable dir own file plain).2 own plain, decode_entry (openable dir own file' plain').2 own plain']
  rfl

theorem decode_msg1 (failed : Str) (fs : Files) (openable : os.Openable) (word1 : IsWord isspace w1) (word2 : IsWord isspace w2)
    (extra : Str) : decode os d2 failed (words isspace (msg1 (line w1) (line w2) ++ extra)) fs =
      decode os d2 failed (words isspace extra) (store d2 file2 (line w2) (store d2 file1 (line w1) fs)) :=
  decode_pair extra openable (.inr rfl) isWord_file1 plain_file1 isWord_file2 plain_file2 word1 word2

theorem decode_msg2 (failed : Str) (fs : Files) (openable : os.Openable) (word3 : IsWord isspace w3) (word4 : IsWord isspace w4)
    (extra : Str) : decode os d1 failed (words isspace (msg2 (line w3) (line w4) ++ extra)) fs =
      decode os d1 failed (words isspace extra) (store d1 file4 (line w4) (store d1 file3 (line w3) fs)) :=
  decode_pair extra openable (.inl rfl) isWord_file3 plain_file3 isWord_file4 plain_file4 word3 word4

theorem nul_framed {file contents : Str} (plain : Plain file) (nul : 0 ∉ contents) : 0 ∉ framed file contents := by
  simp only [framed, List.mem_append, List.mem_cons, List.not_mem_nil, or_false, not_or]
  exact ⟨plain.2.1, by decide, nul, by decide⟩

theorem nul_msg1 (nul : 0 ∉ c1) (nul' : 0 ∉ c2) : 0 ∉ msg1 c1 c2 := fun member =>
  (List.mem_append.mp member).elim (nul_framed plain_file1 nul) (nul_framed plain_file2 nul')

theorem nul_msg2 (nul : 0 ∉ c3) (nul' : 0 ∉ c4) : 0 ∉ msg2 c3 c4 := fun member =>
  (List.mem_append.mp member).elim (nul_framed plain_file3 nul) (nul_framed plain_file4 nul')

theorem length_framed (file contents : Str) : (framed file contents).length = file.length + contents.length + 2 := by
  simp only [framed, List.length_append, List.length_cons, List.length_nil]
  omega

theorem length_msg1 (c1 c2 : Str) : (msg1 c1 c2).length = c1.length + c2.length + 14 := by
  rw [msg1, List.length_append, length_framed, length_framed, show file1.length = 5 from rfl,
    show file2.length = 5 from rfl]
  omega

theorem length_msg2 (c3 c4 : Str) : (msg2 c3 c4).length = c3.length + c4.length + 14 := by
  rw [msg2, List.length_append, length_framed, length_framed, show file3.length = 5 from rfl,
    show file4.length = 5 from rfl]
  omega

theorem Before.child2_whole (h : Before (line w1) (line w2) c3 c4 fs) (openable : os.Openable)
    (word1 : IsWord isspace w1) (word2 : IsWord isspace w2) {beyond : Str}
    (whole : os.received beyond (message (msg1 (line w1) (line w2))) = msg1 (line w1) (line w2)) :
    child2 os beyond (message (msg1 (line w1) (line w2))) fs =
      (store d2 file2 (line w2) (store d2 file1 (line w1) fs), message (msg2 c3 c4)) := by
  have stored := (h.second.store (.inr rfl) file1 (line w1)).store (.inr rfl) file2 (line w2)
  have decoded := decode_msg1 (ascii "Error in create ".toList) fs openable word1 word2 []
  rw [List.append_nil, words_nil, decode_nil] at decoded
  unfold child2
  rw [whole, decoded]
  dsimp only
  rw [encode_pair (.inr rfl) plain_file3 plain_file4 (openable.reads (.inr rfl) plain_second) (stored file3 plain_file3) (stored file4 plain_file4)]
  rfl

theorem received_msg1 (fits : Fits os c1 c2) (nul : 0 ∉ c1) (nul' : 0 ∉ c2) (beyond : Str) :
    os.received beyond (message (msg1 c1 c2)) = msg1 c1 c2 := by
  refine received_whole (nul_msg1 nul nul') ?_ beyond
  rw [length_msg1]
  exact fits

theorem received_msg2 (fits : Fits os c3 c4) (nul : 0 ∉ c3) (nul' : 0 ∉ c4) (beyond : Str) :
    os.received beyond (message (msg2 c3 c4)) = msg2 c3 c4 := by
  refine received_whole (nul_msg2 nul nul') ?_ beyond
  rw [length_msg2]
  exact fits

theorem length_message (msg : Str) : (message msg).length = msg.length + 1 := by simp [message]

/-- With contents of one word each and messages that fit, the run merges the directories. -/
theorem Before.main_whole (h : Before (line w1) (line w2) (line w3) (line w4) fs) (openable : os.Openable)
    (word1 : IsWord isspace w1) (word2 : IsWord isspace w2) (word3 : IsWord isspace w3) (word4 : IsWord isspace w4)
    (nul : ∀ c ∈ [line w1, line w2, line w3, line w4], 0 ∉ c) (fits : Fits os (line w1) (line w2))
    (fits' : Fits os (line w3) (line w4)) (beyond1 beyond2 : Str) :
    ∃ fs', main os beyond1 beyond2 fs = some fs' ∧ Merged (line w1) (line w2) (line w3) (line w4) fs' := by
  have whole1 := received_msg1 fits (nul _ (by simp)) (nul _ (by simp)) beyond2
  have whole2 := received_msg2 fits' (nul _ (by simp)) (nul _ (by simp)) beyond1
  have second := h.child2_whole openable word1 word2 whole1
  let fs2 := store d2 file2 (line w2) (store d2 file1 (line w1) fs)
  have first : child1Receives os beyond1 (message (msg2 (line w3) (line w4))) fs2 =
      (store d1 file4 (line w4) (store d1 file3 (line w3) fs2), none) := by
    have decoded := decode_msg2 (ascii "Error: failed to create ".toList) fs2 openable word3 word4 []
    rw [List.append_nil, words_nil, decode_nil] at decoded
    unfold child1Receives
    rw [whole2, decoded]
  have ends1 : ∀ taken, os.writeEnds (message (msg1 (line w1) (line w2))) taken := by
    refine writeEnds_whole ?_
    rw [length_message, length_msg1]
    exact fits
  have ends2 : ∀ taken, os.writeEnds (message (msg2 (line w3) (line w4))) taken := by
    refine writeEnds_whole ?_
    rw [length_message, length_msg2]
    exact fits'
  refine ⟨store d1 file4 (line w4) (store d1 file3 (line w3) fs2), ?_, ?_, ?_⟩
  · unfold main
    rw [h.sends (openable.reads (.inl rfl) plain_first)]
    dsimp only
    rw [second]
    dsimp only
    rw [if_pos ⟨ends1 _, ends2 _⟩, first]
  · have kept : Holds d1 [(file1, line w1), (file2, line w2)] fs2 :=
      (h.first.store_other (.inl rfl) (.inr rfl) (by decide) _ _).store_other (.inl rfl) (.inr rfl) (by decide) _ _
    refine ((kept.store (.inl rfl) file3 (line w3)).store (.inl rfl) file4 (line w4)).perm ?_ ?_
    · have swapped : ([(file4, line w4), (file3, line w3)] ++ [(file1, line w1), (file2, line w2)]).Perm
          ([(file1, line w1), (file2, line w2)] ++ [(file4, line w4), (file3, line w3)]) := List.perm_append_comm
      exact swapped.trans ((List.Perm.swap _ _ []).append_left _)
    · change [file4, file3, file1, file2].Nodup
      decide
  · have kept : Holds d2 [(file2, line w2), (file1, line w1), (file3, line w3), (file4, line w4)] fs2 :=
      (h.second.store (.inr rfl) file1 (line w1)).store (.inr rfl) file2 (line w2)
    refine Holds.perm ((kept.store_other (.inr rfl) (.inl rfl) (by decide) _ _).store_other
      (.inr rfl) (.inl rfl) (by decide) _ _) (List.Perm.swap _ _ _) ?_
    change [file2, file1, file3, file4].Nodup
    decide

/-- The name of a file that neither directory should hold. -/
def stray : Str := ascii ['x']

theorem plain_stray : Plain stray := by decide

/-- The bytes ` x x`. -/
def strayPair : Str := space :: stray ++ space :: stray

theorem words_strayPair : words isspace strayPair = [stray, stray] := by decide

/-- A message that is cut can be read with a stray file behind it, which the decoder creates. -/
theorem stray_created {dir failed : Str} (openable : os.Openable) (own : dir = d1 ∨ dir = d2) :
    (decode os dir failed (words isspace strayPair) fs).1 (pathOf dir stray) ≠ none := by
  rw [words_strayPair]
  exact decode_first own (fun _ none_ => absurd none_ List.not_mem_nil) (openable dir own stray plain_stray).2 plain_stray

theorem child2_files (beyond bytes : Str) : (child2 os beyond bytes fs).1 =
    (decode os d2 (ascii "Error in create ".toList) (words isspace (os.received beyond bytes)) fs).1 := by
  unfold child2
  dsimp only
  split
  · rfl
  · split <;> rfl

theorem main_later {beyond1 beyond2 msg : Str} {fs' : Files} (sends : child1Sends os fs = .ok msg)
    (ran : main os beyond1 beyond2 fs = some fs') :
    fs' = (child1Receives os beyond1 (child2 os beyond2 (message msg) fs).2 (child2 os beyond2 (message msg) fs).1).1 := by
  unfold main at ran
  rw [sends] at ran
  dsimp only at ran
  split_ifs at ran
  split at ran
  · exact (Option.some.inj ran).symm
  · split_ifs at ran
    exact (Option.some.inj ran).symm

theorem Before.fits1 (h : Before (line w1) (line w2) c3 c4 fs) (openable : os.Openable) (word1 : IsWord isspace w1)
    (word2 : IsWord isspace w2) (nul : 0 ∉ line w1) (nul' : 0 ∉ line w2)
    (merges : Merges os (line w1) (line w2) c3 c4 fs) : Fits os (line w1) (line w2) := by
  by_contra longer
  have cut : min os.bufsiz os.capacity ≤ (msg1 (line w1) (line w2)).length := by
    rw [length_msg1]
    unfold Fits at longer
    omega
  obtain ⟨beyond2, received⟩ := received_cut (nul_msg1 nul nul') (by decide : 0 ∉ strayPair) cut
  obtain ⟨fs', ran, merged⟩ := merges [] beyond2
  have written := main_later (h.sends (openable.reads (.inl rfl) plain_first)) ran
  have created : (child2 os beyond2 (message (msg1 (line w1) (line w2))) fs).1 (pathOf d2 stray) ≠ none := by
    rw [child2_files, received, decode_msg1 _ _ openable word1 word2]
    exact stray_created openable (.inr rfl)
  have kept : fs' (pathOf d2 stray) ≠ none := by
    rw [written]
    exact (child1Receives_written _ _).2 _ created
  exact kept ((merged.second stray plain_stray).trans (by rfl))

theorem Before.fits2 (h : Before (line w1) (line w2) (line w3) (line w4) fs) (openable : os.Openable)
    (word1 : IsWord isspace w1) (word2 : IsWord isspace w2) (word3 : IsWord isspace w3) (word4 : IsWord isspace w4)
    (nul : ∀ c ∈ [line w1, line w2, line w3, line w4], 0 ∉ c) (fits : Fits os (line w1) (line w2))
    (merges : Merges os (line w1) (line w2) (line w3) (line w4) fs) : Fits os (line w3) (line w4) := by
  by_contra longer
  have cut : min os.bufsiz os.capacity ≤ (msg2 (line w3) (line w4)).length := by
    rw [length_msg2]
    unfold Fits at longer
    omega
  obtain ⟨beyond1, received⟩ := received_cut (nul_msg2 (nul _ (by simp)) (nul _ (by simp)))
    (by decide : 0 ∉ strayPair) cut
  obtain ⟨fs', ran, merged⟩ := merges beyond1 []
  have whole := received_msg1 fits (nul _ (by simp)) (nul _ (by simp)) []
  have written := main_later (h.sends (openable.reads (.inl rfl) plain_first)) ran
  rw [h.child2_whole openable word1 word2 whole] at written
  unfold child1Receives at written
  rw [received, decode_msg2 _ _ openable word3 word4] at written
  have created : fs' (pathOf d1 stray) ≠ none := by
    rw [written]
    exact stray_created openable (.inl rfl)
  exact created ((merged.first stray plain_stray).trans (by rfl))

theorem oneWord_of_written {fs' : Files} {p contents : Str} (written : Written fs fs') (absent : fs p = none)
    (present : fs' p = some contents) : OneWord contents := by
  rcases written.1 p with same | ⟨contents', word, put⟩
  · rw [present, absent] at same
    exact nomatch same
  · rw [present, Option.some.injEq] at put
    exact put ▸ word

theorem Before.oneWord (h : Before c1 c2 c3 c4 fs) (merges : Merges os c1 c2 c3 c4 fs) :
    ∀ c ∈ [c1, c2, c3, c4], OneWord c := by
  obtain ⟨fs', ran, merged⟩ := merges [] []
  have written := main_written ran
  simp only [List.mem_cons, List.not_mem_nil, or_false, forall_eq_or_imp, forall_eq]
  refine ⟨?_, ?_, ?_, ?_⟩
  · exact oneWord_of_written written (h.second file1 plain_file1) (merged.second file1 plain_file1)
  · exact oneWord_of_written written (h.second file2 plain_file2) (merged.second file2 plain_file2)
  · exact oneWord_of_written written (h.first file3 plain_file3) (merged.first file3 plain_file3)
  · exact oneWord_of_written written (h.first file4 plain_file4) (merged.first file4 plain_file4)

end Run

/-- The children merge the directories exactly when each content is one word on a line and
both messages fit into one read. -/
theorem merges_iff {os : Os} (openable : os.Openable) {c1 c2 c3 c4 : Str} (nul : ∀ c ∈ [c1, c2, c3, c4], 0 ∉ c)
    {fs : Files} (before : Before c1 c2 c3 c4 fs) :
    Merges os c1 c2 c3 c4 fs ↔
      (∀ c ∈ [c1, c2, c3, c4], OneWord c) ∧ Fits os c1 c2 ∧ Fits os c3 c4 := by
  constructor
  · intro merges
    have oneWord := before.oneWord merges
    obtain ⟨w1, word1, rfl⟩ := oneWord c1 (by simp)
    obtain ⟨w2, word2, rfl⟩ := oneWord c2 (by simp)
    obtain ⟨w3, word3, rfl⟩ := oneWord c3 (by simp)
    obtain ⟨w4, word4, rfl⟩ := oneWord c4 (by simp)
    have fits := before.fits1 openable word1 word2 (nul _ (by simp)) (nul _ (by simp)) merges
    exact ⟨oneWord, fits, before.fits2 openable word1 word2 word3 word4 nul fits merges⟩
  · rintro ⟨oneWord, fits, fits'⟩
    obtain ⟨w1, word1, rfl⟩ := oneWord c1 (by simp)
    obtain ⟨w2, word2, rfl⟩ := oneWord c2 (by simp)
    obtain ⟨w3, word3, rfl⟩ := oneWord c3 (by simp)
    obtain ⟨w4, word4, rfl⟩ := oneWord c4 (by simp)
    exact before.main_whole openable word1 word2 word3 word4 nul fits fits'

/-- A system where every file can be opened, and no path is a detour. -/
def permissive : Os where
  canRead _ := true
  canCreate _ := true
  resolve path := path
  bufsiz := 8192
  capacity := 65536
  bufsiz_pos := by decide
  capacity_pos := by decide
  resolve_entry _ _ _ _ := rfl

theorem permissive_openable : permissive.Openable := fun _ _ _ _ => ⟨rfl, rfl⟩

def directories (c1 c2 c3 c4 : Str) : Files :=
  store d1 file1 c1 (store d1 file2 c2 (store d2 file3 c3 (store d2 file4 c4 fun _ => none)))

theorem directories_before (c1 c2 c3 c4 : Str) : Before c1 c2 c3 c4 (directories c1 c2 c3 c4) := by
  have empty : ∀ dir, Holds dir [] fun _ => none := fun _ _ _ => rfl
  have second := ((empty d2).store (.inr rfl) file4 c4).store (.inr rfl) file3 c3
  have first := ((empty d1).store_other (.inl rfl) (.inr rfl) (by decide) file4 c4).store_other
    (.inl rfl) (.inr rfl) (by decide) file3 c3
  exact ⟨(first.store (.inl rfl) file2 c2).store (.inl rfl) file1 c1,
    (second.store_other (.inr rfl) (.inl rfl) (by decide) file2 c2).store_other (.inr rfl) (.inl rfl) (by decide) file1 c1⟩

def names : List Str := [ascii ['j', 'k'], ascii ['r', 'g'], ascii ['c', 'k'], ascii ['s', 'h']]

theorem merges_names : let contents := fun i => line (names.getD i [])
    Merges permissive (contents 0) (contents 1) (contents 2) (contents 3)
      (directories (contents 0) (contents 1) (contents 2) (contents 3)) := by
  refine (merges_iff permissive_openable (by decide) (directories_before _ _ _ _)).mpr
    ⟨?_, by unfold Fits; decide, by unfold Fits; decide⟩
  have word : ∀ w ∈ names, w ≠ [] ∧ ∀ a ∈ w, isspace a = false := by decide +kernel
  intro c member
  obtain ⟨w, own, rfl⟩ : ∃ w ∈ names, c = line w := by
    simp only [List.mem_cons, List.not_mem_nil, or_false] at member
    rcases member with rfl | rfl | rfl | rfl <;> exact ⟨_, by decide, rfl⟩
  exact ⟨w, ⟨(word w own).1, (word w own).2⟩, rfl⟩

/-- Two words in the first file. -/
theorem two_words_split : ¬ ∀ (os : Os), os.Openable → ∀ c1 c2 c3 c4 : Str, (∀ c ∈ [c1, c2, c3, c4], 0 ∉ c) →
    ∀ fs, Before c1 c2 c3 c4 fs → Merges os c1 c2 c3 c4 fs := by
  intro claim
  let two : Str := ascii ['a', ' ', 'b']
  let one : Str := line stray
  have before := directories_before (line two) one one one
  have merges := claim permissive permissive_openable (line two) one one one (by decide) _ before
  obtain ⟨w, word, same⟩ := before.oneWord merges (line two) (by simp)
  have eq : two = w := List.append_cancel_right same
  have solid := word.solid space (eq ▸ by decide)
  exact Bool.false_ne_true (solid.symm.trans isspace_space)

end NetworkOs.Pipes
