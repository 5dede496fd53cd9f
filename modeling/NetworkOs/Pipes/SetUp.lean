import NetworkOs.Pipes.Eager

/-! The whole program: the shell commands that make the files, then the children. What it
leaves depends neither on what the eight files were before nor on the schedule. -/
namespace NetworkOs.Pipes
open Runs Words

/-- What is echoed into the four files. -/
def text1 : Str := ascii "jaya_krishna".toList
def text2 : Str := ascii "Raja_Gopal".toList
def text3 : Str := ascii "Chenna_Keshava".toList
def text4 : Str := ascii "Souhardya_Halder".toList

/-- `echo 'text' > path`, by a shell that goes on when it cannot open the path. -/
def echo (os : Os) (path text : Str) (fs : Files) : Files :=
  if os.canCreate path then Function.update fs (os.resolve path) (some (line text)) else fs

/-- The commands before the forks. A `mkdir` changes no file. -/
def setUp (os : Os) (fs : Files) : Files :=
  echo os (pathOf d2 file4) text4 (echo os (pathOf d2 file3) text3
    (echo os (pathOf d1 file2) text2 (echo os (pathOf d1 file1) text1 fs)))

/-- The files that both directories are to hold. -/
def texts : List (Str × Str) :=
  [(file1, text1), (file2, text2), (file3, text3), (file4, text4)]

/-- Both directories hold them, and every other path has what it had. -/
structure Shares (fs fs' : Files) : Prop where
  copied : ∀ dir ∈ [d1, d2], ∀ entry ∈ texts, fs' (pathOf dir entry.1) = some (line entry.2)
  kept : ∀ path, (∀ dir ∈ [d1, d2], ∀ entry ∈ texts, path ≠ pathOf dir entry.1) → fs' path = fs path

/-- The program run on `fs`, with eager writes: the children cannot go on for ever, as long as one of
them can go on it can do so eagerly, and when neither can both are done and the files are `fs'`. -/
structure Leaves (os : Os) (fs fs' : Files) (beyond1 beyond2 : Str) : Prop where
  ends : ∀ states : Nat → State, ∃ i, ∀ turn, step os beyond1 beyond2 (states i) turn ≠ some (states (i + 1))
  goes_on : ∀ s, ¬ Stuck (step os beyond1 beyond2) s →
    ∃ turn t, Eager os s turn ∧ step os beyond1 beyond2 s turn = some t
  result : ∀ turns s, Guarded (step os beyond1 beyond2) (Eager os) (start (setUp os fs)) turns →
    run (step os beyond1 beyond2) (start (setUp os fs)) turns = some s →
      Stuck (step os beyond1 beyond2) s → Finished s ∧ s.files = fs'

section Stores
variable {os : Os} {w1 w2 w3 w4 : Str} {fs : Files}

theorem isWord_texts : ∀ text ∈ texts.map Prod.snd, IsWord isspace text := by
  have solid : ∀ text ∈ texts.map Prod.snd, text ≠ [] ∧ ∀ a ∈ text, isspace a = false := by decide +kernel
  exact fun text member => ⟨(solid text member).1, (solid text member).2⟩

theorem nul_texts : ∀ text ∈ texts.map Prod.snd, 0 ∉ line text := by decide +kernel

theorem echo_store (openable : os.Openable) {dir file : Str} (own : dir = d1 ∨ dir = d2) (plain : Plain file)
    (text : Str) : echo os (pathOf dir file) text fs = store dir file (line text) fs := by
  rw [echo, if_pos (openable dir own file plain).2, os.resolve_entry dir own file plain]
  rfl

theorem setUp_stores (openable : os.Openable) (fs : Files) : setUp os fs =
    store d2 file4 (line text4) (store d2 file3 (line text3)
      (store d1 file2 (line text2) (store d1 file1 (line text1) fs))) := by
  unfold setUp
  rw [echo_store openable (.inl rfl) plain_file1, echo_store openable (.inl rfl) plain_file2,
    echo_store openable (.inr rfl) plain_file3, echo_store openable (.inr rfl) plain_file4]

/-- Where each child finds its two files with one word on a line, the run stores the
files of the other one, whatever else there is. -/
theorem main_stores (openable : os.Openable) (held1 : fs (pathOf d1 file1) = some (line w1))
    (held2 : fs (pathOf d1 file2) = some (line w2)) (held3 : fs (pathOf d2 file3) = some (line w3))
    (held4 : fs (pathOf d2 file4) = some (line w4)) (words_ : ∀ w ∈ [w1, w2, w3, w4], IsWord isspace w)
    (nul : ∀ w ∈ [w1, w2, w3, w4], 0 ∉ line w) (fits : Fits os (line w1) (line w2))
    (fits' : Fits os (line w3) (line w4)) (beyond1 beyond2 : Str) :
    main os beyond1 beyond2 fs = some (store d1 file4 (line w4) (store d1 file3 (line w3)
      (store d2 file2 (line w2) (store d2 file1 (line w1) fs)))) := by
  let fs2 := store d2 file2 (line w2) (store d2 file1 (line w1) fs)
  have sends : child1Sends os fs = .ok (msg1 (line w1) (line w2)) :=
    encode_pair (.inl rfl) plain_file1 plain_file2 (openable.reads (.inl rfl) plain_first) held1 held2
  have second : child2 os beyond2 (message (msg1 (line w1) (line w2))) fs =
      (fs2, message (msg2 (line w3) (line w4))) := by
    have decoded := decode_msg1 (ascii "Error in create ".toList) fs openable (words_ w1 (by simp))
      (words_ w2 (by simp)) []
    rw [List.append_nil, words_nil, decode_nil] at decoded
    unfold child2
    rw [received_msg1 fits (nul _ (by simp)) (nul _ (by simp)), decoded]
    dsimp only
    have held3' : fs2 (pathOf d2 file3) = some (line w3) := by
      rw [← held3]
      rfl
    have held4' : fs2 (pathOf d2 file4) = some (line w4) := by
      rw [← held4]
      rfl
    rw [encode_pair (.inr rfl) plain_file3 plain_file4 (openable.reads (.inr rfl) plain_second) held3' held4']
    rfl
  have first : child1Receives os beyond1 (message (msg2 (line w3) (line w4))) fs2 =
      (store d1 file4 (line w4) (store d1 file3 (line w3) fs2), none) := by
    have decoded := decode_msg2 (ascii "Error: failed to create ".toList) fs2 openable (words_ w3 (by simp))
      (words_ w4 (by simp)) []
    rw [List.append_nil, words_nil, decode_nil] at decoded
    unfold child1Receives
    rw [received_msg2 fits' (nul _ (by simp)) (nul _ (by simp)), decoded]
  have ends1 : ∀ taken, os.writeEnds (message (msg1 (line w1) (line w2))) taken := by
    refine writeEnds_whole ?_
    rw [length_message, length_msg1]
    exact fits
  have ends2 : ∀ taken, os.writeEnds (message (msg2 (line w3) (line w4))) taken := by
    refine writeEnds_whole ?_
    rw [length_message, length_msg2]
    exact fits'
  unfold main
  rw [sends]
  dsimp only
  rw [second]
  dsimp only
  rw [if_pos ⟨ends1 _, ends2 _⟩, first]

end Stores

/-- What the program leaves. -/
def shared (os : Os) (fs : Files) : Files :=
  store d1 file4 (line text4) (store d1 file3 (line text3)
    (store d2 file2 (line text2) (store d2 file1 (line text1) (setUp os fs))))

section Program
variable {os : Os} {fs fs' fs'' : Files}

theorem main_shared (openable : os.Openable) (room : 47 ≤ min os.bufsiz os.capacity) (fs : Files)
    (beyond1 beyond2 : Str) : main os beyond1 beyond2 (setUp os fs) = some (shared os fs) := by
  have set_ := setUp_stores openable fs
  have fits : Fits os (line text1) (line text2) := le_trans (by decide) room
  have fits' : Fits os (line text3) (line text4) := le_trans (by decide) room
  refine main_stores openable ?_ ?_ ?_ ?_ ?_ ?_ fits fits' beyond1 beyond2
  · rw [set_]
    rfl
  · rw [set_]
    rfl
  · rw [set_]
    rfl
  · rw [set_]
    rfl
  · exact isWord_texts
  · exact nul_texts

theorem shares_shared (openable : os.Openable) (fs : Files) : Shares fs (shared os fs) := by
  unfold shared
  rw [setUp_stores openable]
  constructor
  · simp only [List.forall_mem_cons, texts]
    exact ⟨⟨rfl, rfl, rfl, rfl, by simp⟩, ⟨rfl, rfl, rfl, rfl, by simp⟩, by simp⟩
  · intro path other
    simp only [List.forall_mem_cons, texts] at other
    obtain ⟨⟨a1, a2, a3, a4, -⟩, ⟨b1, b2, b3, b4, -⟩, -⟩ := other
    simp only [store, Function.update_of_ne, ne_eq, not_false_eq_true, a1, a2, a3, a4, b1, b2, b3, b4]

/-- There is only one way to share the files. -/
theorem Shares.eq (first : Shares fs fs') (again : Shares fs' fs'') : fs'' = fs' := by
  funext path
  by_cases other : ∀ dir ∈ [d1, d2], ∀ entry ∈ texts, path ≠ pathOf dir entry.1
  · exact again.kept path other
  · simp only [not_forall, not_not] at other
    obtain ⟨dir, own, entry, member, rfl⟩ := other
    exact (again.copied dir own entry member).trans (first.copied dir own entry member).symm

theorem leaves_shared (openable : os.Openable) (room : 47 ≤ min os.bufsiz os.capacity) (fs : Files)
    (beyond1 beyond2 : Str) : Leaves os fs (shared os fs) beyond1 beyond2 where
  ends states := by
    obtain ⟨i, higher⟩ := WellFounded.not_rel_apply_succ (r := (· < ·)) fun i => (states i).rank
    exact ⟨i, fun turn taken => higher (rank_step taken)⟩
  goes_on s more := by
    obtain ⟨turn, moves⟩ := not_forall.mp more
    obtain ⟨t, taken⟩ := Option.ne_none_iff_exists'.mp moves
    exact exists_eager taken
  result turns s eager ran stuck := by
    have result := main_shared openable room fs beyond1 beyond2
    have finished := ((eager_runs_end_as_main os beyond1 beyond2 (setUp os fs)).1 turns s eager ran stuck).mpr
      (result ▸ rfl)
    obtain ⟨pass, roomy⟩ := eager_pass eager ran
    exact ⟨finished, Option.some.inj ((pass.finished roomy finished).symm.trans result)⟩

end Program

/-- Whatever the files were, and in whatever order the children run, both directories hold the four
files afterwards and no other file has changed. Run again, the program leaves everything so. -/
theorem program_shares_files {os : Os} (openable : os.Openable) (room : 47 ≤ min os.bufsiz os.capacity)
    (fs : Files) (beyond1 beyond2 : Str) :
    ∃ fs', Shares fs fs' ∧ Leaves os fs fs' beyond1 beyond2 ∧
      ∀ beyond1 beyond2, Leaves os fs' fs' beyond1 beyond2 := by
  have shares := shares_shared openable fs
  refine ⟨shared os fs, shares, leaves_shared openable room fs beyond1 beyond2, fun beyond1 beyond2 => ?_⟩
  have again := leaves_shared openable room (shared os fs) beyond1 beyond2
  rwa [shares.eq (shares_shared openable (shared os fs))] at again

theorem program_shares_files_empty : ∃ fs', Shares (fun _ => none) fs' ∧
    Leaves permissive (fun _ => none) fs' [] [] ∧ ∀ beyond1 beyond2, Leaves permissive fs' fs' beyond1 beyond2 :=
  program_shares_files permissive_openable (by decide) (fun _ => none) [] []

end NetworkOs.Pipes
