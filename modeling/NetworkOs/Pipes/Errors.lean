import NetworkOs.Pipes.Merging

/-! What the children leave in the directories when files cannot be read or created. A
message about an error travels like the files, and the other child decodes it. -/
namespace NetworkOs.Pipes
open Words

/-- What `+=` takes of a message. -/
def text (msg : Str) : Str := msg.takeWhile (· ≠ 0)

/-- The first read finds a NUL. -/
def Arrives (os : Os) (msg : Str) : Prop := 0 ∈ os.chunk (message msg)

def fourFiles : List Str := [file1, file2, file3, file4]

/-- A name that neither directory should get. -/
structure Stray (name : Str) : Prop where
  plain : Plain name
  unknown : name ∉ fourFiles

instance (name : Str) : Decidable (Stray name) :=
  decidable_of_iff (Plain name ∧ name ∉ fourFiles) ⟨fun h => ⟨h.1, h.2⟩, fun h => ⟨h.plain, h.unknown⟩⟩

/-- The directories hold files of the four names only. -/
def Tidy (fs : Files) : Prop :=
  ∀ dir, dir = d1 ∨ dir = d2 → ∀ name, Plain name → fs (pathOf dir name) ≠ none → name ∈ fourFiles

/-- So they do whenever both children have finished. -/
def LeavesTidy (os : Os) (fs : Files) : Prop :=
  ∀ beyond1 beyond2 fs', main os beyond1 beyond2 fs = some fs' → Tidy fs'

def Finishes (os : Os) (fs : Files) : Prop := ∀ beyond1 beyond2, ∃ fs', main os beyond1 beyond2 fs = some fs'

/-- Only the four copies can fail to be created. -/
def OnlyDestinations (os : Os) : Prop :=
  ∀ dir, dir = d1 ∨ dir = d2 → ∀ name, Plain name → os.canCreate (pathOf dir name) = false →
    (dir, name) ∈ [(d2, file1), (d2, file2), (d1, file3), (d1, file4)]

/-- Child 1 fails at a file whose name it has read to the end. -/
def Stops (os : Os) (w3 : Str) : Prop :=
  os.canCreate (pathOf d1 file3) = false ∧ 6 ≤ min os.bufsiz os.capacity ∨
    os.canCreate (pathOf d1 file4) = false ∧ (framed file3 (line w3)).length + 6 ≤ min os.bufsiz os.capacity

/-- No message about an error is sent to a child that reads it, and no name is cut. -/
structure Harmless (os : Os) (w1 w2 w3 w4 : Str) : Prop where
  reads1 : ∀ name ∈ [file1, file2], os.canRead (pathOf d1 name) = true
  arrives1 : Arrives os (msg1 (line w1) (line w2))
  creates : ∀ name ∈ targets (words isspace (text (msg1 (line w1) (line w2)))), os.canCreate (pathOf d2 name) = true
  reads2 : ∀ name ∈ [file3, file4], os.canRead (pathOf d2 name) = true
  arrives2 : Arrives os (msg2 (line w3) (line w4)) ∨ Stops os w3

section Decoding
variable {os : Os} {dir failed : Str} {tokens : List Str} {fs : Files}

theorem decode_fails (failed : Str) (fs : Files) {name : Str} (member : name ∈ targets tokens)
    (fails : os.canCreate (pathOf dir name) = false) :
    ∃ path, (decode os dir failed tokens fs).2 = some (failed ++ path) := by
  induction tokens, fs using decode.induct os dir with
  | case1 file contents rest fs creates ih =>
      rw [decode, if_pos creates]
      rcases List.mem_cons.mp member with rfl | later
      · exact absurd creates (Bool.eq_false_iff.mp fails)
      · exact ih later
  | case2 file contents rest fs fails_ => exact ⟨_, by rw [decode, if_neg fails_]⟩
  | case3 tokens fs short =>
      rw [targets] at member
      · exact absurd member List.not_mem_nil
      · exact short

/-- The decoder writes to the files it takes the names of. -/
theorem decode_frame {p : Str} (apart : ∀ name ∈ targets tokens, p ≠ os.resolve (pathOf dir name)) :
    (decode os dir failed tokens fs).1 p = fs p := by
  induction tokens, fs using decode.induct os dir with
  | case1 file contents rest fs creates ih =>
      rw [decode, if_pos creates, ih fun name later => apart name (List.mem_cons_of_mem _ later)]
      exact Function.update_of_ne (apart file List.mem_cons_self) _ _
  | case2 file contents rest fs fails => rw [decode, if_neg fails]
  | case3 tokens fs short =>
      rw [decode]
      exact short

theorem decode_created (failed : Str) (fs : Files) {name : Str} (own : dir = d1 ∨ dir = d2)
    (solid : ∀ w ∈ tokens, IsWord isspace w)
    (creates : ∀ name ∈ targets tokens, os.canCreate (pathOf dir name) = true) (member : name ∈ targets tokens)
    (plain : Plain name) : (decode os dir failed tokens fs).1 (pathOf dir name) ≠ none := by
  induction tokens, fs using decode.induct os dir with
  | case1 file contents rest fs creates_ ih =>
      have solid_ : ∀ w ∈ rest, IsWord isspace w :=
        fun w later => solid w (List.mem_cons_of_mem _ (List.mem_cons_of_mem _ later))
      rcases List.mem_cons.mp member with rfl | later
      · exact decode_first own solid_ creates_ plain
      · rw [decode, if_pos creates_]
        exact ih solid_ (fun name later => creates name (List.mem_cons_of_mem _ later)) later
  | case2 file contents rest fs fails => exact absurd (creates file List.mem_cons_self) fails
  | case3 tokens fs short =>
      rw [targets] at member
      · exact absurd member List.not_mem_nil
      · exact short

theorem encode_fails (dir failed : Str) (fs : Files) {file file' name : Str} (member : name ∈ [file, file'])
    (unread : os.canRead (pathOf dir name) = false) :
    ∃ path, encode os dir failed [file, file'] fs = .error (failed ++ path) := by
  have unread_ : os.readFile (pathOf dir name) fs = none := if_neg (Bool.eq_false_iff.mp unread)
  simp only [encode, List.foldlM_cons, List.foldlM_nil]
  cases first : os.readFile (pathOf dir file) fs with
  | none => exact ⟨_, rfl⟩
  | some contents =>
      have second : os.readFile (pathOf dir file') fs = none := by
        rcases List.mem_cons.mp member with rfl | later
        · exact absurd (first.symm.trans unread_) (Option.some_ne_none _)
        · rwa [← List.mem_singleton.mp later]
      rw [second]
      exact ⟨_, rfl⟩

end Decoding

section Reading
variable {os : Os} {msg p q : Str}

theorem takeWhile_of_mem {a : Str} (nul : 0 ∈ a) (b : Str) :
    (a ++ b).takeWhile (· ≠ 0) = a.takeWhile (· ≠ 0) := by
  rw [List.takeWhile_append, if_neg]
  intro whole
  have all := List.takeWhile_eq_self_iff.mp ((List.takeWhile_prefix _).eq_of_length whole)
  exact absurd (all 0 nul) (by decide)

theorem text_message (msg : Str) : (message msg).takeWhile (· ≠ 0) = text msg := by
  by_cases nul : 0 ∈ msg
  · exact takeWhile_of_mem nul _
  · refine (takeWhile_nonzero nul []).trans (List.takeWhile_eq_self_iff.mpr ?_).symm
    exact fun b member => decide_eq_true fun zero => nul (zero ▸ member)

theorem received_arrived (arrives : Arrives os msg) (beyond : Str) :
    os.received beyond (message msg) = text msg := by
  have some_ : 0 < (os.chunk (message msg)).length := List.length_pos_of_mem arrives
  have whole : os.chunk (message msg) ++ (message msg).drop (min os.bufsiz os.capacity) = message msg :=
    List.take_append_drop _ _
  unfold Os.received
  rw [if_pos some_, takeWhile_of_mem arrives, ← takeWhile_of_mem arrives, whole, text_message]

/-- If it is not longer than a read, then it is read. -/
theorem received_begins (nul : 0 ∉ p) (fits : p.length ≤ min os.bufsiz os.capacity) (some_ : p ≠ []) (q beyond : Str) :
    ∃ rest, os.received beyond (message (p ++ q)) = p ++ rest := by
  have chunk : os.chunk (message (p ++ q)) = p ++ (message q).take (min os.bufsiz os.capacity - p.length) := by
    rw [message, List.append_assoc, ← message, Os.chunk, List.take_append, List.take_of_length_le fits]
  have positive := List.length_pos_of_ne_nil some_
  refine ⟨(((message q).take (min os.bufsiz os.capacity - p.length)) ++ beyond).takeWhile (· ≠ 0), ?_⟩
  unfold Os.received
  rw [chunk, if_pos (by rw [List.length_append]; omega), List.append_assoc, List.takeWhile_append_of_pos]
  exact fun b member => decide_eq_true fun zero => nul (zero ▸ member)

/-- What a message begins with is read, of a longer one with the bytes that lie beyond. -/
theorem received_extends (os : Os) (nul : 0 ∉ p) (some_ : p ≠ []) (q : Str) :
    ∃ beyond rest, os.received beyond (message (p ++ q)) = p ++ rest := by
  by_cases fits : p.length ≤ min os.bufsiz os.capacity
  · exact ⟨[], received_begins nul fits some_ q []⟩
  · have chunk : os.chunk (message (p ++ q)) = p.take (min os.bufsiz os.capacity) := by
      rw [message, List.append_assoc, Os.chunk, List.take_append_of_le_length (Nat.le_of_not_le fits)]
    obtain ⟨beyond, received⟩ := received_target (chunk ▸ List.take_prefix _ _) nul
    exact ⟨beyond, [], by rw [received, List.append_nil]⟩

end Reading

/-- The first words of a message of child 1 about a file that it cannot read. -/
def errorColon : Str := ascii ['E', 'r', 'r', 'o', 'r', ':']
def failed : Str := ascii ['f', 'a', 'i', 'l', 'e', 'd']

/-- The first words of a message of child 2 about any file. -/
def error : Str := ascii ['E', 'r', 'r', 'o', 'r']
def in_ : Str := ascii ['i', 'n']

section Names

theorem stray_names : ∀ name ∈ [stray, errorColon, error], Stray name := by decide

theorem plain_four : ∀ name ∈ fourFiles, Plain name := by decide

theorem not_first_of_second : ∀ name ∈ [file3, file4], name ∉ [file1, file2] := by decide

theorem solid_words : ∀ w ∈ [errorColon, failed, error, in_], w ≠ [] ∧ (∀ b ∈ w, isspace b = false) ∧ 0 ∉ w := by
  decide +kernel

theorem stray_stray : Stray stray := stray_names stray (by simp)
theorem stray_errorColon : Stray errorColon := stray_names errorColon (by simp)
theorem stray_error : Stray error := stray_names error (by simp)

end Names

section Strays
variable {os : Os} {dir name : Str} {fs : Files}

theorem OnlyDestinations.creates (destinations : OnlyDestinations os) (own : dir = d1 ∨ dir = d2) (h : Stray name) :
    os.canCreate (pathOf dir name) = true := by
  by_contra fails
  have one := destinations dir own name h.plain (Bool.eq_false_iff.mpr fails)
  refine h.unknown ?_
  simp only [List.mem_cons, Prod.mk.injEq, List.not_mem_nil, or_false] at one
  rcases one with ⟨-, rfl⟩ | ⟨-, rfl⟩ | ⟨-, rfl⟩ | ⟨-, rfl⟩ <;> simp [fourFiles]

/-- What both directories are after a message about an error was decoded. -/
theorem Stray.untidy (h : Stray name) (own : dir = d1 ∨ dir = d2) (created : fs (pathOf dir name) ≠ none) : ¬ Tidy fs :=
  fun tidy => h.unknown (tidy dir own name h.plain created)

theorem main_sooner {beyond1 beyond2 failure : Str} {fs' : Files} (sends : child1Sends os fs = .error failure)
    (ran : main os beyond1 beyond2 fs = some fs') : fs' = (child2 os beyond2 (message failure) fs).1 := by
  unfold main at ran
  rw [sends] at ran
  dsimp only at ran
  split_ifs at ran
  exact (Option.some.inj ran).symm

theorem words_two {w w' : Str} (word : IsWord isspace w) (word' : IsWord isspace w') (rest : Str) :
    words isspace (w ++ space :: (w' ++ space :: rest)) = w :: w' :: words isspace rest := by
  rw [word.words_append _ isspace_space, word'.words_append _ isspace_space]

/-- A message can create the file that its first word names. -/
theorem Stray.decoded (h : Stray name) (destinations : OnlyDestinations os) (own : dir = d1 ∨ dir = d2) {w : Str}
    (first : name ∈ [errorColon, failed, error, in_]) (second : w ∈ [errorColon, failed, error, in_]) (q : Str) :
    ∃ beyond, ∀ failed fs,
      (decode os dir failed (words isspace (os.received beyond (message (name ++ space :: (w ++ space :: q))))) fs).1
        (pathOf dir name) ≠ none := by
  obtain ⟨nonempty, solid, nul⟩ := solid_words name first
  obtain ⟨nonempty', solid', nul'⟩ := solid_words w second
  let p : Str := name ++ space :: (w ++ [space])
  have shape : ∀ rest, name ++ space :: (w ++ space :: rest) = p ++ rest := by simp [p]
  have nul_ : 0 ∉ p := by
    simp only [p, List.mem_append, List.mem_cons, List.not_mem_nil, or_false, not_or]
    exact ⟨nul, by decide, nul', by decide⟩
  obtain ⟨beyond, rest, received⟩ := received_extends os nul_ (by simp [p]) q
  refine ⟨beyond, fun failed fs => ?_⟩
  rw [shape, received, ← shape, words_two ⟨nonempty, solid⟩ ⟨nonempty', solid'⟩]
  exact decode_first own (fun _ member => isWord_of_mem member) (destinations.creates own h) h.plain

theorem untidy_of_failure (destinations : OnlyDestinations os) (finishes : Finishes os fs) {path : Str}
    (sends : child1Sends os fs = .error (ascii "Error: failed to read ".toList ++ path)) : ¬ LeavesTidy os fs := by
  obtain ⟨beyond2, created⟩ := stray_errorColon.decoded destinations (.inr rfl) (w := failed) (by simp) (by simp)
    (ascii "to read ".toList ++ path)
  obtain ⟨fs', ran⟩ := finishes [] beyond2
  intro leaves
  refine stray_errorColon.untidy (.inr rfl) ?_ (leaves _ _ _ ran)
  rw [main_sooner sends ran, child2_files]
  exact created _ _

theorem untidy_of_reply (destinations : OnlyDestinations os) (finishes : Finishes os fs) {msg beyond2 path : Str}
    (sends : child1Sends os fs = .ok msg)
    (reply : (child2 os beyond2 (message msg) fs).2 = message (ascii "Error in ".toList ++ path)) :
    ¬ LeavesTidy os fs := by
  obtain ⟨beyond1, created⟩ := stray_error.decoded destinations (.inl rfl) (w := in_) (by simp) (by simp) path
  obtain ⟨fs', ran⟩ := finishes beyond1 beyond2
  intro leaves
  refine stray_error.untidy (.inl rfl) ?_ (leaves _ _ _ ran)
  rw [main_later sends ran, reply]
  exact created _ _

end Strays

section Child2
variable {os : Os} {beyond bytes : Str} {fs : Files} {c1 c2 c3 c4 name : Str}

/-- What child 2 decodes. -/
def heard (os : Os) (beyond bytes : Str) : List Str := words isspace (os.received beyond bytes)

theorem heard_words : ∀ w ∈ heard os beyond bytes, IsWord isspace w := fun _ member => isWord_of_mem member

theorem child2_fails (fs : Files) (member : name ∈ targets (heard os beyond bytes))
    (fails : os.canCreate (pathOf d2 name) = false) :
    ∃ path, (child2 os beyond bytes fs).2 = message (ascii "Error in ".toList ++ path) := by
  obtain ⟨path, failed⟩ := decode_fails (ascii "Error in create ".toList) fs member fails
  refine ⟨ascii "create ".toList ++ path, ?_⟩
  unfold child2
  unfold heard at failed
  dsimp only
  rw [failed]
  rfl

theorem child2_unread (fs : Files)
    (creates : ∀ name ∈ targets (heard os beyond bytes), os.canCreate (pathOf d2 name) = true)
    (member : name ∈ [file3, file4]) (unread : os.canRead (pathOf d2 name) = false) :
    ∃ path, (child2 os beyond bytes fs).2 = message (ascii "Error in ".toList ++ path) := by
  have decoded := decode_completes (ascii "Error in create ".toList) fs creates
  unfold heard at decoded
  unfold child2
  dsimp only
  rw [decoded]
  obtain ⟨path, failed⟩ := encode_fails d2 (ascii "Error in read ".toList)
    (decode os d2 (ascii "Error in create ".toList) (words isspace (os.received beyond bytes)) fs).1 member unread
  refine ⟨ascii "read ".toList ++ path, ?_⟩
  dsimp only
  rw [failed]
  rfl

/-- Without an error child 2 sends its own files. -/
theorem child2_replies (creates : ∀ name ∈ targets (heard os beyond bytes), os.canCreate (pathOf d2 name) = true)
    (reads : ∀ name ∈ [file3, file4], os.canRead (pathOf d2 name) = true)
    (held : Holds d2 [(file3, c3), (file4, c4)] fs)
    (apart : ∀ name ∈ targets (heard os beyond bytes), name ∈ [file1, file2]) :
    (child2 os beyond bytes fs).2 = message (msg2 c3 c4) := by
  have decoded := decode_completes (ascii "Error in create ".toList) fs creates
  have kept : ∀ name ∈ [file3, file4], (decode os d2 (ascii "Error in create ".toList)
      (words isspace (os.received beyond bytes)) fs).1 (pathOf d2 name) = fs (pathOf d2 name) := by
    intro name member
    refine decode_frame fun name' target same => ?_
    have own := apart name' target
    rw [os.resolve_entry d2 (.inr rfl) name' (plain_first name' own)] at same
    exact not_first_of_second name member ((pathOf_inj (.inr rfl) (.inr rfl) same).2 ▸ own)
  unfold heard at decoded
  unfold child2
  dsimp only
  rw [decoded]
  dsimp only
  rw [encode_pair (.inr rfl) plain_file3 plain_file4 reads ((kept _ (by simp)).trans (held file3 plain_file3))
    ((kept _ (by simp)).trans (held file4 plain_file4))]
  rfl

end Child2

section Needs
variable {os : Os} {fs : Files} {msg : Str}

/-- If nothing strays, child 2 can create all it takes the names of. -/
theorem creates_all (destinations : OnlyDestinations os) (finishes : Finishes os fs) (leaves : LeavesTidy os fs)
    (sends : child1Sends os fs = .ok msg) (beyond2 : Str) :
    ∀ name ∈ targets (heard os beyond2 (message msg)), os.canCreate (pathOf d2 name) = true := by
  intro name member
  by_contra fails
  obtain ⟨path, reply⟩ := child2_fails fs member (Bool.eq_false_iff.mpr fails)
  exact untidy_of_reply destinations finishes sends reply leaves

theorem words_strays : words isspace (stray ++ space :: strayPair) = [stray, stray, stray] := by decide

theorem stray_target : ∀ tokens, stray ∈ targets (tokens ++ [stray, stray, stray])
  | [] => List.mem_cons_self
  | [_] => List.mem_cons_of_mem _ List.mem_cons_self
  | _ :: _ :: rest => List.mem_cons_of_mem _ (stray_target rest)

theorem arrives_first (destinations : OnlyDestinations os) (finishes : Finishes os fs) (leaves : LeavesTidy os fs)
    (sends : child1Sends os fs = .ok msg) : Arrives os msg := by
  by_contra cut
  let more : Str := space :: (stray ++ space :: strayPair)
  have nul : 0 ∉ os.chunk (message msg) ++ more := by
    have nul_ : 0 ∉ stray := plain_stray.2.1
    simp only [more, strayPair, List.mem_append, List.mem_cons, not_or]
    exact ⟨cut, by decide, nul_, by decide, ⟨by decide, nul_⟩, by decide, nul_⟩
  obtain ⟨beyond2, received⟩ := received_target (List.prefix_append _ _) nul
  have target : stray ∈ targets (heard os beyond2 (message msg)) := by
    rw [heard, received, words_append _ _ isspace_space, words_strays]
    exact stray_target _
  have creates := creates_all destinations finishes leaves sends beyond2
  obtain ⟨fs', ran⟩ := finishes [] beyond2
  have created := decode_created (ascii "Error in create ".toList) fs (.inr rfl) heard_words creates
    target plain_stray
  refine stray_stray.untidy (.inr rfl) ?_ (leaves _ _ _ ran)
  rw [main_later sends ran]
  refine (child1Receives_written _ _).2 _ ?_
  rw [child2_files]
  exact created

end Needs

section Texts
variable {os : Os} {dir file file' w w' rest name : Str} {fs : Files}

theorem IsWord.text_words (word : IsWord isspace w) : words isspace (text w) = [] ∨ words isspace (text w) = [text w] := by
  by_cases none_ : text w = []
  · exact .inl (none_ ▸ words_nil)
  · exact .inr (IsWord.words_eq ⟨none_, fun b member => word.solid b ((List.takeWhile_prefix _).subset member)⟩)

/-- A NUL in a content ends the message after the name of the file. -/
theorem target_framed (isFile : IsWord isspace file) (plain : Plain file) (word : IsWord isspace w)
    (target : name ∈ targets (words isspace (text (framed file (line w) ++ rest)))) :
    name = file ∨ name ∈ targets (words isspace (text rest)) := by
  have shape : framed file (line w) ++ rest = (file ++ [space]) ++ (w ++ ([newline, newline] ++ rest)) := by
    simp [framed, line]
  have before : text (framed file (line w) ++ rest) = file ++ space :: text (w ++ ([newline, newline] ++ rest)) := by
    rw [shape, text, List.takeWhile_append_of_pos]
    · rw [List.append_assoc]
      rfl
    · intro b member
      refine decide_eq_true fun zero => ?_
      subst zero
      rcases List.mem_append.mp member with inside | blank
      · exact plain.2.1 inside
      · exact absurd (List.mem_singleton.mp blank) (by decide)
  by_cases nul : 0 ∈ w
  · have cut : text (w ++ ([newline, newline] ++ rest)) = text w := takeWhile_of_mem nul _
    rw [before, cut, isFile.words_append _ isspace_space] at target
    rcases IsWord.text_words word with none_ | one
    · rw [none_] at target
      exact absurd target List.not_mem_nil
    · rw [one] at target
      exact .inl (List.mem_singleton.mp target)
  · have solid : ∀ b ∈ framed file (line w), decide (b ≠ 0) = true := fun b member =>
      decide_eq_true fun zero => nul_framed plain (by simpa [line, newline] using nul) (zero ▸ member)
    rw [text, List.takeWhile_append_of_pos solid, words_framed isFile word] at target
    exact List.mem_cons.mp target

theorem target_pair (isFile : IsWord isspace file) (plain : Plain file) (word : IsWord isspace w)
    (isFile' : IsWord isspace file') (plain' : Plain file') (word' : IsWord isspace w')
    (target : name ∈ targets (words isspace (text (framed file (line w) ++ framed file' (line w'))))) :
    name ∈ [file, file'] := by
  rcases target_framed isFile plain word target with rfl | later
  · exact List.mem_cons_self
  · rw [← List.append_nil (framed file' _)] at later
    rcases target_framed isFile' plain' word' later with rfl | none_
    · exact List.mem_cons_of_mem _ List.mem_cons_self
    · exact absurd none_ (by simp [text, words_nil, targets])

end Texts

section Keeps
variable {os : Os} {dir failed w : Str} {tokens : List Str} {fs : Files}

/-- A decoder that takes the names of the four files only leaves no others. -/
theorem Tidy.decode (tidy : Tidy fs) (own : dir = d1 ∨ dir = d2) (known : ∀ name ∈ targets tokens, name ∈ fourFiles) :
    Tidy (decode os dir failed tokens fs).1 := by
  intro dir' own' name plain created
  by_contra stray_
  rw [decode_frame fun name' target same => ?_] at created
  · exact stray_ (tidy dir' own' name plain created)
  · have known_ := known name' target
    rw [os.resolve_entry dir own name' (plain_four name' known_)] at same
    exact stray_ ((pathOf_inj own' own same).2 ▸ known_)

theorem Tidy.update (tidy : Tidy fs) (own : dir = d1 ∨ dir = d2) {name contents : Str} (known : name ∈ fourFiles) :
    Tidy (Function.update fs (pathOf dir name) (some contents)) := by
  intro dir' own' name' plain created
  by_cases same : pathOf dir' name' = pathOf dir name
  · exact (pathOf_inj own' own same).2 ▸ known
  · rw [Function.update_of_ne same] at created
    exact tidy dir' own' name' plain created

theorem decode_stops {name : Str} (fails : os.canCreate (pathOf dir name) = false) :
    (Pipes.decode os dir failed (name :: tokens) fs).1 = fs := by
  cases tokens with
  | nil => rfl
  | cons contents rest => rw [Pipes.decode, if_neg (Bool.eq_false_iff.mp fails)]

theorem Before.tidy {c1 c2 c3 c4 : Str} (h : Before c1 c2 c3 c4 fs) : Tidy fs := by
  have held : ∀ dir entries, Holds dir entries fs → ∀ name, Plain name → fs (pathOf dir name) ≠ none →
      name ∈ entries.map Prod.fst := by
    intro dir entries holds name plain present
    rw [holds name plain] at present
    by_contra absent
    refine present (List.lookup_eq_none_iff.mpr fun entry member => ?_)
    exact bne_iff_ne.mpr fun same => absent (List.mem_map.mpr ⟨entry, member, same.symm⟩)
  rintro dir (rfl | rfl) name plain present
  · exact List.mem_append_left [file3, file4] (held d1 _ h.first name plain present)
  · exact List.mem_append_right [file1, file2] (held d2 _ h.second name plain present)

end Keeps

section Run
variable {os : Os} {fs : Files} {w1 w2 w3 w4 : Str}

theorem target_msg1 (word1 : IsWord isspace w1) (word2 : IsWord isspace w2) :
    ∀ name ∈ targets (words isspace (text (msg1 (line w1) (line w2)))), name ∈ [file1, file2] :=
  fun _ => target_pair isWord_file1 plain_file1 word1 isWord_file2 plain_file2 word2

theorem target_msg2 (word3 : IsWord isspace w3) (word4 : IsWord isspace w4) :
    ∀ name ∈ targets (words isspace (text (msg2 (line w3) (line w4)))), name ∈ [file3, file4] :=
  fun _ => target_pair isWord_file3 plain_file3 word3 isWord_file4 plain_file4 word4

/-- A child that fails at a known name has stored known names only. -/
theorem tidy_of_stops (tidy : Tidy fs) (word3 : IsWord isspace w3) (whole : ¬ Arrives os (msg2 (line w3) (line w4)))
    (stops : Stops os w3) (beyond : Str) :
    Tidy (child1Receives os beyond (message (msg2 (line w3) (line w4))) fs).1 := by
  unfold child1Receives
  rcases stops with ⟨fails, read⟩ | ⟨fails, read⟩
  · have shape : msg2 (line w3) (line w4) = (file3 ++ [space]) ++ (line w3 ++ newline :: framed file4 (line w4)) := by
      simp [msg2, framed]
    have nul : 0 ∉ file3 ++ [space] := fun zero =>
      (List.mem_append.mp zero).elim plain_file3.2.1 (fun last => absurd (List.mem_singleton.mp last) (by decide))
    obtain ⟨rest, received⟩ := received_begins nul read (by decide)
      (line w3 ++ newline :: framed file4 (line w4)) beyond
    rw [shape, received, List.append_assoc, List.singleton_append, isWord_file3.words_append _ isspace_space,
      decode_stops fails]
    exact tidy
  · have shape : msg2 (line w3) (line w4) =
        (framed file3 (line w3) ++ (file4 ++ [space])) ++ (line w4 ++ [newline]) := by
      simp [msg2, framed]
    have size : (framed file3 (line w3) ++ (file4 ++ [space])).length ≤ min os.bufsiz os.capacity := by
      rw [List.length_append]
      exact read
    have nul : 0 ∉ framed file3 (line w3) ++ (file4 ++ [space]) := by
      intro zero
      refine whole ?_
      rw [Arrives, shape, message, List.append_assoc, Os.chunk, List.take_append, List.take_of_length_le size]
      exact List.mem_append_left _ zero
    obtain ⟨rest, received⟩ := received_begins nul size (by simp [framed]) (line w4 ++ [newline]) beyond
    rw [shape, received, List.append_assoc, words_framed isWord_file3 word3, List.append_assoc, List.singleton_append,
      isWord_file4.words_append _ isspace_space]
    by_cases creates : os.canCreate (pathOf d1 file3) = true
    · rw [decode_entry creates (.inl rfl) plain_file3, decode_stops fails]
      exact tidy.update (.inl rfl) (by simp [fourFiles])
    · rw [decode_stops (Bool.eq_false_iff.mpr creates)]
      exact tidy

theorem Harmless.leavesTidy (h : Harmless os w1 w2 w3 w4) (word1 : IsWord isspace w1) (word2 : IsWord isspace w2)
    (word3 : IsWord isspace w3) (word4 : IsWord isspace w4)
    (before : Before (line w1) (line w2) (line w3) (line w4) fs) : LeavesTidy os fs := by
  intro beyond1 beyond2 fs' ran
  have known : ∀ name ∈ [file1, file2] ++ [file3, file4], name ∈ fourFiles := fun _ member => member
  have heard_ : heard os beyond2 (message (msg1 (line w1) (line w2))) =
      words isspace (text (msg1 (line w1) (line w2))) := by
    rw [heard, received_arrived h.arrives1]
  have first := target_msg1 word1 word2
  have replies := child2_replies (heard_ ▸ h.creates) h.reads2 before.second (heard_ ▸ first)
  have tidy2 : Tidy (child2 os beyond2 (message (msg1 (line w1) (line w2))) fs).1 := by
    rw [child2_files]
    refine before.tidy.decode (.inr rfl) ?_
    change ∀ name ∈ targets (heard os beyond2 _), _
    rw [heard_]
    exact fun name target => known name (List.mem_append_left _ (first name target))
  rw [main_later (before.sends h.reads1) ran, replies]
  by_cases arrives : Arrives os (msg2 (line w3) (line w4))
  · unfold child1Receives
    rw [received_arrived arrives]
    exact tidy2.decode (.inl rfl) fun name target => known name (List.mem_append_right _ (target_msg2 word3 word4 name target))
  · exact tidy_of_stops tidy2 word3 arrives (h.arrives2.resolve_left arrives) beyond1

end Run

section Cuts
variable {os : Os} {fs : Files} {w w3 w4 : Str}

/-- Some text without a NUL in place of one. -/
def masked (text : Str) : Str := text.map fun b => if b = 0 then 97 else b

theorem masked_eq {text : Str} (nul : 0 ∉ text) : masked text = text := by
  refine (List.map_congr_left fun b member => if_neg ?_).trans (List.map_id _)
  rintro rfl
  exact nul member

theorem nul_masked (text : Str) : 0 ∉ masked text := by
  intro zero
  obtain ⟨b, _, same⟩ := List.mem_map.mp zero
  split_ifs at same with nul
  · exact absurd same (by decide)
  · exact nul same

theorem isWord_masked (word : IsWord isspace w) : IsWord isspace (masked w) := by
  refine ⟨by simpa [masked] using word.nonempty, fun b member => ?_⟩
  obtain ⟨a, own, rfl⟩ := List.mem_map.mp member
  split_ifs
  · decide
  · exact word.solid a own

theorem masked_framed {file : Str} (plain : Plain file) :
    masked (framed file (line w)) = framed file (line (masked w)) := by
  have name : file.map (fun b => if b = 0 then 97 else b) = file := masked_eq plain.2.1
  simp [masked, framed, line, name, space, newline]

theorem nul_framed_masked {file : Str} (plain : Plain file) (w : Str) : 0 ∉ framed file (line (masked w)) := by
  rw [← masked_framed plain]
  exact nul_masked _

theorem targets_framed {file : Str} (isFile : IsWord isspace file) (word : IsWord isspace w) (rest : Str) :
    targets (words isspace (framed file (line w) ++ rest)) = file :: targets (words isspace rest) := by
  rw [words_framed isFile word]
  rfl

/-- A name that is cut after `k` bytes, and what can lie behind it. -/
def cutName (file : Str) (k : Nat) : Str := file.take k ++ stray

theorem cutName_spec : ∀ file ∈ [file3, file4], ∀ k < 6, Stray (cutName file k) ∧
    targets (words isspace (cutName file k ++ space :: stray)) = [cutName file k] := by decide

/-- The names that child 1 creates from this message are known ones, whatever it hears behind it. -/
def KnownTargets (os : Os) (msg : Str) : Prop :=
  ∀ beyond1, (∀ name ∈ targets (heard os beyond1 (message msg)), os.canCreate (pathOf d1 name) = true) →
    ∀ name ∈ targets (heard os beyond1 (message msg)), Plain name → name ∈ fourFiles

/-- If nothing strays, then no read ends at the begin of a name. -/
theorem not_cut (destinations : OnlyDestinations os) {msg : Str} (known : KnownTargets os msg)
    (front : Str) (names : List Str) {file : Str} (own : file ∈ [file3, file4]) {k : Nat} (short : k < 6) (nul : 0 ∉ front)
    (shape : ∀ rest, targets (words isspace (front ++ rest)) = names ++ targets (words isspace rest))
    (creates : ∀ name ∈ names, os.canCreate (pathOf d1 name) = true) :
    ¬ os.chunk (message msg) <+: front ++ file.take k := by
  intro start
  obtain ⟨stray_, one⟩ := cutName_spec file own k short
  have longer : front ++ file.take k <+: front ++ (cutName file k ++ space :: stray) :=
    (List.prefix_append_right_inj front).mpr
      ((List.prefix_append (file.take k) stray).trans (List.prefix_append (cutName file k) _))
  have nul_ : 0 ∉ front ++ (cutName file k ++ space :: stray) := by
    simp only [List.mem_append, List.mem_cons, not_or]
    exact ⟨nul, stray_.plain.2.1, by decide, plain_stray.2.1⟩
  obtain ⟨beyond1, received⟩ := received_target (start.trans longer) nul_
  have tokens : targets (heard os beyond1 (message msg)) = names ++ [cutName file k] := by
    rw [heard, received, shape, one]
  refine stray_.unknown (known beyond1 ?_ (cutName file k) (tokens ▸ List.mem_append_right _ (List.mem_singleton.mpr rfl))
    stray_.plain)
  intro name member
  rw [tokens] at member
  rcases List.mem_append.mp member with front_ | last
  · exact creates name front_
  · obtain rfl := List.mem_singleton.mp last
    exact destinations.creates (.inl rfl) stray_

/-- What was read without a NUL is a part of the message without any. -/
theorem chunk_masked {msg : Str} (cut : ¬ Arrives os msg) :
    os.chunk (message msg) = (masked msg ++ [97]).take (min os.bufsiz os.capacity) := by
  rw [← masked_eq cut, Os.chunk, masked, List.map_take, message, List.map_append]
  rfl

theorem masked_msg2 (c3 c4 : Str) : masked (msg2 (line c3) (line c4)) = msg2 (line (masked c3)) (line (masked c4)) := by
  rw [msg2, masked, List.map_append]
  exact congrArg₂ _ (masked_framed plain_file3) (masked_framed plain_file4)

/-- What ends within a name ends with a part of it. -/
theorem take_within (front file rest : Str) {size : Nat} (within : size - front.length ≤ file.length) :
    (front ++ (file ++ rest)).take size <+: front ++ file.take (size - front.length) := by
  rw [List.take_append, List.take_append_of_le_length within]
  rcases Nat.le_total size front.length with inside | past
  · rw [Nat.sub_eq_zero_of_le inside, List.take_zero, List.append_nil, List.append_nil]
    exact List.take_prefix _ _
  · rw [List.take_of_length_le past]

theorem arrives_second (destinations : OnlyDestinations os) (word3 : IsWord isspace w3) (word4 : IsWord isspace w4)
    (known : KnownTargets os (msg2 (line w3) (line w4))) : Arrives os (msg2 (line w3) (line w4)) ∨ Stops os w3 := by
  by_contra neither
  obtain ⟨cut, goes⟩ := not_or.mp neither
  let size := min os.bufsiz os.capacity
  let front := framed file3 (line (masked w3))
  have length : front.length = (framed file3 (line w3)).length := by
    simp [front, length_framed, line, masked]
  have whole : (front ++ framed file4 (line (masked w4))).length = (msg2 (line w3) (line w4)).length := by
    simp [front, msg2, length_framed, line, masked]
  have chunk : os.chunk (message (msg2 (line w3) (line w4))) =
      (front ++ (framed file4 (line (masked w4)) ++ [97])).take size := by
    rw [chunk_masked cut, masked_msg2, msg2, List.append_assoc]
  have nul3 : 0 ∉ front := nul_framed_masked plain_file3 w3
  by_cases first : size < 6
  · refine not_cut destinations known [] [] (List.mem_cons_self : file3 ∈ [file3, file4]) first List.not_mem_nil (fun _ => rfl)
      (fun _ none_ => absurd none_ List.not_mem_nil) ?_
    rw [chunk, show front = file3 ++ space :: (line (masked w3) ++ [newline]) from rfl, List.append_assoc]
    exact take_within [] file3 _ (Nat.le_of_lt_succ first)
  have creates3 : os.canCreate (pathOf d1 file3) = true := by
    by_contra fails
    exact goes (.inl ⟨Bool.eq_false_iff.mpr fails, not_lt.mp first⟩)
  by_cases second : size - front.length < 6
  · refine not_cut destinations known front [file3] (by simp : file4 ∈ [file3, file4]) second nul3
      (fun rest => targets_framed isWord_file3 (isWord_masked word3) rest)
      (fun name member => List.mem_singleton.mp member ▸ creates3) ?_
    rw [chunk, show framed file4 (line (masked w4)) = file4 ++ space :: (line (masked w4) ++ [newline]) from rfl,
      List.append_assoc]
    exact take_within front file4 _ (Nat.le_of_lt_succ second)
  have creates4 : os.canCreate (pathOf d1 file4) = true := by
    by_contra fails
    refine goes (.inr ⟨Bool.eq_false_iff.mpr fails, ?_⟩)
    change (framed file3 (line w3)).length + 6 ≤ size
    omega
  have within : size ≤ (front ++ framed file4 (line (masked w4))).length := by
    by_contra longer
    rw [whole] at longer
    refine cut ?_
    rw [Arrives, Os.chunk, List.take_of_length_le (by rw [length_message]; exact not_le.mp longer), message]
    exact List.mem_append_right _ (List.mem_singleton.mpr rfl)
  refine not_cut destinations known (front ++ framed file4 (line (masked w4))) [file3, file4]
    (by simp : file4 ∈ [file3, file4]) (by decide : 0 < 6) ?_ ?_ ?_ ?_
  · rw [List.mem_append, not_or]
    exact ⟨nul3, nul_framed_masked plain_file4 w4⟩
  · intro rest
    rw [List.append_assoc, targets_framed isWord_file3 (isWord_masked word3),
      targets_framed isWord_file4 (isWord_masked word4)]
    rfl
  · intro name member
    rcases List.mem_cons.mp member with rfl | last
    · exact creates3
    · exact List.mem_singleton.mp last ▸ creates4
  · rw [chunk, ← List.append_assoc, List.take_append_of_le_length within, List.take_zero, List.append_nil]
    exact List.take_prefix _ _

end Cuts

section Harmlessness
variable {os : Os} {fs : Files} {w1 w2 w3 w4 : Str}

theorem LeavesTidy.reads (leaves : LeavesTidy os fs) (destinations : OnlyDestinations os) (finishes : Finishes os fs) :
    ∀ name ∈ [file1, file2], os.canRead (pathOf d1 name) = true := by
  intro name member
  by_contra unread
  obtain ⟨path, failed⟩ := encode_fails d1 (ascii "Error: failed to read ".toList) fs
    member (Bool.eq_false_iff.mpr unread)
  exact untidy_of_failure destinations finishes failed leaves

theorem LeavesTidy.harmless (leaves : LeavesTidy os fs) (destinations : OnlyDestinations os) (finishes : Finishes os fs)
    (word1 : IsWord isspace w1) (word2 : IsWord isspace w2) (word3 : IsWord isspace w3) (word4 : IsWord isspace w4)
    (before : Before (line w1) (line w2) (line w3) (line w4) fs) : Harmless os w1 w2 w3 w4 := by
  have reads1 := leaves.reads destinations finishes
  have sends := before.sends reads1
  have arrives1 := arrives_first destinations finishes leaves sends
  have creates := creates_all destinations finishes leaves sends []
  have heard_ : heard os [] (message (msg1 (line w1) (line w2))) = words isspace (text (msg1 (line w1) (line w2))) := by
    rw [heard, received_arrived arrives1]
  have reads2 : ∀ name ∈ [file3, file4], os.canRead (pathOf d2 name) = true := by
    intro name member
    by_contra unread
    obtain ⟨path, reply⟩ := child2_unread fs creates member (Bool.eq_false_iff.mpr unread)
    exact untidy_of_reply destinations finishes sends reply leaves
  have replies := child2_replies creates reads2 before.second (heard_ ▸ target_msg1 word1 word2)
  refine ⟨reads1, arrives1, heard_ ▸ creates, reads2, arrives_second destinations word3 word4 ?_⟩
  intro beyond1 creates1 name target plain
  obtain ⟨fs', ran⟩ := finishes beyond1 []
  refine leaves _ _ _ ran d1 (.inl rfl) name plain ?_
  rw [main_later sends ran, replies]
  exact decode_created _ _ (.inl rfl) heard_words creates1 target plain

end Harmlessness

/-- A run leaves no file of another name exactly when no error is reported to a child that
still reads, and no message is cut before a name ends. -/
theorem leavesTidy_iff {os : Os} {w1 w2 w3 w4 : Str} (word1 : IsWord isspace w1) (word2 : IsWord isspace w2)
    (word3 : IsWord isspace w3) (word4 : IsWord isspace w4) {fs : Files}
    (before : Before (line w1) (line w2) (line w3) (line w4) fs) :
    (Harmless os w1 w2 w3 w4 → LeavesTidy os fs) ∧
      (OnlyDestinations os → Finishes os fs → LeavesTidy os fs → Harmless os w1 w2 w3 w4) :=
  ⟨fun harmless => harmless.leavesTidy word1 word2 word3 word4 before,
    fun destinations finishes leaves => leaves.harmless destinations finishes word1 word2 word3 word4 before⟩

theorem leavesTidy_iff_names : let w := fun i => names.getD i []
    LeavesTidy permissive (directories (line (w 0)) (line (w 1)) (line (w 2)) (line (w 3))) ∧
      Harmless permissive (w 0) (w 1) (w 2) (w 3) := by
  intro w
  have word : ∀ i < 4, w i ≠ [] ∧ ∀ a ∈ w i, isspace a = false := by decide +kernel
  have isWord : ∀ i < 4, IsWord isspace (w i) := fun i below => ⟨(word i below).1, (word i below).2⟩
  have before := directories_before (line (w 0)) (line (w 1)) (line (w 2)) (line (w 3))
  have finishes : Finishes permissive (directories (line (w 0)) (line (w 1)) (line (w 2)) (line (w 3))) := by
    intro beyond1 beyond2
    obtain ⟨fs', ran, _⟩ := before.main_whole permissive_openable (isWord 0 (by decide))
      (isWord 1 (by decide)) (isWord 2 (by decide)) (isWord 3 (by decide)) (by decide)
      (by unfold Fits; decide) (by unfold Fits; decide) beyond1 beyond2
    exact ⟨fs', ran⟩
  have harmless : Harmless permissive (w 0) (w 1) (w 2) (w 3) :=
    ⟨fun _ _ => rfl, by unfold Arrives; decide, fun _ _ => rfl, fun _ _ => rfl,
      .inl (by unfold Arrives; decide)⟩
  obtain ⟨leaves, needs⟩ := leavesTidy_iff (isWord 0 (by decide)) (isWord 1 (by decide)) (isWord 2 (by decide))
    (isWord 3 (by decide)) before
  exact ⟨leaves harmless, needs (fun _ _ _ _ fails => absurd fails Bool.false_ne_true.symm) finishes (leaves harmless)⟩

/-- A system where child 1 cannot read its first file. -/
def unreadable : Os := { permissive with canRead := fun path => path != pathOf d1 file1 }

/-- Then child 2 creates a file for the first word of the message. -/
theorem error_creates_files : ¬ ∀ (os : Os) (w1 w2 w3 w4 : Str), IsWord isspace w1 → IsWord isspace w2 →
    IsWord isspace w3 → IsWord isspace w4 → ∀ fs, Before (line w1) (line w2) (line w3) (line w4) fs →
    OnlyDestinations os → LeavesTidy os fs := by
  intro claim
  have word : IsWord isspace stray := ⟨by decide, by decide +kernel⟩
  let fs := directories (line stray) (line stray) (line stray) (line stray)
  have leaves := claim unreadable stray stray stray stray word word word word fs (directories_before _ _ _ _)
    (fun _ _ _ _ fails => absurd fails Bool.false_ne_true.symm)
  have created : ((main unreadable [] [] fs).bind fun fs' => fs' (pathOf d2 errorColon)).isSome = true := by decide
  obtain ⟨contents, found⟩ := Option.isSome_iff_exists.mp created
  obtain ⟨fs', ran, held⟩ := Option.bind_eq_some_iff.mp found
  exact stray_errorColon.untidy (.inr rfl) (by rw [held]; exact Option.some_ne_none _) (leaves _ _ _ ran)

end NetworkOs.Pipes
