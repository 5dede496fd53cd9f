import NetworkOs.Ftp.Transfers

/-! The server behind the end of the stream. Its loop goes on: no `recv` changes its
variable, nothing sent arrives, and so the buffer's last command is carried out again
and again. -/
namespace NetworkOs.Ftp
open Duplex Proc

/-- One round of the loop: the machine after each operation on files, and the server at
the end, `none` if the process has ended. -/
structure Round where
  hosts : List Host
  next : Option Server

section Rounds
variable (os : Os)

/-- The branch for "put": `open`, and if the file is granted `write`. -/
def putRound (stream : Str) (s : Server) : Round :=
  let s := (s.name stream).flag
  let s := s.openForContent os s.overwrite
  if s.overwrite = 1 then
    if s.filesize.toInt < 0 then ⟨[s.host], none⟩
    else
      let f := s.host.unsetBytes os s.filesize.toNat
      let written := (s.host.tick.write os s.fileDescriptor f).2
      ⟨[s.host, written], { s with host := written }.closed os⟩
  else ⟨[s.host], s.closed os⟩

/-- The branch for "mget": the shell's listing, the files, and `remove`. -/
def mgetRound (stream : Str) (s : Server) : Round :=
  let s := s.listFiles os stream
  let files := s.host.listed os
  match (sendFiles os (files.take (BitVec.ofNat 32 files.length).toInt.toNat) s).alone with
  | none => ⟨[s.host], none⟩
  | some t =>
      let removed := t.host.removeTemp
      ⟨[s.host, t.host, removed], some { t with host := removed }⟩

/-- The other branches leave the files alone. -/
def quietRound (next : Option Server) : Round := ⟨(next.map fun t => t.host).toList, next⟩

/-- The round that starts from the last command in the buffer. -/
def Server.round (s : Server) : Round :=
  let (stream, s) := s.hear []
  if s.action = putWord then putRound os stream s
  else if s.action = getWord then quietRound (handleGet os stream s).alone
  else if s.action = mgetWord then mgetRound os stream s
  else if s.action = quitWord then quietRound none
  else quietRound (some s)

/-- The server after some rounds. -/
def Server.after : Nat → Server → Option Server
  | 0, s => some s
  | n + 1, s => (s.round os).next.bind (after n)

end Rounds

/-- The files that were opened for writing. -/
def Host.openings (h : Host) : List Str :=
  h.trace.filterMap fun
    | .openWrite name (.opened _) => some name
    | _ => none

/-- No file was changed, and none truncated or created. -/
structure Untouched (before h : Host) : Prop where
  dir : h.dir = before.dir
  openings : h.openings = before.openings

/-- In no later round a file is changed, truncated or created. -/
def NeverChanges (os : Os) (s : Server) : Prop :=
  ∀ n t, s.after os n = some t → ∀ h ∈ (t.round os).hosts, Untouched s.host h

/-- `open` succeeds on one of the two directories. -/
def opensDirectory (os : Os) (h : Host) (name : Str) : Bool :=
  (h.dir.lookup name).isNone && isDirectory name && os.mayList name

/-- The names that "mget" takes up from the listing. -/
def Server.taken (os : Os) (s : Server) : List Str :=
  (s.host.listed os).take (BitVec.ofNat 32 (s.host.listed os).length).toInt.toNat

/-- The last command is a "put" that was granted and can be opened, or an "mget". Only a listing that leaves
the directory as it is makes the latter harmless: where there is no "temp.txt", or where the process ends
before it removes it, as the one that is there names a directory. -/
def Harmful (os : Os) (s : Server) : Prop :=
  let heard := s.hear []
  heard.2.action = putWord ∧ s.overwrite = 1 ∧ canOpen os (heard.2.name heard.1).filename s.host = true ∨
    heard.2.action = mgetWord ∧ ¬ ((heard.2.listFiles os heard.1).host.dir = s.host.dir ∧
      (tempTxt ∉ s.host.dir ∨ ∃ file ∈ (heard.2.listFiles os heard.1).taken os, opensDirectory os s.host file = true))

instance (os : Os) (s : Server) : Decidable (Harmful os s) := inferInstanceAs (Decidable (_ ∨ _))

section Alone
variable {os : Os} {s t : Server} {stream file : Str}

@[simp] theorem recvInt_nil (old : BitVec 32) : recvInt old [] = old := by
  rw [recvInt, overlay, List.nil_append, List.length_nil, List.drop_zero, intOfBytes_intBytes]

theorem overlay_nil (old : Str) : overlay old [] = old := rfl

theorem closed_set {os : Os} {fileDescriptor : Descriptor} (set : fileDescriptor ≠ .unset) (h : Host) :
    closed os fileDescriptor h = some (h.close fileDescriptor) := if_neg fun both => set both.1

theorem closed_of_open (h : s.fileDescriptor ≠ .unset) :
    s.closed os = some { s with host := s.host.close s.fileDescriptor, fileDescriptor := .closed } := by
  rw [Server.closed, closed_set h, Option.map_some]

theorem openRead_cases (os : Os) (name : Str) (h : Host) :
    h.openRead os name = .failed ∨
      h.openRead os name = .opened name ∧ ((h.fileSize name).isSome ∨ opensDirectory os h name = true) := by
  cases held : h.dir.lookup name with
  | none =>
      by_cases directory : isDirectory name && os.mayList name
      · refine .inr ⟨by simp only [Host.openRead, held, if_pos directory], .inr ?_⟩
        simpa [opensDirectory, held] using directory
      · exact .inl (by simp only [Host.openRead, held, if_neg directory])
  | some entry =>
      by_cases allowed : os.mayRead entry.mode = true
      · exact .inr ⟨by simp only [Host.openRead, held, if_pos allowed], .inl (by simp [Host.fileSize, held])⟩
      · exact .inl (by simp only [Host.openRead, held, if_neg allowed])

theorem openRead_set (os : Os) (name : Str) (h : Host) : h.openRead os name ≠ .unset := by
  rcases openRead_cases os name h with failed | ⟨opened, -⟩
  · rw [failed]
    exact nofun
  · rw [opened]
    exact nofun

/-- The size of a directory is not known, and the process ends. -/
theorem announced_directory (directory : opensDirectory os s.host file = true) :
    (s.openRead os file).announced file = none := by
  simp only [opensDirectory, Bool.and_eq_true, Option.isNone_iff_eq_none] at directory
  obtain ⟨⟨missing, named⟩, allowed⟩ := directory
  have opened : s.host.openRead os file = .opened file := by simp [Host.openRead, missing, named, allowed]
  refine (if_neg ?_).trans (by simp [Server.openRead, Host.fileSize, missing])
  change s.host.openRead os file ≠ .failed
  simp [opened]

theorem announced_known (known : ¬ opensDirectory os s.host file = true) :
    ∃ size, (s.openRead os file).announced file = some size := by
  rcases openRead_cases os file s.host with failed | ⟨opened, held⟩
  · exact ⟨0, if_pos failed⟩
  · obtain ⟨size, eq⟩ := Option.isSome_iff_exists.mp (held.resolve_right known)
    refine ⟨size, (if_neg ?_).trans eq⟩
    change s.host.openRead os file ≠ .failed
    rw [opened]
    exact nofun

/-- A transfer to a client that has gone changes nothing. -/
theorem transferToClient_alone (known : ¬ opensDirectory os s.host file = true) :
    (transferToClient file (s.openRead os file)).alone = some (s.openRead os file) := by
  obtain ⟨size, announced⟩ := announced_known known
  rw [transferToClient, announced]
  simp only [alone_sendBytes]
  split_ifs
  · rfl
  · simp only [alone_recvBytes, recvInt_nil]
    split_ifs <;> simp

theorem sendFile_ended (directory : opensDirectory os s.host file = true) : (sendFile os file s).alone = none := by
  rw [sendFile, alone_bind, transferToClient, announced_directory directory]
  rfl

/-- So is a file of the listing sent to nobody. -/
theorem sendFile_alone (known : ¬ opensDirectory os s.host file = true) :
    (sendFile os file s).alone =
      some { s with host := s.host.close (s.host.openRead os file), fileDescriptor := .closed } := by
  rw [sendFile, alone_bind, transferToClient_alone known, Option.bind_some, Server.closeDescriptor_eq, alone_ofOption,
    closed_of_open (openRead_set os file s.host)]
  rfl

theorem handleGet_eq (os : Os) (stream : Str) (s : Server) :
    handleGet os stream s = sendFile os (s.name stream).filename (s.name stream) := rfl

end Alone

section Untouching
variable {os : Os} {name : Str} {h h' h'' : Host}

theorem Untouched.refl (h : Host) : Untouched h h := ⟨rfl, rfl⟩

theorem Untouched.trans (first : Untouched h h') (second : Untouched h' h'') : Untouched h h'' :=
  ⟨second.dir.trans first.dir, second.openings.trans first.openings⟩

theorem untouched_close (target : Descriptor) (h : Host) : Untouched h (h.close target) :=
  ⟨rfl, by simp [Host.openings, Host.close, Host.record]⟩

theorem untouched_tick (h : Host) : Untouched h h.tick := ⟨rfl, rfl⟩

/-- What is written to a file that could not be opened is lost. -/
theorem untouched_write (os : Os) (bytes : Str) (h : Host) : Untouched h (h.write os .failed bytes).2 :=
  ⟨rfl, by simp [Host.openings, Host.write, Host.record]⟩

theorem create_opens (os : Os) (can : ¬ (name = [] ∨ isDirectory name = true ∨ os.mayCreate name = false)) (mode : Nat) :
    (h.create os name mode).2.openings = h.openings ++ [name] := by
  rw [Host.create, if_neg can]
  simp [Host.openings, Host.record]

theorem create_refused (cannot : name = [] ∨ isDirectory name = true ∨ os.mayCreate name = false) (mode : Nat) :
    Untouched h (h.create os name mode).2 ∧ (h.create os name mode).1 = .failed := by
  rw [Host.create, if_pos cannot]
  exact ⟨⟨rfl, by simp [Host.openings, Host.record]⟩, rfl⟩

variable (old : Descriptor)

/-- The flag of a "put" chooses the call of `open` that can succeed. -/
theorem openForContent_opens (can : canOpen os name h = true) :
    (h.openForContent os (if h.fileExists name then 1 else 0) 1 name old).2.openings = h.openings ++ [name] := by
  unfold canOpen at can
  unfold Host.openForContent Host.fileExists
  cases held : h.dir.lookup name with
  | some file =>
      simp only [held] at can
      simp [Host.openTrunc, held, can, Host.openings, Host.record]
  | none =>
      simp only [held, Bool.and_eq_true, Bool.not_eq_true', decide_eq_true_eq] at can
      obtain ⟨⟨named, file⟩, creates⟩ := can
      have created : (h.create os name 0o666).2.openings = h.openings ++ [name] :=
        create_opens os (by simp [named, file, creates]) 0o666
      simpa [Host.openExcl, held, file] using created

theorem openForContent_refused (cannot : ¬ canOpen os name h = true) :
    Untouched h (h.openForContent os (if h.fileExists name then 1 else 0) 1 name old).2 ∧
      (h.openForContent os (if h.fileExists name then 1 else 0) 1 name old).1 = .failed := by
  unfold canOpen at cannot
  unfold Host.openForContent Host.fileExists
  cases held : h.dir.lookup name with
  | some file =>
      simp only [held] at cannot
      simp only [Option.isSome_some, Bool.true_or, if_true, and_self, Host.openTrunc, held, if_neg cannot]
      exact ⟨⟨rfl, by simp [Host.openings, Host.record]⟩, trivial⟩
  | none =>
      have refused : name = [] ∨ isDirectory name = true ∨ os.mayCreate name = false := by
        by_contra can
        simp only [not_or, Bool.not_eq_true, Bool.not_eq_false] at can
        exact cannot (by simp [held, can])
      -- a directory exists, and is refused where a file would be truncated
      cases directory : isDirectory name with
      | true => simpa [Host.openTrunc, held, directory] using create_refused refused 644
      | false => simpa [Host.openExcl, held, directory] using create_refused refused 0o666

end Untouching

/-- What every round keeps: the buffer and all that is read from it. -/
structure Repeats (s t : Server) : Prop where
  buffer : t.buffer = s.buffer
  action : t.action = (s.hear []).2.action
  filename : t.filename = s.filename ∨ t.filename = ((s.hear []).2.name (s.hear []).1).filename
  extension : t.extension = s.extension ∨ t.extension = (extract s.extension (s.hear []).1).1
  overwrite : t.overwrite = s.overwrite

section Repetition
variable {os : Os} {s t : Server}

theorem extract_extract (old stream : Str) : extract (extract old stream).1 stream = extract old stream := by
  unfold extract
  cases stream.dropWhile isSpace <;> rfl

theorem opensDirectory_congr (os : Os) {h h' : Host} (dir : h.dir = h'.dir) (name : Str) :
    opensDirectory os h name = opensDirectory os h' name := by
  rw [opensDirectory, opensDirectory, dir]

theorem taken_congr (os : Os) (dir : s.host.dir = t.host.dir) : s.taken os = t.taken os := by
  unfold Server.taken Host.listed
  rw [dir]

/-- The same command is heard in every round. -/
theorem Repeats.heard (h : Repeats s t) : (t.hear []).1 = (s.hear []).1 ∧ (t.hear []).2.action = (s.hear []).2.action := by
  have same : extract t.action (cString t.buffer) = extract s.action (cString s.buffer) := by
    rw [h.action, h.buffer]
    exact extract_extract _ _
  exact ⟨congrArg Prod.snd same, congrArg Prod.fst same⟩

theorem Repeats.harmful (h : Repeats s t) (dir : t.host.dir = s.host.dir) (harmful : Harmful os t) : Harmful os s := by
  obtain ⟨stream, action⟩ := h.heard
  have filename : ((t.hear []).2.name (t.hear []).1).filename = ((s.hear []).2.name (s.hear []).1).filename := by
    rw [stream]
    change (extract t.filename _).1 = _
    rcases h.filename with same | same <;> rw [same]
    · rfl
    · exact congrArg Prod.fst (extract_extract s.filename (s.hear []).1)
  have extension : (extract t.extension (t.hear []).1).1 = (extract s.extension (s.hear []).1).1 := by
    rw [stream]
    rcases h.extension with same | same <;> rw [same]
    exact congrArg Prod.fst (extract_extract _ _)
  refine harmful.imp ?_ ?_
  · rintro ⟨word, granted, can⟩
    refine ⟨action ▸ word, h.overwrite ▸ granted, ?_⟩
    rw [filename] at can
    unfold canOpen at can ⊢
    rwa [← dir]
  · rintro ⟨word, changed⟩
    refine ⟨action ▸ word, fun quiet => changed ?_⟩
    have listing : ((t.hear []).2.listFiles os (t.hear []).1).host.dir =
        ((s.hear []).2.listFiles os (s.hear []).1).host.dir := by
      change os.system (fileListingCommand (extract t.extension (t.hear []).1).1) t.host.dir =
        os.system (fileListingCommand (extract s.extension (s.hear []).1).1) s.host.dir
      rw [extension, dir]
    rw [dir, taken_congr os listing]
    refine ⟨listing.trans quiet.1, quiet.2.imp_right ?_⟩
    rintro ⟨file, taken, directory⟩
    exact ⟨file, taken, opensDirectory_congr os dir file ▸ directory⟩

/-- The round leaves the files alone, and so does the one that repeats it. -/
def Round.Quiet (r : Round) (s : Server) : Prop :=
  (∀ h ∈ r.hosts, Untouched s.host h) ∧ ∀ t, r.next = some t → Untouched s.host t.host ∧ Repeats s t

theorem closed_some (closed : s.closed os = some t) :
    t = { s with host := s.host.close s.fileDescriptor, fileDescriptor := .closed } := by
  simp only [Server.closed, Ftp.closed, Option.map_eq_some_iff] at closed
  obtain ⟨host, done, rfl⟩ := closed
  split_ifs at done
  rw [← Option.some.inj done]

theorem quiet_put (harmless : s.overwrite = 1 → ¬ canOpen os ((s.hear []).2.name (s.hear []).1).filename s.host = true) :
    (putRound os (s.hear []).1 (s.hear []).2).Quiet s := by
  let named := ((s.hear []).2.name (s.hear []).1).flag
  have overwrite : named.overwrite = s.overwrite := rfl
  have host : named.host = s.host := rfl
  unfold putRound
  dsimp only
  by_cases granted : s.overwrite = 1
  · have opened : Untouched s.host (named.openForContent os named.overwrite).host ∧
        (named.openForContent os named.overwrite).fileDescriptor = .failed := by
      unfold Server.openForContent
      rw [overwrite, granted]
      exact openForContent_refused named.fileDescriptor (harmless granted)
    have written : Untouched s.host ((named.openForContent os named.overwrite).host.tick.write os
        (named.openForContent os named.overwrite).fileDescriptor
        ((named.openForContent os named.overwrite).host.unsetBytes os
          (named.openForContent os named.overwrite).filesize.toNat)).2 := by
      rw [opened.2]
      exact opened.1.trans ((untouched_tick _).trans (untouched_write _ _ _))
    rw [if_pos (by exact granted)]
    split_ifs
    · refine ⟨?_, fun t ended => nomatch ended⟩
      rintro h member
      rw [List.mem_singleton.mp member]
      exact opened.1
    · constructor
      · intro h member
        rcases List.mem_cons.mp member with rfl | member
        · exact opened.1
        · rw [List.mem_singleton.mp member]
          exact written
      · intro t closed
        rw [closed_some closed]
        exact ⟨written.trans (untouched_close _ _), rfl, rfl, .inr rfl, .inl rfl, rfl⟩
  · have opened : named.openForContent os named.overwrite = named := by
      unfold Server.openForContent
      rw [Host.openForContent_declined (by rwa [overwrite])]
    change Round.Quiet (if (named.openForContent os named.overwrite).overwrite = 1 then _ else
      ⟨[(named.openForContent os named.overwrite).host], (named.openForContent os named.overwrite).closed os⟩) s
    rw [if_neg (by rwa [opened]), opened]
    constructor
    · intro h member
      rw [List.mem_singleton.mp member]
      exact .refl _
    · intro t closed
      rw [closed_some closed]
      exact ⟨untouched_close _ _, rfl, rfl, .inr rfl, .inl rfl, rfl⟩

theorem quiet_ended : (quietRound none).Quiet s :=
  ⟨fun h member => absurd member (by simp [quietRound]), fun t ended => nomatch ended⟩

theorem quiet_get : (quietRound (handleGet os (s.hear []).1 (s.hear []).2).alone).Quiet s := by
  rw [handleGet_eq]
  by_cases directory : opensDirectory os s.host ((s.hear []).2.name (s.hear []).1).filename = true
  · rw [sendFile_ended (by exact directory)]
    exact quiet_ended
  · rw [sendFile_alone (by exact directory)]
    constructor
    · intro h member
      rw [List.mem_singleton.mp member]
      exact untouched_close _ _
    · intro t done
      obtain rfl := Option.some.inj done
      exact ⟨untouched_close _ _, rfl, rfl, .inr rfl, .inl rfl, rfl⟩

/-- The files of a listing are sent to nobody, one after another. -/
theorem sendFiles_alone {files : List Str} {s : Server} (known : ¬ ∃ file ∈ files, opensDirectory os s.host file = true) :
    ∃ host fileDescriptor, (sendFiles os files s).alone = some { s with host := host, fileDescriptor := fileDescriptor } ∧
      Untouched s.host host := by
  induction files generalizing s with
  | nil => exact ⟨s.host, s.fileDescriptor, rfl, .refl _⟩
  | cons file rest ih =>
      simp only [List.mem_cons, exists_eq_or_imp, not_or] at known
      obtain ⟨host, fileDescriptor, later, quiet⟩ := ih (s := { s with
        host := s.host.tick.close (s.host.tick.openRead os file)
        fileDescriptor := .closed }) known.2
      refine ⟨host, fileDescriptor, ?_, ?_⟩
      · rw [sendFiles, alone_sendBytes, alone_bind, sendFile_alone (by exact known.1), Option.bind_some]
        exact later
      · exact ((untouched_tick _).trans (untouched_close _ _)).trans quiet

/-- The first directory among them ends the process. -/
theorem sendFiles_ended {files : List Str} {s : Server} (directory : ∃ file ∈ files, opensDirectory os s.host file = true) :
    (sendFiles os files s).alone = none := by
  induction files generalizing s with
  | nil => simp at directory
  | cons file rest ih =>
      rw [sendFiles, alone_sendBytes, alone_bind]
      by_cases first : opensDirectory os s.host file = true
      · rw [sendFile_ended (by exact first), Option.bind_none]
      · rw [sendFile_alone (by exact first), Option.bind_some]
        simp only [List.mem_cons, exists_eq_or_imp, first, false_or, Bool.false_eq_true] at directory
        exact ih directory

/-- What a round of "mget" does to the files: the listing, and the removal of "temp.txt". -/
theorem mgetRound_eq {stream : Str} {s : Server}
    (known : ¬ ∃ file ∈ (s.listFiles os stream).taken os, opensDirectory os (s.listFiles os stream).host file = true) :
    ∃ host fileDescriptor, Untouched (s.listFiles os stream).host host ∧
      mgetRound os stream s = ⟨[(s.listFiles os stream).host, host, host.removeTemp],
        some { s.listFiles os stream with host := host.removeTemp, fileDescriptor := fileDescriptor }⟩ := by
  obtain ⟨host, fileDescriptor, done, quiet⟩ := sendFiles_alone known
  refine ⟨host, fileDescriptor, quiet, ?_⟩
  unfold mgetRound
  unfold Server.taken at done
  dsimp only
  rw [done]

theorem mgetRound_ended {stream : Str} {s : Server}
    (directory : ∃ file ∈ (s.listFiles os stream).taken os, opensDirectory os (s.listFiles os stream).host file = true) :
    mgetRound os stream s = ⟨[(s.listFiles os stream).host], none⟩ := by
  have ended := sendFiles_ended directory
  unfold mgetRound
  unfold Server.taken at ended
  dsimp only
  rw [ended]

theorem quiet_mget (listing : ((s.hear []).2.listFiles os (s.hear []).1).host.dir = s.host.dir)
    (kept : tempTxt ∉ s.host.dir ∨ ∃ file ∈ ((s.hear []).2.listFiles os (s.hear []).1).taken os,
      opensDirectory os s.host file = true) :
    (mgetRound os (s.hear []).1 (s.hear []).2).Quiet s := by
  have listed : Untouched s.host ((s.hear []).2.listFiles os (s.hear []).1).host := ⟨listing, rfl⟩
  by_cases directory : ∃ file ∈ ((s.hear []).2.listFiles os (s.hear []).1).taken os,
      opensDirectory os ((s.hear []).2.listFiles os (s.hear []).1).host file = true
  · rw [mgetRound_ended directory]
    refine ⟨?_, fun t ended => nomatch ended⟩
    intro h member
    rw [List.mem_singleton.mp member]
    exact listed
  have absent : tempTxt ∉ s.host.dir := by
    refine kept.resolve_right fun ⟨file, taken, opens⟩ => directory ⟨file, taken, ?_⟩
    rwa [opensDirectory_congr os listing]
  obtain ⟨host, fileDescriptor, quiet, eq⟩ := mgetRound_eq directory
  have sent := listed.trans quiet
  have removed : Untouched s.host host.removeTemp := by
    refine ⟨?_, sent.openings⟩
    change host.dir.erase tempTxt = s.host.dir
    rw [sent.dir]
    refine AList.ext ?_
    exact List.kerase_of_notMem_keys absent
  rw [eq]
  constructor
  · intro h member
    simp only [List.mem_cons, List.not_mem_nil, or_false] at member
    rcases member with rfl | rfl | rfl
    · exact listed
    · exact sent
    · exact removed
  · intro t done
    obtain rfl := Option.some.inj done
    exact ⟨removed, rfl, rfl, .inl rfl, .inr rfl, rfl⟩

theorem quiet_heard : (quietRound (some (s.hear []).2)).Quiet s := by
  constructor
  · intro h member
    rw [List.mem_singleton.mp member]
    exact .refl _
  · intro t done
    obtain rfl := Option.some.inj done
    exact ⟨.refl _, rfl, rfl, .inl rfl, .inl rfl, rfl⟩

/-- A round that is not harmful changes nothing and is followed by one like it. -/
theorem quiet_round (harmless : ¬ Harmful os s) : (s.round os).Quiet s := by
  obtain ⟨noPut, noMget⟩ := not_or.mp harmless
  unfold Server.round
  dsimp only
  split_ifs with put get mget quit
  · exact quiet_put fun granted can => noPut ⟨put, granted, can⟩
  · exact quiet_get
  · obtain ⟨listing, kept⟩ := not_not.mp fun changed => noMget ⟨mget, changed⟩
    exact quiet_mget listing kept
  · exact quiet_ended
  · exact quiet_heard

/-- Rounds that are not harmful, by induction on their number. -/
theorem quiet_after (n : Nat) (harmless : ¬ Harmful os s) (ran : s.after os n = some t) :
    Untouched s.host t.host ∧ ¬ Harmful os t := by
  induction n generalizing s with
  | zero =>
      obtain rfl := Option.some.inj ran
      exact ⟨.refl _, harmless⟩
  | succ n ih =>
      obtain ⟨u, next, later⟩ := Option.bind_eq_some_iff.mp ran
      obtain ⟨quiet, repeats⟩ := (quiet_round harmless).2 u next
      obtain ⟨quiet', harmless'⟩ := ih (fun harmful => harmless (repeats.harmful quiet.dir harmful)) later
      exact ⟨quiet.trans quiet', harmless'⟩

/-- A harmful round changes a file, or creates or truncates one. -/
theorem harmful_round (harmful : Harmful os s) : ∃ h ∈ (s.round os).hosts, ¬ Untouched s.host h := by
  rcases harmful with ⟨word, granted, can⟩ | ⟨word, changed⟩
  · let named := ((s.hear []).2.name (s.hear []).1).flag
    have opens : (named.openForContent os named.overwrite).host.openings =
        s.host.openings ++ [((s.hear []).2.name (s.hear []).1).filename] := by
      have overwrite : named.overwrite = 1 := granted
      rw [overwrite]
      exact openForContent_opens named.fileDescriptor can
    refine ⟨(named.openForContent os named.overwrite).host, ?_, fun quiet => ?_⟩
    · unfold Server.round
      dsimp only
      rw [if_pos word]
      unfold putRound
      dsimp only
      split_ifs <;> exact List.mem_cons_self
    · have same := quiet.openings
      rw [opens] at same
      exact absurd same (by simp)
  · have round : s.round os = mgetRound os (s.hear []).1 (s.hear []).2 := by
      have other : mgetWord ≠ putWord ∧ mgetWord ≠ getWord := by decide
      unfold Server.round
      dsimp only
      rw [if_neg (word ▸ other.1), if_neg (word ▸ other.2), if_pos word]
    by_contra none_
    have untouched : ∀ h ∈ (s.round os).hosts, Untouched s.host h := by
      intro h member
      by_contra touched
      exact none_ ⟨h, member, touched⟩
    rw [round] at untouched
    by_cases directory : ∃ file ∈ ((s.hear []).2.listFiles os (s.hear []).1).taken os,
        opensDirectory os ((s.hear []).2.listFiles os (s.hear []).1).host file = true
    · rw [mgetRound_ended directory] at untouched
      have listed := (untouched _ List.mem_cons_self).dir
      refine changed ⟨listed, .inr ?_⟩
      obtain ⟨file, taken, opens⟩ := directory
      exact ⟨file, taken, opensDirectory_congr os listed file ▸ opens⟩
    · obtain ⟨host, fileDescriptor, quiet, eq⟩ := mgetRound_eq directory
      rw [eq] at untouched
      have listed := (untouched _ List.mem_cons_self).dir
      have removed := (untouched host.removeTemp (by simp)).dir
      refine changed ⟨listed, .inl fun present => ?_⟩
      have kept : tempTxt ∈ host.dir.erase tempTxt := by
        change host.dir.erase tempTxt = s.host.dir at removed
        rwa [removed]
      exact absurd kept (by simp)

end Repetition

/-- The server without its client never again touches a file exactly when its last command
is not a granted "put" of a file that can be opened, nor an "mget". -/
theorem never_changes_iff (os : Os) (s : Server) : NeverChanges os s ↔ ¬ Harmful os s := by
  constructor
  · intro never harmful
    obtain ⟨h, member, touched⟩ := harmful_round harmful
    exact touched (never 0 s rfl h member)
  · intro harmless n t ran h member
    obtain ⟨quiet, harmless'⟩ := quiet_after n harmless ran
    exact quiet.trans ((quiet_round harmless').1 h member)

/-- The server of a client that has put a file and gone truncates the file again. -/
theorem put_carried_out_again :
    ¬ ∀ (osC osS : Os) (answers : Nat → BitVec 32) (dirC dirS : Dir) (commands : List Command) (x : Client × Server),
      Runs.run (step osC osS answers) (Client.initial dirC, Server.initial dirS) commands = some x →
        NeverChanges osS x.2 := by
  intro claim
  let start := (Client.initial (dirOf [(['a'], ['x'])]), Server.initial ∅)
  let commands := [Command.put (ascii ['a'])]
  have evaluated : (Runs.run (step superuser superuser fun _ => 1) start commands).any
      (fun x => decide (Harmful superuser x.2)) = true := by decide
  obtain ⟨x, ran, harmful⟩ := (Option.any_eq_true _ _).mp evaluated
  obtain ⟨h, member, touched⟩ := harmful_round (of_decide_eq_true harmful)
  exact touched (claim superuser superuser (fun _ => 1) _ _ commands x ran 0 x.2 rfl h member)

theorem putRound_next (os : Os) (stream : Str) (s : Server) :
    (putRound os stream s).next = (handlePut os stream s).alone := by
  unfold putRound handlePut receiveIfGranted receiveFile
  dsimp only
  simp only [alone_sendBytes, alone_recvBytes, recvInt_nil]
  rw [alone_bind]
  split_ifs with granted negative
  · simp only [alone_recvBytes, recvInt_nil, if_pos negative]
    rfl
  · simp only [alone_recvBytes, alone_sendBytes, recvInt_nil, overlay_nil, if_neg negative, alone_pure,
      Option.bind_some, Server.closeDescriptor_eq, alone_ofOption]
  · simp only [alone_pure, Option.bind_some, Server.closeDescriptor_eq, alone_ofOption]

theorem mgetRound_next (os : Os) (stream : Str) (s : Server) :
    (mgetRound os stream s).next = (handleMget os stream s).alone := by
  unfold mgetRound handleMget
  dsimp only
  rw [alone_sendBytes, alone_bind]
  change _ = ((sendFiles os (((s.listFiles os stream).host.listed os).take
    (BitVec.ofNat 32 ((s.listFiles os stream).host.listed os).length).toInt.toNat) (s.listFiles os stream)).alone).bind _
  split
  next ended => rw [ended, Option.bind_none]
  next t done =>
      rw [done, Option.bind_some]
      rfl

/-- The rounds are those of the server's program when nothing arrives. -/
theorem round_next (os : Os) (s : Server) : (s.round os).next = (handle os s []).alone := by
  unfold Server.round handle
  dsimp only
  split_ifs
  · exact putRound_next os _ _
  · rfl
  · exact mgetRound_next os _ _
  · rw [alone_sendBytes]
    rfl
  · rfl

end NetworkOs.Ftp
