import NetworkOs.Ftp.Exchange
import NetworkOs.Ftp.Shell

/-! What one transfer does to the files of the receiver: the file it is for, and no other. -/
namespace NetworkOs.Ftp

/-- No `open` of a file fails for lack of permission. -/
structure Opens (os : Os) : Prop where
  reads : ∀ mode, os.mayRead mode = true
  writes : ∀ mode, os.mayWrite mode = true
  creates : ∀ name, os.mayCreate name = true

/-- No `open` fails for lack of permission, and `write` stores all its bytes. -/
structure Permissive (os : Os) : Prop extends Opens os where
  stores : ∀ bytes, os.stored bytes = some bytes.length

theorem superuser_permissive : Permissive superuser := ⟨⟨fun _ => rfl, fun _ => rfl, fun _ => rfl⟩, fun _ => rfl⟩

/-- What a `write` of these bytes leaves in a file that was emptied. -/
def Os.kept (os : Os) (bytes : Str) : Str := bytes.take ((os.stored bytes).getD 0)

theorem Permissive.kept {os : Os} (permissive : Permissive os) (bytes : Str) : os.kept bytes = bytes := by
  rw [Os.kept, permissive.stores, Option.getD_some, List.take_length]

/-- An `open` for content of this name succeeds. -/
def canOpen (os : Os) (name : Str) (h : Host) : Bool :=
  match h.dir.lookup name with
  | some file => os.mayWrite file.mode
  | none => name ≠ [] && !isDirectory name && os.mayCreate name

theorem Opens.canOpen {os : Os} (opens : Opens os) {name : Str} (named : name ≠ []) (entry : Entry name) (h : Host) :
    canOpen os name h = true := by
  unfold Ftp.canOpen
  cases h.dir.lookup name with
  | some file => exact opens.writes file.mode
  | none => simp [named, entry.file, opens.creates]

/-- What a file of the directory holds. -/
def contentOf (dir : Dir) (name : Str) : Option Str := (dir.lookup name).map fun file => file.content

namespace Host
variable {os : Os} {fileExists overwrite : BitVec 32} {name other : Str} {old : Descriptor} {h : Host}

theorem create_frame (mode : Nat) (ne : other ≠ name) :
    (h.create os name mode).2.dir.lookup other = h.dir.lookup other := by
  unfold create
  split_ifs
  · rfl
  · exact AList.lookup_insert_ne ne

theorem openForContent_frame (ne : other ≠ name) :
    (h.openForContent os fileExists overwrite name old).2.dir.lookup other = h.dir.lookup other := by
  unfold openForContent
  split_ifs
  · unfold openTrunc
    split
    · split_ifs
      · exact AList.lookup_insert_ne ne
      · rfl
    · exact create_frame 644 ne
  · unfold openExcl
    split
    · rfl
    · exact create_frame 0o666 ne
  · rfl

theorem create_target (mode : Nat) :
    (h.create os name mode).1 = .failed ∨ (h.create os name mode).1 = .opened name := by
  unfold create
  split_ifs
  · exact .inl rfl
  · exact .inr rfl

/-- With the flag set to 0 or 1, a granted transfer opens its file or fails. -/
theorem openForContent_target (os : Os) (name : Str) (old : Descriptor) (h : Host) (flag : fileExists = 0 ∨ fileExists = 1) :
    (h.openForContent os fileExists 1 name old).1 = .failed ∨
      (h.openForContent os fileExists 1 name old).1 = .opened name := by
  unfold openForContent
  rcases flag with rfl | rfl
  · rw [if_neg (by decide), if_pos ⟨rfl, rfl⟩]
    unfold openExcl
    split
    · exact .inl rfl
    · exact create_target 0o666
  · rw [if_pos ⟨rfl, rfl⟩]
    unfold openTrunc
    split
    · split_ifs
      · exact .inr rfl
      · exact .inl rfl
    · exact create_target 644

theorem openForContent_declined (declined : overwrite ≠ 1) :
    h.openForContent os fileExists overwrite name old = (old, h) := by
  unfold openForContent
  rw [if_neg (fun both => declined both.2), if_neg (fun both => declined both.2)]

theorem write_frame {target : Descriptor} (bytes : Str) (ne : target ≠ .opened other) :
    (h.write os target bytes).2.dir.lookup other = h.dir.lookup other := by
  cases target with
  | opened held =>
      simp only [write]
      cases found : h.dir.lookup held with
      | none => rfl
      | some file =>
          cases os.stored bytes with
          | none => rfl
          | some count => exact AList.lookup_insert_ne fun same => ne (congrArg _ same.symm)
  | unset => rfl
  | failed => rfl
  | closed => rfl

/-- The machine once `content` is written to the file opened for it. -/
def stored (os : Os) (fileExists : BitVec 32) (name : Str) (old : Descriptor) (content : Str) (h : Host) : Host :=
  let opened := h.openForContent os fileExists 1 name old
  (opened.2.tick.write os opened.1 content).2

theorem stored_frame (flag : fileExists = 0 ∨ fileExists = 1) (content : Str) (ne : other ≠ name) :
    (h.stored os fileExists name old content).dir.lookup other = h.dir.lookup other := by
  refine (write_frame content ?_).trans (openForContent_frame ne)
  rcases openForContent_target os name old h flag with failed | opened
  · rw [failed]
    intro same
    cases same
  · rw [opened]
    intro same
    exact ne (Descriptor.opened.inj same).symm

theorem create_trace (mode : Nat) :
    (h.create os name mode).2.trace = h.trace ++ [.openWrite name (h.create os name mode).1] := by
  unfold create
  split_ifs
  · rfl
  · rfl

theorem openForContent_trace (old : Descriptor) (flag : fileExists = 0 ∨ fileExists = 1) :
    (h.openForContent os fileExists 1 name old).2.trace =
      h.trace ++ [.openWrite name (h.openForContent os fileExists 1 name old).1] := by
  unfold openForContent
  rcases flag with rfl | rfl
  · rw [if_neg (by decide), if_pos ⟨rfl, rfl⟩]
    unfold openExcl
    split
    · rfl
    · exact create_trace 0o666
  · rw [if_pos ⟨rfl, rfl⟩]
    unfold openTrunc
    split
    · split_ifs
      · rfl
      · rfl
    · exact create_trace 644

theorem write_trace (os : Os) (target : Descriptor) (bytes : Str) :
    ∃ result, (h.write os target bytes).2.trace = h.trace ++ [.write target bytes result] := by
  unfold write
  split
  · split
    · exact ⟨_, rfl⟩
    · exact ⟨_, rfl⟩
  · exact ⟨_, rfl⟩

theorem stored_trace (os : Os) (name : Str) (old : Descriptor) (h : Host) (flag : fileExists = 0 ∨ fileExists = 1) (content : Str) :
    ∃ target result, (h.stored os fileExists name old content).trace =
      h.trace ++ [.openWrite name target, .write target content result] := by
  obtain ⟨result, written⟩ := write_trace os (h := (h.openForContent os fileExists 1 name old).2.tick)
    (h.openForContent os fileExists 1 name old).1 content
  refine ⟨(h.openForContent os fileExists 1 name old).1, result, written.trans ?_⟩
  change (h.openForContent os fileExists 1 name old).2.trace ++ _ = _
  rw [openForContent_trace old flag, List.append_assoc]
  rfl

/-- The flag does not stand in the way of opening the file. -/
def Ready (fileExists : BitVec 32) (name : Str) (h : Host) : Prop :=
  fileExists = 1 ∨ fileExists = 0 ∧ h.dir.lookup name = none

theorem openForContent_opened (old : Descriptor) (can : canOpen os name h = true) (ready : h.Ready fileExists name) :
    ∃ mode, h.openForContent os fileExists 1 name old =
      (.opened name, { h with dir := h.dir.insert name ⟨[], mode⟩ }.record (.openWrite name (.opened name))) := by
  unfold openForContent
  cases found : h.dir.lookup name with
  | none =>
      obtain ⟨⟨named, entry⟩, creates⟩ : (name ≠ [] ∧ isDirectory name = false) ∧ os.mayCreate name = true := by
        simpa [canOpen, found] using can
      rcases ready with rfl | ⟨rfl, -⟩
      · rw [if_pos ⟨rfl, rfl⟩]
        exact ⟨644, by simp [openTrunc, found, create, named, entry, creates]⟩
      · rw [if_neg (by decide), if_pos ⟨rfl, rfl⟩]
        exact ⟨0o666, by simp [openExcl, found, create, named, entry, creates]⟩
  | some file =>
      have writes : os.mayWrite file.mode = true := by simpa [canOpen, found] using can
      obtain rfl : fileExists = 1 := ready.resolve_right fun both => by simp [found] at both
      rw [if_pos ⟨rfl, rfl⟩]
      exact ⟨file.mode, by simp [openTrunc, found, writes]⟩

/-- The result of the `write` and what it leaves, behind an `open` that succeeded. -/
theorem written_opened (old : Descriptor) (can : canOpen os name h = true) (ready : h.Ready fileExists name)
    (bytes : Str) : let opened := h.openForContent os fileExists 1 name old
    opened.1 = .opened name ∧ contentOf (opened.2.tick.write os opened.1 bytes).2.dir name = some (os.kept bytes) ∧
      (opened.2.tick.write os opened.1 bytes).1 = if os.stored bytes = none then -1 else ((os.kept bytes).length : Int) := by
  obtain ⟨mode, opened⟩ := openForContent_opened old can ready
  simp only [opened]
  cases count : os.stored bytes with
  | none => simp [write, record, tick, contentOf, AList.lookup_insert, count, Os.kept]
  | some k => simp [write, record, tick, contentOf, AList.lookup_insert, count, Os.kept]

theorem stored_opened (old : Descriptor) (permissive : Permissive os) (ready : h.Ready fileExists name)
    (named : name ≠ []) (entry : Entry name) (content : Str) :
    contentOf (h.stored os fileExists name old content).dir name = some content ∧
      (h.stored os fileExists name old content).trace = h.trace ++
        [.openWrite name (.opened name), .write (.opened name) content content.length] := by
  obtain ⟨mode, opened⟩ := openForContent_opened old (permissive.canOpen named entry h) ready
  simp only [stored, opened]
  simp [write, permissive.stores, record, tick, contentOf, AList.lookup_insert]

end Host
/-- The bytes that are sent of a file: as many as the announced size, an `int`, counts. -/
def sent (content : Str) : Str := content.take (BitVec.ofNat 32 content.length).toNat

theorem sent_eq_self (content : Str) : sent content = content ↔ content.length < 4294967296 := by
  rw [sent, List.take_eq_self_iff, BitVec.toNat_ofNat]
  omega

theorem sendfile_opened {h : Host} {name : Str} {file : File} {count : BitVec 32}
    (held : h.dir.lookup name = some file) (positive : ¬ count.toInt < 0) :
    h.sendfile (.opened name) count = file.content.take count.toNat := by
  simp [Host.sendfile, held, positive]

theorem Server.dir_closed {os : Os} {s s' : Server} (done : s.closed os = some s') : s'.host.dir = s.host.dir := by
  unfold Server.closed Ftp.closed at done
  split_ifs at done
  · cases done
  · cases done
    rfl

theorem Client.dir_closed {os : Os} {c c' : Client} (done : c.closed os = some c') :
    c'.host.dir = c.host.dir ∧ c'.fileExists = c.fileExists ∧ c'.overwrite = c.overwrite := by
  unfold Client.closed Ftp.closed at done
  split_ifs at done
  · cases done
  · cases done
    exact ⟨rfl, rfl, rfl⟩

theorem Client.asked_closed {os : Os} {c c' : Client} (done : c.closed os = some c') : c'.asked = c.asked := by
  unfold Client.closed Ftp.closed at done
  split_ifs at done <;> cases done
  rfl

section Put
variable {osC osS : Os} {answers : Nat → BitVec 32} {filename stream : Str} {c c' : Client} {s s' : Server}

theorem putTransfer_inv (done : putTransfer osS answers filename stream c s = some (c', s')) :
    ∃ flag : BitVec 32, (flag = if s.host.fileExists (extract s.filename stream).1 then 1 else 0) ∧
      c'.fileExists = flag ∧ c'.host.dir = c.host.dir ∧ c'.fileDescriptor = c.fileDescriptor ∧
      (flag = 0 → c'.overwrite = c.overwrite) ∧
      ((c'.overwrite ≠ 1 ∧ s'.host.dir = s.host.dir) ∨
        (c'.overwrite = 1 ∧ ∃ size, c.host.fileSize filename = some size ∧ 0 < (BitVec.ofNat 32 size).toInt ∧
          s'.host.dir = (s.host.stored osS flag (extract s.filename stream).1 s.fileDescriptor
            (c.host.sendfile c.fileDescriptor (BitVec.ofNat 32 size))).dir)) := by
  simp only [putTransfer] at done
  obtain ⟨flag, named⟩ : ∃ flag, flag = ((s.name stream).flag).fileExists := ⟨_, rfl⟩
  rw [← named] at done
  have host : ({ c with fileExists := flag }.askIfFlagged answers).host = c.host := by simp
  have descriptor : ({ c with fileExists := flag }.askIfFlagged answers).fileDescriptor = c.fileDescriptor := by simp
  have exists_flag : ({ c with fileExists := flag }.askIfFlagged answers).fileExists = flag := by simp
  have unasked : flag = 0 → ({ c with fileExists := flag }.askIfFlagged answers).overwrite = c.overwrite := by
    intro zero
    rw [Client.askIfFlagged, if_pos zero]
  generalize { c with fileExists := flag }.askIfFlagged answers = asked at *
  obtain ⟨⟨c₁, s₁⟩, transferred, closing⟩ := Option.bind_eq_some_iff.mp done
  obtain ⟨s₂, server, same⟩ := Option.map_eq_some_iff.mp closing
  cases same
  have dir := Server.dir_closed server
  split_ifs at transferred with granted
  · obtain ⟨size, sized, rest⟩ := Option.bind_eq_some_iff.mp transferred
    simp only at rest
    split_ifs at rest with bad
    · cases rest
      refine ⟨flag, named, exists_flag, congrArg Host.dir host, descriptor, unasked, .inr ⟨granted, size, ?_, ?_, ?_⟩⟩
      · exact host ▸ sized
      · exact not_le.mp fun none_ => bad (.inl none_)
      · rw [dir, granted, host, descriptor, named]
        rfl
  · cases transferred
    refine ⟨flag, named, exists_flag, congrArg Host.dir host, descriptor, unasked, .inl ⟨granted, dir.trans ?_⟩⟩
    exact congrArg (fun opened => opened.2.dir) (Host.openForContent_declined granted)

theorem putTransfer_answers {stream : Str} (done : putTransfer osS answers filename stream c s = some (c', s')) :
    let y := { c with fileExists := ((s.name stream).flag).fileExists }.askIfFlagged answers
    c'.overwrite = y.overwrite ∧ c'.asked = y.asked := by
  intro y
  obtain ⟨⟨c₁, s₁⟩, transferred, closing⟩ := Option.bind_eq_some_iff.mp done
  obtain ⟨s₂, -, same⟩ := Option.map_eq_some_iff.mp closing
  cases same
  split_ifs at transferred
  · obtain ⟨size, -, rest⟩ := Option.bind_eq_some_iff.mp transferred
    dsimp only at rest
    split_ifs at rest
    cases rest
    exact ⟨rfl, rfl⟩
  · cases transferred
    exact ⟨rfl, rfl⟩

theorem putFile_inv (done : putFile osC osS answers filename c s = some (c', s')) :
    ∃ c₁ s₁, putTransfer osS answers filename
      (s.hear (c.host.padded osC 100 (commandText putWord filename))).1 (c.openRead osC filename).tick
      (s.hear (c.host.padded osC 100 (commandText putWord filename))).2 = some (c₁, s₁) ∧
      c'.host.dir = c₁.host.dir ∧ c'.fileExists = c₁.fileExists ∧ s' = s₁ := by
  obtain ⟨⟨c₁, s₁⟩, transferred, closing⟩ := Option.bind_eq_some_iff.mp done
  obtain ⟨c₂, client, same⟩ := Option.map_eq_some_iff.mp closing
  cases same
  have dir := Client.dir_closed client
  exact ⟨c₁, s₁, transferred, dir.1, dir.2.1, rfl⟩

theorem flag_sent (name : Str) : (if s.host.fileExists name then (1 : BitVec 32) else 0) = 0 ∨
    (if s.host.fileExists name then (1 : BitVec 32) else 0) = 1 := by
  split_ifs
  · exact .inr rfl
  · exact .inl rfl

theorem putFile_client (done : putFile osC osS answers filename c s = some (c', s')) :
    c'.host.dir = c.host.dir ∧ (c'.fileExists = 0 ∨ c'.fileExists = 1) := by
  obtain ⟨c₁, s₁, transferred, dir, kept, rfl⟩ := putFile_inv done
  obtain ⟨flag, named, flagged, same, -⟩ := putTransfer_inv transferred
  refine ⟨dir.trans same, ?_⟩
  rw [kept, flagged, named]
  exact flag_sent _

theorem putFile_frame (one : Name filename) (done : putFile osC osS answers filename c s = some (c', s'))
    {other : Str} (ne : other ≠ filename) : s'.host.dir.lookup other = s.host.dir.lookup other := by
  obtain ⟨c₁, s₁, transferred, -, -, rfl⟩ := putFile_inv done
  obtain ⟨flag, named, -, -, -, -, stored⟩ := putTransfer_inv transferred
  rcases stored with ⟨-, unchanged⟩ | ⟨-, size, -, -, changed⟩
  · rw [unchanged]
    rfl
  · rw [changed, argument_heard osC token_put (by decide) c.host one]
    exact Host.stored_frame (named ▸ flag_sent _) _ ne

/-- A file the server does not have arrives exactly where `overwrite` was still 1. -/
theorem putFile_absent {content : Str} (permissiveC : Permissive osC) (permissiveS : Permissive osS)
    (one : Name filename) (held : contentOf c.host.dir filename = some content)
    (absent : contentOf s.host.dir filename = none)
    (done : putFile osC osS answers filename c s = some (c', s')) :
    contentOf s'.host.dir filename = if c.overwrite = 1 then some (sent content) else none := by
  obtain ⟨file, source, rfl⟩ := Option.map_eq_some_iff.mp held
  have missing := Option.map_eq_none_iff.mp absent
  obtain ⟨c₁, s₁, transferred, -, -, rfl⟩ := putFile_inv done
  obtain ⟨flag, named, -, -, -, unasked, stored⟩ := putTransfer_inv transferred
  rw [argument_heard osC token_put (by decide) c.host one] at named stored
  have zero : flag = 0 := by
    rw [named]
    apply if_neg
    change ¬ s.host.fileExists filename = true
    simp [one.toEntry.exists_eq, missing]
  have value : c₁.overwrite = c.overwrite := unasked zero
  rw [value] at stored
  rcases stored with ⟨declined, unchanged⟩ | ⟨granted, size, sized, positive, changed⟩
  · rw [if_neg declined, unchanged]
    exact absent
  · obtain rfl : file.content.length = size := by
      have sized : (c.host.dir.lookup filename).map (fun file => file.content.length) = some size := sized
      rw [source] at sized
      exact Option.some.inj sized
    have readable : c.host.openRead osC filename = .opened filename := by
      simp [Host.openRead, source, permissiveC.reads]
    have bytes : c.host.sendfile (c.host.openRead osC filename) (BitVec.ofNat 32 file.content.length) =
        sent file.content := by
      rw [readable, sendfile_opened source (lt_asymm positive), sent]
    rw [if_pos granted, changed]
    change contentOf (s.host.stored osS flag filename s.fileDescriptor
      (c.host.sendfile (c.host.openRead osC filename) (BitVec.ofNat 32 file.content.length))).dir filename = _
    rw [bytes]
    exact (Host.stored_opened s.fileDescriptor permissiveS (.inr ⟨zero, missing⟩) one.nonempty
      one.toEntry _).1

end Put
section Get
variable {osC osS : Os} {answers : Nat → BitVec 32} {file : Str} {c c' : Client} {s s' : Server}

theorem dir_closed {os : Os} {target : Descriptor} {h h' : Host} (done : closed os target h = some h') :
    h'.dir = h.dir := by
  unfold closed at done
  split_ifs at done
  cases done
  rfl

theorem getOne_inv (done : getOne osC osS answers file c s = some (c', s')) :
    ∃ size, (s.openRead osS file).announced file = some size ∧ s'.host.dir = s.host.dir ∧
      ((BitVec.ofNat 32 size = 0 ∧ c' = c) ∨
        (BitVec.ofNat 32 size ≠ 0 ∧ c'.fileExists = (c.askIfPresent answers (cString c.filename)).fileExists ∧
          (((c.askIfPresent answers (cString c.filename)).overwrite ≠ 1 ∧ c'.host.dir = c.host.dir) ∨
            ((c.askIfPresent answers (cString c.filename)).overwrite = 1 ∧ ¬ (BitVec.ofNat 32 size).toInt < 0 ∧
              c'.host.dir = (c.host.stored osC (c.askIfPresent answers (cString c.filename)).fileExists
                (cString c.filename) .unset
                (s.host.sendfile (s.host.openRead osS file) (BitVec.ofNat 32 size))).dir)))) := by
  obtain ⟨⟨c₁, s₁⟩, transferred, closing⟩ := Option.bind_eq_some_iff.mp done
  obtain ⟨s₂, server, same⟩ := Option.map_eq_some_iff.mp closing
  cases same
  have dir := Server.dir_closed server
  obtain ⟨size, sized, rest⟩ := Option.bind_eq_some_iff.mp transferred
  refine ⟨size, sized, ?_⟩
  simp only at rest
  have host : (c.askIfPresent answers (cString c.filename)).host = c.host := by simp
  generalize c.askIfPresent answers (cString c.filename) = asked at *
  split_ifs at rest with zero granted negative
  · cases rest
    exact ⟨dir, .inl ⟨zero, rfl⟩⟩
  · obtain ⟨h, ended, same⟩ := Option.map_eq_some_iff.mp rest
    cases same
    refine ⟨dir, .inr ⟨zero, rfl, .inr ⟨granted, negative, ?_⟩⟩⟩
    refine (dir_closed ended).trans ?_
    rw [host, granted]
    rfl
  · obtain ⟨h, ended, same⟩ := Option.map_eq_some_iff.mp rest
    cases same
    refine ⟨dir, .inr ⟨zero, rfl, .inl ⟨granted, (dir_closed ended).trans ?_⟩⟩⟩
    rw [host]
    exact congrArg (fun opened => opened.2.dir) (Host.openForContent_declined granted)

theorem getOne_answers (done : getOne osC osS answers file c s = some (c', s')) :
    ∃ size, (s.openRead osS file).announced file = some size ∧
      (BitVec.ofNat 32 size ≠ 0 → c'.overwrite = (c.askIfPresent answers (cString c.filename)).overwrite ∧
        c'.asked = (c.askIfPresent answers (cString c.filename)).asked) := by
  obtain ⟨⟨c₁, s₁⟩, transferred, closing⟩ := Option.bind_eq_some_iff.mp done
  obtain ⟨s₂, server, same⟩ := Option.map_eq_some_iff.mp closing
  cases same
  obtain ⟨size, sized, rest⟩ := Option.bind_eq_some_iff.mp transferred
  refine ⟨size, sized, fun nonzero => ?_⟩
  dsimp only at rest
  rw [if_neg nonzero] at rest
  split_ifs at rest
  · obtain ⟨h, -, same⟩ := Option.map_eq_some_iff.mp rest
    cases same
    exact ⟨rfl, rfl⟩
  · obtain ⟨h, -, same⟩ := Option.map_eq_some_iff.mp rest
    cases same
    exact ⟨rfl, rfl⟩

theorem announced_held {name : Str} (opensS : Opens osS) {content : Str} (held : contentOf s.host.dir name = some content) :
    (s.openRead osS name).announced name = some content.length := by
  obtain ⟨file, source, rfl⟩ := Option.map_eq_some_iff.mp held
  have readable : s.host.openRead osS name = .opened name := by simp [Host.openRead, source, opensS.reads]
  have opened : (s.openRead osS name).fileDescriptor ≠ .failed := by
    change s.host.openRead osS name ≠ .failed
    rw [readable]
    simp
  rw [Server.announced, if_neg opened]
  exact congrArg (Option.map fun file => file.content.length) source

theorem flag_asked (answers : Nat → BitVec 32) (name : Str) (bit : c.fileExists = 0 ∨ c.fileExists = 1) :
    (c.askIfPresent answers name).fileExists = 0 ∨ (c.askIfPresent answers name).fileExists = 1 := by
  unfold Client.askIfPresent
  split_ifs
  · exact .inr rfl
  · exact bit

theorem getOne_frame (bit : c.fileExists = 0 ∨ c.fileExists = 1)
    (done : getOne osC osS answers file c s = some (c', s')) :
    s'.host.dir = s.host.dir ∧ (c'.fileExists = 0 ∨ c'.fileExists = 1) ∧
      ∀ other, other ≠ cString c.filename → c'.host.dir.lookup other = c.host.dir.lookup other := by
  have asked := flag_asked answers (cString c.filename) bit
  obtain ⟨size, -, dir, ⟨-, rfl⟩ | ⟨-, flag, stored⟩⟩ := getOne_inv done
  · exact ⟨dir, bit, fun _ _ => rfl⟩
  · refine ⟨dir, flag ▸ asked, ?_⟩
    intro other ne
    rcases stored with ⟨-, unchanged⟩ | ⟨-, -, changed⟩
    · rw [unchanged]
    · rw [changed]
      exact Host.stored_frame asked _ ne

/-- A file the client does not have arrives exactly where `overwrite` was still 1 and
the announced size is not 0. -/
theorem getOne_kept {content : Str} (opensC : Opens osC) (opensS : Opens osS)
    (bit : c.fileExists = 0 ∨ c.fileExists = 1) (named : cString c.filename = file) (one : Name file)
    (held : contentOf s.host.dir file = some content) (absent : contentOf c.host.dir file = none)
    (done : getOne osC osS answers file c s = some (c', s')) :
    contentOf c'.host.dir file = if c.overwrite = 1 ∧ sent content ≠ [] then some (osC.kept (sent content)) else none := by
  obtain ⟨found, source, rfl⟩ := Option.map_eq_some_iff.mp held
  have missing := Option.map_eq_none_iff.mp absent
  have readable : s.host.openRead osS file = .opened file := by simp [Host.openRead, source, opensS.reads]
  have unasked : c.askIfPresent answers file = c := by
    apply if_neg
    simp [one.toEntry.exists_eq, missing]
  obtain ⟨size, announced, -, result⟩ := getOne_inv done
  rw [named, unasked] at result
  obtain rfl : found.content.length = size := Option.some.inj ((announced_held opensS held).symm.trans announced)
  have empty : sent found.content = [] ↔ BitVec.ofNat 32 found.content.length = 0 := by
    rw [sent, List.take_eq_nil_iff, ← BitVec.toNat_inj, BitVec.toNat_ofNat]
    constructor
    · rintro (zero | zero)
      · exact zero
      · rw [zero]
        rfl
    · exact .inl
  rcases result with ⟨zero, rfl⟩ | ⟨nonzero, -, ⟨declined, unchanged⟩ | ⟨granted, positive, changed⟩⟩
  · rw [if_neg fun both => both.2 (empty.mpr zero)]
    exact absent
  · rw [if_neg fun both => declined both.1, unchanged]
    exact absent
  · have bytes : s.host.sendfile (s.host.openRead osS file) (BitVec.ofNat 32 found.content.length) =
        sent found.content := by
      rw [readable, sendfile_opened source positive, sent]
    have ready : c.host.Ready c.fileExists file := bit.symm.imp_right fun zero => ⟨zero, missing⟩
    rw [if_pos ⟨granted, fun none => nonzero (empty.mp none)⟩, changed, bytes]
    exact (Host.written_opened .unset (opensC.canOpen one.nonempty one.toEntry c.host) ready _).2.1

theorem getOne_absent {content : Str} (permissiveC : Permissive osC) (permissiveS : Permissive osS)
    (bit : c.fileExists = 0 ∨ c.fileExists = 1) (named : cString c.filename = file) (one : Name file)
    (held : contentOf s.host.dir file = some content) (absent : contentOf c.host.dir file = none)
    (done : getOne osC osS answers file c s = some (c', s')) :
    contentOf c'.host.dir file = if c.overwrite = 1 ∧ sent content ≠ [] then some (sent content) else none := by
  rw [getOne_kept permissiveC.toOpens permissiveS.toOpens bit named one held absent done, permissiveC.kept]

end Get
end NetworkOs.Ftp
