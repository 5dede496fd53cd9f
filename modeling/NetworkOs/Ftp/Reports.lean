import NetworkOs.Ftp.Disconnected
import NetworkOs.Ftp.Segmentation

/-! What the client reports of a granted "put". The number it takes for success or failure
is the result of the server's `write`, which may store what no `recv` returned. -/
namespace NetworkOs.Ftp
open Duplex Proc

/-- The value of `overwrite` that the client sends is 1: it is the user's answer where the
server has the file, and the value kept from before where it has not. -/
def Granted (answers : Nat → BitVec 32) (name : Str) (c : Client) (s : Server) : Prop :=
  if s.host.fileExists name then answers c.asked = 1 else c.overwrite = 1

instance (answers : Nat → BitVec 32) (name : Str) (c : Client) (s : Server) : Decidable (Granted answers name c s) :=
  inferInstanceAs (Decidable (if s.host.fileExists name then answers c.asked = 1 else c.overwrite = 1))

/-- The `write` of a granted "put" on the server. -/
def putWritten (os : Os) (name bytes : Str) (s : Server) : Int × Host :=
  let opened := s.host.openForContent os (if s.host.fileExists name then 1 else 0) 1 name s.fileDescriptor
  opened.2.tick.write os opened.1 bytes

/-- What the server takes for the content, where its `recv` returned at most `piece` bytes of it: the
others are those of memory that was not set. -/
def putBuffer (os : Os) (bytes : Str) (piece : Nat) (s : Server) : Str :=
  overlay (s.host.unsetBytes os bytes.length) (bytes.take piece)

/-- Where the server can open the file, its `write` stores none of the buffer, or all of it and the
buffer is the content; where it cannot, the file held these bytes already. -/
def Truthful (os : Os) (name bytes buffer : Str) (h : Host) : Prop :=
  if canOpen os name h then
    match os.stored buffer with
    | none => False
    | some count => count = 0 ∨ bytes.length ≤ count ∧ buffer = bytes
  else contentOf h.dir name = some bytes

/-- A "put" in which each side receives what the other sends. The `recv` of the content returns `piece`
bytes, or all of them where these are fewer; the other messages arrive whole. -/
def PutRun (osC osS : Os) (answers : Nat → BitVec 32) (name : Str) (piece : Nat) (x x' : Client × Server) : Prop :=
  ∃ sentC sentS size left,
    Feeds (put osC answers name x.1) sentS [(4, 4), (4, 4)] sentC x'.1 [] ∧
    Feeds (request osS x.2) sentC [(100, 100), (4, 4), (4, 4), (size, min size piece)] sentS x'.2 left

/-- A granted "put" that came to its end. -/
structure PutDone (osS : Os) (name bytes : Str) (c : Client) (s : Server) (c' : Client) (s' : Server) : Prop where
  dir : c'.host.dir = c.host.dir
  flag : c'.fileExists = 0 ∨ c'.fileExists = 1
  overwrite : c'.overwrite = 1
  reported : c'.reported = c.reported ++ [(name, decide (BitVec.ofInt 32 (putWritten osS name bytes s).1 ≠ 0))]
  stored : s'.host.dir = (putWritten osS name bytes s).2.dir

section Put
variable {osC osS : Os} {answers : Nat → BitVec 32} {name : Str} {c c' : Client} {s s' : Server}

theorem openForContent_set (os : Os) {flag : BitVec 32} (bit : flag = 0 ∨ flag = 1) (name : Str) (old : Descriptor)
    (h : Host) :
    (h.openForContent os flag 1 name old).1 ≠ .unset := by
  rcases Host.openForContent_target os name old h bit with failed | opened
  · rw [failed]
    simp
  · rw [opened]
    simp

/-- What the server opens for the name that it has read. -/
theorem openForContent_named (osS : Os) {stream : Str} (named : (s.name stream).filename = name) :
    let flagged := (s.name stream).flag
    let opened := flagged.openForContent osS 1
    flagged.fileExists = (if s.host.fileExists name then 1 else 0) ∧
      (opened.fileDescriptor, opened.host) =
        s.host.openForContent osS (if s.host.fileExists name then 1 else 0) 1 name s.fileDescriptor ∧
      opened.fileDescriptor ≠ .unset := by
  intro flagged opened
  have flag : flagged.fileExists = if s.host.fileExists name then 1 else 0 := by
    rw [← named]
    rfl
  have target : (opened.fileDescriptor, opened.host) =
      s.host.openForContent osS (if s.host.fileExists name then 1 else 0) 1 name s.fileDescriptor := by
    rw [← flag, ← named]
    rfl
  have set := openForContent_set osS (flag_sent (s := s) name) name s.fileDescriptor s.host
  rw [← target] at set
  exact ⟨flag, target, set⟩

theorem asked_granted (granted : Granted answers name c s) (d : Client) (overwrite : d.overwrite = c.overwrite)
    (asked : d.asked = c.asked) :
    ({ d with fileExists := if s.host.fileExists name then 1 else 0 }.askIfFlagged answers).overwrite = 1 := by
  rw [askIfFlagged_overwrite, overwrite, asked]
  unfold Granted at granted
  split_ifs at granted ⊢
  · exact granted
  · exact granted

theorem asked_reported {flag : BitVec 32} (c : Client) :
    ({ c with fileExists := flag }.askIfFlagged answers).reported = c.reported := by
  unfold Client.askIfFlagged
  split_ifs <;> rfl

theorem putContent_eq {size : Nat} (sized : c.host.fileSize name = some size) :
    let bytes := c.host.sendfile c.fileDescriptor (BitVec.ofNat 32 size)
    let written := s.host.tick.write osS s.fileDescriptor bytes
    putContent osS name c s =
      if (BitVec.ofNat 32 size).toInt ≤ 0 ∨ bytes.length ≠ (BitVec.ofNat 32 size).toNat then none
      else some (c.report name (BitVec.ofInt 32 written.1),
        { s with filesize := BitVec.ofNat 32 size, host := written.2 }) := by
  rw [putContent, sized, Option.bind_some]

/-- Behind the command, the file is transferred unless its size as an `int` is not positive or
less can be sent of it. -/
theorem putTransfer_granted (osS : Os) (answers : Nat → BitVec 32) {stream : Str}
    (named : (s.name stream).filename = name) {size : Nat} (sized : c.host.fileSize name = some size)
    (granted : Granted answers name c s) :
    let bytes := c.host.sendfile c.fileDescriptor (BitVec.ofNat 32 size)
    let stuck := (BitVec.ofNat 32 size).toInt ≤ 0 ∨ bytes.length ≠ (BitVec.ofNat 32 size).toNat
    (stuck → putTransfer osS answers name stream c s = none) ∧
      (¬ stuck → ∃ c' s', putTransfer osS answers name stream c s = some (c', s') ∧
        PutDone osS name bytes c s c' s' ∧ c'.fileDescriptor = c.fileDescriptor) := by
  intro bytes stuck
  obtain ⟨flag, target, set⟩ := openForContent_named osS named
  obtain ⟨asked, asked_eq⟩ : ∃ asked, asked =
      { c with fileExists := ((s.name stream).flag).fileExists }.askIfFlagged answers := ⟨_, rfl⟩
  have overwrite : asked.overwrite = 1 := by
    rw [asked_eq, flag]
    exact asked_granted granted c rfl rfl
  obtain ⟨t, opened⟩ : ∃ t, t = ((s.name stream).flag).openForContent osS 1 := ⟨_, rfl⟩
  rw [← opened] at target set
  have host : asked.host = c.host := by simp [asked_eq]
  have descriptor : asked.fileDescriptor = c.fileDescriptor := by simp [asked_eq]
  have bit : asked.fileExists = 0 ∨ asked.fileExists = 1 := by
    rw [asked_eq, Client.askIfFlagged_fileExists, flag]
    exact flag_sent name
  have reported : asked.reported = c.reported := by rw [asked_eq, asked_reported]
  have transfer : putTransfer osS answers name stream c s =
      (putContent osS name asked t).bind fun x => (x.2.closed osS).map fun s => (x.1, s) := by
    simp only [putTransfer, ← asked_eq, overwrite, if_true, ← opened]
  have written : t.host.tick.write osS t.fileDescriptor bytes = putWritten osS name bytes s := by
    rw [putWritten, ← target]
  rw [transfer, putContent_eq (host ▸ sized), host, descriptor, written]
  constructor
  · intro bad
    rw [if_pos bad]
    rfl
  · intro good
    rw [if_neg good, Option.bind_some, Server.closed, closed_set set]
    refine ⟨_, _, rfl, ⟨congrArg Host.dir host, bit, overwrite, ?_, rfl⟩, descriptor⟩
    rw [Client.report, reported]

/-- A granted "put", with its command and up to both calls of `close`. -/
theorem putFile_granted (osC osS : Os) (answers : Nat → BitVec 32) (one : Name name) {size : Nat}
    (sized : c.host.fileSize name = some size) (granted : Granted answers name c s) :
    let bytes := c.host.sendfile (c.host.openRead osC name) (BitVec.ofNat 32 size)
    let stuck := (BitVec.ofNat 32 size).toInt ≤ 0 ∨ bytes.length ≠ (BitVec.ofNat 32 size).toNat
    (stuck → putFile osC osS answers name c s = none) ∧
      (¬ stuck → ∃ c' s', putFile osC osS answers name c s = some (c', s') ∧ PutDone osS name bytes c s c' s') := by
  intro bytes stuck
  have heard := argument_heard osC token_put (by decide) c.host one
    (s.hear (c.host.padded osC 100 (commandText putWord name))).2.filename s
  obtain ⟨ends, transfers⟩ := putTransfer_granted osS answers
    (c := (c.openRead osC name).tick) (s := (s.hear (c.host.padded osC 100 (commandText putWord name))).2)
    heard sized granted
  constructor
  · intro bad
    rw [putFile, ends bad]
    rfl
  · intro good
    obtain ⟨c', s', done, put, descriptor⟩ := transfers good
    have set : c'.fileDescriptor ≠ .unset := descriptor ▸ openRead_set osC name c.host
    refine ⟨_, _, by rw [putFile, done, Option.bind_some, Client.closed, closed_set set]; rfl, ?_⟩
    exact ⟨put.dir, put.flag, put.overwrite, put.reported, put.stored⟩

/-- What is sent of a file that can be sent. -/
theorem sendfile_sent {h : Host} {file : File} (source : h.dir.lookup name = some file)
    (sendable : Sendable osC h.dir name) :
    h.sendfile (h.openRead osC name) (BitVec.ofNat 32 file.content.length) = sent file.content := by
  obtain ⟨other, found, reads, positive⟩ := sendable_iff.mp sendable
  obtain rfl := Option.some.inj (found.symm.trans source)
  have readable : h.openRead osC name = .opened name := by simp [Host.openRead, source, reads]
  rw [readable, sendfile_opened source (by omega), sent]

theorem length_sent (content : Str) : (sent content).length = (BitVec.ofNat 32 content.length).toNat := by
  rw [sent, List.length_take, BitVec.toNat_ofNat]
  exact Nat.min_eq_left (Nat.mod_le _ _)

theorem ready_flagged (name : Str) (h : Host) : h.Ready (if h.fileExists name then 1 else 0) name := by
  by_cases present : h.fileExists name = true
  · exact .inl (if_pos present)
  · refine .inr ⟨if_neg present, ?_⟩
    simp only [Host.fileExists, Bool.or_eq_true, not_or] at present
    exact Option.not_isSome_iff_eq_none.mp present.1

/-- An opened file holds what `write` kept, and the result tells its length. -/
theorem putWritten_opened (bytes : Str) (can : canOpen osS name s.host = true) :
    contentOf (putWritten osS name bytes s).2.dir name = some (osS.kept bytes) ∧
      (putWritten osS name bytes s).1 = if osS.stored bytes = none then -1 else ((osS.kept bytes).length : Int) :=
  (Host.written_opened s.fileDescriptor can (ready_flagged name s.host) bytes).2

/-- Without an opened file nothing is written, and the result is -1. -/
theorem putWritten_refused (bytes : Str) (cannot : ¬ canOpen osS name s.host = true) :
    contentOf (putWritten osS name bytes s).2.dir name = contentOf s.host.dir name ∧
      (putWritten osS name bytes s).1 = -1 := by
  obtain ⟨untouched, failed⟩ := openForContent_refused s.fileDescriptor cannot
  rw [putWritten]
  simp only [failed]
  refine ⟨?_, rfl⟩
  exact congrArg (contentOf · name) ((untouched_write osS bytes _).dir.trans untouched.dir)

theorem ofInt_length_ne_zero {n : Nat} (small : n < 2147483648) : BitVec.ofInt 32 (n : Int) ≠ 0 ↔ n ≠ 0 := by
  rw [BitVec.ofInt_natCast, ne_eq, ← BitVec.toNat_inj, BitVec.toNat_ofNat]
  change ¬ n % 4294967296 = 0 ↔ _
  rw [Nat.mod_eq_of_lt (by omega)]

/-- The client takes the result for success, if and only if the file holds the content, exactly where
`Truthful` holds. -/
theorem putWritten_truthful_iff {bytes buffer : Str} (filled : bytes ≠ []) (length : buffer.length = bytes.length)
    (small : bytes.length < 2147483648) :
    (BitVec.ofInt 32 (putWritten osS name buffer s).1 ≠ 0 ↔
      contentOf (putWritten osS name buffer s).2.dir name = some bytes) ↔ Truthful osS name bytes buffer s.host := by
  rw [Truthful]
  by_cases can : canOpen osS name s.host = true
  · obtain ⟨held, result⟩ := putWritten_opened buffer can
    rw [held, result, if_pos can, Option.some.injEq, Os.kept]
    cases count : osS.stored buffer with
    | none => simp [filled.symm]
    | some k =>
        have some_ : 0 < bytes.length := List.length_pos_iff.mpr filled
        have kept : (buffer.take k).length < 2147483648 := (List.length_take_le' k buffer).trans_lt (length ▸ small)
        rw [if_neg (by simp), Option.getD_some, ofInt_length_ne_zero kept, List.length_take, length]
        rcases Nat.eq_zero_or_pos k with rfl | positive
        · simp [filled.symm]
        · have whole : buffer.take k = bytes ↔ bytes.length ≤ k ∧ buffer = bytes := by
            constructor
            · intro same
              have most := congrArg List.length same
              rw [List.length_take, length] at most
              rw [List.take_of_length_le (by omega)] at same
              exact ⟨by omega, same⟩
            · rintro ⟨fits, rfl⟩
              exact List.take_of_length_le fits
          simp only [whole, positive.ne', false_or, iff_iff_eq]
          have reported : ¬ min k bytes.length = 0 := by omega
          simp [reported]
  · obtain ⟨held, result⟩ := putWritten_refused buffer can
    rw [held, result, if_neg can]
    simp

end Put

theorem Host.create_clock {os : Os} (mode : Nat) (h : Host) : (h.create os name mode).2.clock = h.clock := by
  unfold create
  split_ifs <;> rfl

/-- An `open` for content sets no memory. -/
theorem Host.openForContent_clock {os : Os} {flag overwrite : BitVec 32} {old : Descriptor} (h : Host) :
    (h.openForContent os flag overwrite name old).2.clock = h.clock := by
  unfold openForContent
  split_ifs
  · unfold openTrunc
    split
    · split_ifs <;> rfl
    · exact create_clock 644 h
  · unfold openExcl
    split
    · rfl
    · exact create_clock 0o666 h
  · rfl

section Step
variable {osC osS : Os} {answers : Nat → BitVec 32} {x x' : Client × Server} {name content : Str}

/-- A granted "put" in a session ends exactly if the file can be sent, and what it does then. -/
theorem step_put_granted (osC osS : Os) (one : Name name) (held : contentOf x.1.host.dir name = some content)
    (granted : Granted answers name x.1 x.2) :
    (∀ x', step osC osS answers x (.put name) = some x' → Sendable osC x.1.host.dir name ∧
      PutDone osS name (sent content) x.1 x.2 x'.1 x'.2) ∧
      (Sendable osC x.1.host.dir name → ∃ x', step osC osS answers x (.put name) = some x') := by
  obtain ⟨file, source, rfl⟩ := Option.map_eq_some_iff.mp held
  have present : (x.1.enter name).host.fileExists name = true := by simp [Client.enter, Host.fileExists, source]
  have sized : (x.1.enter name).host.fileSize name = some file.content.length := by
    change (x.1.host.dir.lookup name).map _ = _
    rw [source]
    rfl
  obtain ⟨ends, transfers⟩ := putFile_granted osC osS answers (c := x.1.enter name)
    (s := x.2) one sized granted
  have stuck := stuck_iff osC (h := (x.1.enter name).host) source
  rw [step_eq_exchange]
  simp only [exchange, present, if_true]
  constructor
  · intro x' done
    by_cases sendable : Sendable osC x.1.host.dir name
    · obtain ⟨c', s', found, put⟩ := transfers fun bad => stuck.mp bad sendable
      obtain rfl := Option.some.inj (found.symm.trans done)
      rw [sendfile_sent (h := (x.1.enter name).host) source sendable] at put
      exact ⟨sendable, put.dir, put.flag, put.overwrite, put.reported, put.stored⟩
    · rw [ends (stuck.mpr sendable)] at done
      cases done
  · intro sendable
    obtain ⟨c', s', found, -⟩ := transfers fun bad => stuck.mp bad sendable
    exact ⟨(c', s'), found⟩

end Step

section Pieces
variable {osC osS : Os} {answers : Nat → BitVec 32} {name payload replies left sentC : Str} {c c' : Client}
  {s s' : Server} {filesize : BitVec 32} {size length : Nat}

theorem closeFile_set {os : Os} {target : Descriptor} (set : target ≠ .unset) (h : Host) :
    closeFile os target h = pure (h.close target) := if_neg fun both => set both.1

theorem Server.closeDescriptor_set (os : Os) (set : s.fileDescriptor ≠ .unset) : s.closeDescriptor os =
    pure { s with host := s.host.close s.fileDescriptor, fileDescriptor := .closed } := by
  rw [closeDescriptor, closeFile_set set]
  rfl

/-- The server behind a granted "put", for a `recv` of the content that returns `length` bytes. -/
theorem receiveFile_feeds_iff (set : s.fileDescriptor ≠ .unset) :
    let written := s.host.tick.write osS s.fileDescriptor
      (overlay (s.host.unsetBytes osS filesize.toNat) (payload.take length))
    Feeds (receiveFile osS s >>= fun s => s.closeDescriptor osS) (intBytes filesize ++ payload)
        [(4, 4), (size, length)] replies s' left ↔
      ¬ filesize.toInt < 0 ∧
        (size = filesize.toNat ∧ payload ≠ [] ∧ (0 < length ∨ filesize.toNat = 0) ∧ length ≤ filesize.toNat ∧
          length ≤ payload.length) ∧
        replies = intBytes (BitVec.ofInt 32 written.1) ∧ left = payload.drop length ∧
        s' = { s with
          filesize := filesize
          host := written.2.close s.fileDescriptor
          fileDescriptor := .closed } := by
  intro written
  rw [receiveFile, Proc.bind_assoc, Feeds.recv_whole_iff (length_intBytes filesize) (by decide)]
  simp only [recvInt_intBytes]
  by_cases negative : filesize.toInt < 0
  · simp only [negative, not_true_eq_false, false_and, iff_false]
    exact Feeds.halt_inv
  · rw [if_neg negative, Proc.bind_assoc, Feeds.recv_iff, and_iff_right negative]
    refine and_congr_right fun _ => ?_
    rw [Proc.bind_assoc, Feeds.send_iff]
    have closing := Server.closeDescriptor_set osS (s := { s with filesize := filesize, host := written.2 }) set
    constructor
    · rintro ⟨later, ended, rfl⟩
      obtain ⟨rfl, -, rfl, rfl⟩ := closeDescriptor_feeds ended
      exact ⟨List.append_nil _, rfl, rfl⟩
    · rintro ⟨rfl, rfl, rfl⟩
      refine ⟨[], ?_, (List.append_nil _).symm⟩
      change Feeds (Server.closeDescriptor osS { s with filesize := filesize, host := written.2 }) _ _ _ _ _
      rw [closing]
      exact .ret _ _

/-- The server of a "put" whose command, flag and size arrive whole. -/
theorem request_feeds_iff (one : Name name) (h : Host) :
    let heard := s.hear (h.padded osC 100 (commandText putWord name))
    let opened := ((heard.2.name heard.1).flag).openForContent osS 1
    let written := putWritten osS name (overlay (s.host.unsetBytes osS filesize.toNat) (payload.take length)) s
    Feeds (request osS s) (h.padded osC 100 (commandText putWord name) ++ (intBytes 1 ++ (intBytes filesize ++ payload)))
        [(100, 100), (4, 4), (4, 4), (size, length)] replies s' left ↔
      ¬ filesize.toInt < 0 ∧
        (size = filesize.toNat ∧ payload ≠ [] ∧ (0 < length ∨ filesize.toNat = 0) ∧ length ≤ filesize.toNat ∧
          length ≤ payload.length) ∧
        replies = intBytes (if s.host.fileExists name then 1 else 0) ++ intBytes (BitVec.ofInt 32 written.1) ∧
        left = payload.drop length ∧
        s' = { opened with
          filesize := filesize
          host := written.2.close opened.fileDescriptor
          fileDescriptor := .closed } := by
  intro heard opened written
  have named : (heard.2.name heard.1).filename = name :=
    argument_heard osC token_put (by decide) h one heard.2.filename s
  have facts : (heard.2.name heard.1).flag.fileExists = (if s.host.fileExists name then 1 else 0) ∧
      (opened.fileDescriptor, opened.host) =
        s.host.openForContent osS (if s.host.fileExists name then 1 else 0) 1 name s.fileDescriptor ∧
      opened.fileDescriptor ≠ .unset := openForContent_named osS named
  obtain ⟨flag, target, set⟩ := facts
  have clock : ∀ n, opened.host.unsetBytes osS n = s.host.unsetBytes osS n := by
    intro n
    have same : opened.host.clock = s.host.clock := Host.openForContent_clock _
    rw [Host.unsetBytes, same]
    rfl
  have result : opened.host.tick.write osS opened.fileDescriptor
      (overlay (opened.host.unsetBytes osS filesize.toNat) (payload.take length)) = written := by
    simp only [written, putWritten, ← target, clock]
  have inner : ∀ later, Feeds (receiveFile osS opened >>= fun s => s.closeDescriptor osS)
      (intBytes filesize ++ payload) [(4, 4), (size, length)] later s' left ↔ _ :=
    fun later => receiveFile_feeds_iff set
  rw [result] at inner
  rw [request, Feeds.recv_whole_iff (Host.length_padded _ _ _ _) (by decide),
    handle_put (hear_command osC token_put (by decide) h name s).2, handlePut, Feeds.send_iff, ← flag]
  have answered : ∀ later, Feeds (recvBytes .overwriteFlag 4 >>= fun bytes =>
        receiveIfGranted osS ((heard.2.name heard.1).flag.openForContent osS (recvInt heard.2.overwrite bytes)) >>=
          fun s => s.closeDescriptor osS)
        (intBytes 1 ++ (intBytes filesize ++ payload)) [(4, 4), (4, 4), (size, length)] later s' left ↔
      Feeds (receiveFile osS opened >>= fun s => s.closeDescriptor osS) (intBytes filesize ++ payload)
        [(4, 4), (size, length)] later s' left := by
    intro later
    rw [Feeds.recv_whole_iff (length_intBytes 1) (by decide), recvInt_intBytes]
    rfl
  constructor
  · rintro ⟨later, fed, rfl⟩
    obtain ⟨positive, returned, rfl, rest⟩ := (inner later).mp ((answered later).mp fed)
    exact ⟨positive, returned, rfl, rest⟩
  · rintro ⟨positive, returned, rfl, rest⟩
    exact ⟨_, (answered _).mpr ((inner _).mpr ⟨positive, returned, rfl, rest⟩), rfl⟩

theorem Client.closeDescriptor_set (os : Os) (set : c.fileDescriptor ≠ .unset) : c.closeDescriptor os =
    pure { c with host := c.host.close c.fileDescriptor, fileDescriptor := .closed } := by
  rw [closeDescriptor, closeFile_set set]
  rfl

/-- The client behind the question of a "put", where one more message arrives whole. -/
theorem sendContent_feeds_iff (set : c.fileDescriptor ≠ .unset) {count : Nat} (sized : c.host.fileSize name = some count) :
    Feeds ((if c.overwrite = 1 then sendContent osC name c else pure c) >>= fun c => c.closeDescriptor osC) replies
        [(4, 4)] sentC c' [] ↔
      c.overwrite = 1 ∧ replies.length = 4 ∧
        sentC = intBytes (BitVec.ofNat 32 count) ++ c.host.sendfile c.fileDescriptor (BitVec.ofNat 32 count) ∧
        c' = { c.report name (recvInt (c.host.unsetInt osC) replies) with
          host := c.host.close c.fileDescriptor
          fileDescriptor := .closed } := by
  have status : ∀ last, Feeds (recvBytes .status 4 >>= fun bytes =>
      (c.report name (recvInt (c.host.unsetInt osC) bytes)).closeDescriptor osC) replies [(4, 4)] last c' [] ↔
        replies.length = 4 ∧ last = [] ∧ c' = { c.report name (recvInt (c.host.unsetInt osC) replies) with
          host := c.host.close c.fileDescriptor
          fileDescriptor := .closed } := by
    intro last
    have closing := Client.closeDescriptor_set osC
      (c := c.report name (recvInt (c.host.unsetInt osC) (replies.take 4))) set
    rw [Feeds.recv_iff, closing, Feeds.pure_iff]
    constructor
    · rintro ⟨⟨-, -, -, -, there⟩, rfl, -, rfl, none_⟩
      have short := List.drop_eq_nil_iff.mp none_.symm
      rw [List.take_of_length_le short]
      exact ⟨by omega, rfl, rfl⟩
    · rintro ⟨length, rfl, rfl⟩
      rw [List.take_of_length_le length.le]
      refine ⟨⟨rfl, ?_, by decide, by decide, length.ge⟩, rfl, rfl, rfl, (List.drop_eq_nil_iff.mpr length.le).symm⟩
      exact fun empty => absurd (empty ▸ length) (by decide)
  by_cases granted : c.overwrite = 1
  · rw [if_pos granted, and_iff_right granted, sendContent, sized]
    simp only [Proc.bind_assoc, Feeds.send_iff]
    constructor
    · rintro ⟨later, ⟨last, fed, rfl⟩, rfl⟩
      obtain ⟨length, rfl, same⟩ := (status last).mp fed
      rw [List.append_nil]
      exact ⟨length, rfl, same⟩
    · rintro ⟨length, rfl, same⟩
      exact ⟨_, ⟨[], (status []).mpr ⟨length, rfl, same⟩, (List.append_nil _).symm⟩, rfl⟩
  · rw [if_neg granted]
    refine iff_of_false ?_ fun all => granted all.1
    intro fed
    have closing := Client.closeDescriptor_set osC set
    change Feeds (c.closeDescriptor osC) _ _ _ _ _ at fed
    rw [closing] at fed
    cases fed.pure_inv.2.1

/-- The client of a "put" whose flag and status arrive whole, and that is granted. -/
theorem put_feeds_iff {file : File} (source : c.host.dir.lookup name = some file) :
    let asked := { ((c.enter name).openRead osC name).tick with
      fileExists := recvInt c.fileExists (replies.take 4) }.askIfFlagged answers
    Feeds (put osC answers name c) replies [(4, 4), (4, 4)] sentC c' [] ↔
      asked.overwrite = 1 ∧ replies.length = 8 ∧
        sentC = c.host.padded osC 100 (commandText putWord name) ++ (intBytes 1 ++
          (intBytes (BitVec.ofNat 32 file.content.length) ++
            c.host.sendfile (c.host.openRead osC name) (BitVec.ofNat 32 file.content.length))) ∧
        c' = { asked.report name (recvInt (asked.host.unsetInt osC) (replies.drop 4)) with
          host := asked.host.close asked.fileDescriptor
          fileDescriptor := .closed } := by
  intro asked
  have present : (c.enter name).host.fileExists name = true := by simp [Client.enter, Host.fileExists, source]
  have host : asked.host = ((c.enter name).openRead osC name).tick.host := by simp [asked]
  have descriptor : asked.fileDescriptor = c.host.openRead osC name := by
    rw [Client.askIfFlagged_fileDescriptor]
    rfl
  have sized : asked.host.fileSize name = some file.content.length := by
    rw [host]
    change (c.host.dir.lookup name).map _ = _
    rw [source]
    rfl
  have set : asked.fileDescriptor ≠ .unset := by
    rw [descriptor]
    exact openRead_set osC name c.host
  have content : asked.host.sendfile asked.fileDescriptor (BitVec.ofNat 32 file.content.length) =
      c.host.sendfile (c.host.openRead osC name) (BitVec.ofNat 32 file.content.length) := by
    rw [host, descriptor]
    rfl
  have granted : ∀ later, Feeds ((if asked.overwrite = 1 then sendContent osC name asked else pure asked) >>=
      fun c => c.closeDescriptor osC) (replies.drop 4) [(4, 4)] later c' [] ↔ _ :=
    fun later => sendContent_feeds_iff set sized
  rw [content] at granted
  simp only [put, if_pos present, transferToServer, sendCommand, Proc.bind_assoc]
  constructor
  · intro fed
    obtain ⟨later, answering, rfl⟩ := fed.send_inv
    obtain ⟨⟨-, -, -, -, there⟩, sending⟩ := Feeds.recv_iff.mp answering
    obtain ⟨last, transferring, rfl⟩ := sending.send_inv
    obtain ⟨one, length, rfl, same⟩ := (granted last).mp transferring
    rw [List.length_drop] at length
    refine ⟨one, by omega, ?_, same⟩
    rw [← one]
    rfl
  · rintro ⟨one, length, rfl, same⟩
    refine Feeds.send_iff.mpr ⟨_, Feeds.recv_iff.mpr ⟨⟨rfl, ?_, by decide, by decide, by omega⟩, ?_⟩, rfl⟩
    · exact fun empty => absurd (empty ▸ length) (by decide)
    · refine Feeds.send_iff.mpr ⟨_, (granted _).mpr ⟨one, ?_, rfl, same⟩, ?_⟩
      · rw [List.length_drop, length]
      · change _ = intBytes asked.overwrite ++ _
        rw [one]

theorem sendable_of_sent {h : Host} {file : File} (source : h.dir.lookup name = some file)
    (positive : ¬ (BitVec.ofNat 32 file.content.length).toInt < 0)
    (filled : h.sendfile (h.openRead osC name) (BitVec.ofNat 32 file.content.length) ≠ []) : Sendable osC h.dir name := by
  have reads : osC.mayRead file.mode = true := by
    by_contra refused
    simp [Host.openRead, source, refused, Host.sendfile] at filled
  refine sendable_iff.mpr ⟨file, source, reads, ?_⟩
  by_contra none_
  have zero := (eq_zero_of_toInt positive).mp (not_lt.mp none_)
  have readable : h.openRead osC name = .opened name := by simp [Host.openRead, source, reads]
  rw [readable, zero, sendfile_opened source (by decide)] at filled
  exact filled rfl

section Run
variable {x x' : Client × Server} {content : Str} {piece : Nat}

theorem overlay_received (osS : Os) (content : Str) (piece : Nat) (s : Server) :
    overlay (s.host.unsetBytes osS (BitVec.ofNat 32 content.length).toNat)
      ((sent content).take (min (BitVec.ofNat 32 content.length).toNat piece)) = putBuffer osS (sent content) piece s := by
  rw [putBuffer, ← length_sent, ← List.take_take, List.take_of_length_le (List.length_take_le' _ _)]

/-- What such a "put" does: it is one of a file that can be sent. -/
theorem PutRun.inv (one : Name name) (held : contentOf x.1.host.dir name = some content)
    (run : PutRun osC osS answers name piece x x') :
    let written := putWritten osS name (putBuffer osS (sent content) piece x.2) x.2
    Sendable osC x.1.host.dir name ∧
      x'.1.reported = x.1.reported ++ [(name, decide (BitVec.ofInt 32 written.1 ≠ 0))] ∧
      x'.2.host.dir = written.2.dir := by
  intro written
  obtain ⟨file, source, rfl⟩ := Option.map_eq_some_iff.mp held
  obtain ⟨sentC, sentS, size, left, client, server⟩ := run
  obtain ⟨granted, length, rfl, same⟩ := (put_feeds_iff source).mp client
  obtain ⟨positive, ⟨rfl, filled, -, -, there⟩, rfl, rfl, same'⟩ := (request_feeds_iff one x.1.host).mp server
  have sendable := sendable_of_sent source positive filled
  have payload := sendfile_sent (h := x.1.host) source sendable
  rw [payload, overlay_received] at same same'
  refine ⟨sendable, ?_, congrArg (fun s => s.host.dir) same'⟩
  rw [same, List.drop_left' (length_intBytes _), recvInt_intBytes]
  change Client.reported (Client.askIfFlagged answers _) ++ _ = _
  rw [asked_reported]
  rfl

theorem sent_of_sendable {dir : Dir} (held : contentOf dir name = some content) (sendable : Sendable osC dir name) :
    sent content ≠ [] ∧ (sent content).length < 2147483648 := by
  obtain ⟨file, source, -, positive⟩ := sendable_iff.mp sendable
  obtain rfl := Option.some.inj (held.symm.trans (congrArg (Option.map File.content) source))
  have size := toInt_eq_toNat (x := BitVec.ofNat 32 file.content.length) (by omega)
  have most := BitVec.toInt_lt (x := BitVec.ofNat 32 file.content.length)
  have length := length_sent file.content
  exact ⟨List.length_pos_iff.mp (by omega), by omega⟩

theorem length_putBuffer (os : Os) (bytes : Str) (piece : Nat) (s : Server) :
    (putBuffer os bytes piece s).length = bytes.length := by
  rw [putBuffer, overlay, List.length_append, List.length_drop, Host.length_unsetBytes, List.length_take]
  omega

theorem putRun_of_sendable (osS : Os) (one : Name name) (held : contentOf x.1.host.dir name = some content)
    (granted : Granted answers name x.1 x.2) (some_ : 0 < piece) (sendable : Sendable osC x.1.host.dir name) :
    ∃ x', PutRun osC osS answers name piece x x' := by
  obtain ⟨file, source, rfl⟩ := Option.map_eq_some_iff.mp held
  have payload := sendfile_sent (h := x.1.host) source sendable
  obtain ⟨other, found, -, positive⟩ := sendable_iff.mp sendable
  obtain rfl := Option.some.inj (found.symm.trans source)
  have size := toInt_eq_toNat (x := BitVec.ofNat 32 other.content.length) (by omega)
  have length := length_sent other.content
  refine ⟨(_, _), _, intBytes (if x.2.host.fileExists name then 1 else 0) ++ intBytes _, _, _,
    (put_feeds_iff source).mpr ⟨?_, rfl, rfl, rfl⟩,
    (request_feeds_iff one x.1.host).mpr ⟨by omega, ⟨rfl, ?_, .inl (by omega), Nat.min_le_left _ _, ?_⟩, rfl, rfl, rfl⟩⟩
  · rw [List.take_left' (length_intBytes _), recvInt_intBytes]
    exact asked_granted granted _ rfl rfl
  · rw [payload]
    exact List.length_pos_iff.mp (by omega)
  · rw [payload, length]
    exact Nat.min_le_left _ _

end Run

end Pieces

/-- A granted "put" ends, and the client reports it as successful if and only if the server's file
holds all bytes that were announced, exactly where there are some that can be sent and `Truthful` holds
of what the server took for them. -/
theorem put_reported_iff {osC osS : Os} {answers : Nat → BitVec 32} {x : Client × Server} {name content : Str}
    (one : Name name) (held : contentOf x.1.host.dir name = some content) (granted : Granted answers name x.1 x.2)
    {piece : Nat} (some_ : 0 < piece) :
    (∃ x', PutRun osC osS answers name piece x x' ∧
      (x'.1.reported = x.1.reported ++ [(name, true)] ↔ contentOf x'.2.host.dir name = some (sent content))) ↔
      Sendable osC x.1.host.dir name ∧
        Truthful osS name (sent content) (putBuffer osS (sent content) piece x.2) x.2.host := by
  have told (x' : Client × Server) (run : PutRun osC osS answers name piece x x') :
      (x'.1.reported = x.1.reported ++ [(name, true)] ↔ contentOf x'.2.host.dir name = some (sent content)) ↔
        Truthful osS name (sent content) (putBuffer osS (sent content) piece x.2) x.2.host := by
    obtain ⟨sendable, reported, stored⟩ := run.inv one held
    obtain ⟨filled, small⟩ := sent_of_sendable held sendable
    rw [reported, stored, ← putWritten_truthful_iff filled (length_putBuffer osS _ piece x.2) small]
    simp
  constructor
  · rintro ⟨x', run, right⟩
    exact ⟨(run.inv one held).1, (told x' run).mp right⟩
  · rintro ⟨sendable, holds⟩
    obtain ⟨x', run⟩ := putRun_of_sendable osS one held granted some_ sendable
    exact ⟨x', run, (told x' run).mpr holds⟩

theorem name_a : Name (ascii ['a']) := ⟨⟨by decide, by decide +kernel⟩, by decide, by decide⟩

/-- A file of one byte, for a server that does not have it. -/
theorem put_reported_iff_one_byte :
    let x := (Client.initial (dirOf [(['a'], ['x'])]), Server.initial ∅)
    ∃ x', PutRun superuser superuser (fun _ => 1) (ascii ['a']) 1 x x' ∧
      (x'.1.reported = x.1.reported ++ [(ascii ['a'], true)] ↔
        contentOf x'.2.host.dir (ascii ['a']) = some (sent (ascii ['x']))) := by
  intro x
  have held : contentOf x.1.host.dir (ascii ['a']) = some (ascii ['x']) := by decide
  have granted : Granted (fun _ => 1) (ascii ['a']) x.1 x.2 := by decide
  refine (put_reported_iff name_a held granted (by decide)).mpr ⟨by decide, ?_⟩
  rw [Truthful, if_pos (by decide)]
  exact .inr ⟨by decide, by decide⟩

/-- The server's disk is full: the -1 of its `write` is taken for success. -/
theorem failed_write_reported :
    ¬ ∀ (osC osS : Os) (answers : Nat → BitVec 32) (x : Client × Server) (name content : Str) (piece : Nat), Name name →
      contentOf x.1.host.dir name = some content → Granted answers name x.1 x.2 → 0 < piece →
      ∃ x', PutRun osC osS answers name piece x x' ∧
        (x'.1.reported = x.1.reported ++ [(name, true)] ↔ contentOf x'.2.host.dir name = some (sent content)) := by
  intro claim
  let full : Os := { superuser with stored := fun _ => none }
  let x := (Client.initial (dirOf [(['a'], ['x'])]), Server.initial ∅)
  have held : contentOf x.1.host.dir (ascii ['a']) = some (ascii ['x']) := by decide
  have granted : Granted (fun _ => 1) (ascii ['a']) x.1 x.2 := by decide
  obtain ⟨x', run, right⟩ := claim superuser full _ x _ _ 1 name_a held granted (by decide)
  obtain ⟨sendable, reported, stored⟩ := run.inv name_a held
  rw [reported, stored] at right
  have wrong : ¬ (decide (BitVec.ofInt 32 (putWritten full (ascii ['a'])
      (putBuffer full (sent (ascii ['x'])) 1 x.2) x.2).1 ≠ 0) = true →
        contentOf (putWritten full (ascii ['a']) (putBuffer full (sent (ascii ['x'])) 1 x.2) x.2).2.dir (ascii ['a']) =
          some (sent (ascii ['x']))) := by decide
  refine wrong fun success => right.mp ?_
  rw [success]

end NetworkOs.Ftp
