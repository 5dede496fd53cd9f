import NetworkOs.Library.Segments
import NetworkOs.Ftp.Files

/-! Transfers whose bytes arrive in pieces. A `recv` that returns less than it asks for
is not repeated, so that every later one starts in the wrong place. -/
namespace NetworkOs.Ftp
open Duplex Proc

/-- The receiver opened `name`, stored exactly `content` in it, and closed it. -/
structure Received (name content : Str) (before after : Host) : Prop where
  held : contentOf after.dir name = some content
  calls : after.trace = before.trace ++
    [.openWrite name (.opened name), .write (.opened name) content content.length, .close (.opened name)]

section Host
variable {os : Os} {fileExists : BitVec 32} {name : Str} {h : Host}

/-- The machine once `content` is written to the file opened for it, and the file closed. -/
def Host.received (os : Os) (fileExists : BitVec 32) (name : Str) (old : Descriptor) (content : Str) (h : Host) : Host :=
  (h.stored os fileExists name old content).close (h.openForContent os fileExists 1 name old).1

theorem Host.Ready.bit (ready : h.Ready fileExists name) : fileExists = 0 ∨ fileExists = 1 :=
  ready.symm.imp_left And.left

theorem Host.received_whole (permissive : Permissive os) (ready : h.Ready fileExists name) (one : Name name)
    (old : Descriptor) (content : Str) : Received name content h (h.received os fileExists name old content) := by
  obtain ⟨held, calls⟩ := Host.stored_opened old permissive ready one.nonempty one.toEntry content
  obtain ⟨mode, opened⟩ := Host.openForContent_opened old (permissive.canOpen one.nonempty one.toEntry h) ready
  refine ⟨held, ?_⟩
  change (h.stored os fileExists name old content).trace ++ [.close (h.openForContent os fileExists 1 name old).1] = _
  rw [calls, opened, List.append_assoc]
  rfl

/-- The calls tell what was stored. -/
theorem Host.content_of_calls {old target target' : Descriptor} {named bytes content : Str} {result : Int}
    (ready : h.Ready fileExists name) (calls : (h.received os fileExists name old bytes).trace =
      h.trace ++ [.openWrite named target, .write target content result, .close target']) : bytes = content := by
  obtain ⟨opened, stored, trace⟩ := Host.stored_trace os name old h ready.bit bytes
  change (h.stored os fileExists name old bytes).trace ++ [_] = _ at calls
  rw [trace, List.append_assoc] at calls
  have same := List.append_cancel_left calls
  simp only [List.cons_append, List.nil_append, List.cons.injEq, Call.write.injEq] at same
  exact same.2.1.2.1

end Host

theorem announced_fits {filesize : BitVec 32} {got unset content : Str} (length : unset.length = filesize.toNat)
    (most : got.length ≤ filesize.toNat) (positive : ¬ filesize.toInt < 0) (same : overlay unset got = content) :
    filesize.toNat = content.length ∧ content.length < 2147483648 := by
  have announced : filesize.toNat = content.length := by
    rw [← same, overlay, List.length_append, List.length_drop, length]
    omega
  refine ⟨announced, ?_⟩
  rw [BitVec.toInt_eq_toNat_cond, announced] at positive
  split_ifs at positive
  all_goals omega

section Server
variable {os : Os} {s s' : Server} {stream left sent : Str} {log : List (Nat × Nat)}

theorem closeFile_feeds {target : Descriptor} {h : Host} {α : Type} {f : Host → Proc Tag α} {a : α}
    (fed : Feeds (closeFile os target h >>= f) stream log sent a left) :
    Feeds (f (h.close target)) stream log sent a left := by
  unfold closeFile at fed
  split_ifs at fed
  · exact fed.halt_inv.elim
  · exact fed

theorem closeDescriptor_feeds (fed : Feeds (s.closeDescriptor os) stream log sent s' left) :
    s' = { s with host := s.host.close s.fileDescriptor, fileDescriptor := .closed } ∧
      log = [] ∧ sent = [] ∧ left = stream := (closeFile_feeds fed).pure_inv

/-- What the server stores of a granted "put", for the pieces `size` and `got`. -/
theorem receiveFile_feeds (fed : Feeds (receiveFile os s) stream log sent s' left) :
    ∃ size got, stream = size ++ got ++ left ∧ size.length ≤ 4 ∧ ¬ (recvInt s.filesize size).toInt < 0 ∧
      got.length ≤ (recvInt s.filesize size).toNat ∧
      s' = { s with
        filesize := recvInt s.filesize size
        host := (s.host.tick.write os s.fileDescriptor
          (overlay (s.host.unsetBytes os (recvInt s.filesize size).toNat) got)).2 } ∧
      (Whole log ↔ size.length = 4 ∧ got.length = (recvInt s.filesize size).toNat) := by
  obtain ⟨size, rest, later, rfl, most, -, fed, whole⟩ := fed.recv_inv
  simp only at fed
  split_ifs at fed with negative
  · exact fed.halt_inv.elim
  · obtain ⟨got, rest, last, rfl, more, -, fed, whole'⟩ := fed.recv_inv
    obtain ⟨status, ended, -⟩ := fed.send_inv
    obtain ⟨rfl, rfl, -, rfl⟩ := ended.pure_inv
    refine ⟨size, got, (List.append_assoc _ _ _).symm, most, negative, more, rfl, ?_⟩
    rw [whole, whole']
    simp

theorem Server.flag_ready (s : Server) : s.host.Ready s.flag.fileExists s.filename := by
  cases held : s.host.dir.lookup s.filename with
  | none =>
      cases directory : isDirectory s.filename with
      | true => exact .inl (by simp [flag, Host.fileExists, directory])
      | false => exact .inr ⟨by simp [flag, Host.fileExists, held, directory], held⟩
  | some file => exact .inl (by simp [flag, Host.fileExists, held])

theorem Server.received_granted (os : Os) (s : Server) (overwrite : BitVec 32) (granted : overwrite = 1) (content : Str) :
    ((s.openForContent os overwrite).host.tick.write os (s.openForContent os overwrite).fileDescriptor content).2.close
      (s.openForContent os overwrite).fileDescriptor =
      s.host.received os s.fileExists s.filename s.fileDescriptor content := by
  subst granted
  rfl

theorem Server.openForContent_declined (os : Os) (s : Server) (overwrite : BitVec 32) (other : overwrite ≠ 1) :
    (s.openForContent os overwrite).host = s.host ∧
      (s.openForContent os overwrite).fileDescriptor = s.fileDescriptor := by
  simp only [openForContent, Host.openForContent_declined other, and_self]

/-- What the "put" branch does, for the piece `flag` that it reads `overwrite` from. -/
theorem handlePut_feeds {text : Str} (fed : Feeds (handlePut os text s) stream log sent s' left) :
    ∃ flag rest, stream = flag ++ rest ∧ flag.length ≤ 4 ∧ (Whole log → flag.length = 4) ∧
      (recvInt s.overwrite flag ≠ 1 ∧ s'.host = s.host.close s.fileDescriptor ∨
        ∃ size got, rest = size ++ got ++ left ∧ size.length ≤ 4 ∧ ¬ (recvInt s.filesize size).toInt < 0 ∧
          got.length ≤ (recvInt s.filesize size).toNat ∧
          (∃ unset, unset.length = (recvInt s.filesize size).toNat ∧
            s'.host = s.host.received os (s.name text).flag.fileExists (s.name text).filename s.fileDescriptor
              (overlay unset got)) ∧
          (Whole log ↔ flag.length = 4 ∧ size.length = 4 ∧ got.length = (recvInt s.filesize size).toNat)) := by
  obtain ⟨later, fed, -⟩ := fed.send_inv
  obtain ⟨flag, rest, last, rfl, most, -, fed, whole⟩ := fed.recv_inv
  refine ⟨flag, rest, rfl, most, fun all => (whole.mp all).1, ?_⟩
  obtain ⟨s₁, mid, log₁, log₂, sent₁, sent₂, receiving, closing, rfl, -⟩ := fed.bind_inv
  obtain ⟨last_state, rfl, -, rfl⟩ := closeDescriptor_feeds closing
  have closed := congrArg Server.host last_state
  change Feeds (receiveIfGranted os ((s.name text).flag.openForContent os (recvInt s.overwrite flag))) _ _ _ _ _ at receiving
  have value : ((s.name text).flag.openForContent os (recvInt s.overwrite flag)).overwrite = recvInt s.overwrite flag := rfl
  have filesize : ((s.name text).flag.openForContent os (recvInt s.overwrite flag)).filesize = s.filesize := rfl
  have machine := Server.received_granted os (s.name text).flag (recvInt s.overwrite flag)
  have declined := Server.openForContent_declined os (s.name text).flag (recvInt s.overwrite flag)
  generalize (s.name text).flag.openForContent os (recvInt s.overwrite flag) = s₂ at *
  unfold receiveIfGranted at receiving
  split_ifs at receiving with granted
  · rw [value] at granted
    obtain ⟨size, got, rfl, small, positive, more, rfl, whole'⟩ := receiveFile_feeds receiving
    rw [filesize] at positive more whole'
    refine .inr ⟨size, got, rfl, small, positive, more,
      ⟨s₂.host.unsetBytes os (recvInt s.filesize size).toNat, Host.length_unsetBytes _ _ _, ?_⟩, ?_⟩
    · rw [closed, filesize]
      exact machine granted _
    · rw [whole, List.append_nil, whole']
  · obtain ⟨rfl, -, -, rfl⟩ := receiving.pure_inv
    rw [value] at granted
    refine .inl ⟨granted, ?_⟩
    rw [closed, (declined granted).1, (declined granted).2]
    rfl

/-- The server from its `recv` of the command on. -/
def request (os : Os) (s : Server) : Proc Tag Server := recvBytes .command 100 >>= handle os s

/-- A command of which a piece arrives is heard with a word that has its first letter. -/
theorem hear_first (s : Server) (letter : UInt8) (plain : letter ≠ 0 ∧ isSpace letter = false) (more : Str) :
    (s.hear (letter :: more)).2.action.head? = some letter := by
  have text : ∃ tail, cString (overlay s.buffer (letter :: more)) = letter :: tail :=
    ⟨_, List.takeWhile_cons_of_pos (decide_eq_true plain.1)⟩
  obtain ⟨tail, text⟩ := text
  have kept : (letter :: tail).dropWhile isSpace = letter :: tail := List.dropWhile_cons_of_neg (by simp [plain.2])
  simp only [Server.hear, text, extract, kept]
  rw [List.takeWhile_cons_of_pos (by simp [plain.2])]
  rfl

/-- A piece of a "put" command starts the "put" branch, or does nothing. -/
theorem request_feeds (starts : stream.head? = some 112) (fed : Feeds (request os s) stream log sent s' left) :
    ∃ bytes rest later sent', stream = bytes ++ rest ∧ bytes.length ≤ 100 ∧
      (Whole log ↔ bytes.length = 100 ∧ Whole later) ∧
      ((s.hear bytes).2.action ≠ putWord ∧ s'.host = s.host ∨
        Feeds (handlePut os (s.hear bytes).1 (s.hear bytes).2) rest later sent' s' left) := by
  obtain ⟨bytes, rest, later, same, most, nonempty, fed, whole⟩ := fed.recv_inv
  refine ⟨bytes, rest, later, sent, same, most, whole, ?_⟩
  obtain ⟨letter, tail, rfl⟩ := List.exists_cons_of_ne_nil (nonempty (by decide))
  obtain rfl : letter = 112 := Option.some.inj ((congrArg List.head? same).symm.trans starts)
  have first := hear_first s 112 (by decide) tail
  by_cases word : (s.hear (112 :: tail)).2.action = putWord
  · rw [handle_put word] at fed
    exact .inr fed
  · have no_word : ∀ other ∈ [putWord, getWord, mgetWord, quitWord], (s.hear (112 :: tail)).2.action ≠ other := by
      simp only [List.mem_cons, List.not_mem_nil, or_false, forall_eq_or_imp, forall_eq]
      refine ⟨word, ?_, ?_, ?_⟩
      all_goals
        intro same
        rw [same] at first
        exact absurd first (by decide)
    rw [handle_other no_word] at fed
    obtain ⟨rfl, -⟩ := fed.pure_inv
    exact .inl ⟨word, rfl⟩

end Server

section Put
variable {osC osS : Os} {answers : Nat → BitVec 32}

theorem granted_sends {name rest left sent : Str} {log : List (Nat × Nat)} {asked c' : Client} {file : File}
    (fed : Feeds (if asked.overwrite = 1 then sendContent osC name asked else pure asked) rest log sent c' left)
    (granted : c'.overwrite = 1) (source : asked.host.dir.lookup name = some file) :
    asked.overwrite = 1 ∧ sent = intBytes (BitVec.ofNat 32 file.content.length) ++
      asked.host.sendfile asked.fileDescriptor (BitVec.ofNat 32 file.content.length) := by
  split_ifs at fed with value
  · have sized : asked.host.fileSize name = some file.content.length := by
      rw [Host.fileSize, source]
      rfl
    rw [sendContent, sized] at fed
    obtain ⟨sent₁, sending, rfl⟩ := fed.send_inv
    obtain ⟨sent₂, waiting, rfl⟩ := sending.send_inv
    obtain ⟨status, rest', log', -, -, -, reported, -⟩ := waiting.recv_inv
    obtain ⟨-, -, rfl, -⟩ := reported.pure_inv
    rw [List.append_nil]
    exact ⟨value, rfl⟩
  · obtain ⟨rfl, -⟩ := fed.pure_inv
    exact absurd granted value

theorem sendfile_whole {h : Host} {name : Str} {file : File} (source : h.dir.lookup name = some file)
    (bound : file.content.length < 2147483648) :
    h.sendfile (.opened name) (BitVec.ofNat 32 file.content.length) = file.content := by
  rw [sendfile_opened source]
  · exact (sent_eq_self file.content).mpr (by omega)
  · rw [BitVec.toInt_eq_toNat_cond, BitVec.toNat_ofNat]
    split_ifs
    all_goals omega

/-- The client of a granted "put" sends the command, the flag, the size and the content,
whatever arrives. -/
theorem put_sends {name content arrivals left sent : Str} {log : List (Nat × Nat)} {c c' : Client}
    (permissive : Permissive osC) (held : contentOf c.host.dir name = some content)
    (fed : Feeds (put osC answers name c) arrivals log sent c' left) (granted : c'.overwrite = 1) :
    ∃ payload, (content.length < 2147483648 → payload = content) ∧
      sent = c.host.padded osC 100 (commandText putWord name) ++ (intBytes 1 ++
        (intBytes (BitVec.ofNat 32 content.length) ++ payload)) := by
  obtain ⟨file, source, rfl⟩ := Option.map_eq_some_iff.mp held
  have present : (c.enter name).host.fileExists name = true := by simp [Client.enter, Host.fileExists, source]
  have readable : c.host.openRead osC name = .opened name := by simp [Host.openRead, source, permissive.reads]
  simp only [put, if_pos present] at fed
  obtain ⟨c₁, mid, log₁, log₂, sent₁, sent₂, transferring, closing, -, rfl⟩ := fed.bind_inv
  obtain ⟨rfl, -, rfl, -⟩ := (closeFile_feeds closing).pure_inv
  change c₁.overwrite = 1 at granted
  rw [transferToServer, sendCommand, Proc.bind_assoc] at transferring
  obtain ⟨sent₃, answering, rfl⟩ := transferring.send_inv
  obtain ⟨flag, rest, log₃, -, -, -, flagged, -⟩ := answering.recv_inv
  obtain ⟨sent₄, sending, rfl⟩ := flagged.send_inv
  obtain ⟨value, rfl⟩ := granted_sends sending granted (by rw [Client.askIfFlagged_host]; exact source)
  rw [value, Client.askIfFlagged_host, Client.askIfFlagged_fileDescriptor]
  refine ⟨_, sendfile_whole source, ?_⟩
  change _ ++ (_ ++ (_ ++ c.host.sendfile (c.host.openRead osC name) _)) ++ [] = _
  rw [readable, List.append_nil]
  rfl

/-- The stream of a granted "put" is received as it was sent exactly where the size fits
and no `recv` returned less than it asked for. -/
theorem put_received_iff {name content payload rest left sent : Str} {log : List (Nat × Nat)} {h : Host} {s s' : Server}
    (permissive : Permissive osS) (one : Name name) (fits : content.length < 2147483648 → payload = content)
    (fed : Feeds (request osS s) (h.padded osC 100 (commandText putWord name) ++ (intBytes 1 ++
      (intBytes (BitVec.ofNat 32 content.length) ++ (payload ++ rest)))) log sent s' left) :
    (Received name content s.host s'.host ∧ left = rest) ↔ content.length < 2147483648 ∧ Whole log := by
  have command_length := Host.length_padded osC 100 (commandText putWord name) h
  obtain ⟨bytes, behind, later, sent', same, most, whole, branch⟩ := request_feeds rfl fed
  constructor
  · rintro ⟨received, rfl⟩
    have calls := received.calls
    rcases branch with ⟨-, unchanged⟩ | putting
    · rw [unchanged] at calls
      simp at calls
    obtain ⟨flag, behind', rfl, few, -, ⟨-, closed⟩ | ⟨size, got, rfl, small, positive, more, stored, whole'⟩⟩ :=
      handlePut_feeds putting
    · rw [closed] at calls
      exact absurd (List.append_cancel_left calls) (by simp)
    · obtain ⟨unset, length, machine⟩ := stored
      generalize (recvInt (s.hear bytes).2.filesize size) = filesize at *
      rw [machine] at calls
      have stored_bytes : overlay unset got = content :=
        Host.content_of_calls (Server.flag_ready ((s.hear bytes).2.name (s.hear bytes).1)) calls
      obtain ⟨announced, bound⟩ := announced_fits length more positive stored_bytes
      have lengths := congrArg List.length same
      rw [fits bound] at lengths
      simp only [List.length_append, command_length, length_intBytes] at lengths
      refine ⟨bound, whole.mpr ⟨by omega, whole'.mpr ⟨by omega, by omega, by omega⟩⟩⟩
  · rintro ⟨bound, all⟩
    obtain ⟨full, all_later⟩ := whole.mp all
    obtain ⟨rfl, rfl⟩ := List.append_inj same (command_length.trans full.symm)
    have word := (hear_command osC token_put (by decide) h name s).2
    have named : ((s.hear (h.padded osC 100 (commandText putWord name))).2.name
        (s.hear (h.padded osC 100 (commandText putWord name))).1).filename = name :=
      argument_heard osC token_put (by decide) h one s.filename s
    have host : (s.hear (h.padded osC 100 (commandText putWord name))).2.host = s.host := rfl
    have putting := branch.resolve_left fun other => other.1 word
    generalize s.hear (h.padded osC 100 (commandText putWord name)) = heard at *
    obtain ⟨flag, behind, cut, -, four, outcome⟩ := handlePut_feeds putting
    obtain ⟨rfl, rfl⟩ := List.append_inj cut (four all_later).symm
    rcases outcome with ⟨declined, -⟩ | ⟨size, got, cut', -, -, -, ⟨unset, length, machine⟩, whole'⟩
    · exact absurd (recvInt_intBytes _ _) declined
    · obtain ⟨-, sized, complete⟩ := whole'.mp all_later
      rw [List.append_assoc] at cut'
      obtain ⟨rfl, tail⟩ := List.append_inj cut' sized.symm
      rw [recvInt_intBytes] at complete length
      have announced : (BitVec.ofNat 32 content.length).toNat = content.length := by
        rw [BitVec.toNat_ofNat]
        omega
      rw [fits bound] at tail
      obtain ⟨rfl, rfl⟩ := List.append_inj tail (announced.symm.trans complete.symm)
      rw [overlay_whole (complete.trans length.symm)] at machine
      have received := Host.received_whole permissive (Server.flag_ready (heard.2.name heard.1))
        (named ▸ one) heard.2.fileDescriptor content
      rw [named] at received machine
      rw [machine]
      exact ⟨host ▸ received, rfl⟩

end Put
section Get
variable {osC osS : Os} {answers : Nat → BitVec 32}

theorem asked_ready (answers : Nat → BitVec 32) {c : Client} (bit : c.fileExists = 0 ∨ c.fileExists = 1) (name : Str) :
    c.host.Ready (c.askIfPresent answers name).fileExists name := by
  unfold Client.askIfPresent
  split_ifs with present
  · exact .inl rfl
  · have absent : c.host.dir.lookup name = none := by
      simp only [Host.fileExists, Bool.or_eq_true, not_or] at present
      exact Option.not_isSome_iff_eq_none.mp present.1
    exact bit.symm.imp_right fun zero => ⟨zero, absent⟩

theorem recvContent_feeds {target : Descriptor} {filesize : BitVec 32} {stream left sent : Str}
    {log : List (Nat × Nat)} {c c' : Client} (fed : Feeds (recvContent osC target filesize c) stream log sent c' left) :
    ¬ filesize.toInt < 0 ∧ ∃ got, stream = got ++ left ∧ got.length ≤ filesize.toNat ∧
      c'.host = ((c.host.tick.write osC target (overlay (c.host.unsetBytes osC filesize.toNat) got)).2).close target ∧
      (Whole log ↔ got.length = filesize.toNat) := by
  unfold recvContent at fed
  split_ifs at fed with negative
  · exact fed.halt_inv.elim
  · obtain ⟨got, rest, later, rfl, most, -, fed, whole⟩ := fed.recv_inv
    obtain ⟨rfl, rfl, -, rfl⟩ := (closeFile_feeds fed).pure_inv
    refine ⟨negative, got, rfl, most, rfl, ?_⟩
    rw [whole]
    simp

theorem getFromServer_feeds {stream left sent : Str} {log : List (Nat × Nat)} {c c' : Client}
    (fed : Feeds (getFromServer osC answers c) stream log sent c' left) (granted : c'.overwrite = 1) :
    ∃ size rest, stream = size ++ rest ∧ size.length ≤ 4 ∧ (Whole log → size.length = 4) ∧
      (recvInt (c.host.unsetInt osC) size = 0 ∧ c' = c ∨
        ¬ (recvInt (c.host.unsetInt osC) size).toInt < 0 ∧ ∃ got, rest = got ++ left ∧
          got.length ≤ (recvInt (c.host.unsetInt osC) size).toNat ∧
          (∃ unset, unset.length = (recvInt (c.host.unsetInt osC) size).toNat ∧
            c'.host = c.host.received osC (c.askIfPresent answers (cString c.filename)).fileExists
              (cString c.filename) .unset (overlay unset got)) ∧
          (Whole log ↔ size.length = 4 ∧ got.length = (recvInt (c.host.unsetInt osC) size).toNat)) := by
  obtain ⟨size, rest, later, rfl, most, -, fed, whole⟩ := fed.recv_inv
  refine ⟨size, rest, rfl, most, fun all => (whole.mp all).1, ?_⟩
  simp only at fed
  by_cases zero : recvInt (c.host.unsetInt osC) size = 0
  · rw [if_pos zero] at fed
    obtain ⟨rfl, -, -, rfl⟩ := fed.pure_inv
    exact .inl ⟨zero, rfl⟩
  · rw [if_neg zero] at fed
    obtain ⟨sent', opening, -⟩ := fed.send_inv
    have host : (c.askIfPresent answers (cString c.filename)).host = c.host := Client.askIfPresent_host _ _ _
    by_cases value : (c.askIfPresent answers (cString c.filename)).overwrite = 1
    · rw [if_pos value, host, value] at opening
      obtain ⟨positive, got, rfl, more, machine, whole'⟩ := recvContent_feeds opening
      refine .inr ⟨positive, got, rfl, more, ⟨_, Host.length_unsetBytes _ _ _, machine⟩, ?_⟩
      rw [whole, whole']
    · rw [if_neg value] at opening
      obtain ⟨rfl, -⟩ := (closeFile_feeds opening).pure_inv
      exact absurd granted value

theorem get_received_iff {name content payload rest left sent : Str} {log : List (Nat × Nat)} {c c' : Client}
    (permissive : Permissive osC) (bit : c.fileExists = 0 ∨ c.fileExists = 1) (named : cString c.filename = name)
    (one : Name name) (filled : content ≠ []) (fits : content.length < 2147483648 → payload = content)
    (fed : Feeds (getFromServer osC answers c) (intBytes (BitVec.ofNat 32 content.length) ++ (payload ++ rest)) log
      sent c' left) (granted : c'.overwrite = 1) :
    (Received name content c.host c'.host ∧ left = rest) ↔ content.length < 2147483648 ∧ Whole log := by
  subst named
  obtain ⟨size, behind, cut, most, four, outcome⟩ := getFromServer_feeds fed granted
  have ready := asked_ready answers bit (cString c.filename)
  constructor
  · rintro ⟨received, rfl⟩
    have calls := received.calls
    rcases outcome with ⟨-, rfl⟩ | ⟨positive, got, rfl, more, ⟨unset, length, machine⟩, whole⟩
    · simp at calls
    · rw [machine] at calls
      obtain ⟨announced, bound⟩ := announced_fits length more positive (Host.content_of_calls ready calls)
      have lengths := congrArg List.length cut
      rw [fits bound] at lengths
      simp only [List.length_append, length_intBytes] at lengths
      exact ⟨bound, whole.mpr ⟨by omega, by omega⟩⟩
  · rintro ⟨bound, all⟩
    obtain ⟨rfl, rfl⟩ := List.append_inj cut (four all).symm
    rw [recvInt_intBytes] at outcome
    have announced : (BitVec.ofNat 32 content.length).toNat = content.length := by
      rw [BitVec.toNat_ofNat]
      omega
    rcases outcome with ⟨zero, -⟩ | ⟨-, got, tail, -, ⟨unset, length, machine⟩, whole⟩
    · rw [zero] at announced
      exact absurd (List.length_eq_zero_iff.mp announced.symm) filled
    · have complete := (whole.mp all).2
      rw [fits bound] at tail
      obtain ⟨rfl, rfl⟩ := List.append_inj tail (announced.symm.trans complete.symm)
      rw [overlay_whole (complete.trans length.symm)] at machine
      exact ⟨machine ▸ Host.received_whole permissive ready one .unset content, rfl⟩

/-- The server of a granted "get" sends the size and the content, whatever arrives. -/
theorem handleGet_sends {name text content arrivals left sent : Str} {log : List (Nat × Nat)} {s s' : Server}
    (permissive : Permissive osS) (named : (s.name text).filename = name)
    (held : contentOf s.host.dir name = some content) (filled : content ≠ [])
    (fed : Feeds (handleGet osS text s) arrivals log sent s' left) (granted : s'.overwrite = 1) :
    ∃ payload, (content.length < 2147483648 → payload = content) ∧
      sent = intBytes (BitVec.ofNat 32 content.length) ++ payload := by
  obtain ⟨file, source, rfl⟩ := Option.map_eq_some_iff.mp held
  have readable : s.host.openRead osS name = .opened name := by simp [Host.openRead, source, permissive.reads]
  have announced : (((s.name text).openRead osS name).announced name) = some file.content.length := by
    rw [Server.announced, Server.openRead]
    simp only [show (s.name text).host = s.host from rfl, readable, Host.fileSize, source]
    rfl
  obtain ⟨s₁, mid, log₁, log₂, sent₁, sent₂, transferring, closing, -, rfl⟩ := fed.bind_inv
  obtain ⟨rfl, -, rfl, -⟩ := closeDescriptor_feeds closing
  change s₁.overwrite = 1 at granted
  rw [named, transferToClient, announced] at transferring
  obtain ⟨sent₃, answering, rfl⟩ := transferring.send_inv
  rw [List.append_nil]
  by_cases zero : BitVec.ofNat 32 file.content.length = 0
  · rw [if_pos zero] at answering
    refine ⟨sent₃, fun bound => ?_, rfl⟩
    have length := congrArg BitVec.toNat zero
    have wrapped : file.content.length % 2 ^ 32 = 0 := by simpa using length
    exact absurd (List.length_eq_zero_iff.mp (by omega)) filled
  · rw [if_neg zero] at answering
    obtain ⟨flag, rest, log₃, -, -, -, sending, -⟩ := answering.recv_inv
    simp only at sending
    split_ifs at sending with value
    · obtain ⟨sent₄, done, rfl⟩ := sending.send_inv
      obtain ⟨rfl, -, rfl, -⟩ := done.pure_inv
      refine ⟨_, ?_, rfl⟩
      intro bound
      rw [List.append_nil]
      change s.host.sendfile (s.host.openRead osS name) _ = _
      rw [readable]
      exact sendfile_whole source bound
    · obtain ⟨rfl, -⟩ := sending.pure_inv
      exact absurd granted value

end Get
/-- Each granted transfer stores exactly the sender's bytes, and the receiver goes on
behind them, exactly where the size is an `int` and every `recv` of the receiver returned
all it asked for. -/
theorem received_iff_whole {osC osS : Os} (answers : Nat → BitVec 32) (permissiveC : Permissive osC)
    (permissiveS : Permissive osS) {name content : Str} (one : Name name) (filled : content ≠ []) (rest : Str) :
    (∀ (c c' : Client) (s s' : Server) arrivals logC sentC leftC log sent left,
      contentOf c.host.dir name = some content → Feeds (put osC answers name c) arrivals logC sentC c' leftC →
      c'.overwrite = 1 → Feeds (request osS s) (sentC ++ rest) log sent s' left →
      ((Received name content s.host s'.host ∧ left = rest) ↔ content.length < 2147483648 ∧ Whole log)) ∧
    (∀ (c c' : Client) (s s' : Server) text arrivals logS sentS leftS log sent left,
      contentOf s.host.dir name = some content → (s.name text).filename = name →
      Feeds (handleGet osS text s) arrivals logS sentS s' leftS → s'.overwrite = 1 →
      c.fileExists = 0 ∨ c.fileExists = 1 → Feeds (get osC answers name c) (sentS ++ rest) log sent c' left →
      c'.overwrite = 1 →
      ((Received name content c.host c'.host ∧ left = rest) ↔ content.length < 2147483648 ∧ Whole log)) := by
  constructor
  · intro c c' s s' arrivals logC sentC leftC log sent left held client granted server
    obtain ⟨payload, fits, rfl⟩ := put_sends permissiveC held client granted
    simp only [List.append_assoc] at server
    exact put_received_iff permissiveS one fits server
  · intro c c' s s' text arrivals logS sentS leftS log sent left held named server given bit client granted
    obtain ⟨payload, fits, rfl⟩ := handleGet_sends permissiveS named held filled server given
    simp only [List.append_assoc] at client
    simp only [get, sendCommand, Proc.bind_assoc] at client
    obtain ⟨sent', receiving, -⟩ := client.send_inv
    have decided := get_received_iff (c := (c.enter name).tick) permissiveC bit (name_entered one c) one filled
      fits receiving granted
    rw [← decided]
    exact ⟨fun whole => ⟨⟨whole.1.held, whole.1.calls⟩, whole.2⟩, fun whole => ⟨⟨whole.1.held, whole.1.calls⟩, whole.2⟩⟩

/-- Two bytes of content, put and fetched in one piece. -/
theorem received_iff_whole_two :
    let full := dirOf [(['a'], ['h', 'i'])]
    (∃ x y, feed (put superuser (fun _ => 1) (ascii ['a']) (Client.initial full)) (intBytes 0 ++ intBytes 2) [4, 4] =
        some x ∧
      feed (request superuser (Server.initial ∅)) (x.sent ++ []) [100, 4, 4, 2] = some y ∧
      Received (ascii ['a']) (ascii ['h', 'i']) (Server.initial ∅).host y.result.host) ∧
    ∃ x y, feed (handleGet superuser (ascii [' ', 'a']) (Server.initial full)) (intBytes 1) [4] = some x ∧
      feed (get superuser (fun _ => 1) (ascii ['a']) (Client.initial ∅)) (x.sent ++ []) [4, 2] = some y ∧
      Received (ascii ['a']) (ascii ['h', 'i']) (Client.initial ∅).host y.result.host := by
  intro full
  have one : Name (ascii ['a']) := ⟨⟨by decide, by decide +kernel⟩, by decide, by decide⟩
  have filled : ascii ['h', 'i'] ≠ [] := by decide
  have decided := received_iff_whole (fun _ => 1) superuser_permissive superuser_permissive one filled []
  constructor
  · have evaluated : (feed (put superuser (fun _ => 1) (ascii ['a']) (Client.initial full)) (intBytes 0 ++ intBytes 2)
        [4, 4]).any (fun x => decide (x.result.overwrite = 1) &&
          (feed (request superuser (Server.initial ∅)) (x.sent ++ []) [100, 4, 4, 2]).any fun y =>
            decide (Whole y.log)) = true := by decide
    obtain ⟨x, client, facts⟩ := (Option.any_eq_true _ _).mp evaluated
    simp only [Bool.and_eq_true, decide_eq_true_eq, Option.any_eq_true] at facts
    obtain ⟨granted, y, server, whole⟩ := facts
    refine ⟨x, y, client, server, ?_⟩
    exact ((decided.1 _ _ _ _ _ _ _ _ _ _ _ (by decide) (feeds_of_feed client) granted
      (feeds_of_feed server)).mpr ⟨by decide, whole⟩).1
  · have evaluated : (feed (handleGet superuser (ascii [' ', 'a']) (Server.initial full)) (intBytes 1) [4]).any
        (fun x => decide (x.result.overwrite = 1) &&
          (feed (get superuser (fun _ => 1) (ascii ['a']) (Client.initial ∅)) (x.sent ++ []) [4, 2]).any fun y =>
            decide (y.result.overwrite = 1 ∧ Whole y.log)) = true := by decide
    obtain ⟨x, server, facts⟩ := (Option.any_eq_true _ _).mp evaluated
    simp only [Bool.and_eq_true, decide_eq_true_eq, Option.any_eq_true] at facts
    obtain ⟨given, y, client, granted, whole⟩ := facts
    refine ⟨x, y, server, client, ?_⟩
    exact ((decided.2 _ _ _ _ _ _ _ _ _ _ _ _ (by decide) (by decide) (feeds_of_feed server) given
      (.inl rfl) (feeds_of_feed client) granted).mpr ⟨by decide, whole⟩).1

/-- The content in two pieces: the second byte is not stored, and is the start of the
server's next command. -/
theorem second_piece_not_stored :
    ∃ (x : Fed Client) (y : Fed Server), Feeds (put superuser (fun _ => 1) (ascii ['a']) (Client.initial (dirOf [(['a'], ['h', 'i'])])))
        (intBytes 0 ++ intBytes 2) x.log x.sent x.result x.left ∧ x.result.overwrite = 1 ∧
      Feeds (request superuser (Server.initial ∅)) x.sent y.log y.sent y.result y.left ∧
      contentOf y.result.host.dir (ascii ['a']) ≠ some (ascii ['h', 'i']) ∧ y.left = ascii ['i'] := by
  have evaluated : (feed (put superuser (fun _ => 1) (ascii ['a']) (Client.initial (dirOf [(['a'], ['h', 'i'])])))
      (intBytes 0 ++ intBytes 2) [4, 4]).any (fun x => decide (x.result.overwrite = 1) &&
        (feed (request superuser (Server.initial ∅)) x.sent [100, 4, 4, 1]).any fun y =>
          decide (contentOf y.result.host.dir (ascii ['a']) ≠ some (ascii ['h', 'i']) ∧ y.left = ascii ['i'])) =
      true := by decide
  obtain ⟨x, client, facts⟩ := (Option.any_eq_true _ _).mp evaluated
  simp only [Bool.and_eq_true, decide_eq_true_eq, Option.any_eq_true] at facts
  obtain ⟨granted, y, server, lost⟩ := facts
  exact ⟨x, y, feeds_of_feed client, granted, feeds_of_feed server, lost⟩

end NetworkOs.Ftp
