import NetworkOs.Library.Exchange
import NetworkOs.Ftp.Messages

/-! What one command does to both machines when every message arrives whole: partial
functions without messages, and the programs in step are these functions. -/
namespace NetworkOs.Ftp
open Duplex Proc

/-- `close`, `none` when it hits the connection. -/
def closed (os : Os) (fileDescriptor : Descriptor) (h : Host) : Option Host :=
  if fileDescriptor = .unset ∧ os.unsetIsConnection h.clock then none else some (h.close fileDescriptor)

def Client.closed (os : Os) (c : Client) : Option Client :=
  (Ftp.closed os c.fileDescriptor c.host).map fun host => { c with host := host, fileDescriptor := .closed }

def Server.closed (os : Os) (s : Server) : Option Server :=
  (Ftp.closed os s.fileDescriptor s.host).map fun host => { s with host := host, fileDescriptor := .closed }

section Functions
variable (osC osS : Os) (answers : Nat → BitVec 32)

/-- The content of a granted "put". An announced size of 0 leaves the server in a `recv` of 0 bytes. -/
def putContent (filename : Str) (c : Client) (s : Server) : Option (Client × Server) :=
  (c.host.fileSize filename).bind fun size =>
    let filesize := BitVec.ofNat 32 size
    let content := c.host.sendfile c.fileDescriptor filesize
    if filesize.toInt ≤ 0 ∨ content.length ≠ filesize.toNat then none
    else
      let written := s.host.tick.write osS s.fileDescriptor content
      some (c.report filename (BitVec.ofInt 32 written.1), { s with filesize := filesize, host := written.2 })

/-- One file for the server, behind the command. -/
def putTransfer (filename stream : Str) (c : Client) (s : Server) : Option (Client × Server) :=
  let s := (s.name stream).flag
  let c := { c with fileExists := s.fileExists }.askIfFlagged answers
  let s := s.openForContent osS c.overwrite
  (if c.overwrite = 1 then putContent osS filename c s else some (c, s)).bind fun x =>
    (x.2.closed osS).map fun s => (x.1, s)

/-- One file for the server, with the command. -/
def putFile (filename : Str) (c : Client) (s : Server) : Option (Client × Server) :=
  let heard := s.hear (c.host.padded osC 100 (commandText putWord filename))
  (putTransfer osS answers filename heard.1 (c.openRead osC filename).tick heard.2).bind fun x => (x.1.closed osC).map fun c => (c, x.2)

/-- One file for the client, until the server closes it. -/
def getTransfer (file : Str) (c : Client) (s : Server) : Option (Client × Server) :=
  let s := s.openRead osS file
  (s.announced file).bind fun size =>
    let filesize := BitVec.ofNat 32 size
    if filesize = 0 then some (c, s)
    else
      let name := cString c.filename
      let c := c.askIfPresent answers name
      let s := { s with overwrite := c.overwrite }
      let opened := c.host.openForContent osC c.fileExists c.overwrite name .unset
      let c := { c with host := opened.2 }
      if c.overwrite = 1 then
        if filesize.toInt < 0 then none
        else
          let content := s.host.sendfile s.fileDescriptor filesize
          (closed osC opened.1 (c.host.tick.write osC opened.1 content).2).map fun host => ({ c with host := host }, s)
      else (closed osC opened.1 c.host).map fun host => ({ c with host := host }, s)

/-- One file for the client. -/
def getOne (file : Str) (c : Client) (s : Server) : Option (Client × Server) :=
  (getTransfer osC osS answers file c s).bind fun x => (x.2.closed osS).map fun s => (x.1, s)

def putAll : List Str → Client → Server → Option (Client × Server)
  | [], c, s => some (c, s)
  | line :: rest, c, s =>
      (putFile osC osS answers line c s).bind fun x => putAll rest { x.1 with overwrite := 1 } x.2

def getAll : List Str → Client → Server → Option (Client × Server)
  | [], c, s => some (c, s)
  | file :: rest, c, s =>
      (getOne osC osS answers file { c with filename := overlay c.filename (s.host.padded osS 20 file) }
        { s with host := s.host.tick }).bind fun x =>
        getAll rest { x.1 with overwrite := 1, fileExists := 0, numFiles := x.1.numFiles - 1 } x.2

/-- The server's part of "mget" in front of the files. -/
def Server.listFiles (stream : Str) (s : Server) : Server :=
  let extension := (extract s.extension stream).1
  { s with extension := extension, host := s.host.list osS extension }

/-- The server in front of the files of "mget". -/
def mgetListed (extension : Str) (c : Client) (s : Server) : Server :=
  let heard := s.hear (c.host.padded osC 100 (commandText mgetWord extension))
  heard.2.listFiles osS heard.1

/-- One command on both machines. -/
def exchange (c : Client) (s : Server) : Command → Option (Client × Server)
  | .put filename =>
      let c := c.enter filename
      if c.host.fileExists filename then putFile osC osS answers filename c s else some (c, s)
  | .get filename =>
      let c := c.enter filename
      let heard := s.hear (c.host.padded osC 100 (commandText getWord filename))
      let s := heard.2.name heard.1
      getOne osC osS answers s.filename c.tick s
  | .mput extension =>
      let c := { c with host := c.host.list osC extension }
      (putAll osC osS answers (c.host.listed osC) c s).map fun x =>
        ({ x.1 with host := x.1.host.removeTemp }, x.2)
  | .mget extension =>
      let s := mgetListed osC osS extension c s
      let files := s.host.listed osS
      let numFiles := BitVec.ofNat 32 files.length
      (getAll osC osS answers (files.take numFiles.toInt.toNat) { c.tick with numFiles := numFiles } s).map fun x =>
        (x.1, { x.2 with host := x.2.host.removeTemp })

end Functions

theorem closeFile_eq (os : Os) (fileDescriptor : Descriptor) (h : Host) :
    closeFile os fileDescriptor h = ofOption (closed os fileDescriptor h) := by
  unfold closeFile closed
  split_ifs
  · rfl
  · rfl

theorem Client.closeDescriptor_eq (os : Os) (c : Client) : c.closeDescriptor os = ofOption (c.closed os) := by
  rw [closeDescriptor, closeFile_eq, Client.closed]
  cases Ftp.closed os c.fileDescriptor c.host with
  | none => rfl
  | some host => rfl

theorem Server.closeDescriptor_eq (os : Os) (s : Server) : s.closeDescriptor os = ofOption (s.closed os) := by
  rw [closeDescriptor, closeFile_eq, Server.closed]
  cases Ftp.closed os s.fileDescriptor s.host with
  | none => rfl
  | some host => rfl

section Dispatch
variable {os : Os} {s : Server} {bytes : Str}

theorem handle_put (heard : (s.hear bytes).2.action = putWord) :
    handle os s bytes = handlePut os (s.hear bytes).1 (s.hear bytes).2 := if_pos heard

theorem handle_get (heard : (s.hear bytes).2.action = getWord) :
    handle os s bytes = handleGet os (s.hear bytes).1 (s.hear bytes).2 := by
  have other : getWord ≠ putWord := by decide
  exact (if_neg (heard ▸ other)).trans (if_pos heard)

theorem handle_mget (heard : (s.hear bytes).2.action = mgetWord) :
    handle os s bytes = handleMget os (s.hear bytes).1 (s.hear bytes).2 := by
  have other : mgetWord ≠ putWord ∧ mgetWord ≠ getWord := by decide
  exact (if_neg (heard ▸ other.1)).trans ((if_neg (heard ▸ other.2)).trans (if_pos heard))

theorem handle_other (heard : ∀ word ∈ [putWord, getWord, mgetWord, quitWord], (s.hear bytes).2.action ≠ word) :
    handle os s bytes = pure (s.hear bytes).2 := by
  simp only [List.mem_cons, List.not_mem_nil, or_false, forall_eq_or_imp, forall_eq] at heard
  exact (if_neg heard.1).trans ((if_neg heard.2.1).trans ((if_neg heard.2.2.1).trans (if_neg heard.2.2.2)))

end Dispatch

section Transfers
variable (osC osS : Os) (answers : Nat → BitVec 32)

theorem putContent_meets (filename : Str) (c : Client) (s : Server) :
    Meets (serverLoop osS) (sendContent osC filename c) (receiveFile osS s) (putContent osS filename c s) := by
  unfold sendContent receiveFile putContent
  cases c.host.fileSize filename with
  | none => exact Meets.halt_client _
  | some size =>
      apply Meets.send_recv (length_intBytes _) (by decide)
      simp only [recvInt_intBytes, Option.bind_some]
      by_cases negative : (BitVec.ofNat 32 size).toInt < 0
      · rw [if_pos negative, if_pos (.inl negative.le)]
        exact Meets.halt_server _
      rw [if_neg negative]
      have announced := toInt_eq_toNat negative
      have most := c.host.length_sendfile_le c.fileDescriptor (BitVec.ofNat 32 size)
      by_cases stuck : (BitVec.ofNat 32 size).toInt ≤ 0 ∨
          (c.host.sendfile c.fileDescriptor (BitVec.ofNat 32 size)).length ≠ (BitVec.ofNat 32 size).toNat
      · rw [if_pos stuck]
        -- less content than announced, or none: the server waits for bytes, the client for the status
        refine Meets.send_short (stuck.symm.imp (fun less => most.lt_of_ne less) fun zero => ?_)
        exact List.length_eq_zero_iff.mp (by omega)
      · rw [if_neg stuck]
        obtain ⟨positive, whole⟩ := not_or.mp stuck
        rw [not_not] at whole
        apply Meets.send_recv whole (by omega)
        rw [overlay_whole (whole.trans (Host.length_unsetBytes _ _ _).symm)]
        apply Meets.recv_send (length_intBytes _) (by decide)
        rw [recvInt_intBytes]
        exact Meets.done _ _

/-- The client behind its command, the server in its "put" branch. -/
theorem putTransfer_meets (filename stream : Str) (c : Client) (s : Server) :
    Meets (serverLoop osS)
      (do
        let bytes ← recvBytes .existsFlag 4
        let c := { c with fileExists := recvInt c.fileExists bytes }.askIfFlagged answers
        sendBytes .overwriteFlag (intBytes c.overwrite)
        if c.overwrite = 1 then sendContent osC filename c else return c)
      (handlePut osS stream s) (putTransfer osS answers filename stream c s) := by
  unfold handlePut putTransfer
  apply Meets.recv_send (length_intBytes _) (by decide)
  apply Meets.send_recv (length_intBytes _) (by decide)
  simp only [recvInt_intBytes]
  generalize ({ c with fileExists := ((s.name stream).flag).fileExists }.askIfFlagged answers) = c
  rw [← Proc.bind_pure (if c.overwrite = 1 then sendContent osC filename c else pure c)]
  apply Meets.bind
  · change Meets _ _ (if c.overwrite = 1 then _ else _) _
    split_ifs
    · exact putContent_meets osC osS filename c _
    · exact Meets.done _ _
  · intro c s
    rw [Server.closeDescriptor_eq, ← Proc.bind_pure (ofOption _), Option.map_eq_bind]
    apply Meets.option_server
    intro s
    exact Meets.done _ _

theorem request_yields {α : Type} {text : Str} {c : Client} {s : Server} {k : Client → Proc Tag α}
    {o : Option (α × Server)} (h : Meets (serverLoop osS) (k c.tick) (handle osS s (c.host.padded osC 100 text)) o) :
    (lock (serverLoop osS) (sendCommand osC text c >>= k) (pure s)).Yields o := by
  rw [sendCommand, Proc.bind_assoc]
  exact Meets.request (Host.length_padded _ _ _ _) h

/-- A whole "put" of one file, from one rest of the server to the next. -/
theorem putFile_yields (filename : Str) (c : Client) (s : Server) :
    (lock (serverLoop osS)
      (do
        let c ← transferToServer osC answers (commandText putWord filename) filename (c.openRead osC filename)
        c.closeDescriptor osC)
      (pure s)).Yields (putFile osC osS answers filename c s) := by
  apply Outcome.Yields.bind
  · apply request_yields
    change Meets _ _ (handle osS s (c.host.padded osC 100 (commandText putWord filename))) _
    rw [handle_put (hear_command osC token_put (by decide) c.host filename s).2]
    exact putTransfer_meets osC osS answers filename _ _ _
  · intro c s
    rw [Client.closeDescriptor_eq, Option.map_eq_bind]
    cases c.closed osC with
    | none => trivial
    | some c => rfl

theorem closing_meets {α β : Type} (os : Os) (fileDescriptor : Descriptor) (h : Host) (f : Host → α) (b : β) :
    Meets (serverLoop osS) (closeFile os fileDescriptor h >>= fun host => pure (f host)) (pure b)
      ((closed os fileDescriptor h).map fun host => (f host, b)) := by
  rw [closeFile_eq, Option.map_eq_bind]
  apply Meets.option_client
  intro host
  exact Meets.done _ _

theorem length_announced {os : Os} {file : Str} {s : Server} {size : Nat}
    (sized : (s.openRead os file).announced file = some size) (nonzero : BitVec.ofNat 32 size ≠ 0)
    (positive : ¬ (BitVec.ofNat 32 size).toInt < 0) :
    (s.host.sendfile (s.openRead os file).fileDescriptor (BitVec.ofNat 32 size)).length =
      (BitVec.ofNat 32 size).toNat := by
  unfold Server.announced at sized
  split_ifs at sized with failed
  · obtain rfl : 0 = size := Option.some.inj sized
    exact absurd rfl nonzero
  · exact Host.length_sendfile failed sized positive

/-- The client in `getFromServer`, the server in `transferToClient`. -/
theorem getTransfer_meets (file : Str) (c : Client) (s : Server) :
    Meets (serverLoop osS) (getFromServer osC answers c) (transferToClient file (s.openRead osS file))
      (getTransfer osC osS answers file c s) := by
  simp only [getFromServer, transferToClient, getTransfer]
  cases sized : (s.openRead osS file).announced file with
  | none => exact Meets.halt_server _
  | some size =>
      apply Meets.recv_send (length_intBytes _) (by decide)
      simp only [recvInt_intBytes, Option.bind_some]
      by_cases zero : BitVec.ofNat 32 size = 0
      · rw [if_pos zero, if_pos zero, if_pos zero]
        exact Meets.done _ _
      · rw [if_neg zero, if_neg zero, if_neg zero]
        apply Meets.send_recv (length_intBytes _) (by decide)
        simp only [recvInt_intBytes]
        generalize c.askIfPresent answers (cString c.filename) = asked
        by_cases granted : asked.overwrite = 1
        · rw [if_pos granted, if_pos granted, if_pos granted, recvContent]
          by_cases negative : (BitVec.ofNat 32 size).toInt < 0
          · rw [if_pos negative, if_pos negative]
            exact Meets.halt_client _
          · rw [if_neg negative, if_neg negative]
            have whole := length_announced sized zero negative
            have positive : 0 < (BitVec.ofNat 32 size).toNat := Nat.pos_of_ne_zero fun none_ => zero (BitVec.toNat_inj.mp none_)
            apply Meets.recv_send whole positive
            rw [overlay_whole (whole.trans (Host.length_unsetBytes _ _ _).symm)]
            exact closing_meets osS osC _ _ _ _
        · rw [if_neg granted, if_neg granted, if_neg granted]
          exact closing_meets osS osC _ _ _ _

theorem getOne_meets (file : Str) (c : Client) (s : Server) :
    Meets (serverLoop osS) (getFromServer osC answers c)
      (do
        let s ← transferToClient file (s.openRead osS file)
        s.closeDescriptor osS)
      (getOne osC osS answers file c s) := by
  rw [← Proc.bind_pure (getFromServer osC answers c)]
  apply Meets.bind (getTransfer_meets osC osS answers file c s)
  intro c s
  rw [Server.closeDescriptor_eq, ← Proc.bind_pure (ofOption _), Option.map_eq_bind]
  apply Meets.option_server
  intro s
  exact Meets.done _ _

/-- The count that both ends take from `num_files` is the number of names that are sent. -/
theorem length_counted (files : List Str) :
    (files.take (BitVec.ofNat 32 files.length).toInt.toNat).length = (BitVec.ofNat 32 files.length).toInt.toNat := by
  have wrapped := Nat.mod_le files.length (2 ^ 32)
  rw [List.length_take, BitVec.toInt_eq_toNat_cond, BitVec.toNat_ofNat]
  split_ifs
  all_goals omega

theorem getAll_meets (files : List Str) {n : Nat} (count : files.length = n) (c : Client) (s : Server) :
    Meets (serverLoop osS) (getFiles osC answers n c) (sendFiles osS files s) (getAll osC osS answers files c s) := by
  subst count
  induction files generalizing c s with
  | nil => exact Meets.done _ _
  | cons file rest ih =>
      apply Meets.recv_send (Host.length_padded _ _ _ _) (by decide)
      unfold getFile sendFile
      rw [Proc.bind_assoc]
      apply Meets.bind (getOne_meets osC osS answers file _ _)
      intro c s
      exact ih _ _

theorem putAll_yields (lines : List Str) (c : Client) (s : Server) :
    (lock (serverLoop osS) (putLines osC answers lines c) (pure s)).Yields
      (putAll osC osS answers lines c s) := by
  induction lines generalizing c s with
  | nil => rfl
  | cons line rest ih =>
      have shape : putLine osC answers line c =
          (do
            let c ← transferToServer osC answers (commandText putWord line) line (c.openRead osC line)
            c.closeDescriptor osC) >>= fun c => return { c with overwrite := 1 } := (Proc.bind_assoc _ _ _).symm
      rw [putLines, shape, Proc.bind_assoc]
      apply Outcome.Yields.bind (putFile_yields osC osS answers line c s)
      intro c s
      exact ih _ s

theorem runCommand_yields (command : Command) (c : Client) (s : Server) :
    (lock (serverLoop osS) (runCommand osC answers c command) (pure s)).Yields
      (exchange osC osS answers c s command) := by
  cases command with
  | put filename =>
      simp only [runCommand, put, exchange]
      split_ifs
      · exact putFile_yields osC osS answers filename _ s
      · rfl
  | get filename =>
      simp only [runCommand, get, exchange]
      apply request_yields
      rw [handle_get (hear_command osC token_get (by decide) _ filename s).2]
      exact getOne_meets osC osS answers _ _ _
  | mput extension =>
      simp only [runCommand, mput, exchange]
      rw [Option.map_eq_bind]
      apply Outcome.Yields.bind (putAll_yields osC osS answers _ _ s)
      intro c s
      rfl
  | mget extension =>
      simp only [runCommand, mget, exchange]
      apply request_yields
      rw [handle_mget (hear_command osC token_mget (by decide) _ extension s).2, handleMget]
      apply Meets.recv_send (length_intBytes _) (by decide)
      simp only [recvInt_intBytes]
      rw [← Proc.bind_pure (getFiles osC answers _ _), Option.map_eq_bind]
      apply Meets.bind (getAll_meets osC osS answers _ (length_counted _) _ _)
      intro c s
      exact Meets.done _ _

end Transfers
end NetworkOs.Ftp
