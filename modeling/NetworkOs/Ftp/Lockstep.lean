import NetworkOs.Library.Runs
import NetworkOs.Ftp.Exchange
import NetworkOs.Ftp.Shell

/-! Sessions of commands. Client and server stay in step as long as every file that "put"
or "mput" takes up can be sent. -/
namespace NetworkOs.Ftp
open Duplex Proc

section Machine
variable (osC osS : Os) (answers : Nat → BitVec 32)

/-- One command of a session that is at rest, to the next rest. -/
def step (x : Client × Server) (command : Command) : Option (Client × Server) :=
  (lock (serverLoop osS) (runCommand osC answers x.1 command) (pure x.2)).result

theorem step_eq_exchange (x : Client × Server) (command : Command) :
    step osC osS answers x command = exchange osC osS answers x.1 x.2 command :=
  (runCommand_yields osC osS answers command x.1 x.2).result

theorem session_yields (commands : List Command) (x : Client × Server) :
    (lock (serverLoop osS) (session osC answers commands x.1) (pure x.2)).Yields
      (Runs.run (step osC osS answers) x commands) := by
  induction commands generalizing x with
  | nil => rfl
  | cons command rest ih =>
      rw [session, Runs.run, step_eq_exchange]
      apply Outcome.Yields.bind (runCommand_yields osC osS answers command x.1 x.2)
      intro c s
      exact ih (c, s)

end Machine

/-- The whole content of the file can be sent, and there is some: it may be read, and its size is
positive as an `int`. -/
def Sendable (os : Os) (dir : Dir) (name : Str) : Prop :=
  (dir.lookup name).any (fun file =>
    os.mayRead file.mode && decide (0 < (BitVec.ofNat 32 file.content.length).toInt)) = true

instance (os : Os) (dir : Dir) (name : Str) : Decidable (Sendable os dir name) :=
  inferInstanceAs (Decidable (_ = true))

section Conditions
variable (osC osS : Os) (answers : Nat → BitVec 32)

/-- The server behind the command for this name. -/
def putHeard (name : Str) (x : Client × Server) : Server :=
  let heard := x.2.hear (x.1.host.padded osC 100 (commandText putWord name))
  heard.2.name heard.1

/-- The value of `overwrite` that is sent for this name: the user's answer where the server finds the
name that it reads, else the value kept from before. -/
def putAnswer (name : Str) (x : Client × Server) : BitVec 32 :=
  if x.2.host.fileExists (putHeard osC name x).filename then answers x.1.asked else x.1.overwrite

/-- A file for the server is declined or can be sent. -/
def PutEnds (x : Client × Server) (name : Str) : Prop :=
  putAnswer osC answers name x = 1 → Sendable osC x.1.host.dir name

instance (x : Client × Server) (name : Str) : Decidable (PutEnds osC answers x name) :=
  inferInstanceAs (Decidable (_ → _))

/-- The server finds the size of what it opens, and a size that is negative as an `int` is declined. -/
def GetEnds (x : Client × Server) (file : Str) : Prop :=
  ((x.2.openRead osS file).announced file).any (fun size =>
    decide ((x.1.askIfPresent answers (cString x.1.filename)).overwrite = 1 → 0 ≤ (BitVec.ofNat 32 size).toInt)) = true

instance (x : Client × Server) (file : Str) : Decidable (GetEnds osS answers x file) :=
  inferInstanceAs (Decidable (_ = true))

/-- One line of an "mput". -/
def putLineStep (x : Client × Server) (line : Str) : Option (Client × Server) :=
  (putFile osC osS answers line x.1 x.2).map fun y => ({ y.1 with overwrite := 1 }, y.2)

/-- Both sides behind the message with the name of a file. -/
def named (x : Client × Server) (file : Str) : Client × Server :=
  ({ x.1 with filename := overlay x.1.filename (x.2.host.padded osS 20 file) }, { x.2 with host := x.2.host.tick })

/-- One file of an "mget". -/
def getFileStep (x : Client × Server) (file : Str) : Option (Client × Server) :=
  (getOne osC osS answers file (named osS x file).1 (named osS x file).2).map fun y =>
    ({ y.1 with overwrite := 1, fileExists := 0, numFiles := y.1.numFiles - 1 }, y.2)

/-- The server behind the command "get". -/
def getHeard (name : Str) (x : Client × Server) : Server :=
  let heard := x.2.hear (x.1.host.padded osC 100 (commandText getWord name))
  heard.2.name heard.1

/-- The files that are taken up, in their order. -/
def Command.files (x : Client × Server) : Command → List Str
  | .put filename => [filename]
  | .get filename => [filename]
  | .mput extension => (x.1.host.list osC extension).listed osC
  | .mget extension =>
      let files := (mgetListed osC osS extension x.1 x.2).host.listed osS
      files.take (BitVec.ofNat 32 files.length).toInt.toNat

/-- Both sides in front of the files. -/
def Command.before (x : Client × Server) : Command → Client × Server
  | .put filename => (x.1.enter filename, x.2)
  | .get filename => ((x.1.enter filename).tick, getHeard osC filename x)
  | .mput extension => ({ x.1 with host := x.1.host.list osC extension }, x.2)
  | .mget extension =>
      let s := mgetListed osC osS extension x.1 x.2
      ({ x.1.tick with numFiles := BitVec.ofNat 32 (s.host.listed osS).length }, s)

/-- Each file that the command takes up ends its transfer. -/
def Ends (x : Client × Server) (command : Command) : Prop :=
  let y := command.before osC osS x
  match command with
  | .put filename => x.1.host.fileExists filename → PutEnds osC answers y filename
  | .get filename => GetEnds osS answers y (getHeard osC filename x).filename
  | .mput _ => Runs.Guarded (putLineStep osC osS answers) (PutEnds osC answers) y (command.files osC osS x)
  | .mget _ =>
      Runs.Guarded (getFileStep osC osS answers) (fun z file => GetEnds osS answers (named osS z file) file) y
        (command.files osC osS x)

instance (x : Client × Server) : ∀ command, Decidable (Ends osC osS answers x command)
  | .put filename =>
      inferInstanceAs (Decidable (x.1.host.fileExists filename → PutEnds osC answers _ filename))
  | .get filename => inferInstanceAs (Decidable (GetEnds osS answers _ (getHeard osC filename x).filename))
  | .mput _ =>
      inferInstanceAs (Decidable (Runs.Guarded (putLineStep osC osS answers) (PutEnds osC answers) _ _))
  | .mget _ =>
      inferInstanceAs (Decidable (Runs.Guarded (getFileStep osC osS answers) (fun _ file => GetEnds osS answers _ file) _ _))

/-- The command takes up entries of the working directory, no paths, and ends with each of them. -/
def Fits (x : Client × Server) (command : Command) : Prop :=
  (∀ name ∈ command.files osC osS x, (47 : UInt8) ∉ name) ∧ Ends osC osS answers x command

instance (x : Client × Server) (command : Command) : Decidable (Fits osC osS answers x command) :=
  inferInstanceAs (Decidable (_ ∧ _))

end Conditions

/-- No descriptor variable holds the number of the connection by accident. -/
def Steady (os : Os) : Prop := ∀ time, os.unsetIsConnection time = false

theorem closed_steady {os : Os} (steady : Steady os) (fileDescriptor : Descriptor) (h : Host) :
    closed os fileDescriptor h = some (h.close fileDescriptor) := by
  apply if_neg
  rw [steady h.clock]
  simp

theorem Client.closed_steady {os : Os} (steady : Steady os) (c : Client) :
    c.closed os = some { c with host := c.host.close c.fileDescriptor, fileDescriptor := .closed } := by
  rw [Client.closed, Ftp.closed_steady steady]
  rfl

theorem Server.closed_steady {os : Os} (steady : Steady os) (s : Server) :
    s.closed os = some { s with host := s.host.close s.fileDescriptor, fileDescriptor := .closed } := by
  rw [Server.closed, Ftp.closed_steady steady]
  rfl

section Transfers
variable {osC osS : Os} {answers : Nat → BitVec 32}

theorem sendable_iff {os : Os} {dir : Dir} {name : Str} : Sendable os dir name ↔
    ∃ file, dir.lookup name = some file ∧ os.mayRead file.mode = true ∧ 0 < (BitVec.ofNat 32 file.content.length).toInt := by
  simp only [Sendable, Option.any_eq_true, Bool.and_eq_true, decide_eq_true_eq]

/-- What stops a granted "put" of a file that is there. -/
theorem stuck_iff (os : Os) {h : Host} {name : Str} {file : File} (source : h.dir.lookup name = some file) :
    ((BitVec.ofNat 32 file.content.length).toInt ≤ 0 ∨
      (h.sendfile (h.openRead os name) (BitVec.ofNat 32 file.content.length)).length ≠
        (BitVec.ofNat 32 file.content.length).toNat) ↔ ¬ Sendable os h.dir name := by
  have sized : h.fileSize name = some file.content.length := by rw [Host.fileSize, source]; rfl
  rw [sendable_iff]
  by_cases positive : (BitVec.ofNat 32 file.content.length).toInt ≤ 0
  · refine iff_of_true (.inl positive) ?_
    rintro ⟨other, found, -, also⟩
    obtain rfl := Option.some.inj (found.symm.trans source)
    exact absurd also (not_lt.mpr positive)
  have size := toInt_eq_toNat (x := BitVec.ofNat 32 file.content.length) (by omega)
  by_cases allowed : os.mayRead file.mode = true
  · have readable : h.openRead os name ≠ .failed := by simp [Host.openRead, source, allowed]
    refine iff_of_false (not_or.mpr ⟨positive, not_not.mpr ?_⟩) (not_not.mpr ⟨file, source, allowed, not_le.mp positive⟩)
    exact Host.length_sendfile readable sized (by omega)
  · have unreadable : h.openRead os name = .failed := by simp [Host.openRead, source, allowed]
    refine iff_of_true (.inr ?_) ?_
    · rw [unreadable]
      change 0 ≠ _
      omega
    · rintro ⟨other, found, also, -⟩
      obtain rfl := Option.some.inj (found.symm.trans source)
      exact allowed also

theorem putContent_isSome (osS : Os) {filename : Str} {c : Client} {s : Server}
    (source : c.fileDescriptor = c.host.openRead osC filename) :
    (putContent osS filename c s).isSome ↔ Sendable osC c.host.dir filename := by
  cases found : c.host.dir.lookup filename with
  | none => simp [putContent, Host.fileSize, Sendable, found]
  | some file =>
      have sized : c.host.fileSize filename = some file.content.length := by rw [Host.fileSize, found]; rfl
      have stuck := stuck_iff osC found
      simp only [putContent, sized, Option.bind_some, source]
      split_ifs with bad
      · exact iff_of_false (by simp) (stuck.mp bad)
      · exact iff_of_true rfl (not_not.mp fun none_ => bad (stuck.mpr none_))

theorem askIfFlagged_overwrite (answers : Nat → BitVec 32) (present : Bool) (c : Client) :
    ({ c with fileExists := if present then 1 else 0 }.askIfFlagged answers).overwrite =
      if present then answers c.asked else c.overwrite := by
  cases present <;> rfl

theorem askIfFlagged_count (answers : Nat → BitVec 32) (present : Bool) (c : Client) :
    ({ c with fileExists := if present then 1 else 0 }.askIfFlagged answers).asked =
      if present then c.asked + 1 else c.asked := by
  cases present <;> rfl

/-- A file for the server ends its transfer exactly if it is declined or can be sent. -/
theorem putFile_isSome (answers : Nat → BitVec 32) (steadyC : Steady osC) (steadyS : Steady osS) (x : Client × Server) (name : Str) :
    (putFile osC osS answers name x.1 x.2).isSome ↔ PutEnds osC answers x name := by
  obtain ⟨heard, heard_eq⟩ : ∃ heard, heard = x.2.hear (x.1.host.padded osC 100 (commandText putWord name)) := ⟨_, rfl⟩
  obtain ⟨present, present_eq⟩ : ∃ present, present = x.2.host.fileExists (putHeard osC name x).filename := ⟨_, rfl⟩
  have flag : ((heard.2.name heard.1).flag).fileExists = if present then 1 else 0 := by
    rw [present_eq, heard_eq]
    rfl
  obtain ⟨asked, asked_eq⟩ : ∃ asked, asked =
    { (x.1.openRead osC name).tick with fileExists := (if present then 1 else 0) }.askIfFlagged answers := ⟨_, rfl⟩
  have answer : asked.overwrite = putAnswer osC answers name x := by
    rw [asked_eq, askIfFlagged_overwrite, putAnswer, present_eq]
    rfl
  have source : asked.fileDescriptor = asked.host.openRead osC name := by
    rw [asked_eq, Client.askIfFlagged_fileDescriptor, Client.askIfFlagged_host]
    rfl
  have dir : asked.host.dir = x.1.host.dir := by
    rw [asked_eq, Client.askIfFlagged_host]
    rfl
  simp only [putFile, putTransfer, ← heard_eq, flag, ← asked_eq]
  rw [PutEnds, ← answer, ← dir,
    ← putContent_isSome osS (s := ((heard.2.name heard.1).flag).openForContent osS asked.overwrite) source]
  split_ifs with granted
  · cases putContent osS name asked (((heard.2.name heard.1).flag).openForContent osS asked.overwrite) with
    | none => simp [granted]
    | some y => simp [Server.closed_steady steadyS, Client.closed_steady steadyC]
  · simp only [Option.bind_some, Server.closed_steady steadyS, Client.closed_steady steadyC, Option.map_some]
    exact iff_of_true rfl fun one => absurd one granted

/-- A file for the client ends its transfer exactly if its size is found and can be received. -/
theorem getOne_isSome (answers : Nat → BitVec 32) (steadyC : Steady osC) (steadyS : Steady osS) (x : Client × Server) (file : Str) :
    (getOne osC osS answers file x.1 x.2).isSome ↔ GetEnds osS answers x file := by
  rw [GetEnds]
  simp only [getOne, getTransfer]
  cases (x.2.openRead osS file).announced file with
  | none => simp
  | some size =>
      simp only [Option.bind_some, Option.any_some, decide_eq_true_eq, closed_steady steadyC, Option.map_some]
      split_ifs with zero granted negative
      · simp [zero, Server.closed_steady steadyS]
      · simp only [Option.bind_none, Option.isSome_none, Bool.false_eq_true, false_iff]
        exact fun fits => absurd (fits granted) (not_le.mpr negative)
      · simp only [Option.bind_some, Server.closed_steady steadyS, Option.map_some, Option.isSome_some, true_iff]
        exact fun _ => not_lt.mp negative
      · simp only [Option.bind_some, Server.closed_steady steadyS, Option.map_some]
        exact iff_of_true rfl fun one => absurd one granted

theorem putAll_eq_run (lines : List Str) (c : Client) (s : Server) :
    putAll osC osS answers lines c s = Runs.run (putLineStep osC osS answers) (c, s) lines := by
  induction lines generalizing c s with
  | nil => rfl
  | cons line rest ih =>
      rw [putAll, Runs.run, putLineStep, Option.bind_map]
      exact congrArg _ (funext fun x => ih _ _)

theorem getAll_eq_run (files : List Str) (c : Client) (s : Server) :
    getAll osC osS answers files c s = Runs.run (getFileStep osC osS answers) (c, s) files := by
  induction files generalizing c s with
  | nil => rfl
  | cons file rest ih =>
      rw [getAll, Runs.run, getFileStep, Option.bind_map]
      exact congrArg _ (funext fun x => ih _ _)

/-- Both ends come to rest behind a command exactly where each file ends its transfer. -/
theorem exchange_isSome (steadyC : Steady osC) (steadyS : Steady osS) (x : Client × Server) (command : Command) :
    (exchange osC osS answers x.1 x.2 command).isSome ↔ Ends osC osS answers x command := by
  cases command with
  | put filename =>
      rw [Ends]
      simp only [exchange]
      by_cases present : x.1.host.fileExists filename = true
      · rw [if_pos (show (x.1.enter filename).host.fileExists filename = true from present)]
        have ends := putFile_isSome answers steadyC steadyS (x.1.enter filename, x.2) filename
        rw [ends]
        exact ⟨fun fits _ => fits, fun fits => fits present⟩
      · rw [if_neg (show ¬ (x.1.enter filename).host.fileExists filename = true from present)]
        exact iff_of_true rfl fun there => absurd there present
  | get filename =>
      exact getOne_isSome answers steadyC steadyS ((x.1.enter filename).tick, getHeard osC filename x) _
  | mput extension =>
      simp only [exchange, Option.isSome_map, putAll_eq_run]
      exact Runs.run_isSome_iff
        (fun y line => by rw [putLineStep, Option.isSome_map, putFile_isSome answers steadyC steadyS]) _ _
  | mget extension =>
      simp only [exchange, Option.isSome_map, getAll_eq_run]
      exact Runs.run_isSome_iff
        (fun y file => by rw [getFileStep, Option.isSome_map, getOne_isSome answers steadyC steadyS (named osS y file)]) _ _

/-- Where a command ends with each of its files, both ends come to rest. -/
theorem exchange_some (steadyC : Steady osC) (steadyS : Steady osS) {x : Client × Server} {command : Command}
    (fits : Fits osC osS answers x command) : ∃ x', step osC osS answers x command = some x' := by
  rw [← Option.isSome_iff_exists, step_eq_exchange, exchange_isSome steadyC steadyS]
  exact fits.2

/-- Every session whose commands end with each of their files stays in step under every
interleaving, and so do its parts from the start. -/
theorem sessions_in_step (answers : Nat → BitVec 32) (steadyC : Steady osC) (steadyS : Steady osS)
    {c : Client} {s : Server} (commands rest : List Command)
    (guarded : Runs.Guarded (step osC osS answers) (Fits osC osS answers) (c, s) (commands ++ rest)) :
    ∃ c' s', Runs.run (step osC osS answers) (c, s) commands = some (c', s') ∧
      InStep (serverLoop osS) (Config.start (session osC answers commands c) (pure s)) c' s' := by
  obtain ⟨⟨c', s'⟩, reached⟩ : ∃ x, Runs.run (step osC osS answers) (c, s) commands = some x := by
    induction commands generalizing c s with
    | nil => exact ⟨_, rfl⟩
    | cons command more ih =>
        obtain ⟨fits, later⟩ := guarded
        obtain ⟨⟨c₁, s₁⟩, taken⟩ := exchange_some steadyC steadyS fits
        obtain ⟨x, run⟩ := ih (later _ taken)
        refine ⟨x, ?_⟩
        rw [Runs.run, taken]
        exact run
  refine ⟨c', s', reached, lock_adequate ?_⟩
  have yields := session_yields osC osS answers commands (c, s)
  rw [reached] at yields
  exact yields

end Transfers

/-- A session with each command, where a name is there on both sides. -/
theorem sessions_in_step_each :
    let c := Client.initial (dirOf [(['a', '.', 't'], ['h', 'i']), (['b', '.', 't'], ['x'])])
    let s := Server.initial (dirOf [(['a', '.', 't'], ['o', 'l', 'd']), (['d', '.', 'u'], [])])
    let commands := [.put (ascii ['a', '.', 't']), .mput (ascii ['t']), .get (ascii ['d', '.', 'u']), .mget (ascii ['u'])]
    ∃ c' s', Runs.run (step unix unix fun _ => 1) (c, s) commands = some (c', s') ∧
      InStep (serverLoop unix) (Config.start (session unix (fun _ => 1) commands c) (pure s)) c' s' :=
  sessions_in_step (fun _ => 1) (fun _ => rfl) (fun _ => rfl) _ [] (by decide)

/-- A name with a line break is read from the listing as two names, and the client ends
in the size of the first one while the server waits for it. -/
theorem line_break_ends_client :
    let c := Client.initial (dirOf [(['a', '\n', 'b', '.', 't'], ['x'])])
    let s := Server.initial ∅
    (∀ entry ∈ c.host.dir.entries, entry.2.content.length < 2147483648 ∧ unix.mayRead entry.2.mode ∧
      unix.mayWrite entry.2.mode ∧ 1 ≤ entry.1.length ∧ entry.1.length ≤ 19) ∧
    ¬ ∃ c' s', InStep (serverLoop unix)
      (Config.start (session unix (fun _ => 1) [.mput (ascii ['t'])] c) (pure s)) c' s' := by
  refine ⟨by decide, ?_⟩
  rintro ⟨c', s', together⟩
  have halted : (lock (serverLoop unix)
      (session unix (fun _ => 1) [.mput (ascii ['t'])] (Client.initial (dirOf [(['a', '\n', 'b', '.', 't'], ['x'])])))
      (pure (Server.initial ∅))).isHalted = true := by decide
  obtain ⟨cfg, run, ended⟩ := lock_halted (Outcome.eq_halted halted)
  exact not_inStep_of_halted run ended together

end NetworkOs.Ftp
