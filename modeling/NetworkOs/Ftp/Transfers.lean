import NetworkOs.Ftp.Files
import NetworkOs.Ftp.Lockstep

/-! Whether a file arrives, after any history of commands. -/
namespace NetworkOs.Ftp
open Duplex Proc

section Lists
variable {osC osS : Os} {answers : Nat → BitVec 32} {c c' : Client} {s s' : Server}

theorem putAll_flag {lines : List Str} (bit : c.fileExists = 0 ∨ c.fileExists = 1)
    (done : putAll osC osS answers lines c s = some (c', s')) : c'.fileExists = 0 ∨ c'.fileExists = 1 := by
  induction lines generalizing c s with
  | nil =>
      cases done
      exact bit
  | cons line rest ih =>
      obtain ⟨⟨c₁, s₁⟩, first, later⟩ := Option.bind_eq_some_iff.mp done
      refine ih ?_ later
      exact (putFile_client first).2

theorem getAll_flag {files : List Str} (bit : c.fileExists = 0 ∨ c.fileExists = 1)
    (done : getAll osC osS answers files c s = some (c', s')) : c'.fileExists = 0 ∨ c'.fileExists = 1 := by
  induction files generalizing c s with
  | nil =>
      cases done
      exact bit
  | cons file rest ih =>
      obtain ⟨⟨c₁, s₁⟩, first, later⟩ := Option.bind_eq_some_iff.mp done
      refine ih ?_ later
      exact .inl rfl

theorem exchange_flag {command : Command} (bit : c.fileExists = 0 ∨ c.fileExists = 1)
    (done : exchange osC osS answers c s command = some (c', s')) : c'.fileExists = 0 ∨ c'.fileExists = 1 := by
  cases command with
  | put filename =>
      simp only [exchange] at done
      split_ifs at done
      · exact (putFile_client done).2
      · cases done
        exact bit
  | get filename => exact (getOne_frame (c := (c.enter filename).tick) bit done).2.1
  | mput extension =>
      obtain ⟨⟨c₁, s₁⟩, all, same⟩ := Option.map_eq_some_iff.mp done
      cases same
      have final := putAll_flag (c := { c with host := c.host.list osC extension }) bit all
      exact final
  | mget extension =>
      obtain ⟨⟨c₁, s₁⟩, all, same⟩ := Option.map_eq_some_iff.mp done
      cases same
      refine getAll_flag ?_ all
      exact bit

theorem putAll_frame {lines : List Str} (names : ∀ line ∈ lines, Name line)
    (done : putAll osC osS answers lines c s = some (c', s')) {other : Str} (absent : other ∉ lines) :
    s'.host.dir.lookup other = s.host.dir.lookup other := by
  induction lines generalizing c s with
  | nil =>
      cases done
      rfl
  | cons line rest ih =>
      obtain ⟨⟨c₁, s₁⟩, first, later⟩ := Option.bind_eq_some_iff.mp done
      simp only [List.mem_cons, not_or] at absent
      have kept := putFile_frame (names line (by simp)) first absent.1
      exact (ih (fun other member => names other (by simp [member])) later absent.2).trans kept

/-- Only the first file of an "mput" depends on what earlier commands left in `overwrite`. -/
theorem putAll_absent (permissiveC : Permissive osC) (permissiveS : Permissive osS) {lines : List Str} {f content : Str}
    (names : ∀ line ∈ lines, Name line) (once : lines.Nodup) (listed : f ∈ lines)
    (held : contentOf c.host.dir f = some content) (absent : contentOf s.host.dir f = none)
    (done : putAll osC osS answers lines c s = some (c', s')) :
    contentOf s'.host.dir f = if c.overwrite = 1 ∨ lines.head? ≠ some f then some (sent content) else none := by
  induction lines generalizing c s with
  | nil => cases listed
  | cons line rest ih =>
      obtain ⟨⟨c₁, s₁⟩, first, later⟩ := Option.bind_eq_some_iff.mp done
      have rest_names : ∀ line ∈ rest, Name line := fun other member => names other (by simp [member])
      obtain ⟨fresh, rest_once⟩ := List.nodup_cons.mp once
      by_cases same : f = line
      · subst same
        have kept := putAll_frame rest_names later fresh
        have decided := putFile_absent permissiveC permissiveS (names f (by simp)) held absent first
        simpa [contentOf, kept] using decided
      · have listed := (List.mem_cons.mp listed).resolve_left same
        have kept := putFile_frame (names line (by simp)) first same
        have held : contentOf c₁.host.dir f = some content := by
          rw [(putFile_client first).1]
          exact held
        have absent : contentOf s₁.host.dir f = none := (congrArg _ kept).trans absent
        have decided := ih (c := { c₁ with overwrite := 1 }) rest_names rest_once listed held absent later
        simpa [Ne.symm same] using decided

theorem getAll_frame {files : List Str} (names : ∀ file ∈ files, Name file)
    (bit : c.fileExists = 0 ∨ c.fileExists = 1) (done : getAll osC osS answers files c s = some (c', s'))
    {other : Str} (absent : other ∉ files) : c'.host.dir.lookup other = c.host.dir.lookup other := by
  induction files generalizing c s with
  | nil =>
      cases done
      rfl
  | cons file rest ih =>
      obtain ⟨⟨c₁, s₁⟩, first, later⟩ := Option.bind_eq_some_iff.mp done
      simp only [List.mem_cons, not_or] at absent
      have named := name_received osS (names file (by simp)) s.host c.filename
      have kept := (getOne_frame (c := { c with filename := overlay c.filename (s.host.padded osS 20 file) }) bit
        first).2.2 other (fun same => absent.1 (same.trans named))
      exact (ih (fun other member => names other (by simp [member])) (.inl rfl) later absent.2).trans kept

theorem getAll_absent (permissiveC : Permissive osC) (permissiveS : Permissive osS) {files : List Str} {f content : Str}
    (names : ∀ file ∈ files, Name file) (once : files.Nodup) (listed : f ∈ files)
    (bit : c.fileExists = 0 ∨ c.fileExists = 1) (held : contentOf s.host.dir f = some content)
    (absent : contentOf c.host.dir f = none) (done : getAll osC osS answers files c s = some (c', s')) :
    contentOf c'.host.dir f =
      if (c.overwrite = 1 ∨ files.head? ≠ some f) ∧ sent content ≠ [] then some (sent content) else none := by
  induction files generalizing c s with
  | nil => cases listed
  | cons next rest ih =>
      obtain ⟨⟨c₁, s₁⟩, first, later⟩ := Option.bind_eq_some_iff.mp done
      have rest_names : ∀ file ∈ rest, Name file := fun other member => names other (by simp [member])
      obtain ⟨fresh, rest_once⟩ := List.nodup_cons.mp once
      have named := name_received osS (names next (by simp)) s.host c.filename
      by_cases same : f = next
      · subst same
        have kept := getAll_frame rest_names (.inl rfl) later fresh
        have decided := getOne_absent (c := { c with filename := overlay c.filename (s.host.padded osS 20 f) })
          (s := { s with host := s.host.tick }) permissiveC permissiveS bit named (names f (by simp)) held
          absent first
        simpa [contentOf, kept] using decided
      · have listed := (List.mem_cons.mp listed).resolve_left same
        have frame := getOne_frame (c := { c with filename := overlay c.filename (s.host.padded osS 20 next) }) bit first
        have kept := frame.2.2 f (fun equal => same (equal.trans named))
        have held : contentOf s₁.host.dir f = some content := by
          rw [frame.1]
          exact held
        have absent : contentOf c₁.host.dir f = none := (congrArg _ kept).trans absent
        have decided := ih (c := { c₁ with overwrite := 1, fileExists := 0, numFiles := c₁.numFiles - 1 }) rest_names
          rest_once listed (.inl rfl) held absent later
        simpa [Ne.symm same] using decided

end Lists
section Commands
variable (osC osS : Os)

def Command.source (x : Client × Server) : Command → Dir
  | .put _ => x.1.host.dir
  | .get _ => x.2.host.dir
  | .mput _ => x.1.host.dir
  | .mget _ => x.2.host.dir

def Command.destination (x : Client × Server) : Command → Dir
  | .put _ => x.2.host.dir
  | .get _ => x.1.host.dir
  | .mput _ => x.2.host.dir
  | .mget _ => x.1.host.dir

/-- The source as the transfers find it: behind the listing, where there is one. -/
def Command.found (x : Client × Server) : Command → Dir
  | .put _ => x.1.host.dir
  | .get _ => x.2.host.dir
  | .mput extension => (x.1.host.list osC extension).dir
  | .mget extension => (mgetListed osC osS extension x.1 x.2).host.dir

/-- What `ls` documents of the listing: no line twice, each the name of a file that is there before it
and behind it. -/
def Command.Listed (x : Client × Server) (command : Command) : Prop :=
  (command.files osC osS x).Nodup ∧ ∀ line ∈ command.files osC osS x,
    (contentOf (command.source x) line).isSome ∧ (contentOf (command.found osC osS x) line).isSome

instance (x : Client × Server) (command : Command) : Decidable (command.Listed osC osS x) :=
  inferInstanceAs (Decidable (_ ∧ _))

/-- Whether the user is asked about a file: where it is on both sides. An empty one is not fetched. -/
def Command.asks (x : Client × Server) (command : Command) (file : Str) : Option Bool :=
  match command with
  | .put _ | .mput _ => some (contentOf x.2.host.dir file).isSome
  | .get _ | .mget _ =>
      (contentOf (command.found osC osS x) file).bind fun content =>
        if BitVec.ofNat 32 content.length = 0 then none else some (contentOf x.1.host.dir file).isSome

/-- The files that are granted: by the answer to the question about them, or without a question by the
value that `overwrite` has; behind each file it is 1. -/
def grantedFiles (answers : Nat → BitVec 32) (asks : Str → Option Bool) : Nat → BitVec 32 → List Str → List Str
  | _, _, [] => []
  | asked, overwrite, file :: rest =>
      match asks file with
      | none => grantedFiles answers asks asked 1 rest
      | some false => [file].filter (fun _ => overwrite = 1) ++ grantedFiles answers asks asked 1 rest
      | some true => [file].filter (fun _ => answers asked = 1) ++ grantedFiles answers asks (asked + 1) 1 rest

def Command.granted (answers : Nat → BitVec 32) (x : Client × Server) (command : Command) : List Str :=
  grantedFiles answers (command.asks osC osS x) x.1.asked x.1.overwrite (command.files osC osS x)

/-- The size that is announced of a file is positive. -/
def Sizable (dir : Dir) (name : Str) : Prop :=
  (contentOf dir name).any (fun content => decide (0 < (BitVec.ofNat 32 content.length).toInt)) = true

instance (dir : Dir) (name : Str) : Decidable (Sizable dir name) := inferInstanceAs (Decidable (_ = true))

end Commands

section Endings
variable {osC osS : Os} {answers : Nat → BitVec 32} {files : List Str}

theorem grantedFiles_congr {asks asks' : Str → Option Bool} (same : ∀ file ∈ files, asks file = asks' file)
    (asked : Nat) (overwrite : BitVec 32) :
    grantedFiles answers asks asked overwrite files = grantedFiles answers asks' asked overwrite files := by
  induction files generalizing asked overwrite with
  | nil => rfl
  | cons file rest ih =>
      have later := ih fun other member => same other (by simp [member])
      simp only [grantedFiles, same file (by simp), later]

theorem forall_granted_cons {asks : Str → Option Bool} {file : Str} {asked : Nat} {overwrite : BitVec 32} {p : Str → Prop} :
    (∀ g ∈ grantedFiles answers asks asked overwrite (file :: files), p g) ↔
      (∀ question, asks file = some question → (if question then answers asked else overwrite) = 1 → p file) ∧
        ∀ g ∈ grantedFiles answers asks (if asks file = some true then asked + 1 else asked) 1 files, p g := by
  rw [grantedFiles]
  cases asks file with
  | none => simp
  | some question => cases question <;> simp [or_imp, forall_and]

theorem forall_granted_one {asks : Str → Option Bool} {file : Str} {asked : Nat} {overwrite : BitVec 32} {p : Str → Prop} :
    (∀ g ∈ grantedFiles answers asks asked overwrite [file], p g) ↔
      ∀ question, asks file = some question → (if question then answers asked else overwrite) = 1 → p file := by
  rw [forall_granted_cons]
  simp [grantedFiles]

theorem entry_exists {name : Str} (one : Name name) (h : Host) : h.fileExists name = (contentOf h.dir name).isSome := by
  rw [one.toEntry.exists_eq, contentOf, Option.isSome_map]

theorem sendable_iff_sizable (opens : Opens osC) (dir : Dir) (name : Str) : Sendable osC dir name ↔ Sizable dir name := by
  rw [Sendable, Sizable, contentOf, Option.any_map]
  simp [opens.reads]

theorem putHeard_filename {name : Str} (one : Name name) (x : Client × Server) : (putHeard osC name x).filename = name :=
  argument_heard osC token_put (by decide) x.1.host one _ x.2

theorem putEnds_iff (answers : Nat → BitVec 32) (opens : Opens osC) {name : Str} (one : Name name) (x : Client × Server) :
    PutEnds osC answers x name ↔ ∀ question, some (contentOf x.2.host.dir name).isSome = some question →
      (if question then answers x.1.asked else x.1.overwrite) = 1 → Sizable x.1.host.dir name := by
  rw [PutEnds, putAnswer, putHeard_filename one, entry_exists one, sendable_iff_sizable opens]
  simp

/-- A file for the server moves the client on by one question, where there was one. -/
theorem putLineStep_moves {x x' : Client × Server} {name : Str} (one : Name name)
    (done : putLineStep osC osS answers x name = some x') :
    x'.1.overwrite = 1 ∧ x'.1.host.dir = x.1.host.dir ∧
      x'.1.asked = (if (contentOf x.2.host.dir name).isSome then x.1.asked + 1 else x.1.asked) ∧
      ∀ other, other ≠ name → contentOf x'.2.host.dir other = contentOf x.2.host.dir other := by
  obtain ⟨⟨c, s⟩, put, rfl⟩ := Option.map_eq_some_iff.mp done
  obtain ⟨⟨c₁, s₁⟩, transferred, closing⟩ := Option.bind_eq_some_iff.mp put
  obtain ⟨c₂, client, same⟩ := Option.map_eq_some_iff.mp closing
  cases same
  refine ⟨rfl, (putFile_client put).1, ?_, fun other ne => congrArg (Option.map _) (putFile_frame one put ne)⟩
  have asked := (putTransfer_answers transferred).2
  have filename : ((x.2.hear (x.1.host.padded osC 100 (commandText putWord name))).2.name
      (x.2.hear (x.1.host.padded osC 100 (commandText putWord name))).1).filename = name := putHeard_filename one x
  have flag : ((x.2.hear (x.1.host.padded osC 100 (commandText putWord name))).2.name
      (x.2.hear (x.1.host.padded osC 100 (commandText putWord name))).1).flag.fileExists =
        if (contentOf x.2.host.dir name).isSome then 1 else 0 := by
    rw [← entry_exists one x.2.host, Server.flag, filename]
    rfl
  rw [flag] at asked
  change c.asked = _
  rw [Client.asked_closed client, asked]
  exact askIfFlagged_count answers _ _

/-- An "mput" ends where the files that are granted have a size that can be sent. -/
theorem putLines_end (opens : Opens osC) (steadyC : Steady osC) (steadyS : Steady osS)
    (names : ∀ file ∈ files, Name file) (once : files.Nodup) (x : Client × Server) :
    Runs.Guarded (putLineStep osC osS answers) (PutEnds osC answers) x files ↔
      ∀ g ∈ grantedFiles answers (fun file => some (contentOf x.2.host.dir file).isSome) x.1.asked x.1.overwrite files,
        Sizable x.1.host.dir g := by
  induction files generalizing x with
  | nil => simp [Runs.Guarded, grantedFiles]
  | cons file rest ih =>
      have one := names file (by simp)
      obtain ⟨fresh, once⟩ := List.nodup_cons.mp once
      rw [Runs.Guarded, forall_granted_cons, ← putEnds_iff answers opens one x]
      refine and_congr_right fun fits => ?_
      obtain ⟨t, taken⟩ : ∃ t, putLineStep osC osS answers x file = some t := by
        rw [← Option.isSome_iff_exists, putLineStep, Option.isSome_map, putFile_isSome answers steadyC steadyS]
        exact fits
      obtain ⟨overwrite, dir, asked, frame⟩ := putLineStep_moves one taken
      have later := ih (fun other member => names other (by simp [member])) once t
      have same : ∀ other ∈ rest, some (contentOf t.2.host.dir other).isSome =
          some (contentOf x.2.host.dir other).isSome := by
        intro other member
        rw [frame other fun equal => fresh (equal ▸ member)]
      rw [grantedFiles_congr same, overwrite, dir, asked] at later
      simp only [Option.some.injEq]
      rw [← later]
      exact ⟨fun guarded => guarded t taken, fun guarded u also => Option.some.inj (taken.symm.trans also) ▸ guarded⟩

/-- The questions of an "mget" about files of the server. -/
def getAsks (x : Client × Server) (file : Str) : Option Bool :=
  (contentOf x.2.host.dir file).bind fun content =>
    if BitVec.ofNat 32 content.length = 0 then none else some (contentOf x.1.host.dir file).isSome

theorem asked_present {name : Str} (one : Name name) {c : Client} (named : cString c.filename = name) :
    (c.askIfPresent answers (cString c.filename)).overwrite =
        (if (contentOf c.host.dir name).isSome then answers c.asked else c.overwrite) ∧
      (c.askIfPresent answers (cString c.filename)).asked =
        (if (contentOf c.host.dir name).isSome then c.asked + 1 else c.asked) := by
  rw [named, ← entry_exists one]
  unfold Client.askIfPresent
  split_ifs
  · exact ⟨rfl, rfl⟩
  · exact ⟨rfl, rfl⟩

theorem getFileStep_moves (opens : Opens osS) {x x' : Client × Server} {name content : Str} (one : Name name)
    (bit : x.1.fileExists = 0 ∨ x.1.fileExists = 1) (held : contentOf x.2.host.dir name = some content)
    (done : getFileStep osC osS answers x name = some x') :
    x'.1.overwrite = 1 ∧ x'.1.fileExists = 0 ∧ x'.2.host.dir = x.2.host.dir ∧
      x'.1.asked = (if getAsks x name = some true then x.1.asked + 1 else x.1.asked) ∧
      ∀ other, other ≠ name → contentOf x'.1.host.dir other = contentOf x.1.host.dir other := by
  obtain ⟨⟨c, s⟩, got, rfl⟩ := Option.map_eq_some_iff.mp done
  have received := name_received osS one x.2.host x.1.filename
  obtain ⟨dir, -, frame⟩ := getOne_frame (c := (named osS x name).1) bit got
  refine ⟨rfl, rfl, dir, ?_, fun other ne => congrArg (Option.map _) (frame other fun same => ne (same.trans received))⟩
  obtain ⟨size, announced, answered⟩ := getOne_answers got
  have size_eq := announced_held (s := (named osS x name).2) opens held
  obtain rfl : content.length = size := Option.some.inj (size_eq.symm.trans announced)
  rw [getAsks, held, Option.bind_some]
  change c.asked = _
  by_cases zero : BitVec.ofNat 32 content.length = 0
  · obtain ⟨size', announced', -, ⟨-, same⟩ | ⟨nonzero, -⟩⟩ := getOne_inv got
    · simp [zero, same, named]
    · obtain rfl : content.length = size' := Option.some.inj (size_eq.symm.trans announced')
      exact absurd zero nonzero
  · rw [(answered zero).2, (asked_present (c := (named osS x name).1) one received).2, if_neg zero]
    simp only [Option.some.injEq]
    rfl

theorem getEnds_iff (answers : Nat → BitVec 32) (opens : Opens osS) {name content : Str} (one : Name name) {x : Client × Server}
    (named : cString x.1.filename = name) (held : contentOf x.2.host.dir name = some content) :
    GetEnds osS answers x name ↔ ∀ question, getAsks x name = some question →
      (if question then answers x.1.asked else x.1.overwrite) = 1 → Sizable x.2.host.dir name := by
  rw [GetEnds, announced_held opens held, Option.any_some, decide_eq_true_eq, (asked_present one named).1, getAsks, Sizable,
    held, Option.bind_some, Option.any_some, decide_eq_true_eq]
  by_cases zero : BitVec.ofNat 32 content.length = 0
  · simp [zero]
  · have positive : 0 < (BitVec.ofNat 32 content.length).toInt ↔ 0 ≤ (BitVec.ofNat 32 content.length).toInt := by
      refine ⟨le_of_lt, fun nonneg => lt_of_le_of_ne nonneg fun none_ => zero ?_⟩
      exact (eq_zero_of_toInt (not_lt.mpr nonneg)).mp none_.ge
    simp only [if_neg zero, Option.some.injEq, forall_eq', positive]

/-- An "mget" ends where the files that are granted have a size that can be received. -/
theorem getFiles_end (opens : Opens osS) (steadyC : Steady osC) (steadyS : Steady osS)
    (names : ∀ file ∈ files, Name file) (once : files.Nodup) (x : Client × Server)
    (bit : x.1.fileExists = 0 ∨ x.1.fileExists = 1) (held : ∀ file ∈ files, (contentOf x.2.host.dir file).isSome) :
    Runs.Guarded (getFileStep osC osS answers) (fun z file => GetEnds osS answers (named osS z file) file) x files ↔
      ∀ g ∈ grantedFiles answers (getAsks x) x.1.asked x.1.overwrite files, Sizable x.2.host.dir g := by
  induction files generalizing x with
  | nil => simp [Runs.Guarded, grantedFiles]
  | cons file rest ih =>
      have one := names file (by simp)
      obtain ⟨fresh, once⟩ := List.nodup_cons.mp once
      obtain ⟨content, there⟩ := Option.isSome_iff_exists.mp (held file (by simp))
      have ends := getEnds_iff answers opens one (x := named osS x file)
        (name_received osS one x.2.host x.1.filename) there
      change _ ↔ ∀ question, getAsks x file = some question →
        (if question then answers x.1.asked else x.1.overwrite) = 1 → Sizable x.2.host.dir file at ends
      rw [Runs.Guarded, forall_granted_cons, ← ends]
      refine and_congr_right fun fits => ?_
      obtain ⟨t, taken⟩ : ∃ t, getFileStep osC osS answers x file = some t := by
        rw [← Option.isSome_iff_exists, getFileStep, Option.isSome_map, getOne_isSome answers steadyC steadyS (named osS x file)]
        exact fits
      obtain ⟨overwrite, flag, dir, asked, frame⟩ := getFileStep_moves opens one bit there taken
      have later := ih (fun other member => names other (by simp [member])) once t (.inl flag) fun other member => by
        rw [dir]
        exact held other (by simp [member])
      have same : ∀ other ∈ rest, getAsks t other = getAsks x other := by
        intro other member
        rw [getAsks, getAsks, dir, frame other fun equal => fresh (equal ▸ member)]
      rw [grantedFiles_congr same, overwrite, dir, asked] at later
      rw [← later]
      exact ⟨fun guarded => guarded t taken, fun guarded u also => Option.some.inj (taken.symm.trans also) ▸ guarded⟩

end Endings

section Arrival
variable {osC osS : Os} (answers : Nat → BitVec 32)

theorem guarded_some {p : Prop} [Decidable p] {a b : Str} :
    (if p then some a else none) = some b ↔ p ∧ a = b := by
  split_ifs with h
  · simp [h]
  · simp [h]

theorem exchange_arrives (permissiveC : Permissive osC) (permissiveS : Permissive osS) {x x' : Client × Server}
    (bit : x.1.fileExists = 0 ∨ x.1.fileExists = 1) {command : Command}
    (names : ∀ name ∈ command.files osC osS x, Name name) (listed : command.Listed osC osS x) {f content : Str}
    (offered : f ∈ command.files osC osS x) (nonempty : content ≠ []) (absent : contentOf (command.destination x) f = none)
    (done : exchange osC osS answers x.1 x.2 command = some x') :
    contentOf (command.destination x') f = some content ↔
      (x.1.overwrite = 1 ∨ (command.files osC osS x).head? ≠ some f) ∧
        (contentOf (command.found osC osS x) f).map sent = some content := by
  have one := names f offered
  obtain ⟨now, found⟩ := Option.isSome_iff_exists.mp (listed.2 f offered).2
  have received : ∀ {now : Str}, sent now = content → sent now ≠ [] := fun same none => nonempty (same.symm.trans none)
  rw [found, Option.map_some, Option.some.injEq]
  cases command with
  | put filename =>
      obtain rfl : f = filename := List.mem_singleton.mp offered
      have present : (x.1.enter f).host.fileExists f := by
        rw [entry_exists one]
        exact Option.isSome_of_eq_some found
      simp only [exchange, present, if_true] at done
      have result := putFile_absent (c := x.1.enter f) permissiveC permissiveS one found absent done
      change contentOf x'.2.host.dir f = some content ↔ (x.1.overwrite = 1 ∨ some f ≠ some f) ∧ _
      rw [result, guarded_some]
      simp [Client.enter]
  | get filename =>
      obtain rfl : f = filename := List.mem_singleton.mp offered
      change contentOf x.2.host.dir f = some now at found
      change getOne osC osS answers (extract _ _).1 (x.1.enter f).tick _ = some x' at done
      rw [argument_heard osC token_get (by decide) _ one] at done
      generalize served : Server.name _ _ = s at done
      have dir : s.host.dir = x.2.host.dir := served ▸ rfl
      have result := getOne_absent (c := (x.1.enter f).tick) permissiveC permissiveS bit (name_entered one x.1)
        one (dir ▸ found) absent done
      change contentOf x'.1.host.dir f = some content ↔ (x.1.overwrite = 1 ∨ some f ≠ some f) ∧ _
      rw [result, guarded_some]
      simp only [ne_eq, not_true_eq_false, or_false]
      exact ⟨fun both => ⟨both.1.1, both.2⟩, fun both => ⟨⟨both.1, received both.2⟩, both.2⟩⟩
  | mput extension =>
      obtain ⟨⟨c', s'⟩, all, same⟩ := Option.map_eq_some_iff.mp done
      cases same
      have result := putAll_absent (c := { x.1 with host := x.1.host.list osC extension }) permissiveC permissiveS
        names listed.1 offered found absent all
      change contentOf s'.host.dir f = some content ↔ _
      rw [result, guarded_some]
  | mget extension =>
      obtain ⟨⟨c', s'⟩, all, same⟩ := Option.map_eq_some_iff.mp done
      cases same
      have result := getAll_absent
        (c := { x.1.tick with
          numFiles := BitVec.ofNat 32 ((mgetListed osC osS extension x.1 x.2).host.listed osS).length })
        permissiveC permissiveS names listed.1 offered bit found absent all
      change contentOf c'.host.dir f = some content ↔ _
      rw [result, guarded_some]
      exact ⟨fun both => ⟨both.1.1, both.2⟩, fun both => ⟨⟨both.1, received both.2⟩, both.2⟩⟩

/-- A command ends exactly where the files that it grants have sizes that can be sent and received. -/
theorem ends_iff (opensC : Opens osC) (opensS : Opens osS) (steadyC : Steady osC) (steadyS : Steady osS)
    {x : Client × Server} (bit : x.1.fileExists = 0 ∨ x.1.fileExists = 1) {command : Command}
    (names : ∀ name ∈ command.files osC osS x, Name name) (listed : command.Listed osC osS x) :
    Ends osC osS answers x command ↔ ∀ g ∈ command.granted osC osS answers x, Sizable (command.found osC osS x) g := by
  unfold Ends Command.granted
  cases command with
  | put filename =>
      have one := names filename List.mem_cons_self
      have present : x.1.host.fileExists filename = true := by
        rw [entry_exists one]
        exact (listed.2 filename List.mem_cons_self).1
      have ends := putEnds_iff answers opensC one (x.1.enter filename, x.2)
      simp only [present, forall_const]
      change _ ↔ ∀ g ∈ grantedFiles answers (fun file => some (contentOf x.2.host.dir file).isSome) x.1.asked
        x.1.overwrite [filename], Sizable x.1.host.dir g
      rw [forall_granted_one]
      exact ends
  | get filename =>
      have one := names filename List.mem_cons_self
      obtain ⟨content, there⟩ := Option.isSome_iff_exists.mp (listed.2 filename List.mem_cons_self).1
      have heard : (getHeard osC filename x).filename = filename :=
        argument_heard osC token_get (by decide) x.1.host one _ x.2
      have ends := getEnds_iff answers opensS one (x := ((x.1.enter filename).tick, getHeard osC filename x))
        (name_entered one x.1) there
      simp only [heard]
      change _ ↔ ∀ g ∈ grantedFiles answers (getAsks x) x.1.asked x.1.overwrite [filename], Sizable x.2.host.dir g
      rw [forall_granted_one]
      exact ends
  | mput extension => exact putLines_end opensC steadyC steadyS names listed.1 _
  | mget extension =>
      exact getFiles_end opensS steadyC steadyS names listed.1 _ bit fun file member => (listed.2 file member).2

/-- After any history, a file that is absent at the destination arrives there exactly where `overwrite` is
still 1 or the file is not the first one of the command, what is sent of it is its content, and no file
that the command grants has a size that stops it. -/
theorem arrives_iff (permissiveC : Permissive osC) (permissiveS : Permissive osS) (steadyC : Steady osC)
    (steadyS : Steady osS) {start x : Client × Server} (fresh : start.1.fileExists = 0) {history : List Command}
    (ran : Runs.run (step osC osS answers) start history = some x) {command : Command}
    (names : ∀ name ∈ command.files osC osS x, Name name) (listed : command.Listed osC osS x) {f content : Str}
    (offered : f ∈ command.files osC osS x) (held : contentOf (command.source x) f = some content)
    (nonempty : content ≠ []) (absent : contentOf (command.destination x) f = none) :
    (∃ x', step osC osS answers x command = some x' ∧
        contentOf (command.destination x') f = contentOf (command.source x) f) ↔
      (x.1.overwrite = 1 ∨ (command.files osC osS x).head? ≠ some f) ∧
        (contentOf (command.found osC osS x) f).map sent = contentOf (command.source x) f ∧
        ∀ g ∈ command.granted osC osS answers x, Sizable (command.found osC osS x) g := by
  have bit : x.1.fileExists = 0 ∨ x.1.fileExists = 1 := by
    refine Runs.run_invariant (P := fun x => x.1.fileExists = 0 ∨ x.1.fileExists = 1) ?_ (.inl fresh) ran
    rintro ⟨c, s⟩ command ⟨c', s'⟩ bit taken
    rw [step_eq_exchange] at taken
    exact exchange_flag bit taken
  rw [held, step_eq_exchange, ← ends_iff answers permissiveC.toOpens permissiveS.toOpens steadyC steadyS bit names listed,
    ← exchange_isSome steadyC steadyS]
  have arrives {x' : Client × Server} (done : exchange osC osS answers x.1 x.2 command = some x') :=
    exchange_arrives answers permissiveC permissiveS bit names listed offered nonempty absent done
  constructor
  · rintro ⟨x', done, arrived⟩
    obtain ⟨granted, whole⟩ := (arrives done).mp arrived
    exact ⟨granted, whole, Option.isSome_of_eq_some done⟩
  · rintro ⟨granted, whole, ends⟩
    obtain ⟨x', done⟩ := Option.isSome_iff_exists.mp ends
    exact ⟨x', done, (arrives done).mpr ⟨granted, whole⟩⟩

end Arrival
/-- The check of a directory's names, for a given directory. -/
def plainNames (dir : Dir) : Bool :=
  dir.keys.all fun name => name != [] && name.all (fun b => b != 0 && !isSpace b) && decide (Entry name) && decide (name.length ≤ 19)

theorem names_of_plain {dir : Dir} (plain : plainNames dir = true) (name : Str)
    (held : (contentOf dir name).isSome) : Name name := by
  rw [contentOf, Option.isSome_map, AList.lookup_isSome] at held
  have checked := List.all_eq_true.mp plain name held
  simp only [Bool.and_eq_true, bne_iff_ne, List.all_eq_true, decide_eq_true_eq, Bool.not_eq_true'] at checked
  exact ⟨⟨checked.1.1.1, checked.1.1.2⟩, checked.1.2, checked.2⟩

/-- Behind a declined "put", "mput" loses the first file it lists and transfers the second. -/
theorem arrives_iff_listed :
    let start := (Client.initial (dirOf [(['a'], ['x']), (['b', '.', 't'], ['y']), (['c', '.', 't'], ['z'])]),
      Server.initial (dirOf [(['a'], ['o', 'l', 'd'])]))
    ∃ x x', Runs.run (step superuser superuser fun _ => 2) start [.put (ascii ['a'])] = some x ∧
      step superuser superuser (fun _ => 2) x (.mput (ascii ['t'])) = some x' ∧
      contentOf x'.2.host.dir (ascii ['c', '.', 't']) = some (ascii ['z']) := by
  intro start
  let command := Command.mput (ascii ['t'])
  let f := ascii ['c', '.', 't']
  let state (x : Client × Server) : Bool :=
    plainNames x.1.host.dir && decide (command.Listed superuser superuser x) &&
      decide (f ∈ command.files superuser superuser x) && decide (contentOf x.1.host.dir f = some (ascii ['z'])) &&
      decide (contentOf x.2.host.dir f = none) && decide ((command.files superuser superuser x).head? ≠ some f) &&
      decide ((contentOf (command.found superuser superuser x) f).map sent = contentOf x.1.host.dir f) &&
      decide (∀ g ∈ command.granted superuser superuser (fun _ => 2) x, Sizable (command.found superuser superuser x) g)
  have evaluated : (Runs.run (step superuser superuser fun _ => 2) start [.put (ascii ['a'])]).any state = true := by
    decide
  obtain ⟨x, ran, facts⟩ := (Option.any_eq_true _ _).mp evaluated
  simp only [state, Bool.and_eq_true, decide_eq_true_eq] at facts
  obtain ⟨⟨⟨⟨⟨⟨⟨plain, listed⟩, offered⟩, held⟩, absent⟩, later⟩, same⟩, sizes⟩ := facts
  have names : ∀ name ∈ command.files superuser superuser x, Name name := fun name member =>
    names_of_plain plain name (listed.2 name member).1
  obtain ⟨x', taken, arrived⟩ := (arrives_iff (fun _ => 2) superuser_permissive superuser_permissive (fun _ => rfl)
    (fun _ => rfl) rfl ran names listed offered held (by decide) absent).mpr ⟨.inr later, same, sizes⟩
  exact ⟨x, x', ran, taken, arrived.trans held⟩

/-- The answer for `a` also decides for `b`, which is on one side only. -/
theorem declined_answer_persists :
    let start := (Client.initial (dirOf [(['a'], ['x']), (['b'], ['y'])]),
      Server.initial (dirOf [(['a'], ['o', 'l', 'd'])]))
    ∃ x x', Runs.run (step superuser superuser fun _ => 2) start [.put (ascii ['a'])] = some x ∧
      step superuser superuser (fun _ => 2) x (.put (ascii ['b'])) = some x' ∧
      contentOf x.1.host.dir (ascii ['b']) = some (ascii ['y']) ∧ contentOf x.2.host.dir (ascii ['b']) = none ∧
      contentOf x'.2.host.dir (ascii ['b']) ≠ some (ascii ['y']) := by
  intro start
  let lost (x : Client × Server) : Bool :=
    decide (contentOf x.1.host.dir (ascii ['b']) = some (ascii ['y']) ∧ contentOf x.2.host.dir (ascii ['b']) = none) &&
      (step superuser superuser (fun _ => 2) x (.put (ascii ['b']))).any fun x' =>
        decide (contentOf x'.2.host.dir (ascii ['b']) ≠ some (ascii ['y']))
  have evaluated : (Runs.run (step superuser superuser fun _ => 2) start [.put (ascii ['a'])]).any lost = true := by
    decide
  obtain ⟨x, ran, facts⟩ := (Option.any_eq_true _ _).mp evaluated
  simp only [lost, Bool.and_eq_true, decide_eq_true_eq, Option.any_eq_true] at facts
  obtain ⟨⟨held, absent⟩, x', taken, final⟩ := facts
  exact ⟨x, x', ran, taken, held, absent, final⟩

end NetworkOs.Ftp
