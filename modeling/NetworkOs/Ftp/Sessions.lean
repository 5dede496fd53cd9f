import NetworkOs.Ftp.Copies
import NetworkOs.Ftp.RoundTrips

/-! Whole sessions do to the two directories what `Copies` says, under every interleaving of
the two programs. -/
namespace NetworkOs.Ftp
open Duplex Proc

/-- The two machines as directories with copies. -/
def view (c : Client) (s : Server) : Copies :=
  ⟨contentOf c.host.dir, contentOf s.host.dir, c.overwrite, c.asked⟩

/-- A name that `ls` does not take for an option. -/
structure Plain (name : Str) : Prop extends Name name where
  dash : name.head? ≠ some 45

/-- An extension of letters and digits, which the shell takes as it is. -/
structure Literal (extension : Str) : Prop extends Name extension where
  letters : ∀ b ∈ extension, 48 ≤ b ∧ b ≤ 57 ∨ 65 ≤ b ∧ b ≤ 90 ∨ 97 ≤ b ∧ b ≤ 122

def Command.Ordinary : Command → Prop
  | .put name => Name name
  | .get name => Name name
  | .mput extension => Literal extension
  | .mget extension => Literal extension

/-- What the shell and `ls` document of the listing. -/
def ListsMatching (os : Os) : Prop := ∀ extension dir, Literal extension →
  (∀ name, (contentOf dir name).isSome → Plain name) →
    ∃ names mode, Copies.Listing extension (contentOf dir) names ∧
      os.system (fileListingCommand extension) dir = dir.insert tempTxt ⟨names.flatMap (· ++ [10]), mode⟩

/-- An operating system that lets the program do what it does, to descriptors that were set. -/
structure Usual (os : Os) : Prop extends Permissive os where
  steady : Steady os
  lists : ListsMatching os

section Files
variable {osC osS : Os} {answers : Nat → BitVec 32} {name : Str} {c c' : Client} {s s' : Server}

/-- The question of a "put" is the one of the copy. -/
theorem askIfFlagged_view (answers : Nat → BitVec 32) (present : Bool) (c : Client) (x : Copies)
    (overwrite : x.overwrite = c.overwrite) (asked : x.asked = c.asked) :
    let y := { c with fileExists := if present then 1 else 0 }.askIfFlagged answers
    (x.ask answers present).overwrite = y.overwrite ∧ (x.ask answers present).asked = y.asked := by
  unfold Client.askIfFlagged Copies.ask
  cases present with
  | false => exact ⟨overwrite, asked⟩
  | true => simp [Client.ask, asked]

theorem askIfPresent_view (answers : Nat → BitVec 32) (name : Str) (c : Client) (x : Copies)
    (overwrite : x.overwrite = c.overwrite) (asked : x.asked = c.asked) :
    let y := c.askIfPresent answers name
    (x.ask answers (c.host.fileExists name)).overwrite = y.overwrite ∧
      (x.ask answers (c.host.fileExists name)).asked = y.asked := by
  unfold Client.askIfPresent Copies.ask
  split_ifs
  · simp [Client.ask, asked]
  · exact ⟨overwrite, asked⟩

theorem putFile_answers (one : Name name) (done : putFile osC osS answers name c s = some (c', s')) :
    let y := (view c s).ask answers (s.host.fileExists name)
    c'.overwrite = y.overwrite ∧ c'.asked = y.asked := by
  obtain ⟨⟨c₁, s₁⟩, transferred, closing⟩ := Option.bind_eq_some_iff.mp done
  obtain ⟨c₂, client, same⟩ := Option.map_eq_some_iff.mp closing
  cases same
  obtain ⟨overwrite, asked⟩ := putTransfer_answers transferred
  have flag : ((s.hear (c.host.padded osC 100 (commandText putWord name))).2.name
      (s.hear (c.host.padded osC 100 (commandText putWord name))).1).flag.fileExists =
        if s.host.fileExists name then 1 else 0 := by
    have heard := argument_heard osC token_put (by decide) c.host one
      (s.hear (c.host.padded osC 100 (commandText putWord name))).2.filename s
    change (if s.host.fileExists (extract _ _).1 then (1 : BitVec 32) else 0) = _
    rw [heard]
  rw [flag] at overwrite asked
  obtain ⟨overwrite', asked'⟩ := askIfFlagged_view answers (s.host.fileExists name) (c.openRead osC name).tick
    (view c s) rfl rfl
  exact ⟨(Client.dir_closed client).2.2.trans (overwrite.trans overwrite'.symm),
    (Client.asked_closed client).trans (asked.trans asked'.symm)⟩

/-- A file of the client that is neither empty nor too long is put, or declined, as the copy is. -/
theorem putFile_view (answers : Nat → BitVec 32) (usualC : Usual osC) (usualS : Usual osS) (one : Name name)
    {content : Str} (held : contentOf c.host.dir name = some content) (filled : content ≠ [])
    (small : content.length < 2147483648) :
    ∃ c' s', putFile osC osS answers name c s = some (c', s') ∧ c'.host.dir = c.host.dir ∧
      (c'.fileExists = 0 ∨ c'.fileExists = 1) ∧ view c' s' = (view c s).put answers name := by
  obtain ⟨file, source, rfl⟩ := Option.map_eq_some_iff.mp held
  have some_ := List.length_pos_iff.mpr filled
  have sendable : Sendable osC c.host.dir name :=
    sendable_iff.mpr ⟨file, source, usualC.reads _, by rw [size_toInt small]; omega⟩
  obtain ⟨⟨c', s'⟩, done⟩ := Option.isSome_iff_exists.mp
    ((putFile_isSome answers usualC.steady usualS.steady (c, s) name).mpr fun _ => sendable)
  obtain ⟨overwrite, asked⟩ := putFile_answers one done
  obtain ⟨dir, bit⟩ := putFile_client done
  refine ⟨c', s', done, dir, bit, ?_⟩
  have whole : sent file.content = file.content := (sent_eq_self _).mpr (by omega)
  obtain ⟨c₁, s₁, transferred, -, -, rfl⟩ := putFile_inv done
  obtain ⟨flag, named, -, -, -, -, stored⟩ := putTransfer_inv transferred
  have heard := argument_heard osC token_put (by decide) c.host one
    (s.hear (c.host.padded osC 100 (commandText putWord name))).2.filename s
  rw [heard] at named stored
  have answered : c₁.overwrite = c'.overwrite := by
    obtain ⟨⟨c₂, s₂⟩, also, closing⟩ := Option.bind_eq_some_iff.mp done
    obtain ⟨c₃, client, same⟩ := Option.map_eq_some_iff.mp closing
    cases same
    obtain ⟨rfl, -⟩ := Prod.mk.inj (Option.some.inj (also.symm.trans transferred))
    exact (Client.dir_closed client).2.2.symm
  rw [answered, overwrite] at stored
  rw [Copies.put_some held]
  dsimp only
  rw [show ((view c s).server name).isSome = s.host.fileExists name from (entry_exists one s.host).symm]
  rcases stored with ⟨declined, unchanged⟩ | ⟨granted, size, sized, positive, changed⟩
  · rw [if_neg declined]
    refine Copies.ext ?_ ?_ overwrite asked
    · rw [Copies.ask_client]
      exact congrArg contentOf dir
    · rw [Copies.ask_server]
      exact congrArg contentOf unchanged
  · rw [if_pos granted]
    refine Copies.ext ?_ ?_ overwrite asked
    · change contentOf c'.host.dir = _
      rw [Copies.ask_client, dir]
      rfl
    · funext other
      by_cases same : other = name
      · subst same
        obtain rfl : file.content.length = size := by
          have sized : (c.host.dir.lookup other).map (fun file => file.content.length) = some size := sized
          rw [source] at sized
          exact Option.some.inj sized
        have readable : c.host.openRead osC other = .opened other := by
          simp [Host.openRead, source, usualC.reads]
        have bytes : c.host.sendfile (c.host.openRead osC other) (BitVec.ofNat 32 file.content.length) =
            file.content := by
          rw [readable, sendfile_opened source (by omega), ← sent, whole]
        have ready : s.host.Ready flag other := by
          rw [named]
          exact ready_flagged other s.host
        simp only [Function.update_self]
        change contentOf s'.host.dir other = _
        rw [changed]
        change contentOf (s.host.stored osS flag other s.fileDescriptor
          (c.host.sendfile (c.host.openRead osC other) (BitVec.ofNat 32 file.content.length))).dir other = _
        rw [bytes]
        exact (Host.stored_opened s.fileDescriptor usualS.toPermissive ready one.nonempty one.toEntry _).1
      · simp only [Function.update_of_ne same, Copies.ask_server]
        exact congrArg (Option.map fun file => file.content) (putFile_frame one done same)

/-- A missing file is announced like an empty one, and the others can be received. -/
theorem getEnds_of_small (answers : Nat → BitVec 32) (usualS : Usual osS) (one : Name name)
    (small : ∀ content, contentOf s.host.dir name = some content → content.length < 2147483648) :
    GetEnds osS answers (c, s) name := by
  cases held : contentOf s.host.dir name with
  | none =>
      have missing := Option.map_eq_none_iff.mp held
      have failed : (s.openRead osS name).fileDescriptor = .failed := by
        simp [Server.openRead, Host.openRead, missing, one.file]
      rw [GetEnds, Server.announced, if_pos failed]
      simp
  | some content =>
      rw [GetEnds, announced_held usualS.toOpens held, Option.any_some, decide_eq_true_eq, size_toInt (small _ held)]
      omega

theorem ofNat_eq_zero {size : Nat} (small : size < 2147483648) : BitVec.ofNat 32 size = 0 ↔ size = 0 := by
  rw [← BitVec.toNat_inj, BitVec.toNat_ofNat, Nat.mod_eq_of_lt (by omega)]
  rfl

/-- A file that is got, declined or missing leaves both sides as the copy does. -/
theorem getOne_view (answers : Nat → BitVec 32) (usualC : Usual osC) (usualS : Usual osS) (one : Name name)
    (named : cString c.filename = name) (bit : c.fileExists = 0 ∨ c.fileExists = 1)
    (small : ∀ content, contentOf s.host.dir name = some content → content.length < 2147483648) :
    ∃ c' s', getOne osC osS answers name c s = some (c', s') ∧ s'.host.dir = s.host.dir ∧
      (c'.fileExists = 0 ∨ c'.fileExists = 1) ∧ view c' s' = (view c s).get answers name := by
  obtain ⟨⟨c', s'⟩, done⟩ := Option.isSome_iff_exists.mp
    ((getOne_isSome answers usualC.steady usualS.steady (c, s) name).mpr
      (getEnds_of_small answers usualS one small))
  obtain ⟨dir, flag, frame⟩ := getOne_frame bit done
  refine ⟨c', s', done, dir, flag, ?_⟩
  obtain ⟨size, announced, answered⟩ := getOne_answers done
  obtain ⟨size', announced', -, result⟩ := getOne_inv done
  obtain rfl : size = size' := Option.some.inj (announced.symm.trans announced')
  rw [named] at answered result frame
  have unmoved : c' = c → view c' s' = view c s := fun same => by rw [view, view, same, dir]
  cases held : s.host.dir.lookup name with
  | none =>
      have missing : (s.openRead osS name).fileDescriptor = .failed := by
        simp [Server.openRead, Host.openRead, held, one.file]
      obtain rfl : 0 = size := Option.some.inj ((if_pos missing).symm.trans announced)
      rw [Copies.get_none (show (view c s).server name = none from congrArg (Option.map _) held)]
      rcases result with ⟨-, same⟩ | ⟨nonzero, -⟩
      · exact unmoved same
      · exact absurd rfl nonzero
  | some file =>
      have content : contentOf s.host.dir name = some file.content := congrArg (Option.map _) held
      have shorter := small _ content
      obtain rfl : file.content.length = size :=
        Option.some.inj ((announced_held usualS.toOpens content).symm.trans announced)
      by_cases empty : file.content = []
      · rw [Copies.get_empty (show (view c s).server name = some [] from empty ▸ content)]
        rcases result with ⟨-, same⟩ | ⟨nonzero, -⟩
        · exact unmoved same
        · exact absurd ((ofNat_eq_zero shorter).mpr (List.length_eq_zero_iff.mpr empty)) nonzero
      · have nonzero : BitVec.ofNat 32 file.content.length ≠ 0 := fun zero =>
          empty (List.length_eq_zero_iff.mp ((ofNat_eq_zero shorter).mp zero))
        obtain ⟨overwrite, asked⟩ := answered nonzero
        obtain ⟨overwrite', asked'⟩ := askIfPresent_view answers name c (view c s) rfl rfl
        obtain ⟨-, -, stored⟩ := result.resolve_left fun zero => nonzero zero.1
        rw [Copies.get_some (show (view c s).server name = some file.content from content) empty]
        dsimp only
        rw [show ((view c s).client name).isSome = c.host.fileExists name from (entry_exists one c.host).symm]
        rw [← overwrite'] at stored
        rcases stored with ⟨declined, unchanged⟩ | ⟨granted, positive, changed⟩
        · rw [if_neg declined]
          refine Copies.ext ?_ ?_ (overwrite.trans overwrite'.symm) (asked.trans asked'.symm)
          · rw [Copies.ask_client]
            exact congrArg contentOf unchanged
          · rw [Copies.ask_server]
            exact congrArg contentOf dir
        · rw [if_pos granted]
          refine Copies.ext ?_ ?_ (overwrite.trans overwrite'.symm) (asked.trans asked'.symm)
          · funext other
            by_cases same : other = name
            · subst same
              have readable : s.host.openRead osS other = .opened other := by
                simp [Host.openRead, held, usualS.reads]
              have whole : sent file.content = file.content := (sent_eq_self _).mpr (by omega)
              have bytes : s.host.sendfile (s.host.openRead osS other) (BitVec.ofNat 32 file.content.length) =
                  file.content := by
                rw [readable, sendfile_opened held positive, ← sent, whole]
              have ready : c.host.Ready (c.askIfPresent answers other).fileExists other := by
                unfold Client.askIfPresent
                split_ifs with present
                · exact .inl rfl
                · refine bit.symm.imp_right fun zero => ⟨zero, ?_⟩
                  simpa [one.toEntry.exists_eq] using present
              simp only [Function.update_self]
              change contentOf c'.host.dir other = _
              rw [changed, bytes]
              exact (Host.stored_opened .unset usualC.toPermissive ready one.nonempty one.toEntry _).1
            · simp only [Function.update_of_ne same, Copies.ask_client]
              exact congrArg (Option.map fun file => file.content) (frame other same)
          · change contentOf s'.host.dir = _
            rw [Copies.ask_server, dir]
            rfl

theorem putAll_view (answers : Nat → BitVec 32) (usualC : Usual osC) (usualS : Usual osS) {lines : List Str}
    (names : ∀ line ∈ lines, Name line)
    (held : ∀ line ∈ lines, ∃ content, contentOf c.host.dir line = some content ∧ content ≠ [] ∧
      content.length < 2147483648) (bit : c.fileExists = 0 ∨ c.fileExists = 1) :
    ∃ c' s', putAll osC osS answers lines c s = some (c', s') ∧ c'.host.dir = c.host.dir ∧
      (c'.fileExists = 0 ∨ c'.fileExists = 1) ∧ view c' s' = (view c s).putAll answers lines := by
  induction lines generalizing c s with
  | nil => exact ⟨c, s, rfl, rfl, bit, rfl⟩
  | cons line rest ih =>
      obtain ⟨content, there, filled, small⟩ := held line (by simp)
      obtain ⟨c₁, s₁, first, dir, flag, copied⟩ := putFile_view (s := s) answers usualC usualS
        (names line (by simp)) there filled small
      obtain ⟨c', s', later, dir', flag', copied'⟩ := ih (c := { c₁ with overwrite := 1 }) (s := s₁)
        (fun other member => names other (by simp [member]))
        (fun other member => by
          change ∃ content, contentOf c₁.host.dir other = _ ∧ _
          rw [dir]
          exact held other (by simp [member]))
        flag
      refine ⟨c', s', ?_, dir'.trans dir, flag', ?_⟩
      · rw [putAll, first]
        exact later
      · rw [copied', Copies.putAll, Copies.putAll, List.foldl_cons, ← copied]
        rfl

theorem getAll_view (answers : Nat → BitVec 32) (usualC : Usual osC) (usualS : Usual osS) {files : List Str}
    (names : ∀ file ∈ files, Name file) (bit : c.fileExists = 0 ∨ c.fileExists = 1)
    (small : ∀ file ∈ files, ∀ content, contentOf s.host.dir file = some content → content.length < 2147483648) :
    ∃ c' s', getAll osC osS answers files c s = some (c', s') ∧ s'.host.dir = s.host.dir ∧
      (c'.fileExists = 0 ∨ c'.fileExists = 1) ∧ view c' s' = (view c s).getAll answers files := by
  induction files generalizing c s with
  | nil => exact ⟨c, s, rfl, rfl, bit, rfl⟩
  | cons file rest ih =>
      have one := names file (by simp)
      obtain ⟨c₁, s₁, first, dir, flag, copied⟩ := getOne_view answers
        (c := { c with filename := overlay c.filename (s.host.padded osS 20 file) })
        (s := { s with host := s.host.tick }) usualC usualS one
        (name_received osS one s.host c.filename) bit (small file (by simp))
      obtain ⟨c', s', later, dir', flag', copied'⟩ := ih
        (c := { c₁ with overwrite := 1, fileExists := 0, numFiles := c₁.numFiles - 1 }) (s := s₁)
        (fun other member => names other (by simp [member])) (.inl rfl)
        (fun other member => by
          rw [dir]
          exact small other (by simp [member]))
      refine ⟨c', s', ?_, dir'.trans dir, flag', ?_⟩
      · rw [getAll, first]
        exact later
      · have same : view { c with filename := overlay c.filename (s.host.padded osS 20 file) }
            { s with host := s.host.tick } = view c s := rfl
        rw [same] at copied
        rw [copied', Copies.getAll, Copies.getAll, List.foldl_cons, ← copied]
        rfl

end Files

namespace Copies

/-- Plain names, sizes and a number of files that an `int` can hold, no file where the listings go, and
none on the client that is empty. -/
structure Ordinary (x : Copies) : Prop where
  names : ∀ name, (x.client name).isSome ∨ (x.server name).isSome → Plain name
  scratch : x.client tempTxt = none ∧ x.server tempTxt = none
  small : ∀ name content, x.client name = some content ∨ x.server name = some content → content.length < 2147483648
  filled : ∀ name, x.client name ≠ some []
  few : ∃ all : List Str, (∀ name, (x.client name).isSome ∨ (x.server name).isSome → name ∈ all) ∧
    all.length < 2147483648

theorem From.isSome {start x : Copies} (h : From start x) {name : Str}
    (held : (x.client name).isSome ∨ (x.server name).isSome) :
    (start.client name).isSome ∨ (start.server name).isSome := by
  rcases held with held | held
  · rcases h.client name with same | ⟨content, -, there, -⟩
    · exact .inl (same ▸ held)
    · exact .inr (there ▸ rfl)
  · rcases h.server name with same | ⟨content, -, there⟩
    · exact .inr (same ▸ held)
    · exact .inl (there ▸ rfl)

theorem From.content {start x : Copies} (h : From start x) {name content : Str}
    (held : x.client name = some content ∨ x.server name = some content) :
    start.client name = some content ∨ start.server name = some content := by
  rcases held with held | held
  · rcases h.client name with same | ⟨other, now, there, -⟩
    · exact .inl (same.symm.trans held)
    · exact .inr (there.trans (now.symm.trans held))
  · rcases h.server name with same | ⟨other, now, there⟩
    · exact .inr (same.symm.trans held)
    · exact .inl (there.trans (now.symm.trans held))

theorem Ordinary.from {start x : Copies} (ordinary : Ordinary start) (h : From start x) : Ordinary x := by
  refine ⟨fun name held => ordinary.names name (h.isSome held), ?_, fun name content held =>
    ordinary.small name content (h.content held), ?_, ?_⟩
  · by_contra some_
    have held : (x.client tempTxt).isSome ∨ (x.server tempTxt).isSome := by
      rw [Option.isSome_iff_ne_none, Option.isSome_iff_ne_none]
      exact not_and_or.mp some_
    have there := h.isSome held
    simp [ordinary.scratch.1, ordinary.scratch.2] at there
  · intro name empty
    rcases h.client name with same | ⟨content, now, -, filled⟩
    · exact ordinary.filled name (same.symm.trans empty)
    · exact filled (Option.some.inj (now.symm.trans empty))
  · obtain ⟨all, known, few⟩ := ordinary.few
    exact ⟨all, fun name held => known name (h.isSome held), few⟩

theorem Ordinary.length_le {x : Copies} (ordinary : Ordinary x) {names : List Str} (once : names.Nodup)
    (held : ∀ name ∈ names, (x.client name).isSome ∨ (x.server name).isSome) : names.length < 2147483648 := by
  obtain ⟨all, known, few⟩ := ordinary.few
  have fewer := (once.subperm fun name member => known name (held name member)).length_le
  omega

end Copies

section Commands
variable {osC osS : Os} {answers : Nat → BitVec 32} {c c' : Client} {s s' : Server}

/-- A listing: the names, and a file of their length. -/
theorem listed_eq {os : Os} (permissive : Permissive os) {h : Host} {names : List Str} {mode : Nat} {extension : Str}
    (plain : ∀ name ∈ names, Name name)
    (listing : os.system (fileListingCommand extension) h.dir =
      h.dir.insert tempTxt ⟨names.flatMap (· ++ [10]), mode⟩) :
    (h.list os extension).listed os = names := by
  have unbroken : ∀ name ∈ names, (10 : UInt8) ∉ name := fun name member broken =>
    absurd ((plain name member).plain 10 broken).2 (by decide)
  have found : (h.list os extension).dir.lookup tempTxt = some ⟨names.flatMap (· ++ [10]), mode⟩ := by
    rw [Host.list, listing, AList.lookup_insert]
  rw [Host.listed, found]
  simp only [permissive.reads, if_true]
  exact lines_listing unbroken

theorem contentOf_insert_ne {dir : Dir} {file : File} {name other : Str} (ne : other ≠ name) :
    contentOf (dir.insert name file) other = contentOf dir other := by
  rw [contentOf, AList.lookup_insert_ne ne]
  rfl

/-- The listing comes and goes. -/
theorem contentOf_erase_insert {dir : Dir} {file : File} (absent : contentOf dir tempTxt = none) :
    contentOf ((dir.insert tempTxt file).erase tempTxt) = contentOf dir := by
  funext other
  by_cases same : other = tempTxt
  · subst same
    rw [contentOf, AList.lookup_erase, absent]
    rfl
  · rw [contentOf, AList.lookup_erase_ne same]
    exact contentOf_insert_ne same

/-- What a listing gives on a side with ordinary files. -/
structure Listed (os : Os) (extension : Str) (h : Host) (names : List Str) : Prop where
  listing : Copies.Listing extension (contentOf h.dir) names
  read : (h.list os extension).listed os = names
  named : ∀ name ∈ names, Name name
  same : ∀ name ∈ names, contentOf (h.list os extension).dir name = contentOf h.dir name
  few : names.length < 2147483648
  removed : contentOf ((h.list os extension).dir.erase tempTxt) = contentOf h.dir

theorem exists_listed {os : Os} (usual : Usual os) {extension : Str}
    (literal : Literal extension) {h : Host} {x : Copies} (ordinary : x.Ordinary)
    (held : ∀ name, (contentOf h.dir name).isSome → (x.client name).isSome ∨ (x.server name).isSome)
    (absent : contentOf h.dir tempTxt = none) : ∃ names, Listed os extension h names := by
  obtain ⟨names, mode, listing, system⟩ := usual.lists extension h.dir literal fun name there =>
    ordinary.names name (held name there)
  have present : ∀ name ∈ names, (contentOf h.dir name).isSome := fun name member =>
    ((listing.mem_iff name).mp member).2
  have named : ∀ name ∈ names, Name name := fun name member =>
    (ordinary.names name (held name (present name member))).toName
  have few := ordinary.length_le listing.once fun name member => held name (present name member)
  have dir : (h.list os extension).dir = h.dir.insert tempTxt ⟨names.flatMap (· ++ [10]), mode⟩ := system
  refine ⟨names, listing, listed_eq usual.toPermissive named system, named, ?_, few, ?_⟩
  · intro name member
    rw [dir]
    refine contentOf_insert_ne fun same => ?_
    have there := present name member
    rw [same, absent] at there
    cases there
  · rw [dir]
    exact contentOf_erase_insert absent

theorem mput_view (answers : Nat → BitVec 32) (usualC : Usual osC) (usualS : Usual osS)
    (bit : c.fileExists = 0 ∨ c.fileExists = 1) (ordinary : (view c s).Ordinary)
    {extension : Str} {names : List Str} (listed : Listed osC extension c.host names) :
    ∃ c' s', exchange osC osS answers c s (.mput extension) = some (c', s') ∧
      (c'.fileExists = 0 ∨ c'.fileExists = 1) ∧ view c' s' = (view c s).putAll answers names := by
  have held : ∀ name ∈ names, ∃ content, contentOf (c.host.list osC extension).dir name = some content ∧
      content ≠ [] ∧ content.length < 2147483648 := by
    intro name member
    rw [listed.same name member]
    obtain ⟨content, there⟩ := Option.isSome_iff_exists.mp ((listed.listing.mem_iff name).mp member).2
    refine ⟨content, there, ?_, ordinary.small name content (.inl there)⟩
    rintro rfl
    exact ordinary.filled name there
  obtain ⟨c', s', done, dir, flag, copied⟩ := putAll_view (s := s) answers
    (c := { c with host := c.host.list osC extension }) usualC usualS listed.named held bit
  refine ⟨{ c' with host := c'.host.removeTemp }, s', ?_, flag, ?_⟩
  · simp only [exchange]
    rw [listed.read, done]
    rfl
  · have back : contentOf c'.host.removeTemp.dir = contentOf c.host.dir := by
      rw [Host.removeTemp, dir]
      exact listed.removed
    have moved := Copies.putAll_withClient answers (x := view { c with host := c.host.list osC extension } s)
      (contentOf c.host.dir) fun name member => (listed.same name member).symm
    rw [← copied] at moved
    rw [view, back]
    exact moved.symm

theorem mget_view (answers : Nat → BitVec 32) (usualC : Usual osC) (usualS : Usual osS)
    (bit : c.fileExists = 0 ∨ c.fileExists = 1) (ordinary : (view c s).Ordinary)
    {extension : Str} (one : Name extension) {names : List Str} (listed : Listed osS extension s.host names) :
    ∃ c' s', exchange osC osS answers c s (.mget extension) = some (c', s') ∧
      (c'.fileExists = 0 ∨ c'.fileExists = 1) ∧ view c' s' = (view c s).getAll answers names := by
  have heard := argument_heard osC token_mget (by decide) c.host one
    (s.hear (c.host.padded osC 100 (commandText mgetWord extension))).2.extension s
  obtain ⟨t, served⟩ : ∃ t, t = mgetListed osC osS extension c s := ⟨_, rfl⟩
  have host : t.host = s.host.list osS extension := by
    rw [served]
    change s.host.list osS (extract _ _).1 = _
    rw [heard]
  have counted : names.take (BitVec.ofNat 32 names.length).toInt.toNat = names := by
    have few := listed.few
    refine List.take_of_length_le ?_
    rw [BitVec.toInt_eq_toNat_cond, BitVec.toNat_ofNat]
    split_ifs
    all_goals omega
  obtain ⟨c', s', done, dir, flag, copied⟩ := getAll_view answers
    (c := { c.tick with numFiles := BitVec.ofNat 32 names.length }) (s := t) usualC usualS
    listed.named bit fun name member content there => by
      rw [host, listed.same name member] at there
      exact ordinary.small name content (.inr there)
  refine ⟨c', { s' with host := s'.host.removeTemp }, ?_, flag, ?_⟩
  · simp only [exchange]
    rw [← served, host, listed.read, counted, done]
    rfl
  · have back : contentOf s'.host.removeTemp.dir = contentOf s.host.dir := by
      rw [Host.removeTemp, dir, host]
      exact listed.removed
    have moved := Copies.getAll_withServer answers (x := view { c.tick with numFiles := BitVec.ofNat 32 names.length } t)
      (contentOf s.host.dir) fun name member => by
        change _ = contentOf t.host.dir name
        rw [host, listed.same name member]
    rw [← copied] at moved
    rw [view, back]
    exact moved.symm

/-- One command, from one rest to the next. -/
theorem exchange_view (answers : Nat → BitVec 32) (usualC : Usual osC) (usualS : Usual osS)
    (bit : c.fileExists = 0 ∨ c.fileExists = 1) (ordinary : (view c s).Ordinary)
    {command : Command} (plain : command.Ordinary) :
    ∃ c' s', exchange osC osS answers c s command = some (c', s') ∧ (c'.fileExists = 0 ∨ c'.fileExists = 1) ∧
      Copies.Does answers command (view c s) (view c' s') := by
  cases command with
  | put name =>
      have still : Copies.Does answers (.put name) (view c s) ((view c s).put answers name) := .put name (view c s)
      have present : (c.enter name).host.fileExists name = (contentOf c.host.dir name).isSome :=
        entry_exists plain c.host
      cases held : contentOf c.host.dir name with
      | none =>
          refine ⟨c.enter name, s, by simp [exchange, present, held], bit, ?_⟩
          rw [Copies.put_none (show (view c s).client name = none from held)] at still
          exact still
      | some content =>
          have filled : content ≠ [] := by
            rintro rfl
            exact ordinary.filled name held
          obtain ⟨c', s', done, -, flag, copied⟩ := putFile_view (s := s) answers (c := c.enter name) usualC usualS
            plain held filled (ordinary.small name content (.inl held))
          refine ⟨c', s', by simp [exchange, present, held, done], flag, ?_⟩
          rw [copied]
          exact still
  | get name =>
      have heard := argument_heard osC token_get (by decide) (c.enter name).host plain
        (s.hear ((c.enter name).host.padded osC 100 (commandText getWord name))).2.filename s
      obtain ⟨t, served⟩ : ∃ t, t = (s.hear ((c.enter name).host.padded osC 100 (commandText getWord name))).2.name
          (s.hear ((c.enter name).host.padded osC 100 (commandText getWord name))).1 := ⟨_, rfl⟩
      have filename : t.filename = name := served ▸ heard
      have host : t.host = s.host := served ▸ rfl
      obtain ⟨c', s', done, -, flag, copied⟩ := getOne_view answers (c := (c.enter name).tick) (s := t)
        usualC usualS plain (name_entered plain c) bit fun content held => by
          rw [host] at held
          exact ordinary.small name content (.inr held)
      refine ⟨c', s', ?_, flag, ?_⟩
      · simp only [exchange]
        rw [← served, filename]
        exact done
      · have same : view (c.enter name).tick t = view c s := by
          rw [view, view, host]
          rfl
        rw [copied, same]
        exact .get name (view c s)
  | mput extension =>
      obtain ⟨names, listed⟩ := exists_listed usualC plain ordinary (fun name held => .inl held)
        ordinary.scratch.1
      obtain ⟨c', s', done, flag, copied⟩ := mput_view answers usualC usualS bit ordinary listed
      refine ⟨c', s', done, flag, ?_⟩
      rw [copied]
      exact .mput listed.listing
  | mget extension =>
      obtain ⟨names, listed⟩ := exists_listed usualS plain ordinary (fun name held => .inr held)
        ordinary.scratch.2
      obtain ⟨c', s', done, flag, copied⟩ := mget_view answers usualC usualS bit ordinary
        plain.toName listed
      refine ⟨c', s', done, flag, ?_⟩
      rw [copied]
      exact .mget listed.listing

theorem run_view (answers : Nat → BitVec 32) (usualC : Usual osC) (usualS : Usual osS)
    (bit : c.fileExists = 0 ∨ c.fileExists = 1) (ordinary : (view c s).Ordinary)
    {commands : List Command} (plain : ∀ command ∈ commands, command.Ordinary) :
    ∃ c' s', Runs.run (step osC osS answers) (c, s) commands = some (c', s') ∧
      Copies.Session answers commands (view c s) (view c' s') := by
  induction commands generalizing c s with
  | nil => exact ⟨c, s, rfl, .done _⟩
  | cons command rest ih =>
      obtain ⟨c₁, s₁, done, flag, does⟩ := exchange_view answers usualC usualS bit
        ordinary (plain command (by simp))
      obtain ⟨c', s', run, later⟩ := ih flag (ordinary.from ((Copies.From.refl _).does does)) fun other member =>
        plain other (by simp [member])
      refine ⟨c', s', ?_, .next does later⟩
      rw [Runs.run, step_eq_exchange, done]
      exact run

end Commands

theorem superuser_usual : Usual superuser := by
  refine ⟨superuser_permissive, fun _ => rfl, fun extension dir literal plain => ?_⟩
  refine ⟨listedNames extension dir, _, ⟨nodup_listedNames extension dir, fun name => ?_⟩,
    congrArg (listInto · dir) (extensionOf_command extension)⟩
  rw [listedNames, List.mem_insertionSort, List.mem_filter, and_comm, contentOf, Option.isSome_map,
    AList.lookup_isSome]
  rfl

/-- The check of two directories. -/
def ordinaryDirs (client server : Dir) : Bool :=
  let keys := client.keys ++ server.keys
  plainNames client && plainNames server &&
    keys.all (fun name => name.head? != some 45 && name != tempTxt &&
      (contentOf client name).all (fun content => content != [] && decide (content.length < 2147483648)) &&
      (contentOf server name).all (fun content => decide (content.length < 2147483648))) &&
    decide (keys.length < 2147483648)

theorem ordinary_of_dirs {c : Client} {s : Server} (checked : ordinaryDirs c.host.dir s.host.dir = true) :
    (view c s).Ordinary := by
  simp only [ordinaryDirs, Bool.and_eq_true, decide_eq_true_eq, List.all_eq_true, bne_iff_ne,
    Option.all_eq_true] at checked
  obtain ⟨⟨⟨plainC, plainS⟩, each⟩, few⟩ := checked
  have known : ∀ name, (contentOf c.host.dir name).isSome ∨ (contentOf s.host.dir name).isSome →
      name ∈ c.host.dir.keys ++ s.host.dir.keys := by
    intro name held
    simp only [contentOf, Option.isSome_map, AList.lookup_isSome] at held
    exact List.mem_append.mpr held
  have checked : ∀ {name content},
      contentOf c.host.dir name = some content ∨ contentOf s.host.dir name = some content → _ :=
    fun held => each _ (known _ (held.imp Option.isSome_of_eq_some Option.isSome_of_eq_some))
  refine ⟨fun name held => ⟨?_, (each name (known name held)).1.1.1⟩, ⟨?_, ?_⟩, ?_, ?_, _, known, few⟩
  · exact held.elim (names_of_plain plainC name) (names_of_plain plainS name)
  · exact Option.eq_none_iff_forall_ne_some.mpr fun content held => (checked (.inl held)).1.1.2 rfl
  · exact Option.eq_none_iff_forall_ne_some.mpr fun content held => (checked (.inr held)).1.1.2 rfl
  · rintro name content (held | held)
    · exact ((checked (.inl held)).1.2 content held).2
    · exact (checked (.inr held)).2 content held
  · exact fun name held => ((checked (.inl held)).1.2 [] held).1 rfl

theorem literal_t : Literal (ascii ['t']) := ⟨⟨⟨by decide, by decide +kernel⟩, by decide, by decide⟩, by decide +kernel⟩

section Sessions
variable {osC osS : Os} {c : Client} {s : Server}

/-- No such session loses a file or makes up its content: behind it each file is one that some side had
under its name before it. A session of uploads leaves the client as it was, one of downloads the server. -/
theorem session_keeps_contents (answers : Nat → BitVec 32) (usualC : Usual osC) (usualS : Usual osS)
    (bit : c.fileExists = 0 ∨ c.fileExists = 1) (ordinary : (view c s).Ordinary) {commands : List Command}
    (plain : ∀ command ∈ commands, command.Ordinary) :
    ∃ c' s', InStep (serverLoop osS) (Config.start (session osC answers commands c) (pure s)) c' s' ∧
      (∀ name, contentOf c'.host.dir name = contentOf c.host.dir name ∨
        ∃ content, contentOf c'.host.dir name = some content ∧ contentOf s.host.dir name = some content) ∧
      (∀ name, contentOf s'.host.dir name = contentOf s.host.dir name ∨
        ∃ content, contentOf s'.host.dir name = some content ∧ contentOf c.host.dir name = some content) ∧
      ((∀ command ∈ commands, command.uploads = true) → contentOf c'.host.dir = contentOf c.host.dir) ∧
      ((∀ command ∈ commands, command.uploads = false) → contentOf s'.host.dir = contentOf s.host.dir) := by
  obtain ⟨c', s', run, copies⟩ := run_view answers usualC usualS bit ordinary plain
  have yields := session_yields osC osS answers commands (c, s)
  rw [run] at yields
  have origin := (Copies.From.refl (view c s)).session copies
  have client : ∀ name, contentOf c'.host.dir name = contentOf c.host.dir name ∨
      ∃ content, contentOf c'.host.dir name = some content ∧ contentOf s.host.dir name = some content :=
    fun name => (origin.client name).imp_right fun ⟨content, now, there, _⟩ => ⟨content, now, there⟩
  exact ⟨c', s', lock_adequate yields, client, origin.server, copies.client, copies.server⟩

/-- Downloads that the user declines where the client has the file. -/
theorem session_keeps_contents_each :
    let c := Client.initial (dirOf [(['a', '.', 't'], ['h', 'i']), (['b', '.', 't'], ['y'])])
    let s := Server.initial (dirOf [(['a', '.', 't'], ['o', 'l', 'd']), (['a'], ['x'])])
    ∃ c' s', InStep (serverLoop superuser)
      (Config.start (session superuser (fun _ => 2) [.mget (ascii ['t']), .get (ascii ['a'])] c) (pure s)) c' s' ∧
        contentOf s'.host.dir = contentOf s.host.dir := by
  intro c s
  have plain : ∀ command ∈ [Command.mget (ascii ['t']), .get (ascii ['a'])], command.Ordinary := by
    simp only [List.mem_cons, List.not_mem_nil, or_false, forall_eq_or_imp, forall_eq]
    exact ⟨literal_t, name_a⟩
  obtain ⟨c', s', together, -, -, -, server⟩ := session_keeps_contents (fun _ => 2) superuser_usual superuser_usual
    (c := c) (s := s) (.inl rfl) (ordinary_of_dirs (by decide +kernel)) plain
  refine ⟨c', s', together, server ?_⟩
  simp [Command.uploads]

end Sessions
end NetworkOs.Ftp
