import NetworkOs.Ftp.Transfers

/-! The side from which "mput" and "mget" only read. Its listing is written to a file of a
fixed name, which is removed at the end. -/
namespace NetworkOs.Ftp

/-- The command line for this extension changes no file besides "temp.txt". -/
def WritesScratch (os : Os) (extension : Str) : Prop :=
  ∀ dir name, name ≠ tempTxt → (os.system (fileListingCommand extension) dir).lookup name = dir.lookup name

/-- Every file is there as it was. -/
def KeepsFiles (before after : Dir) : Prop :=
  ∀ name file, before.lookup name = some file → after.lookup name = some file

theorem unix_scratch (extension : Str) : WritesScratch unix extension := by
  intro dir name other
  change (listInto (extensionOf (fileListingCommand extension)) dir).lookup name = _
  exact AList.lookup_insert_ne other

section Frame
variable {osC osS : Os} {answers : Nat → BitVec 32} {c c' : Client} {s s' : Server}

theorem putAll_client {lines : List Str} (done : putAll osC osS answers lines c s = some (c', s')) :
    c'.host.dir = c.host.dir := by
  induction lines generalizing c s with
  | nil =>
      cases done
      rfl
  | cons line rest ih =>
      obtain ⟨⟨c₁, s₁⟩, first, later⟩ := Option.bind_eq_some_iff.mp done
      exact (ih later).trans (putFile_client first).1

theorem getAll_server {files : List Str} (done : getAll osC osS answers files c s = some (c', s')) :
    s'.host.dir = s.host.dir := by
  induction files generalizing c s with
  | nil =>
      cases done
      rfl
  | cons file rest ih =>
      obtain ⟨⟨c₁, s₁⟩, first, later⟩ := Option.bind_eq_some_iff.mp done
      obtain ⟨-, -, dir, -⟩ := getOne_inv first
      exact (ih later).trans dir

/-- A listing that is written and removed again keeps the other files, and takes away a
file of its own name. -/
theorem keeps_iff_of_scratch {os : Os} {extension : Str} (scratch : WritesScratch os extension) {h h' : Host}
    (between : h'.dir = (h.list os extension).dir) : KeepsFiles h.dir h'.removeTemp.dir ↔ tempTxt ∉ h.dir := by
  constructor
  · intro keeps present
    obtain ⟨file, held⟩ := Option.isSome_iff_exists.mp (AList.lookup_isSome.mpr present)
    have left := keeps tempTxt file held
    rw [Host.removeTemp, AList.lookup_erase] at left
    cases left
  · intro absent name file held
    have other : name ≠ tempTxt := by
      rintro rfl
      exact absent (AList.lookup_isSome.mp (Option.isSome_iff_exists.mpr ⟨file, held⟩))
    rw [Host.removeTemp, AList.lookup_erase_ne other, between]
    exact (scratch h.dir name other).trans held

theorem exchange_mput {extension : Str} (done : exchange osC osS answers c s (.mput extension) = some (c', s')) :
    ∃ h : Host, h.dir = (c.host.list osC extension).dir ∧ c'.host = h.removeTemp := by
  obtain ⟨⟨c₁, s₁⟩, all, same⟩ := Option.map_eq_some_iff.mp done
  cases same
  exact ⟨c₁.host, putAll_client (c := { c with host := c.host.list osC extension }) all, rfl⟩

theorem exchange_mget {extension : Str} (done : exchange osC osS answers c s (.mget extension) = some (c', s')) :
    ∃ h : Host, h.dir = (s.host.list osS (mgetListed osC osS extension c s).extension).dir ∧ s'.host = h.removeTemp := by
  obtain ⟨⟨c₁, s₁⟩, all, same⟩ := Option.map_eq_some_iff.mp done
  cases same
  exact ⟨s₁.host, getAll_server all, rfl⟩

end Frame

/-- "mput" keeps all files of the client, and "mget" all files of the server, exactly if none
of them is called "temp.txt". A command ends where it ends with each of its files. -/
theorem listing_keeps_files_iff {osC osS : Os} (answers : Nat → BitVec 32) (x : Client × Server) (extension : Str) :
    (WritesScratch osC extension → ∀ x', step osC osS answers x (.mput extension) = some x' →
      (KeepsFiles x.1.host.dir x'.1.host.dir ↔ tempTxt ∉ x.1.host.dir)) ∧
    (WritesScratch osS (mgetListed osC osS extension x.1 x.2).extension →
      ∀ x', step osC osS answers x (.mget extension) = some x' →
        (KeepsFiles x.2.host.dir x'.2.host.dir ↔ tempTxt ∉ x.2.host.dir)) ∧
    (Steady osC → Steady osS →
      ∀ command, Fits osC osS answers x command → ∃ x', step osC osS answers x command = some x') := by
  refine ⟨?_, ?_, fun steadyC steadyS command fits => exchange_some steadyC steadyS fits⟩
  · intro scratch x' done
    rw [step_eq_exchange] at done
    obtain ⟨h, between, host⟩ := exchange_mput done
    rw [host]
    exact keeps_iff_of_scratch scratch between
  · intro scratch x' done
    rw [step_eq_exchange] at done
    obtain ⟨h, between, host⟩ := exchange_mget done
    rw [host]
    exact keeps_iff_of_scratch scratch between

theorem listing_keeps_files_iff_one :
    let x := (Client.initial (dirOf [(['a', '.', 't'], ['x'])]), Server.initial (dirOf [(['b', '.', 't'], ['y'])]))
    (∃ x', step unix unix (fun _ => 1) x (.mput (ascii ['t'])) = some x' ∧ KeepsFiles x.1.host.dir x'.1.host.dir) ∧
      ∃ x', step unix unix (fun _ => 1) x (.mget (ascii ['t'])) = some x' ∧ KeepsFiles x.2.host.dir x'.2.host.dir := by
  intro x
  obtain ⟨mput, mget, ends⟩ := @listing_keeps_files_iff unix unix (fun _ => 1) x (ascii ['t'])
  have ends := ends (fun _ => rfl) (fun _ => rfl)
  obtain ⟨x₁, put⟩ := ends (.mput (ascii ['t'])) (by decide)
  obtain ⟨x₂, got⟩ := ends (.mget (ascii ['t'])) (by decide)
  refine ⟨⟨x₁, put, (mput (unix_scratch _) x₁ put).mpr ?_⟩, ⟨x₂, got, (mget (unix_scratch _) x₂ got).mpr ?_⟩⟩
  · decide
  · decide

/-- A file "temp.txt" of the client is gone behind an "mput" of another extension. -/
theorem scratch_file_lost :
    ¬ ∀ (osC osS : Os) (answers : Nat → BitVec 32) (x x' : Client × Server) (extension : Str),
      WritesScratch osC extension → step osC osS answers x (.mput extension) = some x' →
        KeepsFiles x.1.host.dir x'.1.host.dir := by
  intro claim
  let x := (Client.initial (dirOf [(['t', 'e', 'm', 'p', '.', 't', 'x', 't'], ['x'])]), Server.initial ∅)
  have evaluated : (step unix unix (fun _ => 1) x (.mput (ascii ['c']))).any
      (fun x' => decide (x'.1.host.dir.lookup tempTxt = none)) = true := by decide
  obtain ⟨x', done, lost⟩ := (Option.any_eq_true _ _).mp evaluated
  have keeps := claim unix unix _ x x' _ (unix_scratch _) done
  have there : x.1.host.dir.lookup tempTxt = some ⟨ascii ['x'], 0o644⟩ := by decide
  rw [keeps tempTxt _ there] at lost
  exact absurd lost (by decide)

end NetworkOs.Ftp
