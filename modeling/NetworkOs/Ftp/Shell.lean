import NetworkOs.Ftp.Programs

/-! An ordinary machine: the permission bits of the owner, a shell that writes listings
as `ls` does, memory that starts as zeros. -/
namespace NetworkOs.Ftp

/-- The pattern `*.extension`; a leading dot is not matched. -/
def matchesPattern (extension name : Str) : Bool :=
  name.head? != some 46 && (46 :: extension).isSuffixOf name

/-- The names a listing writes, in their order. -/
def listedNames (extension : Str) (dir : Dir) : List Str :=
  ((dir.entries.map fun entry => entry.1).filter (matchesPattern extension)).insertionSort (· ≤ ·)

/-- The directory behind `ls *.extension> temp.txt`; the redirection keeps the mode of a
file that is there. -/
def listInto (extension : Str) (dir : Dir) : Dir :=
  let mode := ((dir.lookup tempTxt).map fun file => file.mode).getD 0o644
  dir.insert tempTxt ⟨(listedNames extension dir).flatMap (· ++ [10]), mode⟩

/-- What stands between "ls *." and "> temp.txt" in a command line. -/
def extensionOf (line : Str) : Str := (line.drop 5).take (line.length - 15)

theorem extensionOf_command (extension : Str) : extensionOf (fileListingCommand extension) = extension := by
  have size : (fileListingCommand extension).length = extension.length + 15 := by
    simp only [fileListingCommand, tempTxt, ascii, List.length_append, List.length_map, List.length_cons,
      List.length_nil]
    omega
  have front : (ascii ['l', 's', ' ', '*', '.']).length = 5 := rfl
  rw [extensionOf, size, Nat.add_sub_cancel, fileListingCommand, List.append_assoc, List.append_assoc,
    List.drop_left' front, List.take_left]

def unix : Os where
  system line dir := listInto (extensionOf line) dir
  mayRead mode := mode.testBit 8
  mayWrite mode := mode.testBit 7
  mayList _ := true
  mayCreate _ := true
  stored bytes := some bytes.length
  memory _ _ := 0
  unsetIsConnection _ := false

/-- A process that every permission check lets through. -/
def superuser : Os := { unix with mayRead := fun _ => true, mayWrite := fun _ => true }

theorem lines_cons_line {name : Str} (unbroken : (10 : UInt8) ∉ name) (rest : Str) :
    lines (name ++ 10 :: rest) = name :: lines rest := by
  induction name with
  | nil => rfl
  | cons b more ih =>
      simp only [List.mem_cons, not_or] at unbroken
      rw [List.cons_append, lines, if_neg (Ne.symm unbroken.1), ih unbroken.2]

theorem lines_listing {names : List Str} (unbroken : ∀ name ∈ names, (10 : UInt8) ∉ name) :
    lines (names.flatMap (· ++ [10])) = names := by
  induction names with
  | nil => rfl
  | cons name rest ih =>
      rw [List.flatMap_cons, List.append_assoc]
      change lines (name ++ 10 :: rest.flatMap (· ++ [10])) = _
      rw [lines_cons_line (unbroken name (by simp)), ih fun other member => unbroken other (by simp [member])]

theorem nodup_listedNames (extension : Str) (dir : Dir) : (listedNames extension dir).Nodup := by
  rw [listedNames, (List.perm_insertionSort _ _).nodup_iff]
  exact dir.nodupKeys.filter _

/-- The client's `main` in front of its loop. -/
def Client.initial (dir : Dir) : Client where
  host := ⟨dir, 0, []⟩
  fileExists := 0
  overwrite := 1
  fileDescriptor := .unset
  filename := List.replicate 20 0
  numFiles := 0
  asked := 0
  reported := []

/-- The server's `main` in front of its loop. -/
def Server.initial (dir : Dir) : Server where
  host := ⟨dir, 0, []⟩
  buffer := List.replicate 100 0
  action := []
  filename := []
  extension := []
  filesize := 0
  fileDescriptor := .unset
  fileExists := 0
  overwrite := 1

/-- A directory of readable files. -/
def dirOf (files : List (List Char × List Char)) : Dir :=
  files.foldl (fun dir file => dir.insert (ascii file.1) ⟨ascii file.2, 0o644⟩) ∅

end NetworkOs.Ftp
