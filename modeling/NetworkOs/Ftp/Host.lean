import NetworkOs.Text

/-! The machine each FTP process runs on: the regular files of its working directory, the
two directories that it names itself, its descriptors, and the bytes of its values. What the
operating system decides is a parameter. -/
namespace NetworkOs.Ftp

structure File where
  content : Str
  mode : Nat
deriving DecidableEq, Repr

/-- The regular files of a working directory, by name. -/
abbrev Dir := AList fun _ : Str => File

/-- The names `.` and `..`. -/
def isDirectory (name : Str) : Bool := name == [46] || name == [46, 46]

/-- The value of a descriptor variable. -/
inductive Descriptor where
  | unset
  | failed
  | opened (name : Str)
  | closed
deriving DecidableEq, Repr

/-- A system call that can change a file or ends the use of a descriptor. -/
inductive Call where
  | openWrite (name : Str) (result : Descriptor)
  | write (target : Descriptor) (bytes : Str) (result : Int)
  | close (target : Descriptor)
deriving DecidableEq, Repr

/-- The behaviour that is not the programs' own: the shell, the permission checks on
the bits of a mode and on the two directories, which names a file can be created under, how many bytes of a `write`
are stored (`none` when it fails), and what memory holds that has not been set, at each time: its bytes, and whether it gives a
descriptor variable the number of the connection. -/
structure Os where
  system : Str → Dir → Dir
  mayRead : Nat → Bool
  mayWrite : Nat → Bool
  mayList : Str → Bool
  mayCreate : Str → Bool
  stored : Str → Option Nat
  memory : Nat → Nat → UInt8
  unsetIsConnection : Nat → Bool

structure Host where
  dir : Dir
  clock : Nat
  trace : List Call

namespace Host

def record (call : Call) (h : Host) : Host := { h with trace := h.trace ++ [call] }

def tick (h : Host) : Host := { h with clock := h.clock + 1 }

/-- `filesystem::exists`. -/
def fileExists (name : Str) (h : Host) : Bool := (h.dir.lookup name).isSome || isDirectory name

/-- `filesystem::file_size`, which throws where the file is missing or a directory. -/
def fileSize (name : Str) (h : Host) : Option Nat := (h.dir.lookup name).map fun file => file.content.length

/-- `open` with `O_RDONLY`. -/
def openRead (os : Os) (name : Str) (h : Host) : Descriptor :=
  match h.dir.lookup name with
  | some file => if os.mayRead file.mode then .opened name else .failed
  | none => if isDirectory name && os.mayList name then .opened name else .failed

/-- Create a file; no file has the empty name or that of a directory. -/
def create (os : Os) (name : Str) (mode : Nat) (h : Host) : Descriptor × Host :=
  if name = [] ∨ isDirectory name = true ∨ os.mayCreate name = false then (.failed, h.record (.openWrite name .failed))
  else
    (.opened name, { h with dir := h.dir.insert name ⟨[], mode⟩ }.record (.openWrite name (.opened name)))

/-- `open` with `O_WRONLY | O_CREAT | O_TRUNC`. -/
def openTrunc (os : Os) (name : Str) (mode : Nat) (h : Host) : Descriptor × Host :=
  match h.dir.lookup name with
  | some file =>
      if os.mayWrite file.mode then
        (.opened name,
          { h with dir := h.dir.insert name { file with content := [] } }.record (.openWrite name (.opened name)))
      else (.failed, h.record (.openWrite name .failed))
  | none => h.create os name mode

/-- `open` with `O_CREAT | O_EXCL | O_WRONLY`. -/
def openExcl (os : Os) (name : Str) (mode : Nat) (h : Host) : Descriptor × Host :=
  match h.dir.lookup name with
  | some _ => (.failed, h.record (.openWrite name .failed))
  | none => h.create os name mode

/-- The two guarded calls of `open` before content is received. The mode of the first
one is decimal in the source. -/
def openForContent (os : Os) (fileExists overwrite : BitVec 32) (name : Str) (old : Descriptor) (h : Host) :
    Descriptor × Host :=
  if fileExists = 1 ∧ overwrite = 1 then h.openTrunc os name 644
  else if fileExists = 0 ∧ overwrite = 1 then h.openExcl os name 0o666
  else (old, h)

/-- `write` at the start of a file just opened: the bytes stored, or -1. -/
def write (os : Os) (target : Descriptor) (bytes : Str) (h : Host) : Int × Host :=
  let failed := (-1, h.record (.write target bytes (-1)))
  match target with
  | .opened name =>
      match h.dir.lookup name, os.stored bytes with
      | some file, some count =>
          let kept := bytes.take count
          let file := { file with content := kept ++ file.content.drop kept.length }
          (kept.length, { h with dir := h.dir.insert name file }.record (.write target bytes kept.length))
      | _, _ => failed
  | _ => failed

def close (target : Descriptor) (h : Host) : Host := h.record (.close target)

/-- `sendfile` from the start of a file just opened. -/
def sendfile (source : Descriptor) (count : BitVec 32) (h : Host) : Str :=
  match source with
  | .opened name =>
      match h.dir.lookup name with
      | some file => if count.toInt < 0 then [] else file.content.take count.toNat
      | none => []
  | _ => []

end Host

/-- The bytes of an `int`, the lowest first. -/
def intBytes (x : BitVec 32) : Str :=
  [UInt8.ofNat x.toNat, UInt8.ofNat (x.toNat / 256), UInt8.ofNat (x.toNat / 65536),
    UInt8.ofNat (x.toNat / 16777216)]

def natOfBytes : Str → Nat
  | [] => 0
  | b :: rest => b.toNat + 256 * natOfBytes rest

def intOfBytes (bytes : Str) : BitVec 32 := BitVec.ofNat 32 (natOfBytes bytes)

/-- The buffer after a `recv` that returned `bytes`. -/
def overlay (old bytes : Str) : Str := bytes ++ old.drop bytes.length

/-- An `int` variable after a `recv` into it. -/
def recvInt (old : BitVec 32) (bytes : Str) : BitVec 32 := intOfBytes (overlay (intBytes old) bytes)

/-- Memory that has not been set. -/
def Host.unsetBytes (os : Os) (size : Nat) (h : Host) : Str := (List.range size).map (os.memory h.clock)

def Host.unsetInt (os : Os) (h : Host) : BitVec 32 := intOfBytes (h.unsetBytes os 4)

/-- The `size` bytes at `c_str()`: the string, its terminator, and what follows it. -/
def Host.padded (os : Os) (size : Nat) (s : Str) (h : Host) : Str := (s ++ 0 :: h.unsetBytes os size).take size

/-- The C string at the start of a buffer. -/
def cString (buffer : Str) : Str := buffer.takeWhile (· ≠ 0)

def isSpace (b : UInt8) : Bool := b = 32 ∨ 9 ≤ b ∧ b ≤ 13

/-- `stream >> variable`: the next token and the rest; the variable keeps its value
where no token is left. -/
def extract (old stream : Str) : Str × Str :=
  match stream.dropWhile isSpace with
  | [] => (old, [])
  | b :: rest => ((b :: rest).takeWhile (!isSpace ·), (b :: rest).dropWhile (!isSpace ·))

/-- The results of `getline` until the end of the file. -/
def lines : Str → List Str
  | [] => []
  | b :: rest =>
      if b = 10 then [] :: lines rest
      else
        match lines rest with
        | [] => [[b]]
        | line :: more => (b :: line) :: more

def tempTxt : Str := ascii ['t', 'e', 'm', 'p', '.', 't', 'x', 't']

/-- The command line both programs give to the shell. -/
def fileListingCommand (extension : Str) : Str :=
  ascii ['l', 's', ' ', '*', '.'] ++ extension ++ ascii ['>', ' '] ++ tempTxt

namespace Host

/-- The listing goes into "temp.txt". -/
def list (os : Os) (extension : Str) (h : Host) : Host :=
  { h with dir := os.system (fileListingCommand extension) h.dir }

/-- The lines of "temp.txt", none when it cannot be opened. -/
def listed (os : Os) (h : Host) : List Str :=
  match h.dir.lookup tempTxt with
  | some file => if os.mayRead file.mode then lines file.content else []
  | none => []

/-- `remove("temp.txt")`. -/
def removeTemp (h : Host) : Host := { h with dir := h.dir.erase tempTxt }

end Host
end NetworkOs.Ftp
