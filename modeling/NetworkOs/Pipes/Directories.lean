import NetworkOs.Library.Words
import NetworkOs.Text

/-! The merging of two directories by two children over two pipes, from the files that
the directories hold at the forks. Each child waits for what the other one has written,
so that their accesses to the files have one order only. -/
namespace NetworkOs.Pipes
open Words

def d1 : Str := ascii ['d', '1']
def d2 : Str := ascii ['d', '2']
def file1 : Str := ascii ['f', 'i', 'l', 'e', '1']
def file2 : Str := ascii ['f', 'i', 'l', 'e', '2']
def file3 : Str := ascii ['f', 'i', 'l', 'e', '3']
def file4 : Str := ascii ['f', 'i', 'l', 'e', '4']

def space : UInt8 := 32
def newline : UInt8 := 10

/-- `d + "/" + file`. -/
def pathOf (dir file : Str) : Str := dir ++ 47 :: file

/-- A name that an entry of a directory can have. -/
def Plain (name : Str) : Prop := name ≠ [] ∧ 0 ∉ name ∧ 47 ∉ name ∧ name ≠ [46] ∧ name ≠ [46, 46]

instance (name : Str) : Decidable (Plain name) := inferInstanceAs (Decidable (_ ∧ _))

/-- The system: which files can be opened, the file that a path leads to, and how much a
`read` asks for and a pipe can hold. -/
structure Os where
  canRead : Str → Bool
  canCreate : Str → Bool
  resolve : Str → Str
  bufsiz : Nat
  capacity : Nat
  bufsiz_pos : 0 < bufsiz
  capacity_pos : 0 < capacity
  resolve_entry : ∀ dir, dir = d1 ∨ dir = d2 → ∀ name, Plain name → resolve (pathOf dir name) = pathOf dir name

/-- The contents of the files. -/
abbrev Files := Str → Option Str

/-- What `ifstream` reads from the file, if it is good. -/
def Os.readFile (os : Os) (filename : Str) (fs : Files) : Option Str :=
  if os.canRead filename then fs (os.resolve filename) else none

/-- The loop over the files to send, or the message of the file that fails. -/
def encode (os : Os) (dir failed : Str) (files : List Str) (fs : Files) : Except Str Str :=
  files.foldlM (fun msg file =>
    match os.readFile (pathOf dir file) fs with
    | none => .error (failed ++ pathOf dir file)
    | some contents => .ok (msg ++ (file ++ space :: (contents ++ [newline])))) []

/-- The loop `while (iss >> file >> contents)`, with the message of the file that fails. -/
def decode (os : Os) (dir failed : Str) : List Str → Files → Files × Option Str
  | file :: contents :: rest, fs =>
      if os.canCreate (pathOf dir file) then
        decode os dir failed rest
          (Function.update fs (os.resolve (pathOf dir file)) (some (contents ++ [newline])))
      else (fs, some (failed ++ pathOf dir file))
  | _, fs => (fs, none)

/-- The bytes that `>>` skips. -/
def isspace (b : UInt8) : Bool := b == 32 || (9 ≤ b.toNat && b.toNat ≤ 13)

/-- The bytes that `write` gets, with the NUL. -/
def message (msg : Str) : Str := msg ++ [0]

/-- What one `read` finds in the pipe. -/
def Os.chunk (os : Os) (bytes : Str) : Str := bytes.take (min os.bufsiz os.capacity)

/-- `rmsg += buf` after a `read`: the bytes up to a NUL, and if none is read those beyond. -/
def Os.received (os : Os) (beyond bytes : Str) : Str :=
  if 0 < (os.chunk bytes).length then (os.chunk bytes ++ beyond).takeWhile (· ≠ 0) else []

/-- Whether a `write` ends of which the reader takes this much. -/
def Os.writeEnds (os : Os) (bytes : Str) (taken : Nat) : Prop := bytes.length ≤ os.capacity + taken

instance (os : Os) (bytes : Str) (taken : Nat) : Decidable (os.writeEnds bytes taken) := Nat.decLe _ _

/-- What child 1 writes to its pipe. -/
def child1Sends (os : Os) (fs : Files) : Except Str Str :=
  encode os d1 (ascii "Error: failed to read ".toList) [file1, file2] fs

/-- What child 1 does with the message of child 2. -/
def child1Receives (os : Os) (beyond bytes : Str) (fs : Files) : Files × Option Str :=
  decode os d1 (ascii "Error: failed to create ".toList) (words isspace (os.received beyond bytes)) fs

/-- Child 2 reads, decodes and encodes: the files, and what it writes to its pipe. -/
def child2 (os : Os) (beyond bytes : Str) (fs : Files) : Files × Str :=
  let decoded := decode os d2 (ascii "Error in create ".toList) (words isspace (os.received beyond bytes)) fs
  match decoded.2 with
  | some failure => (decoded.1, message failure)
  | none =>
      match encode os d2 (ascii "Error in read ".toList) [file3, file4] decoded.1 with
      | .error failure => (decoded.1, message failure)
      | .ok msg2 => (decoded.1, message msg2)

/-- The files after both children have finished, `none` if a child never does. `beyond1`
and `beyond2` are the bytes behind what the children have read. -/
def main (os : Os) (beyond1 beyond2 : Str) (fs : Files) : Option Files :=
  match child1Sends os fs with
  | .error failure =>
      let bytes1 := message failure
      let second := child2 os beyond2 bytes1 fs
      if os.writeEnds bytes1 (os.chunk bytes1).length ∧ os.writeEnds second.2 0 then some second.1 else none
  | .ok msg1 =>
      let bytes1 := message msg1
      let second := child2 os beyond2 bytes1 fs
      if os.writeEnds bytes1 (os.chunk bytes1).length ∧ os.writeEnds second.2 (os.chunk second.2).length then
        let first := child1Receives os beyond1 second.2 second.1
        match first.2 with
        | none => some first.1
        | some failure =>
            -- the message follows what nobody has read of the first one
            if os.writeEnds (bytes1.drop (os.chunk bytes1).length ++ message failure) 0 then some first.1 else none
      else none

end NetworkOs.Pipes
