import NetworkOs.Library.Duplex
import NetworkOs.Ftp.Host

/-! The FTP client and server as programs on the ends of a connection. Every `recv`
overwrites the start of its variable with the bytes that arrive, however many these
are. An exception that nothing catches ends the process. -/
namespace NetworkOs.Ftp
open Duplex Proc

/-- What the bytes of a message stand for. -/
inductive Tag where
  | command
  | existsFlag
  | overwriteFlag
  | size
  | content
  | status
  | fileCount
  | fileName
deriving DecidableEq, Repr

/-- `close(fileDescriptor)`. A number that was never set may be the connection's. -/
def closeFile (os : Os) (fileDescriptor : Descriptor) (h : Host) : Proc Tag Host :=
  if fileDescriptor = .unset ∧ os.unsetIsConnection h.clock then halt else return h.close fileDescriptor

/-- The variables of the client's `main`; `asked` counts the answers that were read, and
`reported` lists the files reported as transferred or not. -/
structure Client where
  host : Host
  fileExists : BitVec 32
  overwrite : BitVec 32
  fileDescriptor : Descriptor
  filename : Str
  numFiles : BitVec 32
  asked : Nat
  reported : List (Str × Bool)

/-- What the user enters at the menu. -/
inductive Command where
  | put (filename : Str)
  | get (filename : Str)
  | mput (extension : Str)
  | mget (extension : Str)
deriving DecidableEq, Repr

def putWord : Str := ascii ['p', 'u', 't']
def getWord : Str := ascii ['g', 'e', 't']
def mgetWord : Str := ascii ['m', 'g', 'e', 't']
def quitWord : Str := ascii ['q', 'u', 'i', 't']

/-- The text of a command: the word, a space, the argument. -/
def commandText (word argument : Str) : Str := word ++ 32 :: argument

section Client
variable (os : Os) (answers : Nat → BitVec 32)

namespace Client

/-- `cin >> *overwrite`. -/
def ask (c : Client) : Client := { c with overwrite := answers c.asked, asked := c.asked + 1 }

/-- The question behind the server's flag. -/
def askIfFlagged (c : Client) : Client := if c.fileExists = 0 then c else c.ask answers

/-- The question behind a file found on the client itself. -/
def askIfPresent (name : Str) (c : Client) : Client :=
  if c.host.fileExists name then { c with fileExists := 1 }.ask answers else c

@[simp] theorem askIfFlagged_host (c : Client) : (c.askIfFlagged answers).host = c.host := by
  unfold askIfFlagged
  split_ifs <;> rfl

@[simp] theorem askIfFlagged_fileDescriptor (c : Client) :
    (c.askIfFlagged answers).fileDescriptor = c.fileDescriptor := by
  unfold askIfFlagged
  split_ifs <;> rfl

@[simp] theorem askIfFlagged_fileExists (c : Client) : (c.askIfFlagged answers).fileExists = c.fileExists := by
  unfold askIfFlagged
  split_ifs <;> rfl

@[simp] theorem askIfPresent_host (name : Str) (c : Client) : (c.askIfPresent answers name).host = c.host := by
  unfold askIfPresent
  split_ifs <;> rfl

def tick (c : Client) : Client := { c with host := c.host.tick }

def openRead (name : Str) (c : Client) : Client := { c with fileDescriptor := c.host.openRead os name }

def report (filename : Str) (status : BitVec 32) (c : Client) : Client :=
  { c with reported := c.reported ++ [(filename, decide (status ≠ 0))] }

def closeDescriptor (c : Client) : Proc Tag Client := do
  let host ← closeFile os c.fileDescriptor c.host
  return { c with host := host, fileDescriptor := .closed }

end Client

/-- `send(sockfd, s.c_str(), 100, 0)`. -/
def sendCommand (s : Str) (c : Client) : Proc Tag Client := do
  sendBytes .command (c.host.padded os 100 s)
  return c.tick

/-- The content behind a granted transfer to the server. -/
def sendContent (filename : Str) (c : Client) : Proc Tag Client :=
  match c.host.fileSize filename with
  | none => halt
  | some size => do
      let filesize := BitVec.ofNat 32 size
      sendBytes .size (intBytes filesize)
      sendBytes .content (c.host.sendfile c.fileDescriptor filesize)
      let bytes ← recvBytes .status 4
      return c.report filename (recvInt (c.host.unsetInt os) bytes)

/-- `transferToServer`, where `fileDescriptor` is the variable of `main`. -/
def transferToServer (s filename : Str) (c : Client) : Proc Tag Client := do
  let c ← sendCommand os s c
  let bytes ← recvBytes .existsFlag 4
  let c := { c with fileExists := recvInt c.fileExists bytes }.askIfFlagged answers
  sendBytes .overwriteFlag (intBytes c.overwrite)
  if c.overwrite = 1 then sendContent os filename c else return c

/-- The content behind a granted transfer to the client. -/
def recvContent (fileDescriptor : Descriptor) (filesize : BitVec 32) (c : Client) : Proc Tag Client :=
  if filesize.toInt < 0 then halt
  else do
    let f := c.host.unsetBytes os filesize.toNat
    let c := c.tick
    let bytes ← recvBytes .content filesize.toNat
    let host ← closeFile os fileDescriptor (c.host.write os fileDescriptor (overlay f bytes)).2
    return { c with host := host }

/-- `getFromServer`, where `filename` is the buffer of `main`. -/
def getFromServer (c : Client) : Proc Tag Client := do
  let bytes ← recvBytes .size 4
  let filesize := recvInt (c.host.unsetInt os) bytes
  if filesize = 0 then return c
  else
    let name := cString c.filename
    let c := c.askIfPresent answers name
    sendBytes .overwriteFlag (intBytes c.overwrite)
    let opened := c.host.openForContent os c.fileExists c.overwrite name .unset
    let c := { c with host := opened.2 }
    if c.overwrite = 1 then recvContent os opened.1 filesize c
    else
      let host ← closeFile os opened.1 c.host
      return { c with host := host }

/-- `cin >> filename` into the buffer. -/
def Client.enter (filename : Str) (c : Client) : Client :=
  { c with filename := overlay c.filename (filename ++ [0]) }

def put (filename : Str) (c : Client) : Proc Tag Client := do
  let c := c.enter filename
  if c.host.fileExists filename then
    let c ← transferToServer os answers (commandText putWord filename) filename (c.openRead os filename)
    c.closeDescriptor os
  else return c

def get (filename : Str) (c : Client) : Proc Tag Client := do
  let c := c.enter filename
  let c ← sendCommand os (commandText getWord filename) c
  getFromServer os answers c

/-- The body of the loop through the listed lines. -/
def putLine (line : Str) (c : Client) : Proc Tag Client := do
  let c ← transferToServer os answers (commandText putWord line) line (c.openRead os line)
  let c ← c.closeDescriptor os
  return { c with overwrite := 1 }

def putLines : List Str → Client → Proc Tag Client
  | [], c => return c
  | line :: rest, c => do
      let c ← putLine os answers line c
      putLines rest c

def mput (extension : Str) (c : Client) : Proc Tag Client := do
  let c := { c with host := c.host.list os extension }
  let c ← putLines os answers (c.host.listed os) c
  return { c with host := c.host.removeTemp }

/-- What the client does behind the name of a file. -/
def getFile (bytes : Str) (c : Client) : Proc Tag Client := do
  let c := { c with filename := overlay c.filename bytes }
  let c ← getFromServer os answers c
  return { c with overwrite := 1, fileExists := 0, numFiles := c.numFiles - 1 }

/-- The loop that counts `num_files` down. -/
def getFiles : Nat → Client → Proc Tag Client
  | 0, c => return c
  | n + 1, c => do
      let bytes ← recvBytes .fileName 20
      let c ← getFile os answers bytes c
      getFiles n c

def mget (extension : Str) (c : Client) : Proc Tag Client := do
  let c ← sendCommand os (commandText mgetWord extension) c
  let bytes ← recvBytes .fileCount 4
  let c := { c with numFiles := recvInt c.numFiles bytes }
  getFiles os answers c.numFiles.toInt.toNat c

/-- One command of the menu. -/
def runCommand (c : Client) : Command → Proc Tag Client
  | .put filename => put os answers filename c
  | .get filename => get os answers filename c
  | .mput extension => mput os answers extension c
  | .mget extension => mget os answers extension c

/-- The client's loop over the commands that are entered. -/
def session : List Command → Client → Proc Tag Client
  | [], c => return c
  | command :: rest, c => do
      let c ← runCommand os answers c command
      session rest c

end Client

/-- The variables of the server's `main`. -/
structure Server where
  host : Host
  buffer : Str
  action : Str
  filename : Str
  extension : Str
  filesize : BitVec 32
  fileDescriptor : Descriptor
  fileExists : BitVec 32
  overwrite : BitVec 32

section Server
variable (os : Os)

namespace Server

/-- The bytes of a command arrive in the buffer, and its word is read; the result is
what the string stream still holds. -/
def hear (bytes : Str) (s : Server) : Str × Server :=
  let buffer := overlay s.buffer bytes
  let word := extract s.action (cString buffer)
  (word.2, { s with buffer := buffer, action := word.1 })

/-- `ss >> filename`. -/
def name (stream : Str) (s : Server) : Server := { s with filename := (extract s.filename stream).1 }

/-- The flag that "put" answers with. -/
def flag (s : Server) : Server := { s with fileExists := if s.host.fileExists s.filename then 1 else 0 }

/-- Open the file that content is received into. -/
def openForContent (overwrite : BitVec 32) (s : Server) : Server :=
  let opened := s.host.openForContent os s.fileExists overwrite s.filename s.fileDescriptor
  { s with overwrite := overwrite, fileDescriptor := opened.1, host := opened.2 }

def openRead (file : Str) (s : Server) : Server := { s with fileDescriptor := s.host.openRead os file }

def closeDescriptor (s : Server) : Proc Tag Server := do
  let host ← closeFile os s.fileDescriptor s.host
  return { s with host := host, fileDescriptor := .closed }

/-- The size sent to the client: 0 where the file could not be opened. -/
def announced (filename : Str) (s : Server) : Option Nat :=
  if s.fileDescriptor = .failed then some 0 else s.host.fileSize filename

end Server

def transferToClient (filename : Str) (s : Server) : Proc Tag Server :=
  match s.announced filename with
  | none => halt
  | some size => do
      let filesize := BitVec.ofNat 32 size
      sendBytes .size (intBytes filesize)
      if filesize = 0 then return s
      else
        let bytes ← recvBytes .overwriteFlag 4
        let s := { s with overwrite := recvInt s.overwrite bytes }
        if s.overwrite = 1 then
          sendBytes .content (s.host.sendfile s.fileDescriptor filesize)
          return s
        else return s

/-- The size and the content behind a granted "put". -/
def receiveFile (s : Server) : Proc Tag Server := do
  let bytes ← recvBytes .size 4
  let s := { s with filesize := recvInt s.filesize bytes }
  if s.filesize.toInt < 0 then halt
  else
    let f := s.host.unsetBytes os s.filesize.toNat
    let s := { s with host := s.host.tick }
    let bytes ← recvBytes .content s.filesize.toNat
    let written := s.host.write os s.fileDescriptor (overlay f bytes)
    sendBytes .status (intBytes (BitVec.ofInt 32 written.1))
    return { s with host := written.2 }

def receiveIfGranted (s : Server) : Proc Tag Server := if s.overwrite = 1 then receiveFile os s else return s

/-- The branch for "put". -/
def handlePut (stream : Str) (s : Server) : Proc Tag Server := do
  let s := (s.name stream).flag
  sendBytes .existsFlag (intBytes s.fileExists)
  let bytes ← recvBytes .overwriteFlag 4
  let s := s.openForContent os (recvInt s.overwrite bytes)
  let s ← receiveIfGranted os s
  s.closeDescriptor os

/-- The branch for "get". -/
def handleGet (stream : Str) (s : Server) : Proc Tag Server := do
  let s := s.name stream
  let s ← transferToClient s.filename (s.openRead os s.filename)
  s.closeDescriptor os

def sendFile (file : Str) (s : Server) : Proc Tag Server := do
  let s ← transferToClient file (s.openRead os file)
  s.closeDescriptor os

def sendFiles : List Str → Server → Proc Tag Server
  | [], s => return s
  | file :: rest, s => do
      sendBytes .fileName (s.host.padded os 20 file)
      let s ← sendFile os file { s with host := s.host.tick }
      sendFiles rest s

/-- The branch for "mget". -/
def handleMget (stream : Str) (s : Server) : Proc Tag Server := do
  let s := { s with extension := (extract s.extension stream).1 }
  let s := { s with host := s.host.list os s.extension }
  let files := s.host.listed os
  let numFiles := BitVec.ofNat 32 files.length
  sendBytes .fileCount (intBytes numFiles)
  let s ← sendFiles os (files.take numFiles.toInt.toNat) s
  return { s with host := s.host.removeTemp }

/-- One round of the server's loop, behind the `recv` of the command. -/
def handle (s : Server) (bytes : Str) : Proc Tag Server :=
  let (stream, s) := s.hear bytes
  if s.action = putWord then handlePut os stream s
  else if s.action = getWord then handleGet os stream s
  else if s.action = mgetWord then handleMget os stream s
  else if s.action = quitWord then do
    sendBytes .status (intBytes 1)
    halt
  else return s

def serverLoop : Loop Tag Server where
  tag := .command
  size := 100
  positive := by decide
  handle := handle os

end Server
end NetworkOs.Ftp
