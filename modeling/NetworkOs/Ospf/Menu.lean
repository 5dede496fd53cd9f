import NetworkOs.Ospf.NullSafety

/-! The menu of `main`: what it reads in a round, what it does, and what it prints. The
prompts are left out. -/
namespace NetworkOs.Ospf
open Network

inductive Command where
  | create (routerId : Int) (incoming outgoing : List (Int × Int))
  | findPath (start finish : Int)
  | printTables
  | delete (del : Int)
  | exit
  | invalid
deriving DecidableEq, Repr

/-- What is printed. A routing table is its router's id and, for each destination, the line
of `printRoutingTable` if there is one; `std::map` orders the lines by destination. -/
inductive Message where
  | sameId
  | neighborNotFound
  | added (routerId : Int)
  | notFound (del : Int)
  | deleted (del : Int)
  | tables (blocks : List (Int × (Int → Option (Option Int))))
  | path (start finish : Int) (ids : List Int)
  | noPath (start finish : Int)
  | invalidChoice

/-- As many pairs of ids and weights; `none` waits for more input. -/
def readPairs : Nat → List Int → Option (List (Int × Int) × List Int)
  | 0, input => some ([], input)
  | n + 1, neighborId :: weight :: input => do
      let (lines, rest) ← readPairs n input
      return ((neighborId, weight) :: lines, rest)
  | _ + 1, _ => none

/-- The number of neighbours and then their lines. -/
def readLines : List Int → Option (List (Int × Int) × List Int)
  | [] => none
  | count :: input => readPairs count.toNat input

/-- A choice and what its option reads. The links of a router are read only when its id is
not `used`. -/
def readCommand (used : Int → Bool) : List Int → Option (Command × List Int)
  | [] => none
  | choice :: input =>
      if choice = 3 then some (.printTables, input)
      else if choice = 2 then
        match input with
        | start :: finish :: rest => some (.findPath start finish, rest)
        | _ => none
      else if choice = 1 then
        match input with
        | [] => none
        | routerId :: rest =>
            if used routerId then some (.create routerId [] [], rest)
            else do
              let (incoming, rest) ← readLines rest
              let (outgoing, rest) ← readLines rest
              return (.create routerId incoming outgoing, rest)
      else if choice = 5 then some (.exit, input)
      else if choice = 4 then
        match input with
        | [] => none
        | del :: rest => some (.delete del, rest)
      else some (.invalid, input)

/-- The program between two rounds, with the results of `new` and the pointers that went to
`delete`, the last first. -/
structure Session where
  net : Network
  input : List Int
  output : List Message
  allocated : List Ptr
  freed : List Ptr

inductive Outcome where
  | running (s : Session)
  | waiting
  | exited (s : Session)
  | crashed

namespace Network

def used (net : Network) (id : Int) : Bool := net.allRouterPtrs.any fun p => net.getRouterID p = id

/-- How many of these lines name no router. -/
def missing (net : Network) (lines : List (Int × Int)) : Nat := lines.countP fun line => net.getRouterByID line.1 = NULL

/-- The third option of the menu. -/
def printTables (net : Network) : List (Int × (Int → Option (Option Int))) :=
  net.allRouterPtrs.map fun p => (net.getRouterID p, net.printedLine p)

end Network

namespace Session
variable (wrap : Int → Int) (fuel : Nat) (new : Ptr)

def print (s : Session) (messages : List Message) : Outcome := .running { s with output := s.output ++ messages }

/-- The option of the menu, with `new` as the address that an allocation returns. -/
def perform (s : Session) : Command → Option Outcome
  | .create routerId incoming outgoing =>
      if s.net.used routerId then some (s.print [.sameId])
      else (s.net.createRouter wrap fuel new routerId incoming outgoing).map fun net =>
        { s with net := net, allocated := new :: s.allocated }.print
          (List.replicate (s.net.missing (incoming ++ outgoing)) Message.neighborNotFound ++ [Message.added routerId])
  | .findPath start finish =>
      (s.net.findPathOption fuel start finish).map fun found =>
        match found.1 with
        | .nullDereference => .crashed
        | .noPath => { s with net := found.2 }.print [.noPath start finish]
        | .path ids => { s with net := found.2 }.print [.path start finish ids]
  | .printTables => some (s.print [.tables s.net.printTables])
  | .delete del =>
      match s.net.allRouterPtrs.find? fun p => s.net.getRouterID p = del with
      | none => some (s.print [.notFound del])
      | some gone => (s.net.deleteRouter wrap fuel del).map fun net =>
          { s with net := net, freed := gone :: s.freed }.print [.deleted del]
  | .exit => some (.exited { s with freed := s.net.allRouterPtrs.reverse ++ s.freed })
  | .invalid => some (s.print [.invalidChoice])

def round (s : Session) : Option Outcome :=
  match readCommand s.net.used s.input with
  | none => some .waiting
  | some (command, rest) => perform wrap fuel new { s with input := rest } command

def start (heap : Ptr → Router) (input : List Int) : Session := ⟨⟨[], heap⟩, input, [], [], []⟩

/-- Rounds one after another, with an address for each. -/
def rounds : List Ptr → Session → Option Session
  | [], s => some s
  | new :: rest, s =>
      if new = NULL ∨ new ∈ s.net.allRouterPtrs then none
      else
        match s.round wrap fuel new with
        | some (.running t) => rounds rest t
        | _ => none

/-- The sessions that rounds lead to from the start on this input. -/
inductive Run (heap : Ptr → Router) (input : List Int) : Session → Prop where
  | start : Run heap input (start heap input)
  | next {s t : Session} {fuel : Nat} {new : Ptr} (before : Run heap input s) (notNull : new ≠ NULL)
      (fresh : new ∉ s.net.allRouterPtrs) (done : s.round wrap fuel new = some (.running t)) : Run heap input t

theorem Run.rounds {wrap : Int → Int} {fuel : Nat} {heap : Ptr → Router} {input : List Int} {s t : Session}
    (run : Run wrap heap input s) {addresses : List Ptr} (done : s.rounds wrap fuel addresses = some t) :
    Run wrap heap input t := by
  induction addresses generalizing s with
  | nil => exact Option.some.inj done ▸ run
  | cons new rest ih =>
      unfold Session.rounds at done
      split_ifs at done with bad
      obtain ⟨notNull, fresh⟩ := not_or.mp bad
      split at done
      · rename_i u round
        exact ih (run.next notNull fresh round) done
      · exact absurd done (by simp)

end Session
end NetworkOs.Ospf
