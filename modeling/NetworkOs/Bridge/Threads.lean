import NetworkOs.Library.Schedules
import Mathlib.Data.Fintype.Prod

/-! The bridge: travellers from the north and from the south, one thread each, and the
main thread that creates them and joins them. One mutex is held over a whole crossing. -/
namespace NetworkOs.Bridge
open Runs

inductive Side where
  | north
  | south
deriving DecidableEq, Repr

instance : Fintype Side := ⟨{.north, .south}, fun side => by cases side <;> decide⟩

/-- A traveller is named by the array of `main` and the index that keep its thread. -/
abbrev Traveller (threads : Nat) := Side × Fin threads

/-- Where a traveller's thread stands. Between `lock` and `unlock` it has printed no line,
the first one, or both. -/
inductive Place where
  | unborn
  | arriving
  | entering
  | travelling
  | leaving
  | gone
deriving DecidableEq, Repr

/-- The lines of the output. -/
inductive Line (threads : Nat) where
  | isTravelling (who : Traveller threads)
  | completedTravelling (who : Traveller threads)
  | creationUnsuccessful
deriving DecidableEq, Repr

/-- `bridge_lock`. -/
inductive Lock (threads : Nat) where
  | free
  | held (who : Traveller threads)
  | destroyed
deriving DecidableEq, Repr

/-- Where the main thread stands. A `create` for the south knows what the one for the
north has returned. -/
inductive MainAt (threads : Nat) where
  | createNorth (i : Nat)
  | createSouth (i : Fin threads) (temp1 : Bool)
  | complain
  | joinNorth (i : Nat)
  | joinSouth (i : Fin threads)
  | destroy
  | returning (status : Nat)
  | returned (status : Nat)
deriving DecidableEq, Repr

structure State (threads : Nat) where
  place : Traveller threads → Place
  bridgeLock : Lock threads
  output : List (Line threads)
  main : MainAt threads

/-- A step of the main thread, where a `pthread_create` succeeds or fails, or of a traveller. -/
inductive Move (threads : Nat) where
  | main
  | mainRefused
  | traveller (who : Traveller threads)
deriving DecidableEq, Repr

section Steps
variable {threads : Nat}

def start (threads : Nat) : State threads where
  place _ := .unborn
  bridgeLock := .free
  output := []
  main := .createNorth 0

def State.goTo (s : State threads) (who : Traveller threads) (place : Place) : State threads :=
  { s with place := Function.update s.place who place }

def State.print (s : State threads) (line : Line threads) : State threads :=
  { s with output := s.output ++ [line] }

/-- The body that `north_people` and `south_people` share. -/
def people (who : Traveller threads) (s : State threads) : Option (State threads) :=
  match s.place who with
  | .arriving => if s.bridgeLock = .free then some { s.goTo who .entering with bridgeLock := .held who } else none
  | .entering => some ((s.print (.isTravelling who)).goTo who .travelling)
  | .travelling => some ((s.print (.completedTravelling who)).goTo who .leaving)
  | .leaving => some { s.goTo who .gone with bridgeLock := .free }
  | .unborn | .gone => none

def northPeople (i : Fin threads) (s : State threads) : Option (State threads) := people (.north, i) s

def southPeople (i : Fin threads) (s : State threads) : Option (State threads) := people (.south, i) s

/-- `pthread_create`, with its success given. -/
def create (who : Traveller threads) (succeeds : Bool) (s : State threads) : State threads :=
  if succeeds then s.goTo who .arriving else s

/-- The main thread; `succeeds` is about the thread it creates next. A join waits for the
end of its thread. -/
def mainThread (succeeds : Bool) (s : State threads) : Option (State threads) :=
  match s.main with
  | .createNorth i =>
      if inside : i < threads then
        some { create (.north, ⟨i, inside⟩) succeeds s with main := .createSouth ⟨i, inside⟩ succeeds }
      else if succeeds then some { s with main := .joinNorth 0 } else none
  | .createSouth i temp1 =>
      some { create (.south, i) succeeds s with
        main := if temp1 && succeeds then .createNorth (i + 1) else .complain }
  | .complain => if succeeds then some { s.print .creationUnsuccessful with main := .returning 1 } else none
  | .joinNorth i =>
      if inside : i < threads then
        if succeeds ∧ s.place (.north, ⟨i, inside⟩) = .gone then some { s with main := .joinSouth ⟨i, inside⟩ }
        else none
      else if succeeds then some { s with main := .destroy } else none
  | .joinSouth i =>
      if succeeds ∧ s.place (.south, i) = .gone then some { s with main := .joinNorth (i + 1) } else none
  | .destroy => if succeeds then some { s with bridgeLock := .destroyed, main := .returning 0 } else none
  | .returning status => if succeeds then some { s with main := .returned status } else none
  | .returned _ => none

/-- A traveller takes a step, unless `main` has returned, which ends the process. -/
def travel (s : State threads) : Traveller threads → Option (State threads)
  | (side, i) =>
      match s.main, side with
      | .returned _, _ => none
      | _, .north => northPeople i s
      | _, .south => southPeople i s

def step (s : State threads) : Move threads → Option (State threads)
  | .main => mainThread true s
  | .mainRefused => mainThread false s
  | .traveller who => travel s who

end Steps
end NetworkOs.Bridge
