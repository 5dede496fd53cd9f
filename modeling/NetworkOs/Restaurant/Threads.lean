import NetworkOs.Library.Schedules
import NetworkOs.Library.Census

/-! The restaurant: diner threads and the main thread, which share a mutex and two
condition variables. A step is what a thread does from acquiring the mutex to
releasing it or waiting; a waiting thread runs again only when it was notified. -/
namespace NetworkOs.Restaurant
open Runs Census

/-- Where a diner stands between its steps: it wants the mutex, at the top of its loop
(`outside`) or after a wake-up, or it waits for a notification. -/
inductive DinerAt where
  | outside
  | waitFront
  | wokenFront
  | waitBack
  | wokenBack
deriving DecidableEq, Repr

/-- Where the main thread stands; `waitLast` is its second wait on `cv_back`. -/
inductive MainAt where
  | loopTop
  | waitFront
  | wokenFront
  | waitBack
  | wokenBack
  | waitLast
  | wokenLast
deriving DecidableEq, Repr

/-- What a step does to the doors, and who goes through them. -/
inductive Event where
  | openFront
  | closeFront
  | openBack
  | closeBack
  | enter
  | leave
deriving DecidableEq, Repr

/-- The shared variables, the threads, and the events so far. -/
structure State (d : Nat) where
  front : Bool
  back : Bool
  dinersInside : Nat
  dinersServed : Nat
  main : MainAt
  diners : Fin d → DinerAt
  log : List Event

inductive Thread (d : Nat) where
  | main
  | diner (id : Fin d)
deriving DecidableEq, Repr

def DinerAt.notifyFront : DinerAt → DinerAt
  | .waitFront => .wokenFront
  | other => other

def DinerAt.notifyBack : DinerAt → DinerAt
  | .waitBack => .wokenBack
  | other => other

def MainAt.notifyFront : MainAt → MainAt
  | .waitFront => .wokenFront
  | other => other

def MainAt.notifyBack : MainAt → MainAt
  | .waitBack => .wokenBack
  | .waitLast => .wokenLast
  | other => other

section Steps
variable {d : Nat} (N : Nat)

/-- The restaurant before any thread has run. -/
def start (d : Nat) : State d where
  front := false
  back := false
  dinersInside := 0
  dinersServed := 0
  main := .loopTop
  diners _ := .outside
  log := []

def note (e : Event) (s : State d) : State d := { s with log := s.log ++ [e] }

/-- `cv_front.notify_all()`. -/
def notifyFront (s : State d) : State d :=
  { s with main := s.main.notifyFront, diners := fun k => (s.diners k).notifyFront }

/-- `cv_back.notify_all()`. -/
def notifyBack (s : State d) : State d :=
  { s with main := s.main.notifyBack, diners := fun k => (s.diners k).notifyBack }

def goTo (id : Fin d) (place : DinerAt) (s : State d) : State d :=
  { s with diners := Function.update s.diners id place }

/-- The end of the diner's loop, from `diners_inside--` on. -/
def leave (id : Fin d) (s : State d) : State d :=
  let s := note .leave
    { s with dinersInside := s.dinersInside - 1, dinersServed := s.dinersServed + 1 }
  let s :=
    if s.dinersInside = 0 then
      { notifyBack (note .closeBack { s with back := false }) with dinersServed := 0 }
    else s
  goTo id .outside s

/-- A diner that has found the front door open. -/
def enter (id : Fin d) (s : State d) : State d :=
  let s := note .enter { s with dinersInside := s.dinersInside + 1 }
  if s.dinersInside = N then
    let s := notifyFront (note .closeFront { s with front := false })
    let s := notifyBack (note .openBack { s with back := true })
    leave id s
  else goTo id .waitBack s

/-- The test of `while (!front)`. -/
def tryEnter (id : Fin d) (s : State d) : State d :=
  if s.front then enter N id s else goTo id .waitFront s

def diner (id : Fin d) (s : State d) : Option (State d) :=
  match s.diners id with
  | .outside | .wokenFront => some (tryEnter N id s)
  | .wokenBack => some (leave id s)
  | .waitFront | .waitBack => none

/-- The main thread's loop from `if (diners_inside > 0)` on. -/
def awaitEmpty (s : State d) : State d :=
  if 0 < s.dinersInside then { s with main := .waitLast } else { s with main := .loopTop }

/-- The main thread's loop from `if (!back)` on. -/
def awaitService (s : State d) : State d :=
  if !s.back then { s with main := .waitBack } else awaitEmpty s

/-- The main thread's loop from `front = true` on. -/
def openDoor (s : State d) : State d :=
  let s := notifyFront (note .openFront { s with front := true })
  if s.dinersInside < N then { s with main := .waitFront } else awaitService s

def mainThread (s : State d) : Option (State d) :=
  match s.main with
  | .loopTop => some (openDoor N s)
  | .wokenFront => some (awaitService s)
  | .wokenBack => some (awaitEmpty s)
  | .wokenLast => some { s with main := .loopTop }
  | .waitFront | .waitBack | .waitLast => none

/-- The thread runs, unless it waits for a notification. -/
def step (s : State d) : Thread d → Option (State d)
  | .main => mainThread N s
  | .diner id => diner N id s

end Steps
end NetworkOs.Restaurant
