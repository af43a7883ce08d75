import Wakeup.Events
import Wakeup.Reactor

/-! The operations of a scenario. Objects are named by numbers of the scenario's choice. -/
namespace Wakeup.Scenario

/-- What an engine does in its next callbacks: one list of operations for each. -/
structure Script (α : Type) where
  process : List (List α) := []
  beat : List (List α) := []
  error : List (List α) := []

def Script.append {α : Type} (s t : Script α) : Script α :=
  ⟨s.process ++ t.process, s.beat ++ t.beat, s.error ++ t.error⟩

inductive Op
  | newHandler (h : Int)
  | dropHandler (h : Int)
  | monitor (h e : Int) (fd : Fd) (events : Events)
  | negotiate (h e : Int) (seconds : Nat)
  | close (h e : Int)
  | query (h : Int) (fd : Fd)
  | debug (h : Int)
  | busy (h : Int)
  /-- Asks whether the strand is busy from inside it. -/
  | busyInside (h : Int)
  /-- Performs operations inside the strand. -/
  | dispatch (h : Int) (ops : List Op)
  /-- A plain engine is not told of failed waits. -/
  | newEngine (e : Int) (script : Script Op) (plain : Bool)
  | dropEngine (e : Int)
  | script (e : Int) (script : Script Op)
  | refuse (fd : Fd)
  | advance (elapsed : Nat)
  | complete (fd : Fd) (direction : Direction) (outcome : Outcome)
  | fireTimers
  | deliverCanceled
  | takeReady (fd : Fd) (direction : Direction) (slot : Int)
  | takeTimed (slot : Int)
  | invoke (slot : Int) (outcome : Outcome)
  | discard (slot : Int)
  | register (id h : Int) (fd : Fd)
  | armRegistration (id : Int) (direction : Direction) (tag : Tag)
  | dropRegistration (id : Int)
  | newTimer (id : Int)
  | armTimer (id : Int) (delay : Nat) (tag : Tag)
  | cancelTimer (id : Int)
  | dropTimer (id : Int)
  | newStrand (s : Int)
  | dropStrand (s : Int)
  | strandBusy (s : Int)
  | newWatcher (w s : Int) (fd : Fd)
  | setWatcher (w e : Int) (events : Events)
  | retireWatcher (w : Int)
  | viewWatcher (w : Int)
  | dropWatcher (w : Int)
  | newHeartbeat (t s : Int)
  | setHeartbeat (t e : Int) (seconds : Nat)
  | stopHeartbeat (t : Int)
  | viewHeartbeat (t : Int)
  | dropHeartbeat (t : Int)

end Wakeup.Scenario
