import Wakeup.Scenario.World

/-! What is shown of a world after each operation of a scenario. -/
namespace Wakeup.Scenario

structure HandlerView where
  name : Int
  count : Nat
  /-- Descriptors in ascending order, each with its interest. -/
  watched : List (Fd × Events)
  heartbeat : Option Interval
  busy : Bool

/-- The waits for a direction of a descriptor. -/
structure ArmView where
  fd : Fd
  direction : Direction
  outstanding : Nat
  /-- How many were ever armed. -/
  arms : Nat

structure Snapshot where
  handlers : List HandlerView
  /-- The directions that were ever armed, by descriptor and reading first. -/
  arms : List ArmView
  /-- The number of registrations of each descriptor that has some. -/
  live : List (Fd × Nat)
  /-- The descriptors of registrations that ended since a given one, in ascending order. -/
  released : List Fd
  /-- The deadlines of all timer waits, in ascending order. -/
  deadlines : List Nat
  timerArms : Nat
  parked : Nat

def HandlerView.of (name : Int) (h : Handler) (hub : Hub Manual) : HandlerView where
  name := name
  count := h.watcherCount
  watched := h.watched hub
  heartbeat := h.heartbeatInterval hub
  busy := h.isBusy hub

def ArmView.listOf (m : Manual) : List ArmView :=
  m.arms.toList.flatMap fun (fd, counts) =>
    (Direction.all.filter (counts.get · != 0)).map fun d =>
      ⟨fd, d, m.outstanding fd d, counts.get d⟩

/-- The state of a world, with the registrations that ended after the first `before`. -/
def World.snapshot (before : Nat) (w : World) : Snapshot :=
  let m := w.hub.reactor
  { handlers := w.handlers.toList.map fun (name, h) => HandlerView.of name h w.hub
    arms := ArmView.listOf m
    live := m.live.toList
    released := (m.released.drop before).mergeSort
    deadlines := (m.timed.map (·.deadline)).mergeSort
    timerArms := m.timerArms
    parked := m.parked.length }

end Wakeup.Scenario
