import Wakeup.Reactor
import Wakeup.Table

/-! A reactor without a loop of its own: its waits are completed by hand, and its clock only moves
when it is told to. -/
namespace Wakeup

/-- An armed callback. Tickets are given out in the order of arming. -/
structure Wait where
  ticket : Nat
  callback : Callback
  deriving DecidableEq, Repr

/-- A wait for readiness. -/
structure ReadyWait where
  registration : Registration
  direction : Direction
  wait : Wait
  deriving DecidableEq, Repr

/-- A wait for a deadline. -/
structure TimedWait where
  timer : Nat
  deadline : Nat
  wait : Wait
  deriving DecidableEq, Repr

structure Manual where
  now : Nat := 0
  /-- The next name of a registration or timer. -/
  nextId : Nat := 0
  /-- The next ticket. -/
  tickets : Nat := 0
  /-- Waits for readiness in the order of arming. -/
  ready : List ReadyWait := []
  /-- Waits for deadlines in the order of arming. -/
  timed : List TimedWait := []
  /-- Cancelled waits whose callbacks have not been told so. -/
  parked : List Wait := []
  /-- How often each direction of each descriptor was armed. -/
  arms : Table (Sides Nat) := ∅
  /-- How often timers were armed. -/
  timerArms : Nat := 0
  /-- The number of registrations of each descriptor that has some. -/
  live : Table Nat := ∅
  /-- The descriptors of ended registrations, in order. -/
  released : List Fd := []
  /-- Descriptors whose next registration fails. -/
  refused : List Fd := []

namespace Manual

def advance (elapsed : Nat) (m : Manual) : Manual := { m with now := m.now + elapsed }

/-- Makes the next registration of a descriptor fail. -/
def refuse (fd : Fd) (m : Manual) : Manual := { m with refused := fd :: m.refused }

def register (fd : Fd) (m : Manual) : Except Error Registration × Manual :=
  if fd ∈ m.refused then
    (.error (.registration fd (.ofKind .permissionDenied)),
      { m with refused := m.refused.filter (· ≠ fd) })
  else
    (.ok ⟨m.nextId, fd⟩,
      { m with
        nextId := m.nextId + 1
        live := m.live.insert fd ((m.live.get? fd).getD 0 + 1) })

def armCount (m : Manual) (fd : Fd) (d : Direction) : Nat :=
  ((m.arms.get? fd).getD (.both 0)).get d

/-- The number of waits for a direction of a descriptor. -/
def outstanding (m : Manual) (fd : Fd) (d : Direction) : Nat :=
  m.ready.countP fun x => x.registration.fd == fd && x.direction == d

def arm (r : Registration) (d : Direction) (c : Callback) (m : Manual) : Manual :=
  { m with
    tickets := m.tickets + 1
    arms := m.arms.insert r.fd (((m.arms.get? r.fd).getD (.both 0)).modify d (· + 1))
    ready := m.ready ++ [⟨r, d, ⟨m.tickets, c⟩⟩] }

/-- The count of registrations without one of `fd`. -/
def forget (fd : Fd) (live : Table Nat) : Table Nat :=
  match live.get? fd with
  | none => live
  | some n => if n - 1 = 0 then live.erase fd else live.insert fd (n - 1)

/-- Ends a registration and parks its waits. -/
def release (r : Registration) (m : Manual) : Manual :=
  { m with
    parked := m.parked ++ (m.ready.filter (·.registration.id = r.id)).map (·.wait)
    ready := m.ready.filter (·.registration.id ≠ r.id)
    live := forget r.fd m.live
    released := m.released ++ [r.fd] }

def newTimer (m : Manual) : Nat × Manual := (m.nextId, { m with nextId := m.nextId + 1 })

/-- Parks the wait of a timer. -/
def cancel (t : Nat) (m : Manual) : Manual :=
  { m with
    parked := m.parked ++ (m.timed.filter (·.timer = t)).map (·.wait)
    timed := m.timed.filter (·.timer ≠ t) }

def schedule (t : Nat) (deadline : Nat) (c : Callback) (m : Manual) : Manual :=
  let m := m.cancel t
  { m with
    tickets := m.tickets + 1
    timerArms := m.timerArms + 1
    timed := m.timed ++ [⟨t, deadline, ⟨m.tickets, c⟩⟩] }

instance : Reactor Manual where
  now := Manual.now
  register := register
  arm := arm
  release := release
  newTimer := newTimer
  schedule := schedule
  cancel := cancel

/-- Removes the oldest wait for a direction of a descriptor. -/
def takeReady (fd : Fd) (d : Direction) (m : Manual) : Option (Wait × Manual) :=
  let mine (x : ReadyWait) : Bool := x.registration.fd == fd && x.direction == d
  (m.ready.find? mine).map fun x => (x.wait, { m with ready := m.ready.eraseP mine })

/-- The earliest deadline of all waits. -/
def earliest (m : Manual) : Option Nat := (m.timed.map (·.deadline)).min?

/-- Removes the wait that was armed first among those with a deadline. -/
def takeTimed (deadline : Nat) (m : Manual) : Option (Wait × Manual) :=
  (m.timed.find? (·.deadline == deadline)).map fun x =>
    (x.wait, { m with timed := m.timed.eraseP (·.deadline == deadline) })

/-- Removes the wait with the earliest deadline, which is answered too. -/
def takeEarliest (m : Manual) : Option (Nat × Wait × Manual) :=
  m.earliest.bind fun deadline => (m.takeTimed deadline).map fun (w, m) => (deadline, w, m)

/-- Removes the wait with the earliest deadline, if that is not later than now. -/
def takeDue (m : Manual) : Option (Wait × Manual) :=
  m.earliest.bind fun deadline => if deadline ≤ m.now then m.takeTimed deadline else none

/-- Removes all parked waits. -/
def takeParked (m : Manual) : List Wait × Manual := (m.parked, { m with parked := [] })

end Manual
end Wakeup
