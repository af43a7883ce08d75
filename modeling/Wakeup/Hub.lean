import Wakeup.Events
import Wakeup.Presence
import Wakeup.Reactor

/-! The objects that handlers share with the waits of a reactor. An object is named by its place in
the order of creation, and its name is not used again. -/
namespace Wakeup

/-- One direction of a watcher. -/
structure Side where
  /-- The engine wants to hear of it. -/
  wanted : Bool := false
  /-- A wait for it is outstanding. -/
  pending : Bool := false
  deriving DecidableEq, Repr

/-- The interest in one descriptor. -/
structure Watcher where
  registration : Registration
  strand : Nat
  sides : Sides Side := .both {}
  presence : Presence := {}
  deriving DecidableEq, Repr

namespace Watcher

def fd (w : Watcher) : Fd := w.registration.fd

def interest (w : Watcher) : Events :=
  Events.ofSides ⟨w.sides.read.wanted, w.sides.write.wanted⟩

end Watcher

/-- The time between two heartbeats. -/
structure Interval where
  seconds : Nat
  positive : 0 < seconds
  deriving DecidableEq, Repr

namespace Interval

/-- No heartbeats are kept at an interval of zero. -/
def ofSeconds? (n : Nat) : Option Interval :=
  if h : 0 < n then some ⟨n, h⟩ else none

/-- The milliseconds of an interval. -/
def length (i : Interval) : Nat := i.seconds * 1000

theorem length_pos (i : Interval) : 0 < i.length := Nat.mul_pos i.positive (by decide)

end Interval

/-- When a heartbeat is due. -/
structure Schedule where
  /-- None until the first time it is set. -/
  interval : Option Interval := none
  /-- The deadline of the outstanding wait. -/
  deadline : Option Nat := none
  /-- Counts how often the schedule was set or stopped. Waits of older generations are stale. -/
  generation : Nat := 0
  deriving DecidableEq, Repr

/-- By how much a schedule is late. -/
def Schedule.overdue (now : Nat) (s : Schedule) : Nat :=
  match s.deadline with
  | none => 0
  | some deadline => now + 1 - deadline

/-- A recurring timer. -/
structure Heartbeat where
  timer : Nat
  strand : Nat
  schedule : Schedule := {}
  presence : Presence := {}
  deriving DecidableEq, Repr

/-- A reactor and the objects that schedule on it. A strand is in use while something runs inside
it, all other objects while a completion of theirs runs. -/
structure Hub (ρ : Type) where
  reactor : ρ
  strands : List Presence := []
  engines : List Presence := []
  watchers : List Watcher := []
  heartbeats : List Heartbeat := []
  deriving DecidableEq, Repr

namespace Hub
variable {ρ : Type}

def strandAlive (hub : Hub ρ) (s : Nat) : Bool := hub.strands[s]?.any Presence.alive

/-- Whether something runs inside a strand. -/
def strandBusy (hub : Hub ρ) (s : Nat) : Bool := hub.strands[s]?.any Presence.inUse

def engineAlive (hub : Hub ρ) (e : Nat) : Bool := hub.engines[e]?.any Presence.alive

def newStrand (hub : Hub ρ) : Nat × Hub ρ :=
  (hub.strands.length, { hub with strands := hub.strands ++ [{}] })

def newEngine (hub : Hub ρ) : Nat × Hub ρ :=
  (hub.engines.length, { hub with engines := hub.engines ++ [{}] })

def modifyStrand (s : Nat) (f : Presence → Presence) (hub : Hub ρ) : Hub ρ :=
  { hub with strands := hub.strands.modify s f }

def modifyEngine (e : Nat) (f : Presence → Presence) (hub : Hub ρ) : Hub ρ :=
  { hub with engines := hub.engines.modify e f }

def modifyWatcher (w : Nat) (f : Watcher → Watcher) (hub : Hub ρ) : Hub ρ :=
  { hub with watchers := hub.watchers.modify w f }

def modifyHeartbeat (t : Nat) (f : Heartbeat → Heartbeat) (hub : Hub ρ) : Hub ρ :=
  { hub with heartbeats := hub.heartbeats.modify t f }

/-- Enters a strand. Nested entries run inline. -/
def enterStrand (s : Nat) (hub : Hub ρ) : Hub ρ := hub.modifyStrand s Presence.acquire

def leaveStrand (s : Nat) (hub : Hub ρ) : Hub ρ := hub.modifyStrand s Presence.release

def dropStrand (s : Nat) (hub : Hub ρ) : Hub ρ := hub.modifyStrand s Presence.disown

/-- Drops an engine. One whose callback is running lasts until that ends. -/
def dropEngine (e : Nat) (hub : Hub ρ) : Hub ρ := hub.modifyEngine e Presence.disown

end Hub
end Wakeup
