import Wakeup.Completion
import Wakeup.Table

/-! Handlers: the watchers and the heartbeat of one connection, behind one strand. -/
namespace Wakeup

structure Handler where
  strand : Nat
  /-- Given up when the connection closes. -/
  heartbeat : Option Nat := none
  /-- The watchers by descriptor. -/
  watchers : Table Nat := ∅

namespace Handler
variable {ρ : Type} [Reactor ρ]

/-- Makes a handler. -/
def create (hub : Hub ρ) : Handler × Hub ρ :=
  let (s, hub) := hub.newStrand
  let (t, hub) := hub.newHeartbeat s
  (⟨s, some t, ∅⟩, hub)

/-- Registers, updates or removes the interest of an engine in a descriptor. A mask without any bit
removes it, and only a descriptor that is new is registered, which can fail. -/
def monitor (h : Handler) (e : Nat) (fd : Fd) (ev : Events) (hub : Hub ρ) :
    Except Error Handler × Hub ρ :=
  match h.watchers.get? fd with
  | none =>
    if ev.isEmpty then (.ok h, hub)
    else
      match hub.newWatcher h.strand fd with
      | (.error err, hub) => (.error err, hub)
      | (.ok w, hub) =>
        (.ok { h with watchers := h.watchers.insert fd w }, hub.setInterest w e ev)
  | some w =>
    if ev.isEmpty then
      (.ok { h with watchers := h.watchers.erase fd }, (hub.retire w).dropWatcher w)
    else (.ok h, hub.setInterest w e ev)

/-- Accepts a heartbeat interval in seconds. Zero disables heartbeats and changes nothing. -/
def negotiate (h : Handler) (e : Nat) (seconds : Nat) (hub : Hub ρ) :
    Nat × Handler × Hub ρ :=
  match Interval.ofSeconds? seconds with
  | none => (0, h, hub)
  | some interval =>
    match h.heartbeat with
    | some t => (seconds, h, hub.setHeartbeat t e interval)
    | none =>
      let (t, hub) := hub.newHeartbeat h.strand
      (seconds, { h with heartbeat := some t }, hub.setHeartbeat t e interval)

/-- Ends the heartbeat once the connection has ended. Watchers are left to the engine. -/
def close (h : Handler) (hub : Hub ρ) : Handler × Hub ρ :=
  match h.heartbeat with
  | none => (h, hub)
  | some t => ({ h with heartbeat := none }, (hub.stopHeartbeat t).dropHeartbeat t)

/-- Drops a handler with all it holds. -/
def drop (h : Handler) (hub : Hub ρ) : Hub ρ :=
  let hub := h.watchers.values.foldl (fun hub w => hub.dropWatcher w) hub
  let hub :=
    match h.heartbeat with
    | none => hub
    | some t => hub.dropHeartbeat t
  hub.dropStrand h.strand

def isWatching (h : Handler) (fd : Fd) : Bool := h.watchers.contains fd

/-- The interest in a descriptor that is watched. -/
def interest (h : Handler) (fd : Fd) (hub : Hub ρ) : Option Events :=
  (h.watchers.get? fd).bind fun w => hub.watchers[w]?.map Watcher.interest

/-- The watched descriptors in ascending order, each with its interest. -/
def watched (h : Handler) (hub : Hub ρ) : List (Fd × Events) :=
  h.watchers.toList.filterMap fun (fd, w) => hub.watchers[w]?.map fun x => (fd, x.interest)

def watcherCount (h : Handler) : Nat := h.watchers.size

/-- The interval at which heartbeats are running. -/
def heartbeatInterval (h : Handler) (hub : Hub ρ) : Option Interval :=
  h.heartbeat.bind fun t =>
    hub.heartbeats[t]?.bind fun x =>
      if x.schedule.deadline.isSome then x.schedule.interval else none

def isBusy (h : Handler) (hub : Hub ρ) : Bool := hub.strandBusy h.strand

/-- The text for diagnostics. Braces of the text are written as escapes. -/
def debug (h : Handler) (hub : Hub ρ) : String :=
  let heartbeat :=
    match h.heartbeatInterval hub with
    | none => "None"
    | some i => s!"Some({i.seconds}s)"
  s!"Handler \x7b watchers: {h.watcherCount}, heartbeat: {heartbeat}, .. \x7d"

end Handler
end Wakeup
