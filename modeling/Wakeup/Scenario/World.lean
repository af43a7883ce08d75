import Wakeup.Handler
import Wakeup.Reactor.Manual
import Wakeup.Scenario.Op
import Wakeup.Scenario.Report

/-! The objects that a scenario names, and the operations that end at once. -/
namespace Wakeup.Scenario

/-- The part that a scenario gives an engine to play. -/
structure Actor where
  name : Int
  plain : Bool
  script : Script Op

structure World where
  hub : Hub Manual := { reactor := {} }
  /-- The part of each engine. -/
  actors : List Actor := []
  handlers : Table Handler := ∅
  engines : Table Nat := ∅
  strands : Table Nat := ∅
  watchers : Table Nat := ∅
  heartbeats : Table Nat := ∅
  registrations : Table Registration := ∅
  timers : Table Nat := ∅
  /-- Waits that were taken from the reactor and not run yet. -/
  slots : Table Wait := ∅
  /-- The strands of handlers in whose dispatches operations are being performed. -/
  dispatches : List Nat := []
  /-- Handlers that were replaced meanwhile. They last until the dispatches end. -/
  replaced : List Handler := []

namespace World

def setHub (hub : Hub Manual) (w : World) : World := { w with hub := hub }

@[simp] theorem hub_setHub (hub : Hub Manual) (w : World) : (w.setHub hub).hub = hub := rfl

@[simp] theorem actors_setHub (hub : Hub Manual) (w : World) :
    (w.setHub hub).actors = w.actors := rfl

def modifyReactor (f : Manual → Manual) (w : World) : World :=
  w.setHub { w.hub with reactor := f w.hub.reactor }

/-- Drops a handler that another takes the place of, once its dispatches have ended. -/
def replaceHandler (old : Handler) (w : World) : World :=
  if old.strand ∈ w.dispatches then { w with replaced := old :: w.replaced }
  else w.setHub (old.drop w.hub)

def newHandler (name : Int) (w : World) : World :=
  let (h, hub) := Handler.create w.hub
  let w' := { w.setHub hub with handlers := w.handlers.insert name h }
  match w.handlers.get? name with
  | none => w'
  | some old => w'.replaceHandler old

/-- Enters the strand of a handler for a dispatch. -/
def enterDispatch (s : Nat) (w : World) : World :=
  { w.setHub (w.hub.enterStrand s) with dispatches := s :: w.dispatches }

/-- Leaves the strand, and drops a handler that was replaced if this was its last dispatch. -/
def leaveDispatch (s : Nat) (w : World) : World :=
  let w := { w.setHub (w.hub.leaveStrand s) with dispatches := w.dispatches.erase s }
  if s ∈ w.dispatches then w
  else
    match w.replaced.find? (·.strand == s) with
    | none => w
    | some old =>
      { w.setHub (old.drop w.hub) with replaced := w.replaced.filter (·.strand ≠ s) }

def dropHandler (name : Int) (w : World) : World × Reply :=
  match w.handlers.get? name with
  | none => (w, .missing)
  | some h => ({ w with hub := h.drop w.hub, handlers := w.handlers.erase name }, .done)

def monitor (h e : Int) (fd : Fd) (ev : Events) (w : World) : World × Reply :=
  match w.engines.get? e, w.handlers.get? h with
  | some engine, some handler =>
    match handler.monitor engine fd ev w.hub with
    | (.error err, hub) => (w.setHub hub, .failed err)
    | (.ok handler, hub) =>
      ({ w with hub := hub, handlers := w.handlers.insert h handler }, .done)
  | _, _ => (w, .missing)

def negotiate (h e : Int) (seconds : Nat) (w : World) : World × Reply :=
  match w.engines.get? e, w.handlers.get? h with
  | some engine, some handler =>
    let (accepted, handler, hub) := handler.negotiate engine seconds w.hub
    ({ w with hub := hub, handlers := w.handlers.insert h handler }, .number accepted)
  | _, _ => (w, .missing)

def close (h e : Int) (w : World) : World × Reply :=
  match w.engines.get? e, w.handlers.get? h with
  | some _, some handler =>
    let (handler, hub) := handler.close w.hub
    ({ w with hub := hub, handlers := w.handlers.insert h handler }, .done)
  | _, _ => (w, .missing)

/-- Asks a handler that exists. -/
def ask (h : Int) (f : Handler → Reply) (w : World) : World × Reply :=
  match w.handlers.get? h with
  | none => (w, .missing)
  | some handler => (w, f handler)

def newEngine (name : Int) (script : Script Op) (plain : Bool) (w : World) : World :=
  let (e, hub) := w.hub.newEngine
  let hub :=
    match w.engines.get? name with
    | none => hub
    | some old => hub.dropEngine old
  { w with
    hub := hub
    actors := w.actors ++ [⟨name, plain, script⟩]
    engines := w.engines.insert name e }

def dropEngine (name : Int) (w : World) : World × Reply :=
  match w.engines.get? name with
  | none => (w, .missing)
  | some e => ({ w with hub := w.hub.dropEngine e, engines := w.engines.erase name }, .done)

def extendScript (name : Int) (script : Script Op) (w : World) : World × Reply :=
  match w.engines.get? name with
  | none => (w, .missing)
  | some e =>
    ({ w with actors := w.actors.modify e fun a => { a with script := a.script.append script } },
      .done)

def takeReady (fd : Fd) (d : Direction) (slot : Int) (w : World) : World × Reply :=
  match w.hub.reactor.takeReady fd d with
  | none => (w, .missing)
  | some (wait, m) =>
    ({ w.modifyReactor fun _ => m with slots := w.slots.insert slot wait }, .done)

def takeTimed (slot : Int) (w : World) : World × Reply :=
  match w.hub.reactor.takeEarliest with
  | none => (w, .missing)
  | some (deadline, wait, m) =>
    ({ w.modifyReactor fun _ => m with slots := w.slots.insert slot wait }, .number deadline)

def discard (slot : Int) (w : World) : World × Reply :=
  match w.slots.get? slot with
  | none => (w, .missing)
  | some _ => ({ w with slots := w.slots.erase slot }, .done)

/-- The record of a callback that only reports its outcome. -/
def bareRecords (c : Callback) (o : Outcome) : List Record :=
  match c with
  | .bare tag => [.bare tag o]
  | _ => []

/-- The first half of a completion, of which an engine's call is answered. -/
def begin (wait : Wait) (o : Outcome) (w : World) : World × Option Call :=
  let (hub, call) := w.hub.begin wait.callback o
  (w.setHub hub, call)

/-- Tells one parked wait that it was cancelled. No engine is called for it. -/
def deliverOne (wait : Wait) (w : World) : World :=
  (w.begin wait (.error .canceled)).1

/-- Tells all parked waits that they were cancelled. -/
def deliverCanceled (w : World) : World × Entry :=
  let (waits, m) := w.hub.reactor.takeParked
  (waits.foldl (fun w wait => w.deliverOne wait) (w.modifyReactor fun _ => m),
    .mk (.number waits.length)
      (waits.flatMap fun wait => bareRecords wait.callback (.error .canceled)))

def register (id h : Int) (fd : Fd) (w : World) : World × Reply :=
  match w.handlers.get? h with
  | none => (w, .missing)
  | some _ =>
    match w.hub.reactor.register fd with
    | (.error err, m) => (w.modifyReactor fun _ => m, .failed err)
    | (.ok r, m) =>
      let m :=
        match w.registrations.get? id with
        | none => m
        | some old => m.release old
      ({ w.modifyReactor fun _ => m with registrations := w.registrations.insert id r }, .done)

def armRegistration (id : Int) (d : Direction) (tag : Tag) (w : World) : World × Reply :=
  match w.registrations.get? id with
  | none => (w, .missing)
  | some r => (w.modifyReactor (Manual.arm r d (.bare tag)), .done)

def dropRegistration (id : Int) (w : World) : World × Reply :=
  match w.registrations.get? id with
  | none => (w, .missing)
  | some r =>
    ({ w.modifyReactor (Manual.release r) with registrations := w.registrations.erase id }, .done)

def newTimer (id : Int) (w : World) : World :=
  let (t, m) := w.hub.reactor.newTimer
  let m :=
    match w.timers.get? id with
    | none => m
    | some old => m.cancel old
  { w.modifyReactor fun _ => m with timers := w.timers.insert id t }

def armTimer (id : Int) (delay : Nat) (tag : Tag) (w : World) : World × Reply :=
  match w.timers.get? id with
  | none => (w, .missing)
  | some t =>
    let deadline := w.hub.reactor.now + delay
    (w.modifyReactor (Manual.schedule t deadline (.bare tag)), .number deadline)

def cancelTimer (id : Int) (w : World) : World × Reply :=
  match w.timers.get? id with
  | none => (w, .missing)
  | some t => (w.modifyReactor (Manual.cancel t), .done)

def dropTimer (id : Int) (w : World) : World × Reply :=
  match w.timers.get? id with
  | none => (w, .missing)
  | some t => ({ w.modifyReactor (Manual.cancel t) with timers := w.timers.erase id }, .done)

def newStrand (name : Int) (w : World) : World :=
  let (s, hub) := w.hub.newStrand
  let hub :=
    match w.strands.get? name with
    | none => hub
    | some old => hub.dropStrand old
  { w with hub := hub, strands := w.strands.insert name s }

def dropStrand (name : Int) (w : World) : World × Reply :=
  match w.strands.get? name with
  | none => (w, .missing)
  | some s => ({ w with hub := w.hub.dropStrand s, strands := w.strands.erase name }, .done)

def strandBusy (name : Int) (w : World) : World × Reply :=
  match w.strands.get? name with
  | none => (w, .missing)
  | some s => (w, .flag (w.hub.strandBusy s))

def newWatcher (name s : Int) (fd : Fd) (w : World) : World × Reply :=
  match w.strands.get? s with
  | none => (w, .missing)
  | some strand =>
    match w.hub.newWatcher strand fd with
    | (.error err, hub) => (w.setHub hub, .failed err)
    | (.ok x, hub) =>
      let hub :=
        match w.watchers.get? name with
        | none => hub
        | some old => hub.dropWatcher old
      ({ w with hub := hub, watchers := w.watchers.insert name x }, .done)

/-- The interest of a watcher, in words. -/
def interestText (hub : Hub Manual) (x : Nat) : Reply :=
  match hub.watchers[x]? with
  | none => .missing
  | some watcher => .text watcher.interest.text

def setWatcher (name e : Int) (ev : Events) (w : World) : World × Reply :=
  match w.engines.get? e, w.watchers.get? name with
  | some engine, some x =>
    let hub := w.hub.setInterest x engine ev
    (w.setHub hub, interestText hub x)
  | _, _ => (w, .missing)

def retireWatcher (name : Int) (w : World) : World × Reply :=
  match w.watchers.get? name with
  | none => (w, .missing)
  | some x =>
    let hub := w.hub.retire x
    (w.setHub hub, interestText hub x)

def viewWatcher (name : Int) (w : World) : World × Reply :=
  match w.watchers.get? name with
  | none => (w, .missing)
  | some x =>
    match w.hub.watchers[x]? with
    | none => (w, .missing)
    | some watcher => (w, .watcher watcher.fd watcher.interest)

def dropWatcher (name : Int) (w : World) : World × Reply :=
  match w.watchers.get? name with
  | none => (w, .missing)
  | some x => ({ w with hub := w.hub.dropWatcher x, watchers := w.watchers.erase name }, .done)

def newHeartbeat (name s : Int) (w : World) : World × Reply :=
  match w.strands.get? s with
  | none => (w, .missing)
  | some strand =>
    let (t, hub) := w.hub.newHeartbeat strand
    let hub :=
      match w.heartbeats.get? name with
      | none => hub
      | some old => hub.dropHeartbeat old
    ({ w with hub := hub, heartbeats := w.heartbeats.insert name t }, .done)

def scheduleReply (hub : Hub Manual) (t : Nat) : Reply :=
  match hub.heartbeats[t]? with
  | none => .missing
  | some x => .schedule x.schedule.interval x.schedule.deadline

def setHeartbeat (name e : Int) (seconds : Nat) (w : World) : World × Reply :=
  match w.engines.get? e, w.heartbeats.get? name, Interval.ofSeconds? seconds with
  | some engine, some t, some interval =>
    let hub := w.hub.setHeartbeat t engine interval
    (w.setHub hub, scheduleReply hub t)
  | _, _, _ => (w, .missing)

def stopHeartbeat (name : Int) (w : World) : World × Reply :=
  match w.heartbeats.get? name with
  | none => (w, .missing)
  | some t =>
    let hub := w.hub.stopHeartbeat t
    (w.setHub hub, scheduleReply hub t)

def viewHeartbeat (name : Int) (w : World) : World × Reply :=
  match w.heartbeats.get? name with
  | none => (w, .missing)
  | some t => (w, scheduleReply w.hub t)

def dropHeartbeat (name : Int) (w : World) : World × Reply :=
  match w.heartbeats.get? name with
  | none => (w, .missing)
  | some t =>
    ({ w with hub := w.hub.dropHeartbeat t, heartbeats := w.heartbeats.erase name }, .done)

/-- One handler, one engine and one strand of its own, all called 0. -/
def initial (script : Script Op) : World :=
  ((({} : World).newHandler 0).newEngine 0 script false).newStrand 0

end World
end Wakeup.Scenario
