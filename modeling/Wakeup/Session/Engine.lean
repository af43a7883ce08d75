import Wakeup.Handler
import Wakeup.Reactor.Tasks
import Wakeup.Session.Op

/-! Sessions: one handler and one engine on a task reactor, and what the engine does when it is
called. -/
namespace Wakeup

structure Session where
  hub : Hub Tasks
  handler : Option Handler
  /-- The engine, until it is dropped. -/
  engine : Option Nat
  /-- What the engine does with each socket. -/
  modes : List (Sides Session.Mode) := []
  /-- Heartbeats so far. -/
  beats : Nat := 0
  /-- The heartbeat in which the engine closes the connection. -/
  closeOn : Option Nat := none
  /-- The heartbeat in which the engine negotiates an interval in seconds. -/
  renegotiateOn : Option (Nat × Nat) := none
  registrations : Table Registration := ∅
  timers : Table Nat := ∅

namespace Session

/-- Starts a session on a task reactor, with one handler and one engine. -/
def create (tasks : Tasks) (closeOn : Option Nat) (renegotiateOn : Option (Nat × Nat)) : Session :=
  let (handler, hub) := Handler.create { reactor := tasks }
  let (engine, hub) := hub.newEngine
  { hub := hub
    handler := some handler
    engine := some engine
    closeOn := closeOn
    renegotiateOn := renegotiateOn }

def modifyReactor (f : Tasks → Tasks) (s : Session) : Session :=
  { s with hub := { s.hub with reactor := f s.hub.reactor } }

/-- Replaces a socket by what an operation on it leaves. -/
def putSocket (i : Nat) (x : Socket) (s : Session) : Session :=
  s.modifyReactor fun r => r.modifySocket i fun _ => x

/-- Asks the handler for an interest. Without a handler nothing happens. -/
def monitor (e : Nat) (fd : Fd) (ev : Events) (s : Session) : Option Error × Session :=
  match s.handler with
  | none => (none, s)
  | some h =>
    match h.monitor e fd ev s.hub with
    | (.error err, hub) => (some err, { s with hub := hub })
    | (.ok h, hub) => (none, { s with hub := hub, handler := some h })

def interest (fd : Fd) (s : Session) : Events :=
  ((s.handler.bind fun h => h.interest fd s.hub).getD Events.none)

def negotiate (e seconds : Nat) (s : Session) : Session :=
  match s.handler with
  | none => s
  | some h =>
    let (_, h, hub) := h.negotiate e seconds s.hub
    { s with hub := hub, handler := some h }

def close (s : Session) : Session :=
  match s.handler with
  | none => s
  | some h =>
    let (h, hub) := h.close s.hub
    { s with hub := hub, handler := some h }

def dropHandler (s : Session) : Session :=
  match s.handler with
  | none => s
  | some h => { s with hub := h.drop s.hub, handler := none }

/-- Reads from a socket, and gives up reading at the end. -/
def readFrom (e : Nat) (fd : Fd) (read : Socket → Taken × Socket) (s : Session) :
    Option Taken × Option Error × Session :=
  match Socket.place? fd with
  | none => (none, none, s)
  | some i =>
    match s.hub.reactor.sockets[i]? with
    | none => (none, none, s)
    | some x =>
      let (taken, x) := read x
      let s := s.putSocket i x
      if taken.ended then
        let (err, s) := s.monitor e fd ((s.interest fd).without .read)
        (some taken, err, s)
      else (some taken, none, s)

/-- What the engine does when a direction of a descriptor is ready. -/
def act (e : Nat) (fd : Fd) (d : Direction) (s : Session) :
    Option Taken × Option Error × Session :=
  let mode : Option Mode := (Socket.place? fd).bind fun i => s.modes[i]?.map fun m => m.get d
  match mode with
  | none => (none, none, s)
  | some .drain => s.readFrom e fd Socket.drain
  | some .takeOne => s.readFrom e fd (Socket.read 1)
  | some .fill =>
    match Socket.place? fd with
    | none => (none, none, s)
    | some i => (none, none, s.modifyReactor fun r => r.modifySocket i Socket.fill)
  | some .unwatch => (none, s.monitor e fd Events.none)
  | some .drop => (none, s.monitor e fd ((s.interest fd).without d))
  | some .swap => (none, s.monitor e fd (Events.ofDirection d.opposite))
  | some .rewatch =>
    match s.monitor e fd Events.none with
    | (some err, s) => (none, some err, s)
    | (none, s) => (none, s.monitor e fd (Events.ofDirection d))
  | some .release => (none, none, s.dropHandler)

/-- The direction that a mask tells an engine of. -/
def directionOf (ev : Events) : Direction := if ev.wants .read then .read else .write

/-- What the engine does in a call. -/
def react (call : Call) (s : Session) : Record × Session :=
  match call.notice with
  | .process fd ev =>
    let (taken, err, s) := s.act call.engine fd (directionOf ev)
    (.process fd ev taken err, s)
  | .heartbeat =>
    let n := s.beats + 1
    let s := { s with beats := n }
    let s := if s.closeOn = some n then s.close else s
    let s :=
      match s.renegotiateOn with
      | some (m, seconds) => if m = n then s.negotiate call.engine seconds else s
      | none => s
    (.heartbeat n s.hub.reactor.now, s)
  | .waitError _ err => (.waitError err, s)

end Session
end Wakeup
