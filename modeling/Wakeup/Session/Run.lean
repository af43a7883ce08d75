import Wakeup.Session.Settle

/-! Running a session. Waits complete only when the session settles. -/
namespace Wakeup.Session

/-- What is shown of the handler: the number of watchers, the interest in each descriptor, and the
interval of running heartbeats. -/
structure View where
  count : Nat
  watched : List (Fd × Events)
  heartbeat : Option Interval

def view (s : Session) : Option View :=
  s.handler.map fun h => ⟨h.watcherCount, h.watched s.hub, h.heartbeatInterval s.hub⟩

def target (s : Session) : Target → Option Fd
  | .socket i => if i < s.hub.reactor.sockets.length then some (Socket.descriptor i) else none
  | .number fd => some fd

/-- Operates on a socket, if it exists. -/
def onSocket (i : Nat) (f : Socket → Reply × Socket) (s : Session) : Reply × Session :=
  match s.hub.reactor.sockets[i]? with
  | none => (.missing, s)
  | some x =>
    let (reply, x) := f x
    (reply, s.putSocket i x)

/-- Lets the peer of a socket act, if it is there, and says whether the local end hears of it. -/
def onPeer (i : Nat) (f : Socket → Reply × Bool × Socket) (s : Session) : Reply × Session :=
  match s.hub.reactor.sockets[i]? with
  | none => (.missing, s)
  | some x =>
    if x.hasPeer then
      let (reply, heard, x) := f x
      (reply, if heard then s.modifyReactor (Tasks.disturb i x) else s.putSocket i x)
    else (.missing, s)

def addSocket (x : Socket) (modes : Sides Mode) (s : Session) : Reply × Session :=
  (.number s.hub.reactor.sockets.length,
    { s.modifyReactor fun r => { r with sockets := r.sockets ++ [x] } with
      modes := s.modes ++ [modes] })

def register (id : Int) (target : Target) (s : Session) : Reply × Session :=
  match s.target target with
  | none => (.missing, s)
  | some fd =>
    match s.hub.reactor.register fd with
    | (.error err, r) => (.failed err, s.modifyReactor fun _ => r)
    | (.ok x, r) =>
      let r :=
        match s.registrations.get? id with
        | none => r
        | some old => r.release old
      (.done, { s.modifyReactor fun _ => r with registrations := s.registrations.insert id x })

def newTimer (id : Int) (s : Session) : Reply × Session :=
  let (t, r) := s.hub.reactor.newTimer
  let r :=
    match s.timers.get? id with
    | none => r
    | some old => r.cancel old
  (.done, { s.modifyReactor fun _ => r with timers := s.timers.insert id t })

def armTimer (id : Int) (deadline : Nat) (tag : Tag) (s : Session) : Reply × Session :=
  match s.timers.get? id with
  | none => (.missing, s)
  | some t => (.done, s.modifyReactor (Tasks.schedule t deadline (.bare tag)))

/-- Performs an operation that runs no callbacks. -/
def performQuiet (op : Op) (s : Session) : Reply × Session :=
  match op with
  | .pair modes => s.addSocket { kind := .pair } modes
  | .file => s.addSocket { kind := .file } ⟨.drain, .drop⟩
  | .setModes i read write =>
    if i < s.modes.length then
      (.done, { s with modes := s.modes.modify i fun m => ⟨read.getD m.read, write.getD m.write⟩ })
    else (.missing, s)
  | .flags i => s.onSocket i fun x => (.flag (x.nonblocking && !x.closed), x)
  | .setFlags i b =>
    s.onSocket i fun x => (.done, if x.closed then x else { x with nonblocking := b })
  | .peerWrite i n =>
    s.onPeer i fun x =>
      let (count, x) := x.peerWrite n
      (.number count, count != 0, x)
  | .peerRead i =>
    s.onPeer i fun x =>
      let (taken, x) := x.peerRead
      (.taken taken, taken.count != 0, x)
  | .peerClose i => s.onPeer i fun x => (.done, true, { x with peerClosed := true })
  | .peerShutdown i => s.onPeer i fun x => (.done, true, { x with peerShut := true })
  | .localRead i n =>
    s.onSocket i fun x =>
      let (taken, x) := x.read n
      (.taken taken, x)
  | .localWrite i n =>
    s.onSocket i fun x =>
      let (count, x) := x.write n
      (.number count, x)
  | .localFill i => s.onSocket i fun x => (.done, x.fill)
  | .localClose i =>
    s.onSocket i fun x => (if x.closed then .missing else .done, { x with closed := true })
  | .register id target => s.register id target
  | .arm id d tag =>
    match s.registrations.get? id with
    | none => (.missing, s)
    | some x => (.done, s.modifyReactor (Tasks.arm x d (.bare tag)))
  | .release id =>
    match s.registrations.get? id with
    | none => (.missing, s)
    | some x =>
      (.done,
        { s.modifyReactor (Tasks.release x) with registrations := s.registrations.erase id })
  | .newTimer id => s.newTimer id
  | .armTimer id delay tag => s.armTimer id (s.hub.reactor.now + delay) tag
  | .armTimerAt id deadline tag => s.armTimer id deadline tag
  | .cancelTimer id =>
    match s.timers.get? id with
    | none => (.missing, s)
    | some t => (.done, s.modifyReactor (Tasks.cancel t))
  | .dropTimer id =>
    match s.timers.get? id with
    | none => (.missing, s)
    | some t => (.done, { s.modifyReactor (Tasks.cancel t) with timers := s.timers.erase id })
  | .monitor target ev =>
    match s.engine, s.handler, s.target target with
    | some e, some _, some fd =>
      match s.monitor e fd ev with
      | (none, s) => (.done, s)
      | (some err, s) => (.failed err, s)
    | _, _, _ => (.missing, s)
  | .negotiate seconds =>
    match s.engine, s.handler with
    | some e, some _ => (.number seconds, s.negotiate e seconds)
    | _, _ => (.missing, s)
  | .close =>
    match s.engine, s.handler with
    | some _, some _ => (.done, s.close)
    | _, _ => (.missing, s)
  | .dropHandler =>
    match s.handler with
    | none => (.missing, s)
    | some _ => (.done, s.dropHandler)
  | .dropEngine =>
    match s.engine with
    | none => (.missing, s)
    | some e => (.done, { s with hub := s.hub.dropEngine e, engine := none })
  | .settle => (.done, s)
  | .advance elapsed => (.done, s.modifyReactor fun r => { r with now := r.now + elapsed })

/-- Performs an operation. Settling and advancing answer the time. -/
def perform (op : Op) (s : Session) : Reply × List Record × Session :=
  let (reply, s) := s.performQuiet op
  match op with
  | .settle | .advance _ =>
    let (records, s) := s.settle
    (.number s.hub.reactor.now, records, s)
  | _ => (reply, [], s)

/-- Performs operations and shows the handler after each. -/
def showEach : List Op → Session → List (Reply × List Record × Option View)
  | [], _ => []
  | op :: ops, s =>
    let (reply, records, s) := s.perform op
    (reply, records, s.view) :: showEach ops s

end Wakeup.Session
