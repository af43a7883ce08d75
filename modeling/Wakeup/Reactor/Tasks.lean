import Wakeup.Options
import Wakeup.Reactor
import Wakeup.Socket

/-! A reactor that runs each wait as a task of its own. A wait holds a slot of its registration or
timer. One whose slot was given to another wait or cleared is cancelled, and finds out when its task
is polled. A task is polled once it is scheduled: when it starts, when it is cancelled, and when the
driver finds in its turn that the descriptor is ready or the deadline over. -/
namespace Wakeup

/-- A runtime that polls tasks. -/
structure Runtime where
  name : Nat
  deriving DecidableEq, Repr

/-- What a task waits for. -/
inductive Awaited
  | readiness (registration : Nat) (direction : Direction)
  | deadline (timer : Nat) (time : Nat)
  deriving DecidableEq, Repr

structure Task where
  id : Nat
  awaited : Awaited
  callback : Callback
  deriving DecidableEq, Repr

/-- A registration as the driver knows it. -/
structure Source where
  fd : Fd
  /-- The tasks whose waits hold the slots. -/
  slots : Sides (Option Nat) := .both none
  /-- Cached readiness. -/
  cache : Sides Bool := .both false
  released : Bool := false
  deriving DecidableEq, Repr

structure Tasks where
  runtime : Runtime
  options : Options := {}
  now : Nat := 0
  sockets : List Socket := []
  /-- Registrations by name, with those that were released. -/
  sources : List Source := []
  /-- The slots of timers by name. -/
  timers : List (Option Nat) := []
  /-- The name of the next task. -/
  spawned : Nat := 0
  /-- The tasks that have not completed, in the order of arming. -/
  tasks : List Task := []
  /-- The tasks that are scheduled, in the order in which they will be polled. -/
  queue : List Nat := []
  /-- The registrations with events that the driver has not looked at, in the order of the first. -/
  events : List Nat := []
  /-- The time of the driver's last turn. Deadlines until then are known to be over. -/
  turned : Nat := 0
  deriving Repr

namespace Socket

/-- The descriptor of a socket, by its place in the order of creation. -/
def descriptor (i : Nat) : Fd := i + 3

/-- The place of the socket with a descriptor. -/
def place? (fd : Fd) : Option Nat := if 3 ≤ fd then some (fd - 3).toNat else none

@[simp] theorem place?_descriptor (i : Nat) : place? (descriptor i) = some i := by
  have h : (3 : Int) ≤ i + 3 := by omega
  simp [place?, descriptor, h]

end Socket

namespace Tasks

/-- Makes a reactor on the runtime of the caller, which must be inside one. -/
def inContext (context : Option Runtime) (options : Options) : Except Error Tasks :=
  match context with
  | some runtime => .ok { runtime := runtime, options := options }
  | none =>
    .error (.config ("No tokio runtime in context: there is no reactor running, " ++
      "must be called from the context of a Tokio 1.x runtime"))

/-- The text for diagnostics. Braces of the text are written as escapes. -/
def debug (r : Tasks) : String := s!"TokioReactor \x7b options: {r.options.debug}, .. \x7d"

/-- The open socket with a descriptor. -/
def socket? (r : Tasks) (fd : Fd) : Option Socket :=
  (Socket.place? fd).bind fun i => r.sockets[i]?.filter (!·.closed)

def modifySocket (i : Nat) (f : Socket → Socket) (r : Tasks) : Tasks :=
  { r with sockets := r.sockets.modify i f }

/-- Switches a descriptor to non-blocking mode if the options ask for it. It stays so. -/
def setNonblocking (fd : Fd) (r : Tasks) : Except IoError Unit × Tasks :=
  if r.options.nonblocking then
    match r.socket? fd, Socket.place? fd with
    | some _, some i => (.ok (), r.modifySocket i ({ · with nonblocking := true }))
    | _, _ => (.error (.os Errno.badDescriptor), r)
  else (.ok (), r)

/-- Whether the driver can watch a descriptor: it must be open, no file, and not watched already. -/
def watchable (fd : Fd) (r : Tasks) : Except IoError Unit :=
  match r.socket? fd with
  | none => .error (.os Errno.badDescriptor)
  | some s =>
    if s.kind = .file then .error (.os Errno.notPermitted)
    else if r.sources.any fun x => x.fd == fd && !x.released then
      .error (.os Errno.fileExists)
    else .ok ()

def condition (r : Tasks) (fd : Fd) : Condition := ((r.socket? fd).map Socket.condition).getD {}

/-- Records an event of a registration. -/
def report (i : Nat) (r : Tasks) : Tasks :=
  if i ∈ r.events then r else { r with events := r.events ++ [i] }

/-- Registers a descriptor. One that is ready has an event at once. -/
def register (fd : Fd) (r : Tasks) : Except Error Registration × Tasks :=
  if fd < 0 then
    (.error (.registration fd (.custom .invalidInput "negative descriptor")), r)
  else
    match r.setNonblocking fd with
    | (.error e, r) => (.error (.registration fd e), r)
    | (.ok (), r) =>
      match r.watchable fd with
      | .error e => (.error (.registration fd e), r)
      | .ok () =>
        let i := r.sources.length
        let r := { r with sources := r.sources ++ [{ fd := fd }] }
        (.ok ⟨i, fd⟩, if Direction.all.any (r.condition fd).ready then r.report i else r)

/-- Replaces a socket by what its peer made of it, which is an event. -/
def disturb (i : Nat) (x : Socket) (r : Tasks) : Tasks :=
  let r := r.modifySocket i fun _ => x
  match r.sources.findIdx? fun s => s.fd == Socket.descriptor i && !s.released with
  | none => r
  | some source => r.report source

/-- Schedules a task that has not completed, unless it is scheduled already. -/
def wake (id : Nat) (r : Tasks) : Tasks :=
  if id ∈ r.queue ∨ r.tasks.all (·.id ≠ id) then r else { r with queue := r.queue ++ [id] }

/-- Schedules the task whose wait holds a slot, if one does. -/
def wakeHolder (slot : Option Nat) (r : Tasks) : Tasks :=
  match slot with
  | none => r
  | some id => r.wake id

/-- Starts a task. -/
def spawn (awaited : Awaited) (c : Callback) (r : Tasks) : Tasks :=
  { r with
    spawned := r.spawned + 1
    tasks := r.tasks ++ [⟨r.spawned, awaited, c⟩]
    queue := r.queue ++ [r.spawned] }

def modifySource (i : Nat) (f : Source → Source) (r : Tasks) : Tasks :=
  { r with sources := r.sources.modify i f }

/-- The task whose wait holds a slot of a registration. -/
def readyHolder (r : Tasks) (i : Nat) (d : Direction) : Option Nat :=
  r.sources[i]?.bind (·.slots.get d)

/-- The task whose wait holds the slot of a timer. -/
def timedHolder (r : Tasks) (t : Nat) : Option Nat := r.timers[t]?.join

/-- Gives the slot of the direction to a new wait, which cancels the one that held it. -/
def arm (x : Registration) (d : Direction) (c : Callback) (r : Tasks) : Tasks :=
  let r' := r.modifySource x.id fun s => { s with slots := s.slots.set d (some r.spawned) }
  (r'.wakeHolder (r.readyHolder x.id d)).spawn (.readiness x.id d) c

/-- Clears both slots and frees the descriptor at once. -/
def release (x : Registration) (r : Tasks) : Tasks :=
  let r' := r.modifySource x.id fun s => { s with slots := .both none, released := true }
  let r' := Direction.all.foldl (fun r' d => r'.wakeHolder (r.readyHolder x.id d)) r'
  { r' with events := r'.events.filter (· ≠ x.id) }

def newTimer (r : Tasks) : Nat × Tasks :=
  (r.timers.length, { r with timers := r.timers ++ [none] })

def cancel (t : Nat) (r : Tasks) : Tasks :=
  { r with timers := r.timers.modify t fun _ => none }.wakeHolder (r.timedHolder t)

/-- Gives the slot of the timer to a new wait. -/
def schedule (t : Nat) (deadline : Nat) (c : Callback) (r : Tasks) : Tasks :=
  let r' := { r with timers := r.timers.modify t fun _ => some r.spawned }
  (r'.wakeHolder (r.timedHolder t)).spawn (.deadline t deadline) c

instance : Reactor Tasks where
  now := Tasks.now
  register := register
  arm := arm
  release := release
  newTimer := newTimer
  schedule := schedule
  cancel := cancel

/-- The task whose wait holds the slot that a wait needs. -/
def holder (r : Tasks) : Awaited → Option Nat
  | .readiness i d => r.readyHolder i d
  | .deadline t _ => r.timedHolder t

/-- Polls a task. Cancellation is looked at first. -/
def poll (answers : Fd → Answers) (t : Task) (r : Tasks) : Option Outcome × Tasks :=
  if r.holder t.awaited = some t.id then
    match t.awaited with
    | .deadline _ time => (if time ≤ r.turned then some (.ok ()) else none, r)
    | .readiness i d =>
      match r.sources[i]? with
      | none => (some (.error .canceled), r)
      | some s =>
        if s.released then (some (.error .canceled), r)
        else
          let (outcome, cache) := (answers s.fd).poll d s.cache
          (outcome, r.modifySource i ({ · with cache := cache }))
  else (some (.error .canceled), r)

/-- Removes a task that completed. -/
def remove (id : Nat) (r : Tasks) : Tasks := { r with tasks := r.tasks.filter (·.id ≠ id) }

/-- Polls a task that has not completed, and removes it if it completes. Answers its callback and
how its wait completed. -/
def pollWith (answers : Fd → Answers) (id : Nat) (r : Tasks) :
    Option (Callback × Outcome) × Tasks :=
  match r.tasks.find? (·.id == id) with
  | none => (none, r)
  | some t =>
    match r.poll answers t with
    | (none, r) => (none, r)
    | (some outcome, r) => (some (t.callback, outcome), r.remove id)

/-- Polls a task while the driver runs and no event arrives. -/
def pollTask (id : Nat) (r : Tasks) : Option (Callback × Outcome) × Tasks :=
  r.pollWith (fun fd => .live (r.condition fd)) id

/-- Looks at a registration with events: what is ready is cached, and the tasks that wait for it are
scheduled, the reader first. -/
def notice (i : Nat) (r : Tasks) : Tasks :=
  match r.sources[i]? with
  | none => r
  | some s =>
    let c := r.condition s.fd
    let cache := s.cache.merge ⟨c.ready .read, c.ready .write⟩
    (Direction.all.filter c.ready).foldl (fun r d => r.wakeHolder (s.slots.get d))
      (r.modifySource i ({ · with cache := cache }))

/-- Schedules the tasks whose deadlines are over. -/
def expire (r : Tasks) : Tasks :=
  let isDue (t : Task) : Bool :=
    match t.awaited with
    | .deadline _ time => time ≤ r.now
    | .readiness .. => false
  (r.tasks.filter isDue).foldl (fun r t => r.wake t.id) { r with turned := r.now }

/-- The turn of the driver, which looks at events before deadlines. -/
def turn (r : Tasks) : Tasks :=
  (r.events.foldl (fun r i => notice i r) { r with events := [] }).expire

end Tasks
end Wakeup
