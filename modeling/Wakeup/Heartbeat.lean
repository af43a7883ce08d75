import Wakeup.Hub

/-! Heartbeats: each deadline is an interval after the one before, however late a wait completes. -/
namespace Wakeup.Hub
variable {ρ : Type} [Reactor ρ]

/-- Makes a heartbeat that is not set. -/
def newHeartbeat (s : Nat) (hub : Hub ρ) : Nat × Hub ρ :=
  let (timer, r) := Reactor.newTimer hub.reactor
  (hub.heartbeats.length,
    { hub with reactor := r, heartbeats := hub.heartbeats ++ [⟨timer, s, {}, {}⟩] })

def modifySchedule (t : Nat) (f : Schedule → Schedule) (hub : Hub ρ) : Hub ρ :=
  hub.modifyHeartbeat t fun x => { x with schedule := f x.schedule }

def cancelTimer (timer : Nat) (hub : Hub ρ) : Hub ρ :=
  { hub with reactor := Reactor.cancel timer hub.reactor }

/-- Waits for a deadline of the current generation. -/
def armDeadline (t : Nat) (deadline : Nat) (e : Nat) (hub : Hub ρ) : Hub ρ :=
  match hub.heartbeats[t]? with
  | none => hub
  | some x =>
    { hub with
      reactor := Reactor.schedule x.timer deadline (.beat t x.schedule.generation e) hub.reactor }

/-- Starts the heartbeat over, with the first beat an interval from now. -/
def setHeartbeat (t : Nat) (e : Nat) (interval : Interval) (hub : Hub ρ) : Hub ρ :=
  match hub.heartbeats[t]? with
  | none => hub
  | some x =>
    let hub := hub.cancelTimer x.timer
    let deadline := Reactor.now hub.reactor + interval.length
    (hub.modifySchedule t fun s => ⟨some interval, some deadline, s.generation + 1⟩).armDeadline
      t deadline e

/-- Stops the heartbeat. It can be set again later. -/
def stopHeartbeat (t : Nat) (hub : Hub ρ) : Hub ρ :=
  match hub.heartbeats[t]? with
  | none => hub
  | some x =>
    (hub.modifySchedule t fun s =>
      { s with deadline := none, generation := s.generation + 1 }).cancelTimer x.timer

/-- Goes on to the next deadline, unless the schedule was set or stopped since a generation. -/
def nextBeat (t : Nat) (generation : Nat) (e : Nat) (hub : Hub ρ) : Hub ρ :=
  match hub.heartbeats[t]? with
  | none => hub
  | some x =>
    match x.schedule.deadline, x.schedule.interval with
    | some deadline, some interval =>
      if x.schedule.generation = generation then
        let next := deadline + interval.length
        (hub.modifySchedule t ({ · with deadline := some next })).armDeadline t next e
      else hub
    | _, _ => hub

/-- Cancels the wait of a heartbeat that is neither kept nor in use. -/
def reapHeartbeat (t : Nat) (hub : Hub ρ) : Hub ρ :=
  match hub.heartbeats[t]? with
  | none => hub
  | some x => if x.presence.alive then hub else hub.cancelTimer x.timer

def acquireHeartbeat (t : Nat) (hub : Hub ρ) : Hub ρ :=
  hub.modifyHeartbeat t fun x => { x with presence := x.presence.acquire }

def releaseHeartbeat (t : Nat) (hub : Hub ρ) : Hub ρ :=
  (hub.modifyHeartbeat t fun x => { x with presence := x.presence.release }).reapHeartbeat t

/-- Drops a heartbeat. One whose completion is running lasts until that ends. -/
def dropHeartbeat (t : Nat) (hub : Hub ρ) : Hub ρ :=
  (hub.modifyHeartbeat t fun x => { x with presence := x.presence.disown }).reapHeartbeat t

end Wakeup.Hub
