import Wakeup.Heartbeat
import Wakeup.Watcher

/-! What the completion of a wait does: it is checked, the engine is called or not, and afterwards
the wait is armed again or not. The engine's call stands between the two halves. -/
namespace Wakeup

/-- What an engine is told. -/
inductive Notice
  | process (fd : Fd) (events : Events)
  | heartbeat
  | waitError (fd : Option Fd) (error : Error)
  deriving DecidableEq, Repr

def Notice.isWaitError : Notice → Bool
  | .waitError .. => true
  | _ => false

/-- On whose behalf an engine is called. -/
inductive Owner
  | watcher (id : Nat) (direction : Direction)
  | heartbeat (id : Nat) (generation : Nat)
  deriving DecidableEq, Repr

/-- A call of an engine, made inside a strand. -/
structure Call where
  owner : Owner
  strand : Nat
  engine : Nat
  notice : Notice
  deriving DecidableEq, Repr

namespace Hub
variable {ρ : Type} [Reactor ρ]

def acquireOwner : Owner → Hub ρ → Hub ρ
  | .watcher w _, hub => hub.acquireWatcher w
  | .heartbeat t _, hub => hub.acquireHeartbeat t

def releaseOwner : Owner → Hub ρ → Hub ρ
  | .watcher w _, hub => hub.releaseWatcher w
  | .heartbeat t _, hub => hub.releaseHeartbeat t

/-- Starts a call of an engine that is alive. Until it ends, its strand is busy, and the engine and
the owner last. -/
def startCall (call : Call) (hub : Hub ρ) : Hub ρ × Option Call :=
  if hub.engineAlive call.engine then
    (((hub.acquireOwner call.owner).enterStrand call.strand).modifyEngine call.engine
      Presence.acquire, some call)
  else (hub, none)

def beginReady (w : Nat) (d : Direction) (e : Nat) (o : Outcome) (hub : Hub ρ) :
    Hub ρ × Option Call :=
  match hub.watchers[w]? with
  | none => (hub, none)
  | some x =>
    if x.presence.alive then
      let hub := hub.modifySide w d ({ · with pending := false })
      if hub.strandAlive x.strand then
        match Verdict.of o with
        | .proceed =>
          if (x.sides.get d).wanted then
            hub.startCall ⟨.watcher w d, x.strand, e, .process x.fd (Events.ofDirection d)⟩
          else (hub, none)
        | .canceled => (hub, none)
        | .failed err => hub.startCall ⟨.watcher w d, x.strand, e, .waitError (some x.fd) err⟩
      else (hub, none)
    else (hub, none)

def beginBeat (t : Nat) (generation : Nat) (e : Nat) (o : Outcome) (hub : Hub ρ) :
    Hub ρ × Option Call :=
  match hub.heartbeats[t]? with
  | none => (hub, none)
  | some x =>
    if x.presence.alive && hub.strandAlive x.strand then
      match Verdict.of o with
      | .proceed =>
        if x.schedule.generation = generation then
          hub.startCall ⟨.heartbeat t generation, x.strand, e, .heartbeat⟩
        else (hub, none)
      | .canceled => (hub, none)
      | .failed err =>
        if x.schedule.generation = generation then
          (hub.modifySchedule t ({ · with deadline := none })).startCall
            ⟨.heartbeat t generation, x.strand, e, .waitError none err⟩
        else (hub, none)
    else (hub, none)

/-- The first half of a completion, up to the call of the engine. -/
def begin (c : Callback) (o : Outcome) (hub : Hub ρ) : Hub ρ × Option Call :=
  match c with
  | .ready w d e => hub.beginReady w d e o
  | .beat t generation e => hub.beginBeat t generation e o
  | .bare _ => (hub, none)

/-- Waits again after a call, if that is still asked for. -/
def resume (call : Call) (hub : Hub ρ) : Hub ρ :=
  match call.owner, call.notice with
  | .watcher w d, .process .. => if hub.wants w d then hub.armSide w d call.engine else hub
  | .heartbeat t generation, .heartbeat => hub.nextBeat t generation call.engine
  | _, _ => hub

/-- The second half of a completion, after the call of the engine. -/
def finish (call : Call) (hub : Hub ρ) : Hub ρ :=
  (((hub.resume call).modifyEngine call.engine Presence.release).leaveStrand
    call.strand).releaseOwner call.owner

end Hub
end Wakeup
