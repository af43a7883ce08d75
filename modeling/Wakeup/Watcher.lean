import Wakeup.Hub

/-! Watchers: interest in the directions of a descriptor, with one wait at most for each. -/
namespace Wakeup.Hub
variable {ρ : Type} [Reactor ρ]

/-- Registers a descriptor and makes a watcher without interest for it. -/
def newWatcher (s : Nat) (fd : Fd) (hub : Hub ρ) : Except Error Nat × Hub ρ :=
  match Reactor.register fd hub.reactor with
  | (.error e, r) => (.error e, { hub with reactor := r })
  | (.ok registration, r) =>
    (.ok hub.watchers.length,
      { hub with reactor := r, watchers := hub.watchers ++ [⟨registration, s, .both {}, {}⟩] })

def modifySide (w : Nat) (d : Direction) (f : Side → Side) (hub : Hub ρ) : Hub ρ :=
  hub.modifyWatcher w fun x => { x with sides := x.sides.modify d f }

def wants (hub : Hub ρ) (w : Nat) (d : Direction) : Bool :=
  hub.watchers[w]?.any fun x => (x.sides.get d).wanted

/-- Waits for a direction on behalf of an engine, unless a wait is outstanding. -/
def armSide (w : Nat) (d : Direction) (e : Nat) (hub : Hub ρ) : Hub ρ :=
  match hub.watchers[w]? with
  | none => hub
  | some x =>
    if (x.sides.get d).pending then hub
    else
      { hub.modifySide w d ({ · with pending := true }) with
        reactor := Reactor.arm x.registration d (.ready w d e) hub.reactor }

/-- Sets whether one direction is wanted, and waits for it if it is. -/
def setSide (w : Nat) (e : Nat) (d : Direction) (wanted : Bool) (hub : Hub ρ) : Hub ρ :=
  let hub := hub.modifySide w d ({ · with wanted := wanted })
  if wanted then hub.armSide w d e else hub

/-- Replaces the interest of a watcher. -/
def setInterest (w : Nat) (e : Nat) (ev : Events) (hub : Hub ρ) : Hub ρ :=
  Direction.all.foldl (fun hub d => hub.setSide w e d (ev.wants d)) hub

/-- Withdraws all interest, so that no completion in progress waits again. -/
def retire (w : Nat) (hub : Hub ρ) : Hub ρ :=
  Direction.all.foldl (fun hub d => hub.modifySide w d ({ · with wanted := false })) hub

/-- Ends the registration of a watcher that is neither kept nor in use. -/
def reapWatcher (w : Nat) (hub : Hub ρ) : Hub ρ :=
  match hub.watchers[w]? with
  | none => hub
  | some x =>
    if x.presence.alive then hub
    else { hub with reactor := Reactor.release x.registration hub.reactor }

def acquireWatcher (w : Nat) (hub : Hub ρ) : Hub ρ :=
  hub.modifyWatcher w fun x => { x with presence := x.presence.acquire }

def releaseWatcher (w : Nat) (hub : Hub ρ) : Hub ρ :=
  (hub.modifyWatcher w fun x => { x with presence := x.presence.release }).reapWatcher w

/-- Drops a watcher. One whose completion is running lasts until that ends. -/
def dropWatcher (w : Nat) (hub : Hub ρ) : Hub ρ :=
  (hub.modifyWatcher w fun x => { x with presence := x.presence.disown }).reapWatcher w

end Wakeup.Hub
