import Mathlib.Data.Multiset.Bind
import Wakeup.Proofs.Run

/-! Ledgers: a hub with an account of who holds what of it, and the moves by which a ledger changes.
The names that a scenario gives to things do not occur in it. -/
namespace Wakeup.Scenario

structure Ledger where
  hub : Hub Manual
  /-- The strands of the handlers that are alive. -/
  handlers : Multiset Nat
  /-- Strands that belong to no handler. -/
  strands : Multiset Nat
  /-- Watchers, under the strand and the descriptor of a handler or on their own. -/
  watchers : Multiset (Option (Nat × Fd) × Nat)
  /-- Heartbeats, under the strand of a handler or on their own. -/
  heartbeats : Multiset (Option Nat × Nat)
  /-- Registrations without a watcher. -/
  registrations : Multiset Registration
  /-- Timers without a heartbeat. -/
  timers : Multiset Nat
  /-- Waits that were taken from the reactor and neither run nor thrown away. -/
  kept : Multiset Wait
  /-- Calls of engines in progress, innermost first. -/
  calls : List Call
  /-- The strands of dispatches in progress. -/
  inside : Multiset Nat
  /-- What happened so far, latest first. -/
  log : List Event

namespace Ledger

/-- A ledger with another reactor. -/
def setReactor (L : Ledger) (m : Manual) : Ledger := { L with hub := { L.hub with reactor := m } }

/-- The entry that setting the interest of a watcher leaves in the log. -/
def asked (place : Option (Nat × Fd)) (e : Nat) (ev : Events) : List Event :=
  match place with
  | some (s, fd) => [.monitored s e fd ev]
  | none => []

/-- The entry that setting a heartbeat leaves in the log. -/
def agreed (place : Option Nat) (e : Nat) (interval : Interval) : List Event :=
  match place with
  | some s => [.negotiated s e interval]
  | none => []

/-- What can happen to a ledger, but for the end of a call. Only what is held is used. -/
inductive Move (L : Ledger) : Ledger → Prop
  | advance (elapsed : Nat) : Move L (L.setReactor (L.hub.reactor.advance elapsed))
  | refuse (fd : Fd) : Move L (L.setReactor (L.hub.reactor.refuse fd))
  | refused {fd : Fd} {err : Error} {m : Manual}
      (h : L.hub.reactor.register fd = (.error err, m)) : Move L (L.setReactor m)
  | newHandler :
      Move L { L with hub := L.hub.newStrand.2, handlers := L.hub.newStrand.1 ::ₘ L.handlers }
  | dropHandler {s : Nat} {hs : Multiset Nat} (h : L.handlers = s ::ₘ hs) :
      Move L { L with hub := L.hub.dropStrand s, handlers := hs }
  | newStrand :
      Move L { L with hub := L.hub.newStrand.2, strands := L.hub.newStrand.1 ::ₘ L.strands }
  | dropStrand {s : Nat} {ss : Multiset Nat} (h : L.strands = s ::ₘ ss) :
      Move L { L with hub := L.hub.dropStrand s, strands := ss }
  | newEngine : Move L { L with hub := L.hub.newEngine.2 }
  | dropEngine (e : Nat) : Move L { L with hub := L.hub.dropEngine e }
  | newWatcher {place : Option (Nat × Fd)} {s : Nat} {fd : Fd} {i : Nat} {hub : Hub Manual}
      (hp : place = some (s, fd) ∧ s ∈ L.handlers ∨ place = none ∧ s ∈ L.strands)
      (hf : place.isSome → ∀ j, (place, j) ∉ L.watchers)
      (h : L.hub.newWatcher s fd = (.ok i, hub)) :
      Move L { L with hub := hub, watchers := (place, i) ::ₘ L.watchers }
  | setInterest {place : Option (Nat × Fd)} {i : Nat} (e : Nat) (ev : Events)
      (h : (place, i) ∈ L.watchers) :
      Move L { L with hub := L.hub.setInterest i e ev, log := asked place e ev ++ L.log }
  | retire {place : Option (Nat × Fd)} {i : Nat} (h : (place, i) ∈ L.watchers) :
      Move L { L with hub := L.hub.retire i }
  /-- A handler that is alive drops a watcher only after it was retired. -/
  | dropWatcher {place : Option (Nat × Fd)} {i : Nat} {ws : Multiset (Option (Nat × Fd) × Nat)}
      (h : L.watchers = (place, i) ::ₘ ws)
      (hr : ∀ p, place = some p → p.1 ∈ L.handlers → ∀ d, L.hub.wants i d = false) :
      Move L { L with hub := L.hub.dropWatcher i, watchers := ws }
  /-- A mask without bits was accepted, and the descriptor is not watched. -/
  | unasked (s e : Nat) (fd : Fd) {ev : Events} (h : ev.isEmpty = true)
      (hf : ∀ i, (some (s, fd), i) ∉ L.watchers) :
      Move L { L with log := .monitored s e fd ev :: L.log }
  | newHeartbeat {place : Option Nat} {s : Nat}
      (hp : place = some s ∧ s ∈ L.handlers ∨ place = none ∧ s ∈ L.strands)
      (hf : place.isSome → ∀ t, (place, t) ∉ L.heartbeats) :
      Move L { L with
        hub := (L.hub.newHeartbeat s).2
        heartbeats := (place, (L.hub.newHeartbeat s).1) ::ₘ L.heartbeats }
  | setHeartbeat {place : Option Nat} {t : Nat} (e : Nat) (interval : Interval)
      (h : (place, t) ∈ L.heartbeats) (hp : ∀ s, place = some s → s ∈ L.handlers) :
      Move L { L with
        hub := L.hub.setHeartbeat t e interval
        log := agreed place e interval ++ L.log }
  | stopHeartbeat {place : Option Nat} {t : Nat} (h : (place, t) ∈ L.heartbeats) :
      Move L { L with hub := L.hub.stopHeartbeat t }
  /-- A handler that is alive drops a heartbeat only after it was stopped. -/
  | dropHeartbeat {place : Option Nat} {t : Nat} {ts : Multiset (Option Nat × Nat)}
      (h : L.heartbeats = (place, t) ::ₘ ts)
      (hr : ∀ s, place = some s → s ∈ L.handlers →
        ∀ x, L.hub.heartbeats[t]? = some x → x.schedule.deadline = none) :
      Move L { L with hub := L.hub.dropHeartbeat t, heartbeats := ts }
  | enter {s : Nat} (h : s ∈ L.handlers) :
      Move L { L with hub := L.hub.enterStrand s, inside := s ::ₘ L.inside }
  | leave {s : Nat} {ss : Multiset Nat} (h : L.inside = s ::ₘ ss) :
      Move L { L with hub := L.hub.leaveStrand s, inside := ss }
  | takeReady {fd : Fd} {d : Direction} {wait : Wait} {m : Manual}
      (h : L.hub.reactor.takeReady fd d = some (wait, m)) :
      Move L { L.setReactor m with kept := wait ::ₘ L.kept }
  | takeTimed {deadline : Nat} {wait : Wait} {m : Manual}
      (h : L.hub.reactor.takeTimed deadline = some (wait, m)) :
      Move L { L.setReactor m with kept := wait ::ₘ L.kept }
  | takeParked : Move L { L.setReactor L.hub.reactor.takeParked.2 with
      kept := ↑L.hub.reactor.takeParked.1 + L.kept }
  | discard {wait : Wait} {ws : Multiset Wait} (h : L.kept = wait ::ₘ ws) :
      Move L { L with kept := ws, log := .discarded wait :: L.log }
  | complete {wait : Wait} {ws : Multiset Wait} (o : Outcome) (h : L.kept = wait ::ₘ ws) :
      Move L { L with
        hub := (L.hub.begin wait.callback o).1
        kept := ws
        calls := (L.hub.begin wait.callback o).2.toList ++ L.calls
        log := .completed wait o (serves L.hub wait.callback) :: L.log }
  | register {fd : Fd} {r : Registration} {m : Manual}
      (h : L.hub.reactor.register fd = (.ok r, m)) :
      Move L { L.setReactor m with registrations := r ::ₘ L.registrations }
  | armBare {r : Registration} (d : Direction) (tag : Tag) (h : r ∈ L.registrations) :
      Move L (L.setReactor (L.hub.reactor.arm r d (.bare tag)))
  | release {r : Registration} {rs : Multiset Registration} (h : L.registrations = r ::ₘ rs) :
      Move L { L.setReactor (L.hub.reactor.release r) with registrations := rs }
  | newTimer : Move L { L.setReactor L.hub.reactor.newTimer.2 with
      timers := L.hub.reactor.newTimer.1 ::ₘ L.timers }
  | scheduleBare {t : Nat} (deadline : Nat) (tag : Tag) (h : t ∈ L.timers) :
      Move L (L.setReactor (L.hub.reactor.schedule t deadline (.bare tag)))
  | cancelBare {t : Nat} (h : t ∈ L.timers) : Move L (L.setReactor (L.hub.reactor.cancel t))
  | dropTimer {t : Nat} {ts : Multiset Nat} (h : L.timers = t ::ₘ ts) :
      Move L { L.setReactor (L.hub.reactor.cancel t) with timers := ts }

/-- What happened is not forgotten. -/
theorem Move.log_suffix {L L' : Ledger} (hm : Move L L') : L.log <:+ L'.log := by
  cases hm with
  | setInterest => exact List.suffix_append _ _
  | unasked => exact List.suffix_cons _ _
  | setHeartbeat => exact List.suffix_append _ _
  | discard => exact List.suffix_cons _ _
  | complete => exact List.suffix_cons _ _
  | _ => exact List.suffix_rfl

/-- Any number of moves. -/
abbrev Moves : Ledger → Ledger → Prop := Relation.ReflTransGen Move

/-- The innermost call ends. -/
def finish (call : Call) (cs : List Call) (L : Ledger) : Ledger :=
  { L with hub := L.hub.finish call, calls := cs }

/-- A step either makes moves or ends a call. -/
inductive Advance (L : Ledger) : Ledger → Prop
  | moves {L' : Ledger} (h : Moves L L') : Advance L L'
  | finish {call : Call} {cs : List Call} (h : L.calls = call :: cs) : Advance L (L.finish call cs)

/-- What every move keeps, any number of moves keep. -/
theorem Moves.preserves {P : Ledger → Prop} {L L' : Ledger} (h : Moves L L')
    (hmove : ∀ {L L' : Ledger}, Move L L' → P L → P L') (hP : P L) : P L' := by
  induction h with
  | refl => exact hP
  | tail _ hm ih => exact hmove hm ih

theorem Advance.preserves {P : Ledger → Prop} {L L' : Ledger} (h : Advance L L')
    (hmove : ∀ {L L' : Ledger}, Move L L' → P L → P L')
    (hfinish : ∀ {L : Ledger} {call : Call} {cs : List Call}, L.calls = call :: cs → P L →
      P (L.finish call cs)) (hP : P L) : P L' := by
  cases h with
  | moves h => exact h.preserves hmove hP
  | finish h => exact hfinish h hP

end Ledger

/-- The watchers of a handler, with the places under which it holds them. -/
def places (h : Handler) : Multiset (Option (Nat × Fd) × Nat) :=
  (h.watchers.toList : Multiset (Int × Nat)).map fun (fd, i) => (some (h.strand, fd), i)

/-- The heartbeat of a handler, with the place under which it holds it. -/
def beats (h : Handler) : Multiset (Option Nat × Nat) :=
  (h.heartbeat.toList : Multiset Nat).map (some h.strand, ·)

namespace World

def held (w : World) : Multiset Handler := ↑w.handlers.values + ↑w.replaced

/-- A ledger in which some handlers are held, and all else as in a world. -/
def ledgerOf (w : World) (hub : Hub Manual) (hs : Multiset Handler) (calls : List Call)
    (inside : List Nat) (log : List Event) : Ledger where
  hub := hub
  handlers := hs.map (·.strand)
  strands := ↑w.strands.values
  watchers := hs.bind places + (w.watchers.values : Multiset Nat).map (none, ·)
  heartbeats := hs.bind beats + (w.heartbeats.values : Multiset Nat).map (none, ·)
  registrations := ↑w.registrations.values
  timers := ↑w.timers.values
  kept := ↑w.slots.values
  calls := calls
  inside := ↑inside
  log := log

/-- The ledger of a world in which calls and dispatches are in progress. -/
def ledger (w : World) (calls : List Call) (inside : List Nat) (log : List Event) : Ledger :=
  w.ledgerOf w.hub w.held calls inside log

end World

def Config.ledger (c : Config) (log : List Event) : Ledger :=
  c.world.ledger c.calls c.insides log

end Wakeup.Scenario
