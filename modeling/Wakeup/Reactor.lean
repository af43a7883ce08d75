import Wakeup.Error

/-! What an event loop offers: waits for readiness on registered descriptors, and timers. Times are
in milliseconds. Watchers, heartbeats, engines, strands and timers are named by numbers. -/
namespace Wakeup

/-- What an answer calls a bare wait by. It is handed back as it was given. -/
structure Tag where
  text : String
  deriving DecidableEq, Repr

/-- What is to be done when a wait completes. An engine is named and not kept. -/
inductive Callback
  /-- Tell a watcher that a direction of its descriptor is ready, for an engine. -/
  | ready (watcher : Nat) (direction : Direction) (engine : Nat)
  /-- Tell a heartbeat that the deadline of one of its generations is due, for an engine. -/
  | beat (heartbeat : Nat) (generation : Nat) (engine : Nat)
  /-- Only report the outcome. -/
  | bare (tag : Tag)
  deriving DecidableEq, Repr

/-- A descriptor as registered with a reactor. -/
structure Registration where
  id : Nat
  fd : Fd
  deriving DecidableEq, Repr

/-- An event loop. A wait completes at most once, and a timer has one wait at most. -/
class Reactor (ρ : Type) where
  now : ρ → Nat
  /-- Starts to watch a descriptor. -/
  register : Fd → ρ → Except Error Registration × ρ
  /-- Waits for one direction of a registered descriptor. -/
  arm : Registration → Direction → Callback → ρ → ρ
  /-- Ends a registration and cancels its waits. The descriptor stays open. -/
  release : Registration → ρ → ρ
  newTimer : ρ → Nat × ρ
  /-- Waits for a deadline, and cancels the wait that the timer had. -/
  schedule : Nat → Nat → Callback → ρ → ρ
  /-- Cancels the wait of a timer. -/
  cancel : Nat → ρ → ρ

end Wakeup
