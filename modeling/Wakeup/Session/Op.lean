import Wakeup.Completion
import Wakeup.Socket

/-! The operations of a session: one engine on one handler of a task reactor, with sockets to
use. -/
namespace Wakeup.Session

/-- What the engine does when a direction of a socket is ready. -/
inductive Mode
  /-- Reads everything, and gives up reading at the end. -/
  | drain
  /-- Reads one byte, and gives up reading at the end. -/
  | takeOne
  /-- Writes until nothing more can be written. -/
  | fill
  /-- Gives up the socket. -/
  | unwatch
  /-- Gives up the direction. -/
  | drop
  /-- Gives up the direction for the other. -/
  | swap
  /-- Gives up the socket, and watches the direction again. -/
  | rewatch
  /-- Drops the handler. -/
  | release
  deriving DecidableEq, Repr

/-- A descriptor, given by the place of a socket or by number. -/
inductive Target
  | socket (i : Nat)
  | number (fd : Fd)
  deriving DecidableEq, Repr

inductive Op
  | pair (modes : Sides Mode)
  | file
  | setModes (s : Nat) (read write : Option Mode)
  | flags (s : Nat)
  | setFlags (s : Nat) (nonblocking : Bool)
  | peerWrite (s n : Nat)
  | peerRead (s : Nat)
  | peerClose (s : Nat)
  | peerShutdown (s : Nat)
  | localRead (s n : Nat)
  | localWrite (s n : Nat)
  | localFill (s : Nat)
  | localClose (s : Nat)
  | settle
  | advance (elapsed : Nat)
  | register (id : Int) (target : Target)
  | arm (id : Int) (direction : Direction) (tag : Tag)
  | release (id : Int)
  | newTimer (id : Int)
  /-- Arms a timer for a time from now. -/
  | armTimer (id : Int) (delay : Nat) (tag : Tag)
  /-- Arms a timer for a point in time. -/
  | armTimerAt (id : Int) (deadline : Nat) (tag : Tag)
  | cancelTimer (id : Int)
  | dropTimer (id : Int)
  | monitor (target : Target) (events : Events)
  | negotiate (seconds : Nat)
  | close
  | dropHandler
  | dropEngine

inductive Reply
  | done
  /-- Something that the operation needs does not exist. -/
  | missing
  | failed (error : Error)
  | flag (b : Bool)
  | number (n : Nat)
  | taken (t : Taken)

/-- A callback that was run. -/
inductive Record
  /-- What the engine read, and the error of the interest it asked for. -/
  | process (fd : Fd) (events : Events) (taken : Option Taken) (error : Option Error)
  | heartbeat (count time : Nat)
  | waitError (error : Error)
  | bare (tag : Tag) (outcome : Outcome) (time : Nat)

end Wakeup.Session
