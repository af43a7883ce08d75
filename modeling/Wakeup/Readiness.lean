import Wakeup.Error

/-! Readiness of a descriptor: what the operating system reports now, and what the driver of a
reactor has cached. The engine uses the descriptor behind the driver's back, so cached readiness can
be stale, and a wait completes only when the operating system confirms it. -/
namespace Wakeup

/-- What the operating system reports of a descriptor. -/
structure Condition where
  readable : Bool := false
  writable : Bool := false
  failed : Bool := false
  hungUp : Bool := false
  deriving DecidableEq, Repr

/-- Errors and hang-ups count as ready, so that the engine gets to see them. -/
def Condition.ready (c : Condition) : Direction → Bool
  | .read => c.readable || c.failed || c.hungUp
  | .write => c.writable || c.failed || c.hungUp

/-- Asking the operating system, which signals can interrupt before it answers. -/
inductive Inquiry
  | interrupted (next : Inquiry)
  | answered (result : Except IoError Condition)

/-- Asks until there is an answer. -/
def probe (d : Direction) : Inquiry → Except IoError Bool
  | .interrupted next => probe d next
  | .answered (.ok c) => .ok (c.ready d)
  | .answered (.error e) => .error e

/-- A turn of the loop that polls for readiness: the inquiry it makes, and the directions of an
event that arrives meanwhile. -/
structure Turn where
  inquiry : Inquiry
  arrivals : Sides Bool

/-- The directions that are cached or arrive. -/
def Sides.merge (cache arrivals : Sides Bool) : Sides Bool :=
  ⟨cache.read || arrivals.read, cache.write || arrivals.write⟩

theorem Sides.get_merge (cache arrivals : Sides Bool) (d : Direction) :
    (cache.merge arrivals).get d = (cache.get d || arrivals.get d) := by
  cases d <;> rfl

/-- Polls for readiness in one direction. Cached readiness that is not confirmed is cleared, unless
an event arrived meanwhile, and then the next turn looks again. Answers how the wait completes, if
it does, and the cache. `failure` is that of a driver that has shut down, `last` the inquiry of the
turn in which no event arrives any more. -/
def pollReady (d : Direction) (failure : Option IoError) (last : Inquiry) (turns : List Turn)
    (cache : Sides Bool) : Option Outcome × Sides Bool :=
  match failure with
  | some e => (some (.error (.io e)), cache)
  | none =>
    if cache.get d then
      match turns with
      | [] =>
        match probe d last with
        | .error e => (some (.error (.io e)), cache)
        | .ok true => (some (.ok ()), cache)
        | .ok false => (none, cache.set d false)
      | turn :: turns =>
        let cache := cache.merge turn.arrivals
        match probe d turn.inquiry with
        | .error e => (some (.error (.io e)), cache)
        | .ok true => (some (.ok ()), cache)
        | .ok false => pollReady d none last turns cache
    else (none, cache)

/-- What the driver and the operating system answer in one poll. -/
structure Answers where
  /-- That of a driver that has shut down. -/
  failure : Option IoError := none
  /-- The turns in which an event arrives. -/
  turns : List Turn := []
  /-- The inquiry of the turn in which none arrives any more. -/
  last : Inquiry

namespace Answers

/-- A driver that runs and an operating system that reports a condition at once. -/
def live (c : Condition) : Answers := { last := .answered (.ok c) }

/-- The inquiries that can be made in the poll. -/
def inquiries (a : Answers) : List Inquiry := a.turns.map (·.inquiry) ++ [a.last]

/-- Polls for readiness with these answers. -/
def poll (a : Answers) (d : Direction) (cache : Sides Bool) : Option Outcome × Sides Bool :=
  pollReady d a.failure a.last a.turns cache

end Answers
end Wakeup
