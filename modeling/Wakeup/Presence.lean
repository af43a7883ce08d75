/-! How long a shared object lasts. -/
namespace Wakeup

/-- An object lasts as long as its owner keeps it or something uses it. -/
structure Presence where
  kept : Bool := true
  /-- Uses in progress. -/
  uses : Nat := 0
  deriving DecidableEq, Repr

namespace Presence

def inUse (p : Presence) : Bool := p.uses != 0

def alive (p : Presence) : Bool := p.kept || p.inUse

def acquire (p : Presence) : Presence := { p with uses := p.uses + 1 }

def release (p : Presence) : Presence := { p with uses := p.uses - 1 }

/-- The owner gives the object up. -/
def disown (p : Presence) : Presence := { p with kept := false }

@[simp] theorem inUse_acquire (p : Presence) : p.acquire.inUse = true := by
  simp [inUse, acquire]

@[simp] theorem alive_acquire (p : Presence) : p.acquire.alive = true := by
  simp [alive]

@[simp] theorem release_acquire (p : Presence) : p.acquire.release = p := by
  simp [acquire, release]

theorem alive_disown (p : Presence) : p.disown.alive = p.inUse := rfl

end Presence
end Wakeup
