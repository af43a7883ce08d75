import Wakeup.Direction

/-! Interest and readiness masks: 32 bits, of which one stands for each direction. -/
namespace Wakeup

/-- A mask as an engine writes it. Bits without a meaning are kept and ignored. -/
structure Events where
  bits : UInt32
  deriving DecidableEq, Repr

namespace Events

def none : Events := ⟨0⟩

def readable : Events := ⟨1⟩

def writable : Events := ⟨2⟩

def union (a b : Events) : Events := ⟨a.bits ||| b.bits⟩

/-- Whether no bit is set, known or not. -/
def isEmpty (e : Events) : Bool := e.bits == 0

/-- Whether every bit of `other` is set. -/
def contains (e other : Events) : Bool := e.bits &&& other.bits == other.bits

/-- The mask with the one bit of a direction. -/
def ofDirection : Direction → Events
  | .read => readable
  | .write => writable

/-- Whether the bit of a direction is set. -/
def wants (e : Events) (d : Direction) : Bool := e.contains (ofDirection d)

/-- The mask with exactly the bits of the directions that `p` selects. -/
def ofSides (p : Sides Bool) : Events :=
  (Direction.all.filter p.get).foldl (fun e d => e.union (ofDirection d)) none

/-- The mask without the bit of a direction, and without unknown bits. -/
def without (e : Events) (d : Direction) : Events :=
  ofSides (Sides.set ⟨e.wants .read, e.wants .write⟩ d false)

/-- The words for the known bits. -/
def text (e : Events) : String :=
  match e.wants .read, e.wants .write with
  | true, true => "readable|writable"
  | true, false => "readable"
  | false, true => "writable"
  | false, false => "none"

/-- The text with all bits, for diagnostics. -/
def debug (e : Events) : String := s!"Events({e.bits.toNat})"

theorem wants_ofSides (p : Sides Bool) (d : Direction) : (ofSides p).wants d = p.get d := by
  obtain ⟨r, w⟩ := p
  cases r <;> cases w <;> cases d <;> decide

theorem wants_none (d : Direction) : none.wants d = false := by
  cases d <;> decide

theorem wants_of_isEmpty {e : Events} (h : e.isEmpty = true) (d : Direction) :
    e.wants d = false := by
  obtain ⟨b⟩ := e
  have : b = 0 := by simpa [isEmpty] using h
  subst this
  exact wants_none d

end Events
end Wakeup
