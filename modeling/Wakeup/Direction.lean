/-! The two directions in which a descriptor becomes ready, and pairs with one value for each. -/
namespace Wakeup

/-- What the operating system knows a descriptor by. -/
abbrev Fd := Int

inductive Direction
  | read
  | write
  deriving DecidableEq, Repr

namespace Direction

/-- Both directions, reading first. -/
def all : List Direction := [.read, .write]

/-- The lowercase word for a direction. -/
def label : Direction → String
  | .read => "read"
  | .write => "write"

/-- The capitalised word for a direction. -/
def title : Direction → String
  | .read => "Read"
  | .write => "Write"

def opposite : Direction → Direction
  | .read => .write
  | .write => .read

@[simp] theorem mem_all (d : Direction) : d ∈ all := by
  cases d <;> simp [all]

@[simp] theorem opposite_ne (d : Direction) : d.opposite ≠ d := by
  cases d <;> decide

end Direction

/-- One value for each direction. -/
structure Sides (α : Type) where
  read : α
  write : α
  deriving DecidableEq, Repr

namespace Sides
variable {α : Type}

/-- The same value in both directions. -/
def both (a : α) : Sides α := ⟨a, a⟩

def get (s : Sides α) : Direction → α
  | .read => s.read
  | .write => s.write

def set (s : Sides α) (d : Direction) (a : α) : Sides α :=
  match d with
  | .read => { s with read := a }
  | .write => { s with write := a }

def modify (s : Sides α) (d : Direction) (f : α → α) : Sides α :=
  s.set d (f (s.get d))

@[simp] theorem get_both (a : α) (d : Direction) : (both a).get d = a := by
  cases d <;> rfl

@[simp] theorem get_set_self (s : Sides α) (d : Direction) (a : α) : (s.set d a).get d = a := by
  cases d <;> rfl

theorem get_set_of_ne (s : Sides α) {d d' : Direction} (h : d' ≠ d) (a : α) :
    (s.set d a).get d' = s.get d' := by
  cases d <;> cases d' <;> simp_all [set, get]

@[ext] theorem ext_get {s t : Sides α} (h : ∀ d, s.get d = t.get d) : s = t := by
  obtain ⟨r, w⟩ := s
  obtain ⟨r', w'⟩ := t
  have hr : r = r' := h .read
  have hw : w = w' := h .write
  rw [hr, hw]

end Sides
end Wakeup
