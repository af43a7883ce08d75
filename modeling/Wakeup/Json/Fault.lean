/-! Why a JSON text is refused, the separators between its tokens, and its fixed words. -/
namespace Wakeup.Json

/-- The first problem met from left to right. -/
inductive Fault
  /-- The text ends inside a value, or is blank. -/
  | ended
  /-- The text is no JSON. -/
  | malformed
  /-- A value has the wrong type or is out of range. -/
  | mismatched
  deriving DecidableEq, Repr

def Fault.label : Fault → String
  | .ended => "eof"
  | .malformed => "syntax"
  | .mismatched => "data"

def isBlank (c : Char) : Bool := c == ' ' || c == '\t' || c == '\n' || c == '\r'

def dropBlank (cs : List Char) : List Char := cs.dropWhile isBlank

/-- Reads the characters of a word in turn. -/
def readWord : List Char → List Char → Except Fault (List Char)
  | [], cs => .ok cs
  | _ :: _, [] => .error .ended
  | w :: ws, c :: cs => if c = w then readWord ws cs else .error .malformed

/-- Nothing but blanks may follow a value. -/
def finish {α : Type} (a : α) (cs : List Char) : Except Fault α :=
  if dropBlank cs = [] then .ok a else .error .malformed

theorem length_dropBlank_le (cs : List Char) : (dropBlank cs).length ≤ cs.length :=
  (List.dropWhile_suffix isBlank).length_le

theorem length_le_of_readWord {ws cs r : List Char} (h : readWord ws cs = .ok r) :
    r.length ≤ cs.length := by
  fun_induction readWord ws cs with
  | case1 => simp_all
  | case2 => simp at h
  | case3 _ _ _ ih => exact Nat.le_succ_of_le (ih h)
  | case4 => simp at h

end Wakeup.Json
