import Wakeup.Events
import Wakeup.Options
import Wakeup.Json.Skip

/-! Masks and options as JSON. -/
namespace Wakeup.Json

/-- The name of the one member that options have. -/
def nonblockingName : List Char := "nonblocking".toList

/-- Why a text is refused where a value of another type is wanted. Words, strings and numbers are
read to their end first. -/
def refusal (cs : List Char) : Fault :=
  match cs with
  | [] => .ended
  | 'n' :: r => verdict (readWord ['u', 'l', 'l'] r)
  | 't' :: r => verdict (readWord ['r', 'u', 'e'] r)
  | 'f' :: r => verdict (readWord ['a', 'l', 's', 'e'] r)
  | '"' :: r => verdict (readText r)
  | '-' :: r => verdict (readMagnitude r)
  | '[' :: _ => .mismatched
  | '{' :: _ => .mismatched
  | c :: r => if c.isDigit then verdict (readMagnitude (c :: r)) else .malformed
where
  verdict {α : Type} : Except Fault α → Fault
    | .error f => f
    | .ok _ => .mismatched

/-- Reads a whole number of 32 bits. -/
def readWord32 (cs : List Char) : Except Fault (UInt32 × List Char) :=
  match dropBlank cs with
  | [] => .error .ended
  | c :: r =>
    if c.isDigit then
      match readMagnitude (c :: r) with
      | .error f => .error f
      | .ok (m, r) =>
        if m.whole && m.significand < UInt32.size then .ok (UInt32.ofNat m.significand, r)
        else .error .mismatched
    else .error (refusal (c :: r))

def readBool (cs : List Char) : Except Fault (Bool × List Char) :=
  match dropBlank cs with
  | [] => .error .ended
  | 't' :: r =>
    match readWord ['r', 'u', 'e'] r with
    | .error f => .error f
    | .ok r => .ok (true, r)
  | 'f' :: r =>
    match readWord ['a', 'l', 's', 'e'] r with
    | .error f => .error f
    | .ok r => .ok (false, r)
  | c :: r => .error (refusal (c :: r))

/-- Reads a colon and the value of a member. That of a member with another name is only skipped.
`found` is the value read before, which must not come twice. -/
def readMemberValue (name : List Char) (found : Option Bool) (cs : List Char) :
    Except Fault (Option Bool × List Char) :=
  if name = nonblockingName then
    if found.isSome then .error .mismatched
    else
      match readColon cs with
      | .error f => .error f
      | .ok r =>
        match readBool r with
        | .error f => .error f
        | .ok (b, r) => .ok (some b, r)
  else
    match readColon cs with
    | .error f => .error f
    | .ok r =>
      match skipValue r with
      | .error f => .error f
      | .ok r => .ok (found, r)

theorem length_lt_of_readBool {cs r : List Char} {b : Bool} (h : readBool cs = .ok (b, r)) :
    r.length < cs.length := by
  simp only [readBool] at h
  split at h
  · simp at h
  · rename_i hd
    have hd := length_lt_of_dropBlank hd
    split at h
    · simp at h
    · rename_i hw
      have := length_le_of_readWord hw
      simp only [Except.ok.injEq, Prod.mk.injEq] at h
      simp only [← h.2]
      omega
  · rename_i hd
    have hd := length_lt_of_dropBlank hd
    split at h
    · simp at h
    · rename_i hw
      have := length_le_of_readWord hw
      simp only [Except.ok.injEq, Prod.mk.injEq] at h
      simp only [← h.2]
      omega
  · simp at h

theorem length_lt_of_readMemberValue {name : List Char} {found f : Option Bool}
    {cs r : List Char} (h : readMemberValue name found cs = .ok (f, r)) :
    r.length < cs.length := by
  simp only [readMemberValue] at h
  split at h
  · split at h
    · simp at h
    · split at h
      · simp at h
      · rename_i hc
        have := length_lt_of_readColon hc
        split at h
        · simp at h
        · rename_i hb
          have := length_lt_of_readBool hb
          simp only [Except.ok.injEq, Prod.mk.injEq] at h
          simp only [← h.2]
          omega
  · split at h
    · simp at h
    · rename_i hc
      have := length_lt_of_readColon hc
      split at h
      · simp at h
      · rename_i hb
        have := length_le_of_skipWithin hb
        simp only [Except.ok.injEq, Prod.mk.injEq] at h
        simp only [← h.2]
        omega

/-- Reads members from after the opening quote of a name up to the closing brace. -/
def readMembers (found : Option Bool) (cs : List Char) : Except Fault (Option Bool × List Char) :=
  match _ht : readText cs with
  | .error f => .error f
  | .ok (name, r) =>
    match _hv : readMemberValue name found r with
    | .error f => .error f
    | .ok (found, r) =>
      match _hd : dropBlank r with
      | [] => .error .ended
      | c :: r =>
        if c = '}' then .ok (found, r)
        else if c = ',' then
          match _hq : dropBlank r with
          | [] => .error .ended
          | c :: r => if c = '"' then readMembers found r else .error .malformed
        else .error .malformed
termination_by cs.length
decreasing_by
  have := length_lt_of_readText _ht
  have := length_lt_of_readMemberValue _hv
  have := length_lt_of_dropBlank _hd
  have := length_lt_of_dropBlank _hq
  omega

/-- Options as an object after its opening brace. -/
def readObject (cs : List Char) : Except Fault (Options × List Char) :=
  match dropBlank cs with
  | [] => .error .ended
  | c :: r =>
    if c = '}' then .ok (default, r)
    else if c = '"' then
      match readMembers none r with
      | .error f => .error f
      | .ok (some b, r) => .ok (⟨b⟩, r)
      | .ok (none, r) => .ok (default, r)
    else .error .malformed

/-- Options as an array, after its opening bracket, of at most the one value. -/
def readArray (cs : List Char) : Except Fault (Options × List Char) :=
  match dropBlank cs with
  | [] => .error .ended
  | c :: r =>
    if c = ']' then .ok (default, r)
    else
      match readBool (c :: r) with
      | .error f => .error f
      | .ok (b, r) =>
        match dropBlank r with
        | [] => .error .ended
        | c :: r => if c = ']' then .ok (⟨b⟩, r) else .error .malformed

def readOptions (cs : List Char) : Except Fault (Options × List Char) :=
  match dropBlank cs with
  | [] => .error .ended
  | c :: r =>
    if c = '{' then readObject r
    else if c = '[' then readArray r
    else .error (refusal (c :: r))

end Wakeup.Json

namespace Wakeup
open Json

/-- A mask as JSON: its bits as a whole number. -/
def Events.toJson (e : Events) : String := toString e.bits.toNat

/-- Reads a mask from a JSON text that holds nothing else. -/
def Events.ofJson? (text : String) : Except Fault Events :=
  match readWord32 text.toList with
  | .error f => .error f
  | .ok (bits, r) => finish ⟨bits⟩ r

/-- Options as JSON: an object with all members. -/
def Options.toJson (o : Options) : String :=
  "\x7b\"nonblocking\":" ++ toString o.nonblocking ++ "\x7d"

/-- Reads options from a JSON text that holds nothing else. -/
def Options.ofJson? (text : String) : Except Fault Options :=
  match readOptions text.toList with
  | .error f => .error f
  | .ok (o, r) => finish o r

end Wakeup
