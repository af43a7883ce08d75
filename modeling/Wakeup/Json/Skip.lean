import Wakeup.Json.Number
import Wakeup.Json.Quoted

/-! Skipping a JSON value of any kind and any depth. The brackets that are still open are kept on a
stack, so nesting costs no recursion. -/
namespace Wakeup.Json

inductive Bracket
  | array
  | object
  deriving DecidableEq, Repr

def Bracket.closing : Bracket → Char
  | .array => ']'
  | .object => '}'

/-- What a text must go on with inside the brackets that are open. -/
inductive Expect
  | value
  /-- A name and a colon. -/
  | member
  /-- A first element or member, or the closing bracket. -/
  | opening
  /-- A comma or the closing bracket. -/
  | closing
  deriving DecidableEq, Repr

/-- What must follow a comma. -/
def Bracket.element : Bracket → Expect
  | .array => .value
  | .object => .member

/-- Skips a word, number or string. -/
def skipScalar : List Char → Except Fault (List Char)
  | [] => .error .ended
  | 'n' :: r => readWord ['u', 'l', 'l'] r
  | 't' :: r => readWord ['r', 'u', 'e'] r
  | 'f' :: r => readWord ['a', 'l', 's', 'e'] r
  | '"' :: r => skipText r
  | '-' :: r => skipNumber r
  | c :: r => if c.isDigit then skipNumber (c :: r) else .error .malformed

/-- A colon with the blanks before it. -/
def readColon (cs : List Char) : Except Fault (List Char) :=
  match dropBlank cs with
  | [] => .error .ended
  | ':' :: r => .ok r
  | _ => .error .malformed

/-- A name after its opening quote, and the colon. -/
def skipName (cs : List Char) : Except Fault (List Char) :=
  match skipText cs with
  | .error f => .error f
  | .ok r => readColon r

theorem length_lt_of_skipScalar {cs r : List Char} (h : skipScalar cs = .ok r) :
    r.length < cs.length := by
  simp only [skipScalar] at h
  split at h
  · simp at h
  · exact Nat.lt_succ_of_le (length_le_of_readWord h)
  · exact Nat.lt_succ_of_le (length_le_of_readWord h)
  · exact Nat.lt_succ_of_le (length_le_of_readWord h)
  · exact Nat.lt_succ_of_lt (length_lt_of_skipText h)
  · exact Nat.lt_succ_of_lt (length_lt_of_skipNumber h)
  · split at h
    · exact length_lt_of_skipNumber h
    · simp at h

theorem length_lt_of_readColon {cs r : List Char} (h : readColon cs = .ok r) :
    r.length < cs.length := by
  have hb := length_dropBlank_le cs
  simp only [readColon] at h
  split at h
  · simp at h
  · rename_i hd
    cases h
    rw [hd] at hb
    exact hb
  · simp at h

theorem length_lt_of_skipName {cs r : List Char} (h : skipName cs = .ok r) :
    r.length < cs.length := by
  simp only [skipName] at h
  split at h
  · simp at h
  · rename_i hr
    exact Nat.lt_trans (length_lt_of_readColon h) (length_lt_of_skipText hr)

theorem length_lt_of_dropBlank {cs r : List Char} {c : Char} (h : dropBlank cs = c :: r) :
    r.length < cs.length := by
  have hb := length_dropBlank_le cs
  rw [h] at hb
  exact hb

/-- Goes on until the brackets in `stack` are closed, and answers what follows. -/
def skipWithin (stack : List Bracket) (expect : Expect) (cs : List Char) :
    Except Fault (List Char) :=
  match expect with
  | .value =>
    match _hd : dropBlank cs with
    | [] => .error .ended
    | c :: r =>
      if c = '[' then skipWithin (.array :: stack) .opening r
      else if c = '{' then skipWithin (.object :: stack) .opening r
      else
        match _hs : skipScalar (c :: r) with
        | .error f => .error f
        | .ok r => skipWithin stack .closing r
  | .member =>
    match _hd : dropBlank cs with
    | [] => .error .ended
    | c :: r =>
      if c = '"' then
        match _hs : skipName r with
        | .error f => .error f
        | .ok r => skipWithin stack .value r
      else .error .malformed
  | .opening =>
    match stack with
    | [] => .ok cs
    | b :: outer =>
      match _hd : dropBlank cs with
      | [] => .error .ended
      | c :: r =>
        if c = b.closing then skipWithin outer .closing r
        else skipWithin (b :: outer) b.element (c :: r)
  | .closing =>
    match stack with
    | [] => .ok cs
    | b :: outer =>
      match _hd : dropBlank cs with
      | [] => .error .ended
      | c :: r =>
        if c = b.closing then skipWithin outer .closing r
        else if c = ',' then skipWithin (b :: outer) b.element r
        else .error .malformed
termination_by 2 * cs.length + (if expect = .opening then 1 else 0)
decreasing_by
  all_goals have hd := length_lt_of_dropBlank _hd
  · simp
    omega
  · simp
    omega
  · have hs := length_lt_of_skipScalar _hs
    simp at hs ⊢
    omega
  · have hs := length_lt_of_skipName _hs
    simp
    omega
  · simp
    omega
  · cases b <;> simp [Bracket.element] <;> omega
  · simp
    omega
  · cases b <;> simp [Bracket.element] <;> omega

theorem length_le_of_skipWithin {stack : List Bracket} {expect : Expect} {cs r : List Char}
    (h : skipWithin stack expect cs = .ok r) : r.length ≤ cs.length := by
  fun_induction skipWithin stack expect cs <;> simp_all
  all_goals have hd := length_lt_of_dropBlank (by assumption)
  all_goals try have hs := length_lt_of_skipScalar (by assumption)
  all_goals try have hs := length_lt_of_skipName (by assumption)
  all_goals simp at *
  all_goals omega

/-- Skips one value with the blanks before it. -/
def skipValue (cs : List Char) : Except Fault (List Char) := skipWithin [] .value cs

end Wakeup.Json
