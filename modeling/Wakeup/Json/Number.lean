import Wakeup.Json.Fault

/-! JSON numbers: reading one as a whole number or else checking its range, and skipping one. -/
namespace Wakeup.Json

def digitValue (c : Char) : Nat := c.toNat - '0'.toNat

/-- A number without its sign. -/
structure Magnitude where
  significand : Nat
  exponent : Int
  /-- Written without fraction and exponent, and small enough for 64 bits. -/
  whole : Bool
  deriving DecidableEq, Repr

/-- The greatest significand that is kept. Digits past it only raise the exponent. -/
def significandBound : Nat := 18446744073709551615

/-- The greatest power of ten that an exponent may state. -/
def exponentBound : Nat := 2147483647

/-- Appends decimal digits to `n` while the value stays within `bound`. Answers the value, the
number of digits taken and what follows. -/
def takeDigits (bound n : Nat) : List Char → Nat × Nat × List Char
  | [] => (n, 0, [])
  | c :: cs =>
    if c.isDigit && n * 10 + digitValue c ≤ bound then
      let (m, count, r) := takeDigits bound (n * 10 + digitValue c) cs
      (m, count + 1, r)
    else (n, 0, c :: cs)

def startsWithDigit : List Char → Bool
  | [] => false
  | c :: _ => c.isDigit

def dropDigits (cs : List Char) : List Char := cs.dropWhile Char.isDigit

/-- Whether the nearest double is finite. -/
def inRange (significand : Nat) (exponent : Int) : Bool :=
  significand == 0 || exponent < 0 ||
    (exponent ≤ 308 &&
      !(Float.ofNat significand * Float.ofScientific 1 false exponent.toNat).isInf)

/-- The digits before the point, with the number of those that were not kept. -/
def readInteger : List Char → Except Fault (Nat × Nat × List Char)
  | [] => .error .ended
  | c :: cs =>
    if c = '0' then
      if startsWithDigit cs then .error .malformed else .ok (0, 0, cs)
    else if c.isDigit then
      let (n, _, r) := takeDigits significandBound 0 (c :: cs)
      .ok (n, (r.takeWhile Char.isDigit).length, dropDigits r)
    else .error .malformed

/-- The digits after the point, appended to a significand. -/
def readFraction (significand : Nat) (cs : List Char) : Except Fault (Nat × Int × List Char) :=
  match cs with
  | [] => .error .ended
  | c :: _ =>
    if c.isDigit then
      let (n, count, r) := takeDigits significandBound significand cs
      .ok (n, -count, dropDigits r)
    else .error .malformed

/-- The digits of an exponent, which are bounded unless they do not matter. -/
def readExponentDigits (significand : Nat) (negative : Bool) (cs : List Char) :
    Except Fault (Int × List Char) :=
  match cs with
  | [] => .error .ended
  | c :: _ =>
    if c.isDigit then
      let (n, _, r) := takeDigits exponentBound 0 cs
      if startsWithDigit r && significand != 0 && !negative then .error .malformed
      else .ok (if negative then -n else n, dropDigits r)
    else .error .malformed

/-- An exponent after its letter. -/
def readExponent (significand : Nat) : List Char → Except Fault (Int × List Char)
  | '+' :: cs => readExponentDigits significand false cs
  | '-' :: cs => readExponentDigits significand true cs
  | cs => readExponentDigits significand false cs

def isExponentMark (c : Char) : Bool := c == 'e' || c == 'E'

/-- The rest of a number from where an exponent may stand. -/
def readScale (significand : Nat) (exponent : Int) (whole : Bool) (cs : List Char) :
    Except Fault (Magnitude × List Char) :=
  match cs with
  | [] => close exponent whole cs
  | c :: r =>
    if isExponentMark c then
      match readExponent significand r with
      | .error f => .error f
      | .ok (e, r) => close (exponent + e) false r
    else close exponent whole cs
where
  close (exponent : Int) (whole : Bool) (r : List Char) : Except Fault (Magnitude × List Char) :=
    if whole || inRange significand exponent then .ok (⟨significand, exponent, whole⟩, r)
    else .error .malformed

/-- Reads a number from its first digit. -/
def readMagnitude (cs : List Char) : Except Fault (Magnitude × List Char) :=
  match readInteger cs with
  | .error f => .error f
  | .ok (n, extra, '.' :: r) =>
    match readFraction n r with
    | .error f => .error f
    | .ok (m, shift, r) => readScale m (extra + shift) false r
  | .ok (n, extra, r) => readScale n extra (extra == 0) r

/-- Skips digits of which there is at least one. -/
def skipDigits (cs : List Char) : Except Fault (List Char) :=
  if startsWithDigit cs then .ok (dropDigits cs) else .error .malformed

def skipExponent : List Char → Except Fault (List Char)
  | [] => .ok []
  | c :: cs =>
    if isExponentMark c then
      match cs with
      | '+' :: r => skipDigits r
      | '-' :: r => skipDigits r
      | r => skipDigits r
    else .ok (c :: cs)

def skipFraction : List Char → Except Fault (List Char)
  | '.' :: cs =>
    match skipDigits cs with
    | .error f => .error f
    | .ok r => skipExponent r
  | cs => skipExponent cs

/-- Skips a number from its first digit. One that breaks off is no JSON, even at the end. -/
def skipNumber : List Char → Except Fault (List Char)
  | '0' :: cs => if startsWithDigit cs then .error .malformed else skipFraction cs
  | cs =>
    match skipDigits cs with
    | .error f => .error f
    | .ok r => skipFraction r

theorem length_dropDigits_le (cs : List Char) : (dropDigits cs).length ≤ cs.length :=
  (List.dropWhile_suffix Char.isDigit).length_le

theorem length_lt_of_skipDigits {cs r : List Char} (h : skipDigits cs = .ok r) :
    r.length < cs.length := by
  simp only [skipDigits] at h
  split at h
  · rename_i hd
    match cs with
    | [] => simp [startsWithDigit] at hd
    | c :: cs =>
      have hc : c.isDigit = true := hd
      have : r = dropDigits cs := by
        simpa [dropDigits, List.dropWhile, hc] using h.symm
      subst this
      exact Nat.lt_succ_of_le (length_dropDigits_le cs)
  · simp at h

theorem length_le_of_skipExponent {cs r : List Char} (h : skipExponent cs = .ok r) :
    r.length ≤ cs.length := by
  simp only [skipExponent] at h
  split at h
  · simp_all
  · split at h
    · split at h <;> have := length_lt_of_skipDigits h <;> simp_all <;> omega
    · simp_all

theorem length_le_of_skipFraction {cs r : List Char} (h : skipFraction cs = .ok r) :
    r.length ≤ cs.length := by
  simp only [skipFraction] at h
  split at h
  · split at h
    · simp at h
    · rename_i hd
      have := length_lt_of_skipDigits hd
      have := length_le_of_skipExponent h
      simp
      omega
  · exact length_le_of_skipExponent h

theorem length_lt_of_skipNumber {cs r : List Char} (h : skipNumber cs = .ok r) :
    r.length < cs.length := by
  simp only [skipNumber] at h
  split at h
  · split at h
    · simp at h
    · have := length_le_of_skipFraction h
      simp
      omega
  · split at h
    · simp at h
    · rename_i hd
      have := length_lt_of_skipDigits hd
      have := length_le_of_skipFraction h
      omega

end Wakeup.Json
