import Wakeup.Json.Fault
import Wakeup.Total

/-! JSON strings, which are read after their opening quote. A string that is read must hold
characters only, so halves of surrogate pairs must stand together; in one that is skipped they may
stand alone. A string is written with as few escapes as possible, and reads back. -/
namespace Wakeup.Json

def hexValue? (c : Char) : Option Nat :=
  if c.isDigit then some (c.toNat - '0'.toNat)
  else if 'a' ≤ c ∧ c ≤ 'f' then some (c.toNat - 'a'.toNat + 10)
  else if 'A' ≤ c ∧ c ≤ 'F' then some (c.toNat - 'A'.toNat + 10)
  else none

/-- Four hexadecimal digits. The text breaks off here if fewer than four bytes of it are left. -/
def readHex : List Char → Except Fault (Nat × List Char)
  | a :: b :: c :: d :: r =>
    match hexValue? a, hexValue? b, hexValue? c, hexValue? d with
    | some a, some b, some c, some d => .ok (((a * 16 + b) * 16 + c) * 16 + d, r)
    | _, _, _, _ => .error .malformed
  | cs => if total Char.utf8Size cs < 4 then .error .ended else .error .malformed

def isHighSurrogate (n : Nat) : Bool := 0xD800 ≤ n && n ≤ 0xDBFF

def isLowSurrogate (n : Nat) : Bool := 0xDC00 ≤ n && n ≤ 0xDFFF

/-- The second half of a surrogate pair, from its backslash. -/
def readLowSurrogate (high : Nat) : List Char → Except Fault (Char × List Char)
  | [] => .error .ended
  | '\\' :: [] => .error .ended
  | '\\' :: 'u' :: r =>
    match readHex r with
    | .error f => .error f
    | .ok (low, r) =>
      if isLowSurrogate low then
        .ok (Char.ofNat (0x10000 + (high - 0xD800) * 0x400 + (low - 0xDC00)), r)
      else .error .malformed
  | _ => .error .malformed

/-- A character given by its number, after the letter `u`. -/
def readNumbered (strict : Bool) (cs : List Char) : Except Fault (Char × List Char) :=
  match readHex cs with
  | .error f => .error f
  | .ok (n, r) =>
    if strict && isLowSurrogate n then .error .malformed
    else if strict && isHighSurrogate n then readLowSurrogate n r
    else .ok (Char.ofNat n, r)

/-- An escaped character after its backslash. -/
def readEscape (strict : Bool) : List Char → Except Fault (Char × List Char)
  | [] => .error .ended
  | c :: r =>
    if c = '"' || c = '\\' || c = '/' then .ok (c, r)
    else if c = 'b' then .ok ('\x08', r)
    else if c = 'f' then .ok ('\x0c', r)
    else if c = 'n' then .ok ('\n', r)
    else if c = 'r' then .ok ('\r', r)
    else if c = 't' then .ok ('\t', r)
    else if c = 'u' then readNumbered strict r
    else .error .malformed

/-- The next character of a string, or `none` for the closing quote. -/
def readPiece (strict : Bool) : List Char → Except Fault (Option Char × List Char)
  | [] => .error .ended
  | c :: r =>
    if c = '"' then .ok (none, r)
    else if c = '\\' then
      match readEscape strict r with
      | .error f => .error f
      | .ok (c, r) => .ok (some c, r)
    else if c.toNat < 0x20 then .error .malformed
    else .ok (some c, r)

theorem length_lt_of_readHex {cs r : List Char} {n : Nat} (h : readHex cs = .ok (n, r)) :
    r.length < cs.length := by
  simp only [readHex] at h
  split at h
  · split at h
    · simp only [Except.ok.injEq, Prod.mk.injEq] at h
      simp [← h.2]
      omega
    · simp at h
  · split at h <;> simp at h

theorem length_lt_of_readLowSurrogate {high : Nat} {cs r : List Char} {c : Char}
    (h : readLowSurrogate high cs = .ok (c, r)) : r.length < cs.length := by
  simp only [readLowSurrogate] at h
  split at h
  · simp at h
  · simp at h
  · split at h
    · simp at h
    · rename_i hr
      have := length_lt_of_readHex hr
      split at h
      · simp only [Except.ok.injEq, Prod.mk.injEq] at h
        simp [← h.2]
        omega
      · simp at h
  · simp at h

theorem length_lt_of_readNumbered {strict : Bool} {cs r : List Char} {c : Char}
    (h : readNumbered strict cs = .ok (c, r)) : r.length < cs.length := by
  simp only [readNumbered] at h
  split at h
  · simp at h
  · rename_i hr
    have := length_lt_of_readHex hr
    split at h
    · simp at h
    · split at h
      · have := length_lt_of_readLowSurrogate h
        omega
      · simp only [Except.ok.injEq, Prod.mk.injEq] at h
        simp [← h.2, this]

theorem length_lt_of_readEscape {strict : Bool} {cs r : List Char} {c : Char}
    (h : readEscape strict cs = .ok (c, r)) : r.length < cs.length := by
  match cs with
  | [] => simp [readEscape] at h
  | d :: cs =>
    simp only [readEscape] at h
    by_cases hu : d = 'u'
    · subst hu
      have := length_lt_of_readNumbered (by simpa using h)
      simp
      omega
    · simp only [hu, if_false] at h
      repeat' split at h
      all_goals simp_all

theorem length_lt_of_readPiece {strict : Bool} {cs r : List Char} {c : Option Char}
    (h : readPiece strict cs = .ok (c, r)) : r.length < cs.length := by
  match cs with
  | [] => simp [readPiece] at h
  | d :: cs =>
    simp only [readPiece] at h
    split at h
    · simp_all
    · split at h
      · split at h
        · simp at h
        · rename_i hr
          have := length_lt_of_readEscape hr
          simp only [Except.ok.injEq, Prod.mk.injEq] at h
          simp [← h.2]
          omega
      · split at h <;> simp_all

/-- The characters up to the closing quote, after those in `acc`, which come in reverse. -/
def readTextAfter (strict : Bool) (acc cs : List Char) : Except Fault (List Char × List Char) :=
  match _h : readPiece strict cs with
  | .error f => .error f
  | .ok (none, r) => .ok (acc.reverse, r)
  | .ok (some c, r) => readTextAfter strict (c :: acc) r
termination_by cs.length
decreasing_by exact length_lt_of_readPiece (by assumption)

/-- Reads a string that holds characters only. -/
def readText (cs : List Char) : Except Fault (List Char × List Char) := readTextAfter true [] cs

/-- Skips a string. -/
def skipText (cs : List Char) : Except Fault (List Char) :=
  match readTextAfter false [] cs with
  | .error f => .error f
  | .ok (_, r) => .ok r

/-- A character as it is written in a string. Only quotes, backslashes and control characters are
escaped, those without a letter of their own by their number. -/
def writePiece (c : Char) : List Char :=
  if c = '"' then ['\\', '"']
  else if c = '\\' then ['\\', '\\']
  else if c = '\x08' then ['\\', 'b']
  else if c = '\x0c' then ['\\', 'f']
  else if c = '\n' then ['\\', 'n']
  else if c = '\r' then ['\\', 'r']
  else if c = '\t' then ['\\', 't']
  else if c.toNat < 0x20 then
    ['\\', 'u', '0', '0', Nat.digitChar (c.toNat / 16), Nat.digitChar (c.toNat % 16)]
  else [c]

/-- Writes a string in quotes. -/
def quote (s : String) : String :=
  String.ofList ('"' :: s.toList.flatMap writePiece ++ ['"'])

theorem length_lt_of_readTextAfter {strict : Bool} {acc cs t r : List Char}
    (h : readTextAfter strict acc cs = .ok (t, r)) : r.length < cs.length := by
  fun_induction readTextAfter strict acc cs with
  | case1 => simp at h
  | case2 acc cs r' hp =>
    have := length_lt_of_readPiece hp
    simp_all
  | case3 acc cs c r' hp ih =>
    have := length_lt_of_readPiece hp
    have := ih h
    omega

theorem length_lt_of_readText {cs t r : List Char} (h : readText cs = .ok (t, r)) :
    r.length < cs.length := length_lt_of_readTextAfter h

theorem length_lt_of_skipText {cs r : List Char} (h : skipText cs = .ok r) :
    r.length < cs.length := by
  simp only [skipText] at h
  split at h
  · simp at h
  · rename_i hr
    cases h
    exact length_lt_of_readTextAfter hr

theorem readHex_digitChar {n : Nat} (h : n < 0x20) (r : List Char) :
    readHex ('0' :: '0' :: Nat.digitChar (n / 16) :: Nat.digitChar (n % 16) :: r) =
      .ok (n, r) := by
  have hex : ∀ n < 0x20, hexValue? (Nat.digitChar (n / 16)) = some (n / 16) ∧
      hexValue? (Nat.digitChar (n % 16)) = some (n % 16) := by decide
  have zero : hexValue? '0' = some 0 := by decide
  simp only [readHex, zero, (hex n h).1, (hex n h).2]
  congr 2
  omega

theorem readPiece_writePiece (strict : Bool) (c : Char) (r : List Char) :
    readPiece strict (writePiece c ++ r) = .ok (some c, r) := by
  unfold writePiece
  repeat' split
  any_goals (subst_vars; rfl)
  · rename_i h
    have surrogates : isLowSurrogate c.toNat = false ∧ isHighSurrogate c.toNat = false := by
      simp only [isLowSurrogate, isHighSurrogate, Bool.and_eq_false_iff, decide_eq_false_iff_not]
      omega
    simp [readPiece, readEscape, readNumbered, readHex_digitChar h, surrogates]
  · simp_all [readPiece]

/-- What is written reads back. -/
theorem readTextAfter_write (strict : Bool) (acc s r : List Char) :
    readTextAfter strict acc (s.flatMap writePiece ++ '"' :: r) = .ok (acc.reverse ++ s, r) := by
  induction s generalizing acc with
  | nil =>
    have closed : readPiece strict ('"' :: r) = .ok (none, r) := rfl
    rw [readTextAfter]
    split <;> simp_all
  | cons c s ih =>
    have step := readPiece_writePiece strict c (s.flatMap writePiece ++ '"' :: r)
    rw [List.flatMap_cons, List.append_assoc, readTextAfter]
    split <;> simp_all

end Wakeup.Json
