import Wakeup.Json.Decode

/-! The grammar of JSON, and that skipping passes over one value of any depth exactly. -/
namespace Wakeup.Json

/-! ## Blanks -/

def Blanks (cs : List Char) : Prop := ∀ c ∈ cs, isBlank c = true

instance (cs : List Char) : Decidable (Blanks cs) :=
  decidable_of_iff (cs.all isBlank = true) List.all_eq_true

/-- What may follow a value: nothing, a blank, a comma or a closing bracket. -/
def Ends (r : List Char) : Prop := ∀ c ∈ r.head?, isBlank c = true ∨ c = ',' ∨ c = ']' ∨ c = '}'

theorem blanks_nil : Blanks [] := by simp [Blanks]

theorem dropBlank_append {ws : List Char} (h : Blanks ws) (r : List Char) :
    dropBlank (ws ++ r) = dropBlank r :=
  List.dropWhile_append_of_pos h

theorem dropBlank_cons {c : Char} (h : isBlank c = false) (r : List Char) :
    dropBlank (c :: r) = c :: r := by
  simp [dropBlank, h]

theorem dropBlank_blanks {ws : List Char} (h : Blanks ws) : dropBlank ws = [] := by
  simpa [dropBlank] using dropBlank_append h []

theorem dropBlank_bracketed {ws : List Char} (h : Blanks ws) {o : Char}
    (ho : isBlank o = false) (body : List Char) (c : Char) (r : List Char) :
    dropBlank (ws ++ (o :: (body ++ [c]) ++ r)) = o :: (body ++ c :: r) := by
  rw [dropBlank_append h, List.cons_append, dropBlank_cons ho, List.append_assoc]
  rfl

theorem readColon_spelled {ws : List Char} (h : Blanks ws) (r : List Char) :
    readColon (ws ++ ':' :: r) = .ok r := by
  simp [readColon, dropBlank_append h, dropBlank_cons (show isBlank ':' = false by decide)]

theorem ends_cons {c : Char} {r : List Char} (h : c = ',' ∨ c = ']' ∨ c = '}') :
    Ends (c :: r) := by
  intro d hd
  cases hd
  exact .inr h

theorem ends_blanks {ws r : List Char} (h : Blanks ws) (hr : Ends r) : Ends (ws ++ r) := by
  cases ws with
  | nil => exact hr
  | cons c ws =>
    intro d hd
    cases hd
    exact .inl (h c (by simp))

/-! ## Numbers -/

/-- Digits, of which there is at least one. -/
def Digits (cs : List Char) : Prop := cs ≠ [] ∧ ∀ c ∈ cs, c.isDigit = true

/-- The digits before the point, without a leading zero. -/
inductive IsInteger : List Char → Prop
  | zero : IsInteger ['0']
  | digits {ds : List Char} : Digits ds → ds.head? ≠ some '0' → IsInteger ds

inductive IsFraction : List Char → Prop
  | absent : IsFraction []
  | digits {ds : List Char} : Digits ds → IsFraction ('.' :: ds)

inductive IsExponent : List Char → Prop
  | absent : IsExponent []
  | digits {mark : Char} {sign ds : List Char} : isExponentMark mark = true →
      sign = [] ∨ sign = ['+'] ∨ sign = ['-'] → Digits ds → IsExponent (mark :: (sign ++ ds))

/-- A number without its sign. -/
inductive IsMagnitude : List Char → Prop
  | parts {i f e : List Char} : IsInteger i → IsFraction f → IsExponent e →
      IsMagnitude (i ++ f ++ e)

theorem Digits.head {ds : List Char} (h : Digits ds) :
    ∃ d t, ds = d :: t ∧ d.isDigit = true := by
  cases ds with
  | nil => exact absurd rfl h.1
  | cons d t => exact ⟨d, t, rfl, h.2 d (by simp)⟩

theorem skipDigits_spelled {ds r : List Char} (h : Digits ds)
    (hr : startsWithDigit r = false) : skipDigits (ds ++ r) = .ok r := by
  obtain ⟨d, t, rfl, hd⟩ := h.head
  have rest : dropDigits r = r := by
    cases r with
    | nil => rfl
    | cons c r =>
      have hc : c.isDigit = false := hr
      simp [dropDigits, hc]
  have all : dropDigits (d :: t ++ r) = dropDigits r := List.dropWhile_append_of_pos h.2
  simp only [skipDigits, List.cons_append, startsWithDigit, hd, if_true]
  rw [← List.cons_append, all, rest]

/-- What ends a value belongs to no number. -/
theorem Ends.head {c : Char} {r : List Char} (h : Ends (c :: r)) :
    c.isDigit = false ∧ c ≠ '.' ∧ isExponentMark c = false := by
  have hc := h c rfl
  simp only [isBlank, Bool.or_eq_true, beq_iff_eq] at hc
  rcases hc with ((((rfl | rfl) | rfl) | rfl) | rfl | rfl | rfl) <;> decide

theorem Ends.startsWithDigit {r : List Char} (h : Ends r) : startsWithDigit r = false := by
  cases r with
  | nil => rfl
  | cons c r => exact h.head.1

private theorem skipExponent_spelled {e r : List Char} (h : IsExponent e) (hr : Ends r) :
    skipExponent (e ++ r) = .ok r := by
  cases h with
  | absent =>
    cases r with
    | nil => rfl
    | cons c r => simp [skipExponent, hr.head.2.2]
  | @digits mark sign ds hm hs hd =>
    have skipped := skipDigits_spelled hd hr.startsWithDigit
    rcases hs with rfl | rfl | rfl
    · obtain ⟨d, t, rfl, hdig⟩ := hd.head
      simp only [skipExponent, List.nil_append, List.cons_append, hm, if_true]
      split
      · simp_all
      · simp_all
      · exact skipped
    · simpa [skipExponent, hm] using skipped
    · simpa [skipExponent, hm] using skipped

theorem startsWithDigit_exponent {e r : List Char} (he : IsExponent e) (hr : Ends r) :
    startsWithDigit (e ++ r) = false := by
  cases he with
  | absent => exact hr.startsWithDigit
  | digits hm =>
    simp only [isExponentMark, Bool.or_eq_true, beq_iff_eq] at hm
    rcases hm with rfl | rfl <;> rfl

private theorem startsWithDigit_fraction {f e r : List Char} (hf : IsFraction f) (he : IsExponent e)
    (hr : Ends r) : startsWithDigit (f ++ (e ++ r)) = false := by
  cases hf with
  | absent => simpa using startsWithDigit_exponent he hr
  | digits => rfl

private theorem skipFraction_spelled {f e r : List Char} (hf : IsFraction f) (he : IsExponent e)
    (hr : Ends r) : skipFraction (f ++ (e ++ r)) = .ok r := by
  have rest := skipExponent_spelled he hr
  cases hf with
  | absent =>
    rw [List.nil_append]
    unfold skipFraction
    split
    · -- No point: neither an exponent nor what ends a value starts with one.
      rename_i cs heq
      cases he with
      | absent =>
        cases heq
        exact absurd rfl hr.head.2.1
      | digits hm =>
        cases heq
        exact absurd hm (by decide)
    · exact rest
  | digits hd => simp [skipFraction, skipDigits_spelled hd (startsWithDigit_exponent he hr), rest]

private theorem skipNumber_spelled {n r : List Char} (h : IsMagnitude n) (hr : Ends r) :
    skipNumber (n ++ r) = .ok r := by
  obtain @⟨i, f, e, hi, hf, he⟩ := h
  have rest := skipFraction_spelled hf he hr
  have noDigit := startsWithDigit_fraction hf he hr
  rw [List.append_assoc, List.append_assoc]
  cases hi with
  | zero => simp [skipNumber, noDigit, rest]
  | digits hd hz =>
    have skipped := skipDigits_spelled hd noDigit
    obtain ⟨d, t, rfl, -⟩ := hd.head
    unfold skipNumber
    split
    · simp_all
    · rw [skipped]
      exact rest

/-! ## Strings -/

/-- Four hexadecimal digits and the number that they state. -/
inductive Hex : Nat → List Char → Prop
  | digits {a b c d : Char} {i j k l : Nat} : hexValue? a = some i → hexValue? b = some j →
      hexValue? c = some k → hexValue? d = some l →
      Hex (((i * 16 + j) * 16 + k) * 16 + l) [a, b, c, d]

/-- The characters that are escaped by a letter, after their letters. -/
def letters : List (Char × Char) :=
  [('"', '"'), ('\\', '\\'), ('/', '/'), ('b', '\x08'), ('f', '\x0c'), ('n', '\n'), ('r', '\r'),
    ('t', '\t')]

/-- Whether a character may stand in a string without an escape. -/
def isPlain (c : Char) : Bool := c != '"' && c != '\\' && 0x20 ≤ c.toNat

/-- `Spells strict c p` when `p` stands for the character `c` in a string. Where `strict` holds,
the halves of a surrogate pair only stand for a character together. Elsewhere each half may stand
alone, for no character in particular. -/
inductive Spells (strict : Bool) : Char → List Char → Prop
  | plain {c : Char} : isPlain c = true → Spells strict c [c]
  | letter {l c : Char} : (l, c) ∈ letters → Spells strict c ['\\', l]
  | numbered {n : Nat} {ds : List Char} : Hex n ds →
      (strict = true → isHighSurrogate n = false ∧ isLowSurrogate n = false) →
      Spells strict (Char.ofNat n) ('\\' :: 'u' :: ds)
  | pair {high low : Nat} {ds es : List Char} : strict = true → Hex high ds → Hex low es →
      isHighSurrogate high = true → isLowSurrogate low = true →
      Spells strict (Char.ofNat (0x10000 + (high - 0xD800) * 0x400 + (low - 0xDC00)))
        ('\\' :: 'u' :: (ds ++ '\\' :: 'u' :: es))

/-- `SpellsText strict s body` when `body` stands for the characters `s` between two quotes. -/
inductive SpellsText (strict : Bool) : List Char → List Char → Prop
  | nil : SpellsText strict [] []
  | cons {c : Char} {s p body : List Char} : Spells strict c p → SpellsText strict s body →
      SpellsText strict (c :: s) (p ++ body)

/-- Characters that need no escape stand for themselves. -/
theorem spellsText_plain {strict : Bool} {s : List Char} (h : s.all isPlain = true) :
    SpellsText strict s s := by
  induction s with
  | nil => exact .nil
  | cons c s ih =>
    rw [List.all_cons, Bool.and_eq_true] at h
    exact .cons (.plain h.1) (ih h.2)

private theorem readHex_spelled {n : Nat} {ds : List Char} (h : Hex n ds) (r : List Char) :
    readHex (ds ++ r) = .ok (n, r) := by
  obtain ⟨ha, hb, hc, hd⟩ := h
  simp [readHex, ha, hb, hc, hd]

private theorem isLowSurrogate_of_high {n : Nat} (h : isHighSurrogate n = true) :
    isLowSurrogate n = false := by
  simp only [isHighSurrogate, isLowSurrogate, Bool.and_eq_true, decide_eq_true_eq,
    Bool.and_eq_false_iff, decide_eq_false_iff_not] at h ⊢
  omega

private theorem readPiece_spelled {strict : Bool} {c : Char} {p : List Char} (h : Spells strict c p)
    (r : List Char) : readPiece strict (p ++ r) = .ok (some c, r) := by
  cases h with
  | plain hc =>
    simp only [isPlain, Bool.and_eq_true, bne_iff_ne, decide_eq_true_eq] at hc
    have control : ¬ c.toNat < 0x20 := by omega
    simp [readPiece, hc.1.1, hc.1.2, control]
  | letter hl =>
    simp only [letters, List.mem_cons, Prod.mk.injEq, List.not_mem_nil, or_false] at hl
    rcases hl with ⟨rfl, rfl⟩ | ⟨rfl, rfl⟩ | ⟨rfl, rfl⟩ | ⟨rfl, rfl⟩ | ⟨rfl, rfl⟩ | ⟨rfl, rfl⟩ |
      ⟨rfl, rfl⟩ | ⟨rfl, rfl⟩ <;> rfl
  | numbered hn hs =>
    cases strict with
    | false => simp [readPiece, readEscape, readNumbered, readHex_spelled hn]
    | true => simp [readPiece, readEscape, readNumbered, readHex_spelled hn, hs rfl]
  | pair hs hh hl high low =>
    simp [readPiece, readEscape, readNumbered, readLowSurrogate, readHex_spelled hh,
      readHex_spelled hl, hs, high, low, isLowSurrogate_of_high high]

theorem readTextAfter_spelled {strict : Bool} {s body : List Char}
    (h : SpellsText strict s body) (acc r : List Char) :
    readTextAfter strict acc (body ++ '"' :: r) = .ok (acc.reverse ++ s, r) := by
  induction h generalizing acc with
  | nil =>
    have closed : readPiece strict ('"' :: r) = .ok (none, r) := rfl
    rw [readTextAfter]
    split <;> simp_all
  | @cons c s p body hp _ ih =>
    have step := readPiece_spelled hp (body ++ '"' :: r)
    rw [List.append_assoc, readTextAfter]
    split <;> simp_all

theorem skipText_spelled {s body : List Char} (h : SpellsText false s body) (r : List Char) :
    skipText (body ++ '"' :: r) = .ok r := by
  simp [skipText, readTextAfter_spelled h]

/-! ## Values -/

/-- A value between its blanks. -/
structure Item where
  before : List Char
  value : List Char
  after : List Char

def Item.text (x : Item) : List Char := x.before ++ (x.value ++ x.after)

/-- A member of an object. Its `name` stands for the characters of its `key`. -/
structure Member where
  before : List Char
  key : List Char
  name : List Char
  colon : List Char
  item : Item

/-- A member after the opening quote of its name. -/
def Member.tail (m : Member) : List Char := m.name ++ '"' :: (m.colon ++ ':' :: m.item.text)

def Member.text (m : Member) : List Char := m.before ++ '"' :: m.tail

def Item.Spaced (x : Item) : Prop := Blanks x.before ∧ Blanks x.after

structure Member.Spelled (strict : Bool) (m : Member) : Prop where
  before : Blanks m.before
  name : SpellsText strict m.key m.name
  colon : Blanks m.colon
  item : m.item.Spaced

/-- `Encloses es body` when `body` holds the texts `es` between two brackets. -/
inductive Encloses : List (List Char) → List Char → Prop
  | nothing {ws : List Char} : Blanks ws → Encloses [] ws
  | one (e : List Char) : Encloses [e] e
  | more (e : List Char) {f body : List Char} {es : List (List Char)} :
      Encloses (f :: es) body → Encloses (e :: f :: es) (e ++ ',' :: body)

/-- The word for a truth value. -/
def boolWord (b : Bool) : List Char := if b then "true".toList else "false".toList

/-- Words, numbers and strings. -/
inductive IsScalar : List Char → Prop
  | null : IsScalar "null".toList
  | bool (b : Bool) : IsScalar (boolWord b)
  | number {n : List Char} : IsMagnitude n → IsScalar n
  | negative {n : List Char} : IsMagnitude n → IsScalar ('-' :: n)
  | string {s body : List Char} : SpellsText false s body → IsScalar ('"' :: (body ++ ['"']))

inductive IsValue : List Char → Prop
  | scalar {v : List Char} : IsScalar v → IsValue v
  | array {xs : List Item} {body : List Char} : (∀ x ∈ xs, x.Spaced) →
      (∀ x ∈ xs, IsValue x.value) → Encloses (xs.map Item.text) body →
      IsValue ('[' :: (body ++ [']']))
  | object {ms : List Member} {body : List Char} : (∀ m ∈ ms, m.Spelled false) →
      (∀ m ∈ ms, IsValue m.item.value) → Encloses (ms.map Member.text) body →
      IsValue ('{' :: (body ++ ['}']))

/-- An array of the elements `xs`. -/
structure IsArray (xs : List Item) (v : List Char) : Prop where
  spaced : ∀ x ∈ xs, x.Spaced
  values : ∀ x ∈ xs, IsValue x.value
  text : ∃ body, Encloses (xs.map Item.text) body ∧ v = '[' :: (body ++ [']'])

/-- An object of the members `ms`, the names of which all stand for characters. -/
structure IsObject (ms : List Member) (v : List Char) : Prop where
  spelled : ∀ m ∈ ms, m.Spelled true
  values : ∀ m ∈ ms, IsValue m.item.value
  text : ∃ body, Encloses (ms.map Member.text) body ∧ v = '{' :: (body ++ ['}'])

theorem IsMagnitude.head {n : List Char} (h : IsMagnitude n) :
    ∃ d t, n = d :: t ∧ d.isDigit = true := by
  obtain @⟨i, f, e, hi, hf, he⟩ := h
  cases hi with
  | zero => exact ⟨_, _, rfl, rfl⟩
  | digits hd =>
    obtain ⟨d, t, rfl, hdig⟩ := hd.head
    exact ⟨d, _, rfl, hdig⟩

/-- What a word, number or string may start with. -/
def startsScalar (c : Char) : Bool :=
  c == 'n' || c == 't' || c == 'f' || c == '"' || c == '-' || c.isDigit

theorem IsScalar.head {v : List Char} (h : IsScalar v) :
    ∃ c t, v = c :: t ∧ startsScalar c = true := by
  cases h with
  | null => exact ⟨_, _, rfl, rfl⟩
  | bool b => cases b <;> exact ⟨_, _, rfl, rfl⟩
  | number hn =>
    obtain ⟨d, t, rfl, hd⟩ := hn.head
    exact ⟨d, t, rfl, by simp [startsScalar, hd]⟩
  | negative => exact ⟨_, _, rfl, rfl⟩
  | string => exact ⟨_, _, rfl, rfl⟩

theorem startsScalar_ne {c : Char} (h : startsScalar c = true) :
    isBlank c = false ∧ c ≠ '[' ∧ c ≠ '{' ∧ c ≠ ']' ∧ c ≠ '}' := by
  have others : [' ', '\t', '\n', '\r', '[', '{', ']', '}'].all (fun d => !startsScalar d) := by
    decide
  have hc : c ∉ [' ', '\t', '\n', '\r', '[', '{', ']', '}'] := by
    intro hm
    simpa [h] using List.all_eq_true.1 others c hm
  simpa [isBlank, and_assoc] using hc

/-- What starts a value ends none. -/
theorem IsValue.head {v : List Char} (h : IsValue v) :
    ∃ c t, v = c :: t ∧ isBlank c = false ∧ c ≠ ']' ∧ c ≠ '}' := by
  cases h with
  | scalar hv =>
    obtain ⟨c, t, rfl, hc⟩ := hv.head
    exact ⟨c, t, rfl, (startsScalar_ne hc).1, (startsScalar_ne hc).2.2.2⟩
  | array => exact ⟨_, _, rfl, by decide⟩
  | object => exact ⟨_, _, rfl, by decide⟩

/-! ## Skipping -/

private theorem skipScalar_digit {c : Char} (h : c.isDigit = true) (r : List Char) :
    skipScalar (c :: r) = skipNumber (c :: r) := by
  have hne : c ≠ 'n' ∧ c ≠ 't' ∧ c ≠ 'f' ∧ c ≠ '"' ∧ c ≠ '-' := by
    refine ⟨?_, ?_, ?_, ?_, ?_⟩ <;> rintro rfl <;> revert h <;> decide
  unfold skipScalar
  split <;> simp_all

private theorem skipScalar_spelled {v r : List Char} (h : IsScalar v) (hr : Ends r) :
    skipScalar (v ++ r) = .ok r := by
  cases h with
  | null => simp [skipScalar, readWord]
  | bool b => cases b <;> simp [boolWord, skipScalar, readWord]
  | number hn =>
    have skipped := skipNumber_spelled hn hr
    obtain ⟨d, t, rfl, hd⟩ := hn.head
    exact (skipScalar_digit hd _).trans skipped
  | negative hn => exact skipNumber_spelled hn hr
  | string hs => simpa [skipScalar] using skipText_spelled hs r

section Equations
variable {stack : List Bracket} {b : Bracket} {cs r t : List Char} {c : Char}

private theorem skipWithin_scalar (hd : dropBlank cs = c :: t) (hc : startsScalar c = true)
    (hs : skipScalar (c :: t) = .ok r) :
    skipWithin stack .value cs = skipWithin stack .closing r := by
  have hne := startsScalar_ne hc
  rw [skipWithin]
  split
  · simp_all
  · rename_i heq
    cases hd.symm.trans heq
    simp only [hne.2.1, hne.2.2.1, if_false]
    split <;> simp_all

private theorem skipWithin_array (hd : dropBlank cs = '[' :: t) :
    skipWithin stack .value cs = skipWithin (.array :: stack) .opening t := by
  rw [skipWithin]
  split <;> simp_all

private theorem skipWithin_object (hd : dropBlank cs = '{' :: t) :
    skipWithin stack .value cs = skipWithin (.object :: stack) .opening t := by
  rw [skipWithin]
  split <;> simp_all

private theorem skipWithin_member (hd : dropBlank cs = '"' :: t) (hn : skipName t = .ok r) :
    skipWithin stack .member cs = skipWithin stack .value r := by
  conv => lhs; rw [skipWithin]
  split
  · simp_all
  · rename_i heq
    cases hd.symm.trans heq
    simp only [if_true]
    split <;> simp_all

private theorem skipWithin_opened (hd : dropBlank cs = b.closing :: t) :
    skipWithin (b :: stack) .opening cs = skipWithin stack .closing t := by
  rw [skipWithin]
  split <;> simp_all

theorem skipWithin_first (hd : dropBlank cs = c :: t) (hc : c ≠ b.closing) :
    skipWithin (b :: stack) .opening cs = skipWithin (b :: stack) b.element (c :: t) := by
  rw [skipWithin]
  split <;> simp_all

theorem skipWithin_closing :
    skipWithin (b :: stack) .closing cs =
      match dropBlank cs with
      | [] => .error .ended
      | c :: r =>
        if c = b.closing then skipWithin stack .closing r
        else if c = ',' then skipWithin (b :: stack) b.element r
        else .error .malformed := by
  rw [skipWithin]
  split <;> simp_all

private theorem skipWithin_closed (hd : dropBlank cs = b.closing :: t) :
    skipWithin (b :: stack) .closing cs = skipWithin stack .closing t := by
  simp [skipWithin_closing, hd]

private theorem skipWithin_comma (hd : dropBlank cs = ',' :: t) :
    skipWithin (b :: stack) .closing cs = skipWithin (b :: stack) b.element t := by
  cases b <;> simp [skipWithin_closing, hd, Bracket.closing]

theorem skipWithin_blanks {ws : List Char} (h : Blanks ws) (r : List Char) :
    skipWithin (b :: stack) .closing (ws ++ r) = skipWithin (b :: stack) .closing r := by
  rw [skipWithin_closing, dropBlank_append h, ← skipWithin_closing]

end Equations

/-- Skipping passes over `v` wherever a value may stand. -/
def Passed (v : List Char) : Prop :=
  ∀ (stack : List Bracket) (ws r : List Char), Blanks ws → Ends r →
    skipWithin stack .value (ws ++ (v ++ r)) = skipWithin stack .closing r

/-- Skipping passes over `e` between brackets of the kind `b`, as a first or a further element. -/
def PassedIn (b : Bracket) (e : List Char) : Prop :=
  ∀ (stack : List Bracket) (expect : Expect) (r : List Char),
    expect = .opening ∨ expect = b.element → Ends r →
    skipWithin (b :: stack) expect (e ++ r) = skipWithin (b :: stack) .closing r

private theorem Item.passed {x : Item} (hs : x.Spaced) (hv : IsValue x.value)
    (hp : Passed x.value) : PassedIn .array x.text := by
  intro stack expect r hexpect hr
  have hr' := ends_blanks hs.2 hr
  obtain ⟨c, t, hct, hc, hclose, -⟩ := hv.head
  simp only [Item.text, List.append_assoc]
  rcases hexpect with rfl | rfl
  · have hd : dropBlank (x.before ++ (x.value ++ (x.after ++ r))) = c :: (t ++ (x.after ++ r)) := by
      rw [dropBlank_append hs.1, hct, List.cons_append, dropBlank_cons hc]
    have value := hp (.array :: stack) [] _ blanks_nil hr'
    rw [hct] at value
    rw [skipWithin_first (b := .array) hd hclose]
    exact value.trans (skipWithin_blanks hs.2 r)
  · exact (hp (.array :: stack) _ _ hs.1 hr').trans (skipWithin_blanks hs.2 r)

private theorem Member.passed {m : Member} (hs : m.Spelled false) (hp : Passed m.item.value) :
    PassedIn .object m.text := by
  intro stack expect r hexpect hr
  have hd : dropBlank (m.text ++ r) = '"' :: (m.tail ++ r) := by
    simp only [Member.text, List.append_assoc, List.cons_append]
    rw [dropBlank_append hs.before, dropBlank_cons (by decide)]
  have named : skipName (m.tail ++ r) = .ok (m.item.text ++ r) := by
    simp only [Member.tail, List.append_assoc, List.cons_append, skipName,
      skipText_spelled hs.name, readColon_spelled hs.colon]
  have value : skipWithin (.object :: stack) .value (m.item.text ++ r) =
      skipWithin (.object :: stack) .closing r := by
    simp only [Item.text, List.append_assoc]
    exact (hp _ _ _ hs.item.1 (ends_blanks hs.item.2 hr)).trans (skipWithin_blanks hs.item.2 r)
  rcases hexpect with rfl | rfl
  · rw [skipWithin_first hd (by decide)]
    exact (skipWithin_member (dropBlank_cons (by decide) _) named).trans value
  · exact (skipWithin_member hd named).trans value

private theorem ends_closing (b : Bracket) (r : List Char) : Ends (b.closing :: r) := by
  cases b <;> exact ends_cons (by decide)

theorem isBlank_closing (b : Bracket) : isBlank b.closing = false := by
  cases b <;> decide

/-- Elements after which a bracket closes. -/
theorem skipWithin_elements {b : Bracket} {es : List (List Char)} {body : List Char}
    (h : Encloses es body) (hne : es ≠ []) (hp : ∀ e ∈ es, PassedIn b e)
    {stack : List Bracket} {expect : Expect} (hexpect : expect = .opening ∨ expect = b.element)
    (r : List Char) :
    skipWithin (b :: stack) expect (body ++ b.closing :: r) = skipWithin stack .closing r := by
  induction h generalizing expect with
  | nothing => exact absurd rfl hne
  | one e =>
    rw [hp e (by simp) stack expect _ hexpect (ends_closing b r)]
    exact skipWithin_closed (dropBlank_cons (isBlank_closing b) r)
  | @more e f body es _ ih =>
    rw [List.append_assoc, List.cons_append,
      hp e (by simp) stack expect _ hexpect (ends_cons (.inl rfl)),
      skipWithin_comma (dropBlank_cons (by decide) _)]
    exact ih (by simp) (fun e he => hp e (List.mem_cons_of_mem _ he)) (.inr rfl)

private theorem skipWithin_enclosed {b : Bracket} {es : List (List Char)} {body : List Char}
    (h : Encloses es body) (hp : ∀ e ∈ es, PassedIn b e) (stack : List Bracket) (r : List Char) :
    skipWithin (b :: stack) .opening (body ++ b.closing :: r) = skipWithin stack .closing r := by
  cases es with
  | nil =>
    cases h with
    | nothing hb =>
      refine skipWithin_opened ?_
      rw [dropBlank_append hb, dropBlank_cons (isBlank_closing b)]
  | cons e es => exact skipWithin_elements h (by simp) hp (.inl rfl) r

/-- Skipping passes over a value of any depth. -/
theorem IsValue.passed {v : List Char} (h : IsValue v) : Passed v := by
  induction h with
  | @scalar v hv =>
    intro stack ws r hws hr
    obtain ⟨c, t, rfl, hc⟩ := hv.head
    refine skipWithin_scalar (c := c) (t := t ++ r) ?_ hc (skipScalar_spelled hv hr)
    rw [dropBlank_append hws, List.cons_append, dropBlank_cons (startsScalar_ne hc).1]
  | @array xs body hs hv he ih =>
    intro stack ws r hws hr
    have passed : ∀ e ∈ xs.map Item.text, PassedIn .array e := by
      intro e he
      obtain ⟨x, hx, rfl⟩ := List.mem_map.1 he
      exact Item.passed (hs x hx) (hv x hx) (ih x hx)
    exact (skipWithin_array (dropBlank_bracketed hws (by decide) body _ r)).trans
      (skipWithin_enclosed he passed stack r)
  | @object ms body hs hv he ih =>
    intro stack ws r hws hr
    have passed : ∀ e ∈ ms.map Member.text, PassedIn .object e := by
      intro e he
      obtain ⟨m, hm, rfl⟩ := List.mem_map.1 he
      exact Member.passed (hs m hm) (ih m hm)
    exact (skipWithin_object (dropBlank_bracketed hws (by decide) body _ r)).trans
      (skipWithin_enclosed he passed stack r)

theorem skipValue_spelled {v ws r : List Char} (h : IsValue v) (hws : Blanks ws) (hr : Ends r) :
    skipValue (ws ++ (v ++ r)) = .ok r := by
  rw [skipValue, h.passed [] ws r hws hr, skipWithin]

end Wakeup.Json
