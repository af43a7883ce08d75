import Mathlib.Data.List.DropRight
import Wakeup.Proofs.Recognition

/-! Whole numbers in decimal notation, and which JSON texts stand for a mask. -/
namespace Wakeup.Json

/-! ## Notation and value -/

theorem digitValue_lt {c : Char} (h : c.isDigit = true) : digitValue c < 10 := by
  have bounds : 48 ≤ c.toNat ∧ c.toNat ≤ 57 := Char.isDigit_iff_toNat.1 h
  show c.toNat - 48 < 10
  omega

theorem digitChar_digitValue {c : Char} (h : c.isDigit = true) :
    Nat.digitChar (digitValue c) = c := by
  have bounds : 48 ≤ c.toNat ∧ c.toNat ≤ 57 := Char.isDigit_iff_toNat.1 h
  have value : digitValue c = c.toNat - 48 := rfl
  rw [← Char.toNat_inj, Nat.toNat_digitChar_of_lt_ten (digitValue_lt h)]
  omega

theorem IsInteger.isDigits {ds : List Char} (h : IsInteger ds) : Digits ds := by
  cases h with
  | zero => exact ⟨by simp, by simp⟩
  | digits hd => exact hd

private theorem head_toDigits {n : Nat} (h : 0 < n) : (Nat.toDigits 10 n).head? ≠ some '0' := by
  induction n using Nat.strongRecOn with
  | ind n ih =>
    rw [Nat.toDigits_eq_if (by decide)]
    split
    · simpa [Nat.digitChar_eq_zero] using Nat.ne_of_gt h
    · rw [List.head?_append_of_ne_nil _ Nat.toDigits_ne_nil]
      exact ih (n / 10) (by omega) (by omega)

/-- The notation of a number has no leading zero. -/
theorem isInteger_toDigits (n : Nat) : IsInteger (Nat.toDigits 10 n) := by
  rcases Nat.eq_zero_or_pos n with rfl | hn
  · exact .zero
  · exact .digits ⟨Nat.toDigits_ne_nil, fun c hc =>
      Nat.isDigit_of_mem_toDigits (by decide) (by decide) hc⟩ (head_toDigits hn)

/-- One more digit, as the reader appends it. -/
theorem ofDigitChars_cons (n : Nat) (c : Char) (ds : List Char) :
    Nat.ofDigitChars 10 (c :: ds) n = Nat.ofDigitChars 10 ds (n * 10 + digitValue c) := by
  rw [Nat.ofDigitChars_cons, Nat.mul_comm]
  rfl

/-- Digits after a number other than zero stand after its notation. -/
theorem toDigits_ofDigitChars_of_pos {n : Nat} {ds : List Char} (hn : 0 < n)
    (h : ∀ c ∈ ds, c.isDigit = true) :
    Nat.toDigits 10 (Nat.ofDigitChars 10 ds n) = Nat.toDigits 10 n ++ ds := by
  induction ds generalizing n with
  | nil => simp
  | cons c ds ih =>
    rw [List.forall_mem_cons] at h
    have one : Nat.toDigits 10 (digitValue c) = [c] := by
      rw [Nat.toDigits_of_lt_base (digitValue_lt h.1), digitChar_digitValue h.1]
    calc Nat.toDigits 10 (Nat.ofDigitChars 10 (c :: ds) n)
        = Nat.toDigits 10 (10 * n + digitValue c) ++ ds := by
          rw [ofDigitChars_cons, Nat.mul_comm n]
          exact ih (by omega) h.2
      _ = Nat.toDigits 10 n ++ Nat.toDigits 10 (digitValue c) ++ ds := by
          rw [Nat.toDigits_append_toDigits (by decide) hn (digitValue_lt h.1)]
      _ = Nat.toDigits 10 n ++ c :: ds := by simp [one]

/-- Digits without a leading zero are the notation of their value. -/
theorem IsInteger.toDigits_ofDigitChars {ds : List Char} (h : IsInteger ds) :
    Nat.toDigits 10 (Nat.ofDigitChars 10 ds 0) = ds := by
  cases h with
  | zero => rfl
  | digits hd hz =>
    obtain ⟨d, t, rfl, hdig⟩ := hd.head
    have pos : 0 < digitValue d := by
      refine Nat.pos_of_ne_zero fun h0 => hz ?_
      rw [List.head?_cons, ← digitChar_digitValue hdig, h0]
      rfl
    rw [ofDigitChars_cons, Nat.zero_mul, Nat.zero_add, toDigits_ofDigitChars_of_pos pos
      fun c hc => hd.2 c (List.mem_cons_of_mem d hc), Nat.toDigits_of_lt_base (digitValue_lt hdig),
      digitChar_digitValue hdig]
    rfl

/-! ## Reading what is spelled -/

private theorem le_ofDigitChars (n : Nat) (ds : List Char) : n ≤ Nat.ofDigitChars 10 ds n := by
  rw [Nat.ofDigitChars_eq_ofDigitChars_zero]
  exact Nat.le_add_right_of_le (Nat.le_mul_of_pos_left n (Nat.pow_pos (by decide)))

private theorem takeWhile_of_end {r : List Char} (hr : startsWithDigit r = false) :
    r.takeWhile Char.isDigit = [] := by
  cases r with
  | nil => rfl
  | cons c r =>
    have hc : c.isDigit = false := hr
    simp [hc]

theorem dropDigits_of_takeWhile {r : List Char} (h : r.takeWhile Char.isDigit = []) :
    dropDigits r = r := by
  have all := List.takeWhile_append_dropWhile (p := Char.isDigit) (l := r)
  rwa [h, List.nil_append] at all

private theorem takeDigits_of_end {bound n : Nat} {r : List Char} (hr : startsWithDigit r = false) :
    takeDigits bound n r = (n, 0, r) := by
  cases r with
  | nil => rfl
  | cons c r =>
    have hc : c.isDigit = false := hr
    simp [takeDigits, hc]

private theorem takeDigits_spelled {bound n : Nat} {ds r : List Char}
    (h : ∀ c ∈ ds, c.isDigit = true) (hr : startsWithDigit r = false)
    (hb : Nat.ofDigitChars 10 ds n ≤ bound) :
    takeDigits bound n (ds ++ r) = (Nat.ofDigitChars 10 ds n, ds.length, r) := by
  induction ds generalizing n with
  | nil => exact takeDigits_of_end hr
  | cons c ds ih =>
    rw [List.forall_mem_cons] at h
    rw [ofDigitChars_cons] at hb ⊢
    -- What is taken only grows, so no digit on the way can exceed the bound.
    have fits : n * 10 + digitValue c ≤ bound := Nat.le_trans (le_ofDigitChars _ ds) hb
    simp [takeDigits, h.1, fits, ih h.2 hb]

private theorem readInteger_spelled {ds r : List Char} (h : IsInteger ds)
    (hr : startsWithDigit r = false) (hb : Nat.ofDigitChars 10 ds 0 ≤ significandBound) :
    readInteger (ds ++ r) = .ok (Nat.ofDigitChars 10 ds 0, 0, r) := by
  cases h with
  | zero =>
    show readInteger ('0' :: r) = .ok (0, 0, r)
    simp [readInteger, hr]
  | digits hd hz =>
    have taken := takeDigits_spelled hd.2 hr hb
    have ended := takeWhile_of_end hr
    obtain ⟨d, t, rfl, hdig⟩ := hd.head
    have hd0 : d ≠ '0' := by simpa using hz
    rw [List.cons_append] at taken ⊢
    simp [readInteger, hd0, hdig, taken, ended, dropDigits_of_takeWhile ended]

private theorem readMagnitude_spelled {ds r : List Char} (h : IsInteger ds) (hr : Ends r)
    (hb : Nat.ofDigitChars 10 ds 0 ≤ significandBound) :
    readMagnitude (ds ++ r) = .ok (⟨Nat.ofDigitChars 10 ds 0, 0, true⟩, r) := by
  rw [readMagnitude, readInteger_spelled h hr.startsWithDigit hb]
  cases r with
  | nil => rfl
  | cons c r =>
    obtain ⟨-, hpoint, hmark⟩ := hr.head
    simp [readScale, readScale.close, hpoint, hmark]

private theorem readWord32_spelled {ws ds r : List Char} (hws : Blanks ws) (h : IsInteger ds)
    (hr : Ends r) (hb : Nat.ofDigitChars 10 ds 0 < UInt32.size) :
    readWord32 (ws ++ (ds ++ r)) = .ok (UInt32.ofNat (Nat.ofDigitChars 10 ds 0), r) := by
  have hb' : Nat.ofDigitChars 10 ds 0 ≤ significandBound :=
    Nat.le_trans (Nat.le_of_lt hb) (by decide)
  have read := readMagnitude_spelled h hr hb'
  obtain ⟨d, t, rfl, hdig⟩ := h.isDigits.head
  have blank : isBlank d = false := (startsScalar_ne (by simp [startsScalar, hdig])).1
  rw [List.cons_append] at read ⊢
  simp [readWord32, dropBlank_append hws, dropBlank_cons blank, hdig, read, hb]

/-! ## What is read was spelled -/

private theorem spelled_of_takeDigits {bound n m count : Nat} {cs r : List Char}
    (h : takeDigits bound n cs = (m, count, r)) :
    ∃ ds, (∀ c ∈ ds, c.isDigit = true) ∧ cs = ds ++ r ∧ m = Nat.ofDigitChars 10 ds n := by
  fun_induction takeDigits bound n cs generalizing m count r with
  | case1 n =>
    cases h
    exact ⟨[], by simp, rfl, rfl⟩
  | case2 n c cs hc m' count' r' hrec ih =>
    cases h
    obtain ⟨ds, hds, rfl, rfl⟩ := ih hrec
    rw [Bool.and_eq_true] at hc
    exact ⟨c :: ds, List.forall_mem_cons.2 ⟨hc.1, hds⟩, rfl, (ofDigitChars_cons n c ds).symm⟩
  | case3 n c cs =>
    cases h
    exact ⟨[], by simp, rfl, rfl⟩

/-- Where no digit was left out, the digits are those of the number. -/
theorem spelled_of_readInteger {n : Nat} {cs r : List Char}
    (h : readInteger cs = .ok (n, 0, r)) :
    ∃ ds, IsInteger ds ∧ cs = ds ++ r ∧ n = Nat.ofDigitChars 10 ds 0 := by
  unfold readInteger at h
  split at h
  · simp at h
  · rename_i c cs
    split at h
    · rename_i hc
      split at h
      · simp at h
      · cases h
        exact ⟨['0'], .zero, by simp [hc], rfl⟩
    · rename_i hc
      split at h
      · rename_i hdig
        split at h
        rename_i m count r' htake
        simp only [Except.ok.injEq, Prod.mk.injEq, List.length_eq_zero_iff] at h
        obtain ⟨rfl, hrest, rfl⟩ := h
        obtain ⟨ds, hds, htext, rfl⟩ := spelled_of_takeDigits htake
        cases ds with
        | nil =>
          rw [List.nil_append] at htext
          rw [← htext] at hrest
          simp [hdig] at hrest
        | cons d t =>
          cases htext
          rw [dropDigits_of_takeWhile hrest]
          exact ⟨c :: t, .digits ⟨by simp, hds⟩ (by simpa using hc), rfl, rfl⟩
      · simp at h

private theorem whole_of_close {n : Nat} {x : Int} {whole : Bool} {cs r : List Char} {m : Magnitude}
    (h : readScale.close n x whole cs = .ok (m, r)) (hm : m.whole = true) :
    whole = true ∧ m.significand = n ∧ r = cs := by
  unfold readScale.close at h
  split at h
  · cases h
    exact ⟨hm, rfl, rfl⟩
  · simp at h

/-- A number with an exponent is not whole, even if its value is. -/
theorem whole_of_readScale {n : Nat} {x : Int} {whole : Bool} {cs r : List Char}
    {m : Magnitude} (h : readScale n x whole cs = .ok (m, r)) (hm : m.whole = true) :
    whole = true ∧ m.significand = n ∧ r = cs := by
  unfold readScale at h
  split at h
  · exact whole_of_close h hm
  · split at h
    · split at h
      · simp at h
      · exact absurd (whole_of_close h hm).1 (by decide)
    · exact whole_of_close h hm

private theorem spelled_of_readMagnitude {m : Magnitude} {cs r : List Char}
    (h : readMagnitude cs = .ok (m, r)) (hm : m.whole = true) :
    ∃ ds, IsInteger ds ∧ cs = ds ++ r ∧ m.significand = Nat.ofDigitChars 10 ds 0 := by
  unfold readMagnitude at h
  split at h
  · simp at h
  · split at h
    · simp at h
    · exact absurd (whole_of_readScale h hm).1 (by decide)
  · rename_i hread
    obtain ⟨hextra, hvalue, rfl⟩ := whole_of_readScale h hm
    rw [beq_iff_eq] at hextra
    subst hextra
    rw [hvalue]
    exact spelled_of_readInteger hread

private theorem spelled_of_readWord32 {w : UInt32} {cs r : List Char}
    (h : readWord32 cs = .ok (w, r)) :
    ∃ ws ds, Blanks ws ∧ IsInteger ds ∧ cs = ws ++ (ds ++ r) ∧
      Nat.ofDigitChars 10 ds 0 = w.toNat := by
  unfold readWord32 at h
  split at h
  · simp at h
  · rename_i hd
    obtain ⟨ws, hws, rfl⟩ := spelled_of_dropBlank hd
    split at h
    · split at h
      · simp at h
      · rename_i hread
        split at h
        · rename_i hfits
          rw [Bool.and_eq_true, decide_eq_true_eq] at hfits
          cases h
          obtain ⟨ds, hds, htext, hvalue⟩ := spelled_of_readMagnitude hread hfits.1
          refine ⟨ws, ds, hws, hds, by rw [htext], ?_⟩
          rw [← hvalue, UInt32.toNat_ofNat_of_lt' hfits.2]
        · simp at h
    · simp at h

/-! ## Blanks around a text -/

/-- A text without the blanks before and after it. -/
def trimBlank (cs : List Char) : List Char := (dropBlank cs).rdropWhile isBlank

private theorem rdropWhile_blanks {ws : List Char} (h : Blanks ws) (v : List Char) :
    (v ++ ws).rdropWhile isBlank = v.rdropWhile isBlank := by
  have reversed : ∀ c ∈ ws.reverse, isBlank c = true := fun c hc => h c (List.mem_reverse.1 hc)
  rw [List.rdropWhile, List.reverse_append, List.dropWhile_append_of_pos reversed,
    List.rdropWhile]

theorem trimBlank_spelled {ws v ws' : List Char} (hws : Blanks ws) (hws' : Blanks ws')
    (hv : ∀ c ∈ v, isBlank c = false) : trimBlank (ws ++ (v ++ ws')) = v := by
  rw [trimBlank, dropBlank_append hws]
  cases v with
  | nil => rw [List.nil_append, dropBlank_blanks hws', List.rdropWhile_nil]
  | cons c v =>
    rw [List.cons_append, dropBlank_cons (hv c (by simp)), ← List.cons_append,
      rdropWhile_blanks hws', List.rdropWhile_eq_self_iff]
    intro hne
    rw [hv _ (List.getLast_mem hne)]
    decide

private theorem spelled_of_trimBlank (cs : List Char) :
    ∃ ws ws', Blanks ws ∧ Blanks ws' ∧ cs = ws ++ (trimBlank cs ++ ws') :=
  ⟨cs.takeWhile isBlank, (dropBlank cs).rtakeWhile isBlank, blanks_takeWhile cs,
    fun _ hc => List.mem_rtakeWhile_imp hc, by
    rw [trimBlank, List.rdropWhile_append_rtakeWhile, dropBlank,
      List.takeWhile_append_dropWhile]⟩

theorem IsInteger.not_blank {ds : List Char} (h : IsInteger ds) :
    ∀ c ∈ ds, isBlank c = false := fun c hc =>
  (startsScalar_ne (by simp [startsScalar, h.isDigits.2 c hc])).1

end Wakeup.Json

namespace Wakeup
open Json

theorem Events.toList_toJson (e : Events) : e.toJson.toList = Nat.toDigits 10 e.bits.toNat := by
  rw [Events.toJson, Nat.toString_eq_ofList_toDigits, String.toList_ofList]

/-- The texts of a mask are its bits in decimal between any blanks. -/
theorem Events.ofJson?_eq_ok_iff (text : String) (e : Events) :
    Events.ofJson? text = .ok e ↔
      IsInteger (trimBlank text.toList) ∧
        Nat.ofDigitChars 10 (trimBlank text.toList) 0 = e.bits.toNat := by
  constructor
  · intro h
    simp only [Events.ofJson?] at h
    split at h
    · simp at h
    · rename_i bits r hread
      obtain ⟨ws, ds, hws, hds, htext, hvalue⟩ := spelled_of_readWord32 hread
      simp only [finish] at h
      split at h
      · rename_i hr
        cases h
        rw [htext, trimBlank_spelled hws (blanks_of_dropBlank hr) hds.not_blank]
        exact ⟨hds, hvalue⟩
      · simp at h
  · rintro ⟨hds, hvalue⟩
    obtain ⟨ws, ws', hws, hws', htext⟩ := spelled_of_trimBlank text.toList
    have fits : Nat.ofDigitChars 10 (trimBlank text.toList) 0 < UInt32.size :=
      hvalue ▸ e.bits.toNat_lt
    have ends : Ends ws' := by simpa using ends_blanks hws' (r := []) (by simp [Ends])
    have read := readWord32_spelled hws hds ends fits
    rw [← htext, hvalue, UInt32.ofNat_toNat] at read
    simp [Events.ofJson?, read, finish, dropBlank_blanks hws']

theorem Events.ofJson?_toJson (e : Events) : Events.ofJson? e.toJson = .ok e := by
  have digits := isInteger_toDigits e.bits.toNat
  have trimmed := trimBlank_spelled blanks_nil blanks_nil digits.not_blank
  rw [List.nil_append, List.append_nil] at trimmed
  rw [Events.ofJson?_eq_ok_iff, e.toList_toJson, trimmed]
  exact ⟨digits, Nat.ofDigitChars_ten_toDigits⟩

/-- No two masks have the same text. -/
theorem Events.toJson_injective : Function.Injective Events.toJson := by
  intro a b h
  have read := a.ofJson?_toJson
  rw [h, b.ofJson?_toJson] at read
  cases read
  rfl

/-- What is read is written again without the blanks around it. -/
theorem Events.toJson_of_ofJson? {text : String} {e : Events}
    (h : Events.ofJson? text = .ok e) : e.toJson = String.ofList (trimBlank text.toList) := by
  obtain ⟨hds, hvalue⟩ := (Events.ofJson?_eq_ok_iff text e).1 h
  rw [← String.ofList_toList (s := e.toJson), e.toList_toJson, ← hvalue,
    hds.toDigits_ofDigitChars]

/-- A text stands for a mask if and only if it is, between blanks, a whole number of 32 bits in
decimal notation, which states all bits of the mask. A mask reads back as it is written, and a
text that is read is written again without its blanks. -/
theorem Events.written_in_decimal :
    (∀ text : String, (∃ e, Events.ofJson? text = .ok e) ↔
      IsInteger (trimBlank text.toList) ∧
        Nat.ofDigitChars 10 (trimBlank text.toList) 0 ≤ 4294967295) ∧
    (∀ text e, Events.ofJson? text = .ok e →
      e.bits.toNat = Nat.ofDigitChars 10 (trimBlank text.toList) 0 ∧
        e.toJson = String.ofList (trimBlank text.toList)) ∧
    (∀ e : Events, Events.ofJson? e.toJson = .ok e) ∧
    Function.Injective Events.toJson := by
  refine ⟨fun text => ⟨?_, ?_⟩, ?_, Events.ofJson?_toJson, Events.toJson_injective⟩
  · rintro ⟨e, h⟩
    obtain ⟨hds, hvalue⟩ := (Events.ofJson?_eq_ok_iff text e).1 h
    have bound := e.bits.toNat_lt
    exact ⟨hds, by omega⟩
  · rintro ⟨hds, hb⟩
    refine ⟨⟨UInt32.ofNat (Nat.ofDigitChars 10 (trimBlank text.toList) 0)⟩,
      (Events.ofJson?_eq_ok_iff text _).2 ⟨hds, ?_⟩⟩
    rw [UInt32.toNat_ofNat_of_lt' (Nat.lt_succ_of_le hb)]
  · intro text e h
    exact ⟨((Events.ofJson?_eq_ok_iff text e).1 h).2.symm, Events.toJson_of_ofJson? h⟩

/-- The greatest mask between blanks, and one more. -/
theorem Events.written_in_decimal_greatest :
    Events.ofJson? "\t4294967295 \n" = .ok ⟨4294967295⟩ ∧
      (⟨4294967295⟩ : Events).toJson = "4294967295" ∧
      ¬ ∃ e, Events.ofJson? "4294967296" = .ok e := by
  have read : Events.ofJson? "\t4294967295 \n" = .ok ⟨4294967295⟩ := by rfl
  refine ⟨read, ?_, ?_⟩
  · rw [(Events.written_in_decimal.2.1 _ _ read).2]
    decide
  · intro h
    exact absurd ((Events.written_in_decimal.1 _).1 h).2 (by decide)

/-- Not even zero may have a sign. -/
example : Events.ofJson? "-0" = .error .mismatched := by rfl

end Wakeup
