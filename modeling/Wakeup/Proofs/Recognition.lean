import Wakeup.Proofs.Grammar

/-! The other direction: what is read or skipped was spelled as the grammar says. -/
namespace Wakeup.Json

/-! ## Words and blanks -/

theorem blanks_takeWhile (cs : List Char) : Blanks (cs.takeWhile isBlank) :=
  List.all_eq_true.1 List.all_takeWhile

theorem spelled_of_dropBlank {c : Char} {cs r : List Char} (h : dropBlank cs = c :: r) :
    ∃ ws, Blanks ws ∧ cs = ws ++ c :: r :=
  ⟨cs.takeWhile isBlank, blanks_takeWhile cs, by
    rw [← h, dropBlank, List.takeWhile_append_dropWhile]⟩

theorem blanks_of_dropBlank {cs : List Char} (h : dropBlank cs = []) : Blanks cs := by
  have all := List.takeWhile_append_dropWhile (p := isBlank) (l := cs)
  rw [show cs.dropWhile isBlank = [] from h, List.append_nil] at all
  exact all ▸ blanks_takeWhile cs

theorem spelled_of_readWord {w cs r : List Char} (h : readWord w cs = .ok r) : cs = w ++ r := by
  fun_induction readWord w cs with
  | case1 => simpa using h
  | case2 => simp at h
  | case3 w c cs ih => simp [ih h]
  | case4 => simp at h

theorem spelled_of_readColon {cs r : List Char} (h : readColon cs = .ok r) :
    ∃ ws, Blanks ws ∧ cs = ws ++ ':' :: r := by
  simp only [readColon] at h
  split at h
  · simp at h
  · rename_i hd
    cases h
    exact spelled_of_dropBlank hd
  · simp at h

/-! ## Numbers -/

theorem spelled_of_skipDigits {cs r : List Char} (h : skipDigits cs = .ok r) :
    ∃ ds, Digits ds ∧ cs = ds ++ r := by
  simp only [skipDigits] at h
  split at h
  · rename_i hd
    cases h
    refine ⟨cs.takeWhile Char.isDigit, ⟨?_, List.all_eq_true.1 List.all_takeWhile⟩,
      List.takeWhile_append_dropWhile.symm⟩
    cases cs with
    | nil => simp [startsWithDigit] at hd
    | cons c cs =>
      have hc : c.isDigit = true := hd
      simp [hc]
  · simp at h

private theorem spelled_of_skipExponent {cs r : List Char} (h : skipExponent cs = .ok r) :
    ∃ e, IsExponent e ∧ cs = e ++ r := by
  cases cs with
  | nil =>
    cases h
    exact ⟨[], .absent, rfl⟩
  | cons c cs =>
    simp only [skipExponent] at h
    split at h
    · rename_i hm
      split at h
      · obtain ⟨ds, hd, rfl⟩ := spelled_of_skipDigits h
        exact ⟨_, .digits hm (.inr (.inl rfl)) hd, rfl⟩
      · obtain ⟨ds, hd, rfl⟩ := spelled_of_skipDigits h
        exact ⟨_, .digits hm (.inr (.inr rfl)) hd, rfl⟩
      · obtain ⟨ds, hd, rfl⟩ := spelled_of_skipDigits h
        exact ⟨_, .digits hm (.inl rfl) hd, rfl⟩
    · cases h
      exact ⟨[], .absent, rfl⟩

private theorem spelled_of_skipFraction {cs r : List Char} (h : skipFraction cs = .ok r) :
    ∃ f e, IsFraction f ∧ IsExponent e ∧ cs = f ++ (e ++ r) := by
  unfold skipFraction at h
  split at h
  · split at h
    · simp at h
    · rename_i hs
      obtain ⟨ds, hd, rfl⟩ := spelled_of_skipDigits hs
      obtain ⟨e, he, rfl⟩ := spelled_of_skipExponent h
      exact ⟨_, e, .digits hd, he, rfl⟩
  · obtain ⟨e, he, rfl⟩ := spelled_of_skipExponent h
    exact ⟨[], e, .absent, he, rfl⟩

private theorem spelled_of_skipNumber {cs r : List Char} (h : skipNumber cs = .ok r) :
    ∃ n, IsMagnitude n ∧ cs = n ++ r := by
  unfold skipNumber at h
  split at h
  · split at h
    · simp at h
    · obtain ⟨f, e, hf, he, rfl⟩ := spelled_of_skipFraction h
      exact ⟨_, .parts .zero hf he, by simp⟩
  · rename_i hz
    split at h
    · simp at h
    · rename_i hs
      obtain ⟨ds, hd, rfl⟩ := spelled_of_skipDigits hs
      obtain ⟨f, e, hf, he, rfl⟩ := spelled_of_skipFraction h
      obtain ⟨d, t, rfl, -⟩ := hd.head
      refine ⟨_, .parts (.digits hd ?_) hf he, by simp⟩
      intro h0
      cases h0
      exact hz _ rfl

/-! ## Strings -/

theorem spelled_of_readHex {n : Nat} {cs r : List Char} (h : readHex cs = .ok (n, r)) :
    ∃ ds, Hex n ds ∧ cs = ds ++ r := by
  simp only [readHex] at h
  split at h
  · split at h
    · rename_i ha hb hc hd
      cases h
      exact ⟨_, .digits ha hb hc hd, rfl⟩
    · simp at h
  · split at h <;> simp at h

private theorem spelled_of_readLowSurrogate {high : Nat} {c : Char} {cs r : List Char}
    (h : readLowSurrogate high cs = .ok (c, r)) :
    ∃ low ds, Hex low ds ∧ isLowSurrogate low = true ∧
      c = Char.ofNat (0x10000 + (high - 0xD800) * 0x400 + (low - 0xDC00)) ∧
      cs = '\\' :: 'u' :: (ds ++ r) := by
  unfold readLowSurrogate at h
  split at h
  · simp at h
  · simp at h
  · split at h
    · simp at h
    · rename_i hr
      obtain ⟨ds, hd, rfl⟩ := spelled_of_readHex hr
      split at h
      · rename_i hl
        simp only [Except.ok.injEq, Prod.mk.injEq] at h
        obtain ⟨rfl, rfl⟩ := h
        exact ⟨_, ds, hd, hl, rfl, rfl⟩
      · simp at h
  · simp at h

private theorem spelled_of_readNumbered {strict : Bool} {c : Char} {cs r : List Char}
    (h : readNumbered strict cs = .ok (c, r)) :
    ∃ p, Spells strict c ('\\' :: 'u' :: p) ∧ cs = p ++ r := by
  unfold readNumbered at h
  split at h
  · simp at h
  · rename_i hr
    obtain ⟨ds, hd, rfl⟩ := spelled_of_readHex hr
    split at h
    · simp at h
    · rename_i hlow
      split at h
      · rename_i hhigh
        simp only [Bool.and_eq_true] at hhigh
        obtain ⟨low, es, he, hl, hc, rfl⟩ := spelled_of_readLowSurrogate h
        rw [hc]
        exact ⟨_, .pair hhigh.1 hd he hhigh.2 hl, by simp⟩
      · rename_i hhigh
        cases h
        refine ⟨ds, .numbered hd ?_, rfl⟩
        rintro rfl
        exact ⟨by simpa using hhigh, by simpa using hlow⟩

private theorem spelled_of_readEscape {strict : Bool} {c : Char} {cs r : List Char}
    (h : readEscape strict cs = .ok (c, r)) :
    ∃ p, Spells strict c ('\\' :: p) ∧ cs = p ++ r := by
  cases cs with
  | nil => simp [readEscape] at h
  | cons l cs =>
    by_cases hu : l = 'u'
    · subst hu
      obtain ⟨p, hp, rfl⟩ := spelled_of_readNumbered (by simpa [readEscape] using h)
      exact ⟨'u' :: p, hp, rfl⟩
    · have letter : (l, c) ∈ letters ∧ r = cs := by
        simp only [readEscape, hu, if_false] at h
        simp only [letters, List.mem_cons, Prod.mk.injEq]
        repeat' split at h
        all_goals grind
      exact ⟨[l], .letter letter.1, by simp [letter.2]⟩

private theorem spelled_of_readPiece {strict : Bool} {o : Option Char} {cs r : List Char}
    (h : readPiece strict cs = .ok (o, r)) :
    (o = none ∧ cs = '"' :: r) ∨ ∃ c p, o = some c ∧ Spells strict c p ∧ cs = p ++ r := by
  cases cs with
  | nil => simp [readPiece] at h
  | cons c cs =>
    simp only [readPiece] at h
    split at h
    · rename_i hq
      cases h
      exact .inl ⟨rfl, by rw [hq]⟩
    · rename_i hq
      split at h
      · rename_i hb
        split at h
        · simp at h
        · rename_i hr
          cases h
          obtain ⟨p, hp, rfl⟩ := spelled_of_readEscape hr
          exact .inr ⟨_, _, rfl, hp, by rw [hb]; rfl⟩
      · rename_i hb
        split at h
        · simp at h
        · rename_i hc
          cases h
          have plain : isPlain c = true := by
            simp only [isPlain, Bool.and_eq_true, bne_iff_ne, decide_eq_true_eq]
            exact ⟨⟨hq, hb⟩, by omega⟩
          exact .inr ⟨c, [c], rfl, .plain plain, rfl⟩

theorem spelled_of_readTextAfter {strict : Bool} {acc t cs r : List Char}
    (h : readTextAfter strict acc cs = .ok (t, r)) :
    ∃ s body, SpellsText strict s body ∧ t = acc.reverse ++ s ∧ cs = body ++ '"' :: r := by
  fun_induction readTextAfter strict acc cs with
  | case1 => simp at h
  | case2 acc cs r' hp =>
    cases h
    rcases spelled_of_readPiece hp with ⟨-, rfl⟩ | ⟨c, p, hc, -⟩
    · exact ⟨[], [], .nil, by simp, rfl⟩
    · simp at hc
  | case3 acc cs c r' hp ih =>
    rcases spelled_of_readPiece hp with ⟨hc, -⟩ | ⟨d, p, hc, hs, rfl⟩
    · simp at hc
    · cases hc
      obtain ⟨s, body, hbody, rfl, rfl⟩ := ih h
      exact ⟨c :: s, p ++ body, .cons hs hbody, by simp, by simp⟩

theorem spelled_of_skipText {cs r : List Char} (h : skipText cs = .ok r) :
    ∃ s body, SpellsText false s body ∧ cs = body ++ '"' :: r := by
  simp only [skipText] at h
  split at h
  · simp at h
  · rename_i hr
    cases h
    obtain ⟨s, body, hs, -, rfl⟩ := spelled_of_readTextAfter hr
    exact ⟨s, body, hs, rfl⟩

private theorem spelled_of_skipScalar {cs r : List Char} (h : skipScalar cs = .ok r) :
    ∃ v, IsScalar v ∧ cs = v ++ r := by
  unfold skipScalar at h
  split at h
  · simp at h
  · exact ⟨_, .null, by rw [spelled_of_readWord h]; rfl⟩
  · exact ⟨_, .bool true, by rw [spelled_of_readWord h]; rfl⟩
  · exact ⟨_, .bool false, by rw [spelled_of_readWord h]; rfl⟩
  · obtain ⟨s, body, hs, rfl⟩ := spelled_of_skipText h
    exact ⟨_, .string hs, by simp⟩
  · obtain ⟨n, hn, rfl⟩ := spelled_of_skipNumber h
    exact ⟨_, .negative hn, rfl⟩
  · split at h
    · obtain ⟨n, hn, hcs⟩ := spelled_of_skipNumber h
      exact ⟨n, .number hn, hcs⟩
    · simp at h

/-! ## Values

Skipping keeps a stack of the brackets that are open. The text after a value has to complete each
of them before what was skipped is a value at all. `Rest` says what completes one bracket, and
`Closes` what completes the stack. -/

/-- An element between brackets of the kind `b`. -/
def IsElement : Bracket → List Char → Prop
  | .array, e => ∃ x : Item, x.Spaced ∧ IsValue x.value ∧ e = x.text
  | .object, e => ∃ m : Member, m.Spelled false ∧ IsValue m.item.value ∧ e = m.text

theorem Blanks.append {ws ws' : List Char} (h : Blanks ws) (h' : Blanks ws') :
    Blanks (ws ++ ws') := by
  intro c hc
  rcases List.mem_append.1 hc with hc | hc
  · exact h c hc
  · exact h' c hc

/-- Blanks on both sides belong to an element. -/
theorem IsElement.spaced {b : Bracket} {e ws ws' : List Char} (h : IsElement b e)
    (hws : Blanks ws) (hws' : Blanks ws') : IsElement b (ws ++ (e ++ ws')) := by
  cases b with
  | array =>
    obtain ⟨x, hs, hv, rfl⟩ := h
    exact ⟨⟨ws ++ x.before, x.value, x.after ++ ws'⟩, ⟨hws.append hs.1, hs.2.append hws'⟩, hv,
      by simp [Item.text]⟩
  | object =>
    obtain ⟨m, hs, hv, rfl⟩ := h
    refine ⟨⟨ws ++ m.before, m.key, m.name, m.colon,
      ⟨m.item.before, m.item.value, m.item.after ++ ws'⟩⟩, ?_, hv,
      by simp [Member.text, Member.tail, Item.text]⟩
    exact ⟨hws.append hs.before, hs.name, hs.colon, hs.item.1, hs.item.2.append hws'⟩

/-- `Rest b cs t` when `cs` goes on after an element up to the closing bracket, before `t`. -/
inductive Rest (b : Bracket) : List Char → List Char → Prop
  | close {ws t : List Char} : Blanks ws → Rest b (ws ++ b.closing :: t) t
  | more {ws e cs t : List Char} : Blanks ws → IsElement b e → Rest b cs t →
      Rest b (ws ++ ',' :: (e ++ cs)) t

/-- `Closes stack cs r` when `cs` completes all brackets that are open, before `r`. -/
def Closes : List Bracket → List Char → List Char → Prop
  | [], cs, r => cs = r
  | b :: outer, cs, r => ∃ t, Rest b cs t ∧ Closes outer t r

/-- What a text that is skipped up to `r` consists of. -/
def Owes (stack : List Bracket) : Expect → List Char → List Char → Prop
  | .value, cs, r =>
    ∃ ws v t, Blanks ws ∧ IsValue v ∧ cs = ws ++ (v ++ t) ∧ Closes stack t r
  | .member, cs, r => ∃ e t, IsElement .object e ∧ cs = e ++ t ∧ Closes stack t r
  | .opening, cs, r =>
    match stack with
    | [] => cs = r
    | b :: outer => ∃ es body t, (∀ e ∈ es, IsElement b e) ∧ Encloses es body ∧
        cs = body ++ b.closing :: t ∧ Closes outer t r
  | .closing, cs, r => Closes stack cs r

private theorem Owes.element {b : Bracket} {stack : List Bracket} {cs r : List Char}
    (h : Owes stack b.element cs r) :
    ∃ e t, IsElement b e ∧ cs = e ++ t ∧ Closes stack t r := by
  cases b with
  | array =>
    obtain ⟨ws, v, t, hws, hv, rfl, ht⟩ := h
    exact ⟨ws ++ v, t, ⟨⟨ws, v, []⟩, ⟨hws, blanks_nil⟩, hv, by simp [Item.text]⟩,
      by simp, ht⟩
  | object => exact h

/-- An element and what completes its bracket. -/
theorem Rest.encloses {b : Bracket} {cs t : List Char} (h : Rest b cs t) {e : List Char}
    (he : IsElement b e) :
    ∃ f es body, (∀ e ∈ f :: es, IsElement b e) ∧ Encloses (f :: es) body ∧
      e ++ cs = body ++ b.closing :: t := by
  induction h generalizing e with
  | @close ws t hws =>
    refine ⟨e ++ ws, [], e ++ ws, ?_, .one _, by simp⟩
    simpa using he.spaced blanks_nil hws
  | @more ws e' cs t hws he' _ ih =>
    obtain ⟨f, es, body, hes, hbody, htext⟩ := ih he'
    refine ⟨e ++ ws, f :: es, (e ++ ws) ++ ',' :: body, ?_, .more _ hbody, by simp [htext]⟩
    rw [List.forall_mem_cons]
    exact ⟨by simpa using he.spaced blanks_nil hws, hes⟩

theorem exists_map_of_forall {α β : Type} {f : α → β} {p : α → Prop} {ys : List β}
    (h : ∀ y ∈ ys, ∃ x, p x ∧ y = f x) : ∃ xs : List α, (∀ x ∈ xs, p x) ∧ ys = xs.map f := by
  induction ys with
  | nil => exact ⟨[], by simp⟩
  | cons y ys ih =>
    rw [List.forall_mem_cons] at h
    obtain ⟨⟨x, hx, rfl⟩, h⟩ := h
    obtain ⟨xs, hxs, rfl⟩ := ih h
    exact ⟨x :: xs, by rw [List.forall_mem_cons]; exact ⟨hx, hxs⟩, rfl⟩

private theorem isValue_array {es : List (List Char)} {body : List Char}
    (h : ∀ e ∈ es, IsElement .array e) (hb : Encloses es body) :
    IsValue ('[' :: (body ++ [']'])) := by
  obtain ⟨xs, hxs, rfl⟩ := exists_map_of_forall
    (p := fun x : Item => x.Spaced ∧ IsValue x.value) (f := Item.text)
    (fun e he => (h e he).imp fun _ hx => ⟨⟨hx.1, hx.2.1⟩, hx.2.2⟩)
  exact .array (fun x hx => (hxs x hx).1) (fun x hx => (hxs x hx).2) hb

private theorem isValue_object {es : List (List Char)} {body : List Char}
    (h : ∀ e ∈ es, IsElement .object e) (hb : Encloses es body) :
    IsValue ('{' :: (body ++ ['}'])) := by
  obtain ⟨ms, hms, rfl⟩ := exists_map_of_forall
    (p := fun m : Member => m.Spelled false ∧ IsValue m.item.value) (f := Member.text)
    (fun e he => (h e he).imp fun _ hm => ⟨⟨hm.1, hm.2.1⟩, hm.2.2⟩)
  exact .object (fun m hm => (hms m hm).1) (fun m hm => (hms m hm).2) hb

private theorem spelled_of_skipName {cs r : List Char} (h : skipName cs = .ok r) :
    ∃ key name colon, SpellsText false key name ∧ Blanks colon ∧
      cs = name ++ '"' :: (colon ++ ':' :: r) := by
  simp only [skipName] at h
  split at h
  · simp at h
  · rename_i hn
    obtain ⟨key, name, hs, rfl⟩ := spelled_of_skipText hn
    obtain ⟨colon, hc, rfl⟩ := spelled_of_readColon h
    exact ⟨key, name, colon, hs, hc, rfl⟩

private theorem owes_of_skipWithin {stack : List Bracket} {expect : Expect} {cs r : List Char}
    (h : skipWithin stack expect cs = .ok r) : Owes stack expect cs r := by
  fun_induction skipWithin stack expect cs with
  | case2 stack cs t hd ih =>
    obtain ⟨ws, hws, rfl⟩ := spelled_of_dropBlank hd
    obtain ⟨es, body, u, hes, hbody, rfl, hu⟩ := ih h
    exact ⟨ws, _, u, hws, isValue_array hes hbody, by simp [Bracket.closing], hu⟩
  | case3 stack cs t hd _ ih =>
    obtain ⟨ws, hws, rfl⟩ := spelled_of_dropBlank hd
    obtain ⟨es, body, u, hes, hbody, rfl, hu⟩ := ih h
    exact ⟨ws, _, u, hws, isValue_object hes hbody, by simp [Bracket.closing], hu⟩
  | case5 stack cs c t hd _ _ u hs ih =>
    obtain ⟨ws, hws, rfl⟩ := spelled_of_dropBlank hd
    obtain ⟨v, hv, hvt⟩ := spelled_of_skipScalar hs
    exact ⟨ws, v, u, hws, .scalar hv, by rw [hvt], ih h⟩
  | case8 stack cs t u hn hd ih =>
    obtain ⟨before, hb, rfl⟩ := spelled_of_dropBlank hd
    obtain ⟨key, name, colon, hname, hcolon, rfl⟩ := spelled_of_skipName hn
    obtain ⟨ws, v, w, hws, hv, rfl, hw⟩ := ih h
    refine ⟨_, w, ⟨⟨before, key, name, colon, ⟨ws, v, []⟩⟩, ?_, hv, rfl⟩,
      by simp [Member.text, Member.tail, Item.text], hw⟩
    exact ⟨hb, hname, hcolon, hws, blanks_nil⟩
  | case10 cs => simpa [Owes] using h
  | case12 cs b outer t hd ih =>
    obtain ⟨ws, hws, rfl⟩ := spelled_of_dropBlank hd
    exact ⟨[], ws, t, by simp, .nothing hws, rfl, ih h⟩
  | case13 cs b outer c t hd _ ih =>
    obtain ⟨ws, hws, rfl⟩ := spelled_of_dropBlank hd
    obtain ⟨e, u, he, hct, v, hrest, hv⟩ := (ih h).element
    have he : IsElement b (ws ++ e) := by
      simpa using he.spaced hws blanks_nil
    obtain ⟨f, es, body, hes, hbody, htext⟩ := hrest.encloses he
    exact ⟨f :: es, body, v, hes, hbody, by rw [hct, ← htext, List.append_assoc], hv⟩
  | case14 cs => simpa [Owes, Closes] using h
  | case16 cs b outer t hd ih =>
    obtain ⟨ws, hws, rfl⟩ := spelled_of_dropBlank hd
    exact ⟨t, .close hws, ih h⟩
  | case17 cs b outer t hd _ ih =>
    obtain ⟨ws, hws, rfl⟩ := spelled_of_dropBlank hd
    obtain ⟨e, u, he, rfl, v, hrest, hv⟩ := (ih h).element
    exact ⟨v, .more hws he hrest, hv⟩
  | _ => simp at h

/-- What is skipped as a value is one. -/
theorem spelled_of_skipValue {cs r : List Char} (h : skipValue cs = .ok r) :
    ∃ ws v, Blanks ws ∧ IsValue v ∧ cs = ws ++ (v ++ r) := by
  obtain ⟨ws, v, t, hws, hv, rfl, rfl⟩ := owes_of_skipWithin h
  exact ⟨ws, v, hws, hv, rfl⟩

end Wakeup.Json
