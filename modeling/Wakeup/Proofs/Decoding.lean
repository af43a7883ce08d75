import Wakeup.Proofs.Recognition

/-! Which options a JSON text stands for. -/
namespace Wakeup.Json

/-- The truth value that a value stands for, if it is one of the two words. -/
def flag? (v : List Char) : Option Bool :=
  if v = boolWord true then some true
  else if v = boolWord false then some false
  else none

/-- The options that the members of an object stand for. Only those with the one name count, and
there must not be two of them. -/
def optionsOf (ms : List Member) : Option Options :=
  match ms.filter (fun m => m.key = nonblockingName) with
  | [] => some ⟨true⟩
  | [m] => (flag? m.item.value).map Options.mk
  | _ => none

/-- The options that the elements of an array stand for. -/
def optionsOfItems : List Item → Option Options
  | [] => some ⟨true⟩
  | [x] => (flag? x.value).map Options.mk
  | _ => none

/-- What is known of the one member after another member. -/
def take (found : Option Bool) (m : Member) : Option (Option Bool) :=
  if m.key = nonblockingName then
    if found.isSome then none else (flag? m.item.value).map some
  else some found

theorem flag?_boolWord (b : Bool) : flag? (boolWord b) = some b := by
  cases b <;> decide

private theorem foldlM_take_some (b : Bool) (ms : List Member) :
    ms.foldlM take (some b) =
      if ms.filter (fun m => m.key = nonblockingName) = [] then some (some b) else none := by
  induction ms with
  | nil => rfl
  | cons m ms ih =>
    rw [List.foldlM_cons]
    by_cases hm : m.key = nonblockingName
    · simp [take, hm]
    · simp [take, hm, ih]

private theorem foldlM_take_none (ms : List Member) :
    (ms.foldlM take none).map (fun f => (⟨f.getD true⟩ : Options)) = optionsOf ms := by
  induction ms with
  | nil => rfl
  | cons m ms ih =>
    rw [List.foldlM_cons]
    by_cases hm : m.key = nonblockingName
    · cases hv : flag? m.item.value with
      | none =>
        cases hf : ms.filter (fun m => m.key = nonblockingName) <;>
          simp [take, optionsOf, hm, hv, hf]
      | some b =>
        cases hf : ms.filter (fun m => m.key = nonblockingName) <;>
          simp [take, optionsOf, hm, hv, hf, foldlM_take_some]
    · simpa [take, optionsOf, hm] using ih

/-! ## Reading what is spelled -/

/-- What is read is as expected and leaves `r`, or is refused where nothing is expected. -/
def Reads {α : Type} (expected : Option α) (r : List Char) (x : Except Fault (α × List Char)) :
    Prop :=
  match expected with
  | some a => x = .ok (a, r)
  | none => ∃ e, x = .error e

private theorem readBool_boolWord {ws : List Char} (h : Blanks ws) (b : Bool) (r : List Char) :
    readBool (ws ++ (boolWord b ++ r)) = .ok (b, r) := by
  rw [readBool, dropBlank_append h]
  cases b <;> simp [boolWord, dropBlank, isBlank, readWord]

private theorem readBool_refused {c : Char} {cs t : List Char} (hd : dropBlank cs = c :: t)
    (ht : c ≠ 't') (hf : c ≠ 'f') : readBool cs = .error (refusal (c :: t)) := by
  rw [readBool, hd]
  split <;> simp_all

private theorem flag?_eq_none {c : Char} {t : List Char} (ht : c ≠ 't') (hf : c ≠ 'f') :
    flag? (c :: t) = none := by
  simp [flag?, boolWord, ht, hf]

/-- A value is a truth value, or its first character shows that it is none. -/
theorem IsValue.bool_or {v : List Char} (h : IsValue v) :
    (∃ b, v = boolWord b) ∨
      ∃ c t, v = c :: t ∧ isBlank c = false ∧ c ≠ 't' ∧ c ≠ 'f' := by
  cases h with
  | array => exact .inr ⟨_, _, rfl, by decide⟩
  | object => exact .inr ⟨_, _, rfl, by decide⟩
  | scalar hv =>
    cases hv with
    | bool b => exact .inl ⟨b, rfl⟩
    | null => exact .inr ⟨_, _, rfl, by decide⟩
    | negative => exact .inr ⟨_, _, rfl, by decide⟩
    | string => exact .inr ⟨_, _, rfl, by decide⟩
    | number hn =>
      obtain ⟨d, t, rfl, hd⟩ := hn.head
      refine .inr ⟨d, t, rfl, (startsScalar_ne (by simp [startsScalar, hd])).1, ?_, ?_⟩ <;>
        rintro rfl <;> revert hd <;> decide

theorem readBool_spelled {ws v : List Char} (h : Blanks ws) (hv : IsValue v) (r : List Char) :
    Reads (flag? v) r (readBool (ws ++ (v ++ r))) := by
  rcases hv.bool_or with ⟨b, rfl⟩ | ⟨c, t, rfl, hc, ht, hf⟩
  · rw [flag?_boolWord]
    exact readBool_boolWord h b r
  · rw [flag?_eq_none ht hf]
    refine ⟨_, readBool_refused (c := c) (t := t ++ r) ?_ ht hf⟩
    rw [dropBlank_append h, List.cons_append, dropBlank_cons hc]

private theorem readMemberValue_spelled {m : Member} {r : List Char} (hs : m.Spelled true)
    (hv : IsValue m.item.value) (hr : Ends r) (found : Option Bool) :
    Reads (take found m) (m.item.after ++ r)
      (readMemberValue m.key found (m.colon ++ ':' :: (m.item.text ++ r))) := by
  have colon := readColon_spelled hs.colon (m.item.text ++ r)
  have text : m.item.text ++ r = m.item.before ++ (m.item.value ++ (m.item.after ++ r)) := by
    simp [Item.text]
  by_cases hk : m.key = nonblockingName
  · cases found with
    | some b => simp [Reads, take, readMemberValue, hk]
    | none =>
      have value := readBool_spelled hs.item.1 hv (m.item.after ++ r)
      rw [← text] at value
      cases hf : flag? m.item.value with
      | some b =>
        rw [hf] at value
        have value : readBool (m.item.text ++ r) = .ok (b, m.item.after ++ r) := value
        simp [Reads, take, readMemberValue, hk, hf, colon, value]
      | none =>
        rw [hf] at value
        obtain ⟨e, value⟩ := value
        simp [Reads, take, readMemberValue, hk, hf, colon, value]
  · have skipped := skipValue_spelled hv hs.item.1 (ends_blanks hs.item.2 hr)
    rw [← text] at skipped
    simp [Reads, take, readMemberValue, hk, colon, skipped]

section Equations
variable {found f : Option Bool} {name cs r₁ r₂ r₃ r : List Char}

private theorem readMembers_error {e : Fault} (hn : readText cs = .ok (name, r₁))
    (hv : readMemberValue name found r₁ = .error e) : readMembers found cs = .error e := by
  rw [readMembers]
  split
  · simp_all
  · split <;> simp_all

private theorem readMembers_last (hn : readText cs = .ok (name, r₁))
    (hv : readMemberValue name found r₁ = .ok (f, r₂)) (hd : dropBlank r₂ = '}' :: r) :
    readMembers found cs = .ok (f, r) := by
  rw [readMembers]
  split
  · simp_all
  · split
    · simp_all
    · split <;> simp_all

private theorem readMembers_more (hn : readText cs = .ok (name, r₁))
    (hv : readMemberValue name found r₁ = .ok (f, r₂)) (hd : dropBlank r₂ = ',' :: r₃)
    (hq : dropBlank r₃ = '"' :: r) : readMembers found cs = readMembers f r := by
  conv => lhs; rw [readMembers]
  split
  · simp_all
  · split
    · simp_all
    · split
      · simp_all
      · split
        · simp_all
        · split
          · split <;> grind
          · simp_all

end Equations

private theorem readText_spelled {m : Member} (hs : m.Spelled true) (r : List Char) :
    readText (m.tail ++ r) = .ok (m.key, m.colon ++ ':' :: (m.item.text ++ r)) := by
  simpa [readText, Member.tail] using
    readTextAfter_spelled hs.name [] (m.colon ++ ':' :: (m.item.text ++ r))

/-- The members from the opening quote of the first are read one after another. -/
theorem readMembers_spelled {ms : List Member} {m : Member} {body : List Char}
    (he : Encloses ((m :: ms).map Member.text) body) (hs : ∀ x ∈ m :: ms, x.Spelled true)
    (hv : ∀ x ∈ m :: ms, IsValue x.item.value) (found : Option Bool) (r : List Char) :
    ∃ t, body ++ '}' :: r = m.before ++ '"' :: t ∧
      Reads ((m :: ms).foldlM take found) r (readMembers found t) := by
  have hm := hs m (by simp)
  rw [List.foldlM_cons]
  induction ms generalizing m body found with
  | nil =>
    cases he
    refine ⟨m.tail ++ '}' :: r, by simp [Member.text], ?_⟩
    have name := readText_spelled hm ('}' :: r)
    have value := readMemberValue_spelled hm (hv m (by simp))
      (ends_cons (r := r) (.inr (.inr rfl))) found
    cases ht : take found m with
    | none =>
      rw [ht] at value
      obtain ⟨e, value⟩ := value
      exact ⟨e, readMembers_error name value⟩
    | some f =>
      rw [ht] at value
      refine readMembers_last name value ?_
      rw [dropBlank_append hm.item.2, dropBlank_cons (by decide)]
  | cons n ms ih =>
    obtain _ | _ | @⟨_, _, body, _, he⟩ := he
    have name := readText_spelled hm (',' :: (body ++ '}' :: r))
    have value := readMemberValue_spelled hm (hv m (by simp))
      (ends_cons (r := body ++ '}' :: r) (.inl rfl)) found
    refine ⟨m.tail ++ ',' :: (body ++ '}' :: r), by simp [Member.text], ?_⟩
    cases ht : take found m with
    | none =>
      rw [ht] at value
      obtain ⟨e, value⟩ := value
      exact ⟨e, readMembers_error name value⟩
    | some f =>
      rw [ht] at value
      have hn := hs n (by simp)
      obtain ⟨t, htext, ih⟩ := ih he (fun x hx => hs x (List.mem_cons_of_mem _ hx))
        (fun x hx => hv x (List.mem_cons_of_mem _ hx)) f hn
      have comma : dropBlank (m.item.after ++ ',' :: (body ++ '}' :: r)) =
          ',' :: (body ++ '}' :: r) := by
        rw [dropBlank_append hm.item.2, dropBlank_cons (by decide)]
      have quoted : dropBlank (body ++ '}' :: r) = '"' :: t := by
        rw [htext, dropBlank_append hn.before, dropBlank_cons (by decide)]
      rw [readMembers_more name value comma quoted]
      exact ih

private theorem readObject_spelled {ms : List Member} {body : List Char}
    (he : Encloses (ms.map Member.text) body) (hs : ∀ m ∈ ms, m.Spelled true)
    (hv : ∀ m ∈ ms, IsValue m.item.value) (r : List Char) :
    Reads (optionsOf ms) r (readObject (body ++ '}' :: r)) := by
  cases ms with
  | nil =>
    obtain ⟨hb⟩ := he
    have hd : dropBlank (body ++ '}' :: r) = '}' :: r := by
      rw [dropBlank_append hb, dropBlank_cons (by decide)]
    show readObject _ = _
    simp only [readObject, hd, if_true]
    rfl
  | cons m ms =>
    obtain ⟨t, htext, read⟩ := readMembers_spelled he hs hv none r
    have hd : dropBlank (body ++ '}' :: r) = '"' :: t := by
      rw [htext, dropBlank_append (hs m (by simp)).before, dropBlank_cons (by decide)]
    rw [← foldlM_take_none]
    cases hf : (m :: ms).foldlM take none with
    | none =>
      rw [hf] at read
      obtain ⟨e, read⟩ := read
      exact ⟨e, by simp [readObject, hd, read]⟩
    | some f =>
      rw [hf] at read
      have read : readMembers none t = .ok (f, r) := read
      show readObject _ = _
      cases f <;> simp [readObject, hd, read]
      rfl

private theorem encloses_cons {e body : List Char} {es : List (List Char)}
    (h : Encloses (e :: es) body) : es = [] ∧ body = e ∨ es ≠ [] ∧ ∃ t, body = e ++ ',' :: t := by
  cases h with
  | one => exact .inl ⟨rfl, rfl⟩
  | more => exact .inr ⟨by simp, _, rfl⟩

private theorem readArray_spelled {xs : List Item} {body : List Char}
    (he : Encloses (xs.map Item.text) body) (hs : ∀ x ∈ xs, x.Spaced)
    (hv : ∀ x ∈ xs, IsValue x.value) (r : List Char) :
    Reads (optionsOfItems xs) r (readArray (body ++ ']' :: r)) := by
  cases xs with
  | nil =>
    obtain ⟨hb⟩ := he
    have hd : dropBlank (body ++ ']' :: r) = ']' :: r := by
      rw [dropBlank_append hb, dropBlank_cons (by decide)]
    show readArray _ = _
    simp only [readArray, hd, if_true]
    rfl
  | cons x xs =>
    have hx := hs x (by simp)
    have hvx := hv x (by simp)
    -- What follows the first element is the bracket or, where there are more, a comma.
    obtain ⟨c, t, htext, hc, hend⟩ : ∃ c t, body ++ ']' :: r = x.text ++ c :: t ∧
        isBlank c = false ∧ (xs = [] ∧ c = ']' ∧ t = r ∨ xs ≠ [] ∧ c ≠ ']') := by
      rcases encloses_cons he with ⟨hxs, rfl⟩ | ⟨hxs, t, rfl⟩
      · exact ⟨']', r, rfl, by decide, .inl ⟨by simpa using hxs, rfl, rfl⟩⟩
      · exact ⟨',', t ++ ']' :: r, by simp, by decide, .inr ⟨by simpa using hxs, by decide⟩⟩
    have after : dropBlank (x.after ++ c :: t) = c :: t := by
      rw [dropBlank_append hx.2, dropBlank_cons hc]
    obtain ⟨d, u, hdu, hd, hclose, -⟩ := hvx.head
    have first : dropBlank (body ++ ']' :: r) = d :: (u ++ (x.after ++ c :: t)) := by
      rw [htext, Item.text, List.append_assoc, List.append_assoc, dropBlank_append hx.1, hdu,
        List.cons_append, dropBlank_cons hd]
    have read := readBool_spelled blanks_nil hvx (x.after ++ c :: t)
    rw [hdu, List.nil_append, List.cons_append, ← hdu] at read
    cases hf : flag? x.value with
    | none =>
      rw [hf] at read
      obtain ⟨e, read⟩ := read
      have unwanted : optionsOfItems (x :: xs) = none := by
        cases xs <;> simp [optionsOfItems, hf]
      rw [unwanted]
      exact ⟨e, by simp [readArray, first, hclose, read]⟩
    | some b =>
      rw [hf] at read
      have read : readBool (d :: (u ++ (x.after ++ c :: t))) = .ok (b, x.after ++ c :: t) := read
      rcases hend with ⟨rfl, rfl, rfl⟩ | ⟨hxs, hc⟩
      · simp [optionsOfItems, hf, Reads, readArray, first, hclose, read, after]
      · obtain ⟨y, ys, rfl⟩ := List.exists_cons_of_ne_nil hxs
        exact ⟨.malformed, by simp [readArray, first, hclose, read, after, hc]⟩

private theorem readOptions_object {ms : List Member} {v ws : List Char} (h : IsObject ms v)
    (hws : Blanks ws) (r : List Char) :
    Reads (optionsOf ms) r (readOptions (ws ++ (v ++ r))) := by
  obtain ⟨hs, hv, body, hbody, rfl⟩ := h
  have hd := dropBlank_bracketed hws (show isBlank '{' = false by decide) body '}' r
  simp only [readOptions, hd, if_true]
  exact readObject_spelled hbody hs hv r

private theorem readOptions_array {xs : List Item} {v ws : List Char} (h : IsArray xs v)
    (hws : Blanks ws) (r : List Char) :
    Reads (optionsOfItems xs) r (readOptions (ws ++ (v ++ r))) := by
  obtain ⟨hs, hv, body, hbody, rfl⟩ := h
  have hd := dropBlank_bracketed hws (show isBlank '[' = false by decide) body ']' r
  have hne : ¬ '[' = '{' := by decide
  simp only [readOptions, hd, hne, if_true, if_false]
  exact readArray_spelled hbody hs hv r

/-! ## What is read was spelled -/

theorem spelled_of_readBool {b : Bool} {cs r : List Char} (h : readBool cs = .ok (b, r)) :
    ∃ ws v, Blanks ws ∧ IsValue v ∧ cs = ws ++ (v ++ r) := by
  unfold readBool at h
  split at h
  · simp at h
  · rename_i hd
    split at h
    · simp at h
    · rename_i hw
      cases h
      obtain ⟨ws, hws, rfl⟩ := spelled_of_dropBlank hd
      exact ⟨ws, _, hws, .scalar (.bool true), by rw [spelled_of_readWord hw]; rfl⟩
  · rename_i hd
    split at h
    · simp at h
    · rename_i hw
      cases h
      obtain ⟨ws, hws, rfl⟩ := spelled_of_dropBlank hd
      exact ⟨ws, _, hws, .scalar (.bool false), by rw [spelled_of_readWord hw]; rfl⟩
  · simp at h

private theorem spelled_of_readMemberValue {name : List Char} {found f : Option Bool}
    {cs r : List Char} (h : readMemberValue name found cs = .ok (f, r)) :
    ∃ colon ws v, Blanks colon ∧ Blanks ws ∧ IsValue v ∧
      cs = colon ++ ':' :: (ws ++ (v ++ r)) := by
  unfold readMemberValue at h
  split at h
  · split at h
    · simp at h
    · split at h
      · simp at h
      · rename_i hc
        split at h
        · simp at h
        · rename_i hb
          cases h
          obtain ⟨colon, hcolon, rfl⟩ := spelled_of_readColon hc
          obtain ⟨ws, v, hws, hv, rfl⟩ := spelled_of_readBool hb
          exact ⟨colon, ws, v, hcolon, hws, hv, rfl⟩
  · split at h
    · simp at h
    · rename_i hc
      split at h
      · simp at h
      · rename_i hs
        cases h
        obtain ⟨colon, hcolon, rfl⟩ := spelled_of_readColon hc
        obtain ⟨ws, v, hws, hv, rfl⟩ := spelled_of_skipValue hs
        exact ⟨colon, ws, v, hcolon, hws, hv, rfl⟩

/-- A member that is read, after the blanks before it. -/
theorem spelled_of_member {name cs r₁ r₂ : List Char} {found f : Option Bool}
    (hn : readText cs = .ok (name, r₁)) (hv : readMemberValue name found r₁ = .ok (f, r₂))
    {before ws r : List Char} (hb : Blanks before) (hws : Blanks ws) (hr : r₂ = ws ++ r) :
    ∃ m : Member, m.Spelled true ∧ IsValue m.item.value ∧
      before ++ '"' :: cs = m.text ++ r := by
  obtain ⟨key, body, hkey, -, rfl⟩ := spelled_of_readTextAfter hn
  obtain ⟨colon, space, v, hcolon, hspace, hvalue, rfl⟩ := spelled_of_readMemberValue hv
  refine ⟨⟨before, key, body, colon, ⟨space, v, ws⟩⟩, ⟨hb, hkey, hcolon, hspace, hws⟩, hvalue, ?_⟩
  simp [Member.text, Member.tail, Item.text, hr]

private theorem spelled_of_readMembers {found f : Option Bool} {cs r : List Char}
    (h : readMembers found cs = .ok (f, r)) {before : List Char} (hb : Blanks before) :
    ∃ m ms body, (∀ x ∈ m :: ms, x.Spelled true ∧ IsValue x.item.value) ∧
      Encloses ((m :: ms).map Member.text) body ∧
      before ++ '"' :: cs = body ++ '}' :: r := by
  fun_induction readMembers found cs generalizing before with
  | case4 found cs name r₁ hn g r₂ hv t hd =>
    cases h
    obtain ⟨ws, hws, hr⟩ := spelled_of_dropBlank hd
    obtain ⟨m, hm, hvalue, htext⟩ := spelled_of_member hn hv hb hws hr
    exact ⟨m, [], m.text, by simpa using ⟨hm, hvalue⟩, .one _, htext⟩
  | case6 found cs name r₁ hn g r₂ hv t u hd _ hq ih =>
    obtain ⟨ws, hws, hr⟩ := spelled_of_dropBlank hd
    obtain ⟨space, hspace, rfl⟩ := spelled_of_dropBlank hq
    obtain ⟨m, hm, hvalue, htext⟩ := spelled_of_member hn hv hb hws hr
    obtain ⟨n, ms, body, hms, hbody, hrest⟩ := ih h hspace
    refine ⟨m, n :: ms, m.text ++ ',' :: body, ?_, .more _ hbody, by simp [htext, hrest]⟩
    rw [List.forall_mem_cons]
    exact ⟨⟨hm, hvalue⟩, hms⟩
  | _ => simp at h

private theorem spelled_of_readObject {o : Options} {cs r : List Char}
    (h : readObject cs = .ok (o, r)) : ∃ ms v, IsObject ms v ∧ '{' :: cs = v ++ r := by
  unfold readObject at h
  split at h
  · simp at h
  · rename_i hd
    obtain ⟨ws, hws, rfl⟩ := spelled_of_dropBlank hd
    split at h
    · rename_i hc
      cases h
      exact ⟨[], _, ⟨by simp, by simp, ws, .nothing hws, rfl⟩, by simp [hc]⟩
    · split at h
      · rename_i hc
        subst hc
        obtain ⟨f, hf⟩ : ∃ f, readMembers none _ = .ok (f, r) := by
          split at h
          · simp at h
          · rename_i hf
            cases h
            exact ⟨_, hf⟩
          · rename_i hf
            cases h
            exact ⟨_, hf⟩
        obtain ⟨m, ms, body, hms, hbody, htext⟩ := spelled_of_readMembers hf hws
        exact ⟨m :: ms, _, ⟨fun x hx => (hms x hx).1, fun x hx => (hms x hx).2, body, hbody, rfl⟩,
          by simp [htext]⟩
      · simp at h

private theorem spelled_of_readArray {o : Options} {cs r : List Char}
    (h : readArray cs = .ok (o, r)) : ∃ xs v, IsArray xs v ∧ '[' :: cs = v ++ r := by
  unfold readArray at h
  split at h
  · simp at h
  · rename_i hd
    obtain ⟨ws, hws, rfl⟩ := spelled_of_dropBlank hd
    split at h
    · rename_i hc
      cases h
      exact ⟨[], _, ⟨by simp, by simp, ws, .nothing hws, rfl⟩, by simp [hc]⟩
    · split at h
      · simp at h
      · rename_i hb
        split at h
        · simp at h
        · rename_i hd'
          split at h
          · rename_i hc
            cases h
            obtain ⟨space, v, hspace, hv, htext⟩ := spelled_of_readBool hb
            obtain ⟨after, hafter, rfl⟩ := spelled_of_dropBlank hd'
            refine ⟨[⟨ws ++ space, v, after⟩], _, ⟨?_, ?_, _, .one _, rfl⟩, ?_⟩
            · simpa using ⟨hws.append hspace, hafter⟩
            · simpa using hv
            · simp [Item.text, htext, hc]
          · simp at h

private theorem spelled_of_readOptions {o : Options} {cs r : List Char}
    (h : readOptions cs = .ok (o, r)) :
    ∃ ws v, Blanks ws ∧ cs = ws ++ (v ++ r) ∧ ((∃ ms, IsObject ms v) ∨ ∃ xs, IsArray xs v) := by
  unfold readOptions at h
  split at h
  · simp at h
  · rename_i hd
    obtain ⟨ws, hws, rfl⟩ := spelled_of_dropBlank hd
    split at h
    · rename_i hc
      obtain ⟨ms, v, hv, htext⟩ := spelled_of_readObject h
      exact ⟨ws, v, hws, by rw [hc, htext], .inl ⟨ms, hv⟩⟩
    · split at h
      · rename_i hc
        obtain ⟨xs, v, hv, htext⟩ := spelled_of_readArray h
        exact ⟨ws, v, hws, by rw [hc, htext], .inr ⟨xs, hv⟩⟩
      · simp at h

end Wakeup.Json

namespace Wakeup
open Json

/-- Only blanks may stand after what is read. -/
theorem Options.ofJson?_eq_ok_iff {expected : Option Options} {cs r : List Char}
    (h : Reads expected r (readOptions cs)) (hr : Blanks r) (o : Options) :
    Options.ofJson? (String.ofList cs) = .ok o ↔ expected = some o := by
  cases expected with
  | none =>
    obtain ⟨e, h⟩ := h
    simp [Options.ofJson?, h]
  | some a =>
    have h : readOptions cs = .ok (a, r) := h
    simp [Options.ofJson?, h, finish, dropBlank_blanks hr]

private theorem Options.spelled_of_ofJson? {text : String} {o : Options}
    (h : Options.ofJson? text = .ok o) :
    ∃ ws v ws', Blanks ws ∧ Blanks ws' ∧ text = String.ofList (ws ++ (v ++ ws')) ∧
      ((∃ ms, IsObject ms v) ∨ ∃ xs, IsArray xs v) := by
  simp only [Options.ofJson?] at h
  split at h
  · simp at h
  · rename_i a r hread
    obtain ⟨ws, v, hws, htext, hv⟩ := spelled_of_readOptions hread
    have hr : Blanks r := by
      simp only [finish] at h
      split at h
      · exact blanks_of_dropBlank (by assumption)
      · simp at h
    exact ⟨ws, v, r, hws, hr, by rw [← htext, String.ofList_toList], hv⟩

/-- The one member as it is written, without blanks and escapes. -/
def Options.member (o : Options) : Member :=
  ⟨[], nonblockingName, nonblockingName, [], ⟨[], boolWord o.nonblocking, []⟩⟩

private theorem Options.isObject_toJson (o : Options) :
    ∃ v, IsObject [o.member] v ∧ o.toJson = String.ofList v := by
  have name : SpellsText true nonblockingName nonblockingName := spellsText_plain (by decide)
  refine ⟨_, ⟨?_, ?_, _, .one _, rfl⟩, ?_⟩
  · simpa using (⟨blanks_nil, name, blanks_nil, blanks_nil, blanks_nil⟩ : o.member.Spelled true)
  · intro m hm
    cases List.mem_singleton.1 hm
    exact .scalar (.bool o.nonblocking)
  · rcases o with ⟨_ | _⟩ <;> decide

private theorem Options.optionsOf_member (o : Options) : optionsOf [o.member] = some o := by
  simp [optionsOf, Options.member, flag?_boolWord]

/-- An object stands for options by its members with the one name, after escapes, whatever the
other members hold; an array by its only element; no other text does; and what is written reads
back. -/
theorem Options.decoded_from_json :
    (∀ ms v ws ws', IsObject ms v → Blanks ws → Blanks ws' → ∀ o,
      Options.ofJson? (String.ofList (ws ++ (v ++ ws'))) = .ok o ↔ optionsOf ms = some o) ∧
    (∀ xs v ws ws', IsArray xs v → Blanks ws → Blanks ws' → ∀ o,
      Options.ofJson? (String.ofList (ws ++ (v ++ ws'))) = .ok o ↔
        optionsOfItems xs = some o) ∧
    (∀ text o, Options.ofJson? text = .ok o →
      ∃ ws v ws', Blanks ws ∧ Blanks ws' ∧ text = String.ofList (ws ++ (v ++ ws')) ∧
        ((∃ ms, IsObject ms v) ∨ ∃ xs, IsArray xs v)) ∧
    ∀ o : Options, Options.ofJson? o.toJson = .ok o := by
  have object {ms v ws ws'} (h : IsObject ms v) (hws : Blanks ws) (hws' : Blanks ws') (o) :
      Options.ofJson? (String.ofList (ws ++ (v ++ ws'))) = .ok o ↔ optionsOf ms = some o :=
    Options.ofJson?_eq_ok_iff (readOptions_object h hws ws') hws' o
  refine ⟨fun ms v ws ws' h hws hws' => object h hws hws', ?_,
    fun text o => Options.spelled_of_ofJson?, ?_⟩
  · intro xs v ws ws' h hws hws' o
    exact Options.ofJson?_eq_ok_iff (readOptions_array h hws ws') hws' o
  · intro o
    obtain ⟨v, hv, htext⟩ := o.isObject_toJson
    have decoded := (object hv blanks_nil blanks_nil o).2 o.optionsOf_member
    rwa [List.nil_append, List.append_nil, ← htext] at decoded

/-- Two members, of which the second counts though its name is written with an escape. The first
holds a namesake within an array, and a string with a quote, a brace and half a surrogate pair. -/
def escapedMembers : List Member :=
  [⟨[], ['a'], ['a'], [],
      ⟨[' '], "[\x7b\"nonblocking\":true\x7d,\"\\\"\x7d\\ud800\"]".toList, []⟩⟩,
    ⟨['\n'], nonblockingName, "\\u006eonblocking".toList, [' '], ⟨[], boolWord false, []⟩⟩]

/-- The text of these members. -/
def escapedObject : String :=
  "\x7b\"a\": [\x7b\"nonblocking\":true\x7d,\"\\\"\x7d\\ud800\"],\n" ++
    "\"\\u006eonblocking\" :false\x7d"

theorem Options.decoded_from_json_escaped :
    IsObject escapedMembers escapedObject.toList ∧
      Options.ofJson? (String.ofList (['\t'] ++ (escapedObject.toList ++ [' ']))) =
        .ok ⟨false⟩ := by
  have name : SpellsText false nonblockingName nonblockingName := spellsText_plain (by decide)
  have escaped : SpellsText true nonblockingName "\\u006eonblocking".toList :=
    .cons (.numbered (.digits (i := 0) (j := 0) (k := 6) (l := 14) rfl rfl rfl rfl) (by decide))
      (spellsText_plain (s := "onblocking".toList) (by decide))
  have inner : IsValue "\x7b\"nonblocking\":true\x7d".toList :=
    @IsValue.object [⟨[], nonblockingName, nonblockingName, [], ⟨[], boolWord true, []⟩⟩] _
      (by simpa using ⟨blanks_nil, name, blanks_nil, blanks_nil, blanks_nil⟩)
      (by simpa using .scalar (.bool true)) (.one _)
  have string : IsValue "\"\\\"\x7d\\ud800\"".toList :=
    .scalar (.string (.cons (.letter (c := '"') (by decide))
      (.cons (.plain (c := '}') (by decide))
        (.cons (.numbered (.digits (i := 13) (j := 8) (k := 0) (l := 0) rfl rfl rfl rfl)
          (by decide)) .nil))))
  have nested : IsValue "[\x7b\"nonblocking\":true\x7d,\"\\\"\x7d\\ud800\"]".toList :=
    @IsValue.array [⟨[], "\x7b\"nonblocking\":true\x7d".toList, []⟩,
        ⟨[], "\"\\\"\x7d\\ud800\"".toList, []⟩] _
      (by simp [Item.Spaced, Blanks]) (by simpa using ⟨inner, string⟩) (.more _ (.one _))
  have object : IsObject escapedMembers escapedObject.toList := by
    refine ⟨?_, ?_, _, .more _ (.one _), by decide⟩
    · rw [escapedMembers, List.forall_mem_cons, List.forall_mem_singleton]
      exact ⟨⟨blanks_nil, spellsText_plain (by decide), blanks_nil, by decide, blanks_nil⟩,
        ⟨by decide, escaped, by decide, blanks_nil, blanks_nil⟩⟩
    · rw [escapedMembers, List.forall_mem_cons, List.forall_mem_singleton]
      exact ⟨nested, .scalar (.bool false)⟩
  exact ⟨object, (Options.decoded_from_json.1 _ _ _ _ object (by decide) (by decide) _).2
    (by decide)⟩

end Wakeup
