/-! Totals of a quantity over a list. -/
namespace Wakeup
variable {α β : Type}

def total (f : α → Nat) : List α → Nat
  | [] => 0
  | a :: l => f a + total f l

@[simp] theorem total_nil (f : α → Nat) : total f [] = 0 := rfl

@[simp] theorem total_cons (f : α → Nat) (a : α) (l : List α) :
    total f (a :: l) = f a + total f l := rfl

theorem total_append (f : α → Nat) (l₁ l₂ : List α) :
    total f (l₁ ++ l₂) = total f l₁ + total f l₂ := by
  induction l₁ with
  | nil => simp
  | cons a l₁ ih => simp [ih, Nat.add_assoc]

theorem total_eq_zero {f : α → Nat} {l : List α} (h : ∀ a ∈ l, f a = 0) : total f l = 0 := by
  induction l with
  | nil => rfl
  | cons a l ih =>
    rw [total_cons, h a List.mem_cons_self, ih fun b hb => h b (List.mem_cons_of_mem a hb)]

theorem le_total_of_mem {f : α → Nat} {l : List α} {a : α} (h : a ∈ l) : f a ≤ total f l := by
  obtain ⟨l₁, l₂, rfl⟩ := List.append_of_mem h
  rw [total_append, total_cons]
  omega

theorem total_map (f : β → Nat) (g : α → β) (l : List α) :
    total f (l.map g) = total (fun a => f (g a)) l := by
  induction l with
  | nil => rfl
  | cons a l ih => simp [ih]

theorem total_modify (l : List α) (i : Nat) (f : α → α) (g : α → Nat) {a : α}
    (h : l[i]? = some a) : total g (l.modify i f) + g a = total g l + g (f a) := by
  induction l generalizing i with
  | nil => simp at h
  | cons b l ih =>
    cases i with
    | zero =>
      simp only [List.getElem?_cons_zero, Option.some.injEq] at h
      subst h
      simp only [List.modify_zero_cons, total_cons]
      omega
    | succ i =>
      simp only [List.getElem?_cons_succ] at h
      have := ih i h
      simp only [List.modify_succ_cons, total_cons]
      omega

theorem total_modify_le (l : List α) (i : Nat) (f : α → α) (g : α → Nat)
    (h : ∀ a, g (f a) ≤ g a) : total g (l.modify i f) ≤ total g l := by
  induction l generalizing i with
  | nil => simp
  | cons a l ih =>
    cases i with
    | zero =>
      have := h a
      simp only [List.modify_zero_cons, total_cons]
      omega
    | succ i =>
      have := ih i
      simp only [List.modify_succ_cons, total_cons]
      omega

end Wakeup
