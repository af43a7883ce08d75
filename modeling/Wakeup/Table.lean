/-! Finite maps on whole numbers, listed in ascending order of their keys. Tables with the same
look-ups are equal. -/
namespace Wakeup

/-- The value of the first entry under a key. -/
def lookup {α : Type} (k : Int) : List (Int × α) → Option α
  | [] => none
  | (k', a) :: rest => if k = k' then some a else lookup k rest

/-- Puts an entry at its place in an ascending list, instead of an entry under the same key. -/
def place {α : Type} (k : Int) (a : α) : List (Int × α) → List (Int × α)
  | [] => [(k, a)]
  | (k', a') :: rest =>
    if k < k' then (k, a) :: (k', a') :: rest
    else if k = k' then (k, a) :: rest
    else (k', a') :: place k a rest

/-- Whether keys ascend strictly. -/
def Ascending {α : Type} (l : List (Int × α)) : Prop := l.Pairwise fun a b => a.1 < b.1

section Entries
variable {α : Type}

theorem mem_place {k : Int} {a : α} {l : List (Int × α)} {e : Int × α} (h : e ∈ place k a l) :
    e = (k, a) ∨ e ∈ l := by
  fun_induction place k a l with grind

theorem ascending_place {k : Int} {a : α} {l : List (Int × α)} (h : Ascending l) :
    Ascending (place k a l) := by
  fun_induction place k a l with
  | case1 => simp [Ascending]
  | case2 k' a' rest hk =>
    refine List.pairwise_cons.2 ⟨?_, h⟩
    intro e he
    rcases List.mem_cons.1 he with rfl | he
    · exact hk
    · exact Int.lt_trans hk (List.rel_of_pairwise_cons h he)
  | case3 a' rest hk =>
    obtain ⟨hall, hrest⟩ := List.pairwise_cons.1 h
    exact List.pairwise_cons.2 ⟨hall, hrest⟩
  | case4 k' a' rest hk hne ih =>
    obtain ⟨hall, hrest⟩ := List.pairwise_cons.1 h
    refine List.pairwise_cons.2 ⟨?_, ih hrest⟩
    intro e he
    rcases mem_place he with rfl | he
    · show k' < k
      omega
    · exact hall e he

theorem lookup_place (k k' : Int) (a : α) (l : List (Int × α)) :
    lookup k' (place k a l) = if k' = k then some a else lookup k' l := by
  fun_induction place k a l with grind [lookup]

theorem lookup_filter (k k' : Int) (l : List (Int × α)) :
    lookup k' (l.filter (·.1 ≠ k)) = if k' = k then none else lookup k' l := by
  induction l with grind [lookup]

theorem lookup_eq_none_of_lt {k : Int} {l : List (Int × α)} (h : ∀ e ∈ l, k < e.1) :
    lookup k l = none := by
  induction l with grind [lookup]

theorem mem_of_lookup {k : Int} {a : α} {l : List (Int × α)} (h : lookup k l = some a) :
    (k, a) ∈ l := by
  induction l with grind [lookup]

theorem lookup_of_mem {k : Int} {a : α} {l : List (Int × α)} (hl : Ascending l)
    (h : (k, a) ∈ l) : lookup k l = some a := by
  induction l with
  | nil => simp at h
  | cons e rest ih =>
    obtain ⟨hall, hrest⟩ := List.pairwise_cons.1 hl
    obtain ⟨k', a'⟩ := e
    rcases List.mem_cons.1 h with h | h
    · cases h
      simp [lookup]
    · have : k' < k := hall _ h
      have hne : k ≠ k' := by omega
      simp [lookup, hne, ih hrest h]

theorem eq_of_lookup_eq {l m : List (Int × α)} (hl : Ascending l) (hm : Ascending m)
    (h : ∀ k, lookup k l = lookup k m) : l = m := by
  induction l generalizing m with
  | nil =>
    match m with
    | [] => rfl
    | (k, a) :: m => simpa [lookup] using h k
  | cons e l ih =>
    obtain ⟨k, a⟩ := e
    match m with
    | [] => simpa [lookup] using h k
    | (k', a') :: m =>
      obtain ⟨hall, hrest⟩ := List.pairwise_cons.1 hl
      obtain ⟨hall', hrest'⟩ := List.pairwise_cons.1 hm
      have hk : k = k' := by
        rcases Int.lt_trichotomy k k' with hlt | heq | hgt
        · have := h k
          rw [lookup_eq_none_of_lt (l := (k', a') :: m)] at this
          · simp [lookup] at this
          · intro e he
            rcases List.mem_cons.1 he with rfl | he
            · exact hlt
            · exact Int.lt_trans hlt (hall' e he)
        · exact heq
        · have := h k'
          rw [lookup_eq_none_of_lt (l := (k, a) :: l)] at this
          · simp [lookup] at this
          · intro e he
            rcases List.mem_cons.1 he with rfl | he
            · exact hgt
            · exact Int.lt_trans hgt (hall e he)
      subst hk
      have ha : a = a' := by simpa [lookup] using h k
      subst ha
      rw [ih hrest hrest']
      intro j
      by_cases hj : j = k
      · subst hj
        rw [lookup_eq_none_of_lt hall, lookup_eq_none_of_lt hall']
      · simpa [lookup, hj] using h j

end Entries

/-- A finite map on whole numbers. -/
structure Table (α : Type) where
  entries : List (Int × α)
  ascending : Ascending entries

namespace Table
variable {α β : Type}

def empty : Table α := ⟨[], List.Pairwise.nil⟩

instance : EmptyCollection (Table α) := ⟨empty⟩

instance : Inhabited (Table α) := ⟨empty⟩

def get? (t : Table α) (k : Int) : Option α := lookup k t.entries

def contains (t : Table α) (k : Int) : Bool := (t.get? k).isSome

def insert (t : Table α) (k : Int) (a : α) : Table α :=
  ⟨place k a t.entries, ascending_place t.ascending⟩

def erase (t : Table α) (k : Int) : Table α :=
  ⟨t.entries.filter (·.1 ≠ k), List.Pairwise.filter _ t.ascending⟩

def size (t : Table α) : Nat := t.entries.length

/-- The entries in ascending order of their keys. -/
def toList (t : Table α) : List (Int × α) := t.entries

/-- The values in ascending order of their keys. -/
def values (t : Table α) : List α := t.entries.map (·.2)

@[simp] theorem get?_empty (k : Int) : (∅ : Table α).get? k = none := rfl

theorem get?_insert (t : Table α) (k k' : Int) (a : α) :
    (t.insert k a).get? k' = if k' = k then some a else t.get? k' := lookup_place k k' a t.entries

@[simp] theorem get?_insert_self (t : Table α) (k : Int) (a : α) :
    (t.insert k a).get? k = some a := by simp [get?_insert]

theorem get?_erase (t : Table α) (k k' : Int) :
    (t.erase k).get? k' = if k' = k then none else t.get? k' := lookup_filter k k' t.entries

@[simp] theorem get?_erase_self (t : Table α) (k : Int) : (t.erase k).get? k = none := by
  simp [get?_erase]

theorem mem_toList_iff {t : Table α} {k : Int} {a : α} : (k, a) ∈ t.toList ↔ t.get? k = some a :=
  ⟨lookup_of_mem t.ascending, mem_of_lookup⟩

@[ext] theorem ext {t u : Table α} (h : ∀ k, t.get? k = u.get? k) : t = u := by
  obtain ⟨l, hl⟩ := t
  obtain ⟨m, hm⟩ := u
  have : l = m := eq_of_lookup_eq hl hm h
  subst this
  rfl

end Table
end Wakeup
