import Mathlib.Data.Multiset.Bind
import Wakeup.Table

/-! Tables as multisets of entries. -/
namespace Wakeup.Table
variable {α : Type}

theorem nodup_toList (t : Table α) : t.toList.Nodup := by
  refine List.Pairwise.imp ?_ t.ascending
  rintro ⟨k, a⟩ ⟨k', a'⟩ h heq
  have hk : k = k' := (Prod.mk.inj heq).1
  have hlt : k < k' := h
  omega

theorem nodup_keys (t : Table α) : (t.toList.map (·.1)).Nodup := by
  rw [List.Nodup, List.pairwise_map]
  refine List.Pairwise.imp ?_ t.ascending
  intro x y h
  exact Int.ne_of_lt h

theorem mem_keys {t : Table α} {k : Int} : k ∈ t.toList.map (·.1) ↔ (t.get? k).isSome = true := by
  rw [List.mem_map, Option.isSome_iff_exists]
  constructor
  · rintro ⟨⟨k', a⟩, hmem, rfl⟩
    exact ⟨a, mem_toList_iff.mp hmem⟩
  · rintro ⟨a, ha⟩
    exact ⟨(k, a), mem_toList_iff.mpr ha, rfl⟩

theorem coe_toList_insert (t : Table α) (k : Int) (a : α) :
    ((t.insert k a).toList : Multiset (Int × α)) = (k, a) ::ₘ ↑(t.erase k).toList := by
  have hnew : (k, a) ∉ (t.erase k).toList := by
    rw [mem_toList_iff, get?_erase_self]
    simp
  rw [Multiset.Nodup.ext (Multiset.coe_nodup.mpr (nodup_toList _))
    (Multiset.nodup_cons.mpr ⟨hnew, Multiset.coe_nodup.mpr (nodup_toList _)⟩)]
  rintro ⟨k', b⟩
  rw [Multiset.mem_cons, Multiset.mem_coe, Multiset.mem_coe, mem_toList_iff, mem_toList_iff,
    get?_insert, get?_erase, Prod.mk.injEq]
  by_cases hk : k' = k
  · simp [hk, eq_comm]
  · simp [hk]

theorem insert_of_get? {t : Table α} {k : Int} {a : α} (h : t.get? k = some a) :
    t.insert k a = t := by
  refine ext fun k' => ?_
  rw [get?_insert]
  split_ifs with hk
  · rw [hk, h]
  · rfl

theorem coe_toList_of_get? {t : Table α} {k : Int} {a : α} (h : t.get? k = some a) :
    (t.toList : Multiset (Int × α)) = (k, a) ::ₘ ↑(t.erase k).toList := by
  rw [← coe_toList_insert, insert_of_get? h]

theorem erase_of_get?_eq_none {t : Table α} {k : Int} (h : t.get? k = none) : t.erase k = t := by
  refine ext fun k' => ?_
  rw [get?_erase]
  split_ifs with hk
  · rw [hk, h]
  · rfl

theorem values_eq (t : Table α) : t.values = t.toList.map (·.2) := rfl

theorem coe_values_insert (t : Table α) (k : Int) (a : α) :
    ((t.insert k a).values : Multiset α) = a ::ₘ ↑(t.erase k).values := by
  have h := congrArg (Multiset.map (·.2)) (coe_toList_insert t k a)
  simpa [values_eq] using h

theorem coe_values_of_get? {t : Table α} {k : Int} {a : α} (h : t.get? k = some a) :
    (t.values : Multiset α) = a ::ₘ ↑(t.erase k).values := by
  have h := congrArg (Multiset.map (·.2)) (coe_toList_of_get? h)
  simpa [values_eq] using h

theorem mem_values {t : Table α} {a : α} : a ∈ t.values ↔ ∃ k, t.get? k = some a := by
  rw [values_eq, List.mem_map]
  constructor
  · rintro ⟨⟨k, b⟩, hm, rfl⟩
    exact ⟨k, mem_toList_iff.mp hm⟩
  · rintro ⟨k, h⟩
    exact ⟨(k, a), mem_toList_iff.mpr h, rfl⟩

end Wakeup.Table
