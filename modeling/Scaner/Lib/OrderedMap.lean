/-
# Maps in the order of their keys

`Std.ExtTreeMap` over a lawful order: what is found under a key after an insertion, after an
insertion that keeps what is there, and after some keys are erased.  Lists that ascend
strictly are equal as soon as they have the same members (`ascending_ext`), which is how two
lists taken from such maps are compared.
-/

import Mathlib.Data.List.Sort

namespace Scaner
namespace OrderedMap

variable {α β : Type*} {cmp : α → α → Ordering} [Std.TransCmp cmp] [Std.LawfulEqCmp cmp]

/-- The list ascends strictly. -/
abbrev Ascending (cmp : α → α → Ordering) (l : List α) : Prop :=
  l.Pairwise fun a b => cmp a b = .lt

omit [Std.LawfulEqCmp cmp] in
/-- Ascending lists of the same elements are the same. -/
theorem ascending_ext {l l' : List α} (h : Ascending cmp l) (h' : Ascending cmp l')
    (hmem : ∀ a, a ∈ l ↔ a ∈ l') : l = l' := by
  have hself : ∀ a, cmp a a ≠ .lt := fun a => by simp [Std.ReflCmp.compare_self]
  have : Std.Irrefl fun a b => cmp a b = .lt := ⟨hself⟩
  have : Std.Antisymm fun a b => cmp a b = .lt :=
    ⟨fun _ _ hab hba => absurd hba (Std.OrientedCmp.not_lt_of_lt hab)⟩
  exact h.eq_of_mem_iff h' hmem

section Lookup

variable [DecidableEq α]

/-- What stands under a key after an insertion. -/
theorem getElem?_insert (m : Std.ExtTreeMap α β cmp) (k : α) (v : β) (x : α) :
    (m.insert k v)[x]? = if k = x then some v else m[x]? := by
  rw [Std.ExtTreeMap.getElem?_insert]
  simp only [Std.LawfulEqCmp.compare_eq_iff_eq]

/-- What stands under a key after an insertion that keeps what is there. -/
theorem getElem?_insertIfNew (m : Std.ExtTreeMap α β cmp) (k : α) (v : β) (x : α) :
    (m.insertIfNew k v)[x]? = m[x]?.or (if k = x then some v else none) := by
  rw [Std.ExtTreeMap.getElem?_insertIfNew]
  simp only [Std.LawfulEqCmp.compare_eq_iff_eq]
  by_cases hk : k = x
  · subst hk
    by_cases hmem : k ∈ m <;> simp [hmem]
  · simp [hk]

/-- The same of several keys. -/
theorem getElem?_foldl_insertIfNew (keys : List α) (v : β) (m : Std.ExtTreeMap α β cmp) (x : α) :
    (keys.foldl (fun m key => m.insertIfNew key v) m)[x]? =
      m[x]?.or (if x ∈ keys then some v else none) := by
  induction keys generalizing m with
  | nil => simp
  | cons key keys ih =>
      rw [List.foldl_cons, ih, getElem?_insertIfNew, Option.or_assoc]
      congr 1
      by_cases hx : key = x
      · simp [hx]
      · simp [hx, Ne.symm hx]

/-- What stands under a key after an erasure. -/
theorem getElem?_erase (m : Std.ExtTreeMap α β cmp) (k x : α) :
    (m.erase k)[x]? = if k = x then none else m[x]? := by
  rw [Std.ExtTreeMap.getElem?_erase]
  simp only [Std.LawfulEqCmp.compare_eq_iff_eq]

/-- The same of several keys. -/
theorem getElem?_foldl_erase (keys : List α) (m : Std.ExtTreeMap α β cmp) (x : α) :
    (keys.foldl (fun m key => m.erase key) m)[x]? = if x ∈ keys then none else m[x]? := by
  induction keys generalizing m with
  | nil => simp
  | cons key keys ih =>
      rw [List.foldl_cons, ih, getElem?_erase]
      by_cases hx : x ∈ keys
      · simp [hx]
      · simp [hx, eq_comm]

end Lookup

end OrderedMap
end Scaner
