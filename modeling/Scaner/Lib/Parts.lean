/-
# The parts that two lists share

A list is cut into parts at an element `a`.  `sharedParts a x y` is the number of parts that
`x` and `y` have in common from the front.  When the lists differ in an element, these are the
parts that end before it (`sharedParts_of_not_prefix`); when one of them is used up, its last
part is shared if `a` follows in the other (`sharedParts_append_cons`).
-/

import Mathlib.Data.List.Count
import Scaner.Lib.CommonPrefix

namespace Scaner

variable {α : Type*} [DecidableEq α]

/-- The common prefix is symmetric. -/
theorem commonPrefix_comm (x y : List α) : commonPrefix x y = commonPrefix y x := by
  have hle : ∀ x y : List α, commonPrefix x y <+: commonPrefix y x := fun x y =>
    prefix_commonPrefix_iff.2 ⟨commonPrefix_prefix_right x y, commonPrefix_prefix_left x y⟩
  exact (hle x y).eq_of_length_le (hle y x).length_le

/-- A map that tells elements apart keeps the common prefix. -/
theorem commonPrefix_map {β : Type*} [DecidableEq β] {f : α → β} (hf : Function.Injective f)
    (x y : List α) : commonPrefix (x.map f) (y.map f) = (commonPrefix x y).map f := by
  induction x generalizing y with
  | nil => simp [commonPrefix]
  | cons a x ih =>
      cases y with
      | nil => simp [commonPrefix]
      | cons b y =>
          simp only [List.map_cons, commonPrefix_cons, hf.eq_iff, ih]
          split_ifs <;> rfl

/-- The parts of the list that is read from the other end. -/
theorem splitOn_reverse (a : α) (x : List α) :
    x.reverse.splitOn a = ((x.splitOn a).map List.reverse).reverse := by
  induction hn : x.length using Nat.strong_induction_on generalizing x with
  | _ n ih =>
      by_cases ha : a ∈ x
      · obtain ⟨u, v, rfl, hu⟩ := List.eq_append_cons_of_mem ha
        have hlen : v.length < n := by
          rw [← hn, List.length_append, List.length_cons]
          omega
        have hrev : (u ++ a :: v).reverse = v.reverse ++ a :: u.reverse := by simp
        have hlast : u.reverse.splitOn a = [u.reverse] :=
          List.splitOn_eq_singleton (by simpa using hu)
        rw [hrev, List.splitOn_append_cons_self, ih _ hlen v rfl, hlast,
          List.splitOn_append_cons_self_of_not_mem hu]
        simp
      · rw [List.splitOn_eq_singleton (by simpa using ha), List.splitOn_eq_singleton ha]
        rfl

/-- The number of parts that two lists share from the front. -/
def sharedParts (a : α) (x y : List α) : ℕ := (commonPrefix (x.splitOn a) (y.splitOn a)).length

section

variable {a : α} {x y : List α}

/-- The shared parts are symmetric. -/
theorem sharedParts_comm (a : α) (x y : List α) : sharedParts a x y = sharedParts a y x := by
  rw [sharedParts, commonPrefix_comm, sharedParts]

/-- A separator in both ends a shared part. -/
theorem sharedParts_cons_self (a : α) (x y : List α) :
    sharedParts a (a :: x) (a :: y) = sharedParts a x y + 1 := by
  simp [sharedParts, List.splitOn_cons_eq_if_modifyHead, commonPrefix_cons]

/-- An element in both that is no separator ends none. -/
theorem sharedParts_cons {b : α} (hb : b ≠ a) (x y : List α) :
    sharedParts a (b :: x) (b :: y) = sharedParts a x y := by
  obtain ⟨u, us, hu⟩ := List.exists_cons_of_ne_nil (List.splitOn_ne_nil a x)
  obtain ⟨v, vs, hv⟩ := List.exists_cons_of_ne_nil (List.splitOn_ne_nil a y)
  simp only [sharedParts, List.splitOn_cons_eq_if_modifyHead, beq_iff_eq, if_neg hb, hu, hv,
    List.modifyHead_cons, commonPrefix_cons, List.cons.injEq, true_and]
  split_ifs <;> rfl

/-- Where two lists differ at once, no part is shared. -/
theorem sharedParts_cons_ne {b c : α} (hbc : b ≠ c) (x y : List α) :
    sharedParts a (b :: x) (c :: y) = 0 := by
  obtain ⟨u, us, hu⟩ := List.exists_cons_of_ne_nil (List.splitOn_ne_nil a x)
  obtain ⟨v, vs, hv⟩ := List.exists_cons_of_ne_nil (List.splitOn_ne_nil a y)
  simp only [sharedParts, List.splitOn_cons_eq_if_modifyHead, beq_iff_eq, hu, hv]
  -- at most one of the two first parts ends at once
  by_cases hb : b = a
  · have hc : c ≠ a := fun hc => hbc (hb.trans hc.symm)
    simp [hb, hc, commonPrefix_cons]
  · by_cases hc : c = a
    · simp [hb, hc, commonPrefix_cons]
    · simp [hb, hc, commonPrefix_cons, hbc]

/-- Where one list is at its end, the part is shared if the other one's ends there too. -/
theorem sharedParts_nil_cons (b : α) (y : List α) :
    sharedParts a [] (b :: y) = if b = a then 1 else 0 := by
  obtain ⟨v, vs, hv⟩ := List.exists_cons_of_ne_nil (List.splitOn_ne_nil a y)
  simp only [sharedParts, List.splitOn_nil, List.splitOn_cons_eq_if_modifyHead, beq_iff_eq, hv]
  split_ifs <;> simp [commonPrefix_cons, commonPrefix]

/-- The separators of a list, with one more element. -/
theorem count_cons_ite (b : α) (x : List α) :
    (b :: x).count a = x.count a + if b = a then 1 else 0 := by
  simp [List.count_cons]

/-- **Where one list is used up**, its last part is shared if it ends in the other. -/
theorem sharedParts_append_cons (x : List α) (b : α) (y : List α) :
    sharedParts a x (x ++ b :: y) = x.count a + if b = a then 1 else 0 := by
  induction x with
  | nil => simpa using sharedParts_nil_cons b y
  | cons c x ih =>
      rw [List.cons_append, count_cons_ite]
      by_cases hc : c = a
      · rw [hc, sharedParts_cons_self, ih, if_pos rfl]
        omega
      · rw [sharedParts_cons hc, ih, if_neg hc, Nat.add_zero]

/-- **Where the lists differ**, the parts that end before are shared. -/
theorem sharedParts_of_not_prefix (hxy : ¬ x <+: y) (hyx : ¬ y <+: x) :
    sharedParts a x y = (commonPrefix x y).count a := by
  induction x generalizing y with
  | nil => exact absurd (List.nil_prefix) hxy
  | cons b x ih =>
      cases y with
      | nil => exact absurd (List.nil_prefix) hyx
      | cons c y =>
          rw [commonPrefix_cons]
          split_ifs with hbc
          · subst hbc
            rw [List.cons_prefix_cons, and_iff_right rfl] at hxy hyx
            rw [count_cons_ite, ← ih hxy hyx]
            by_cases hb : b = a
            · rw [hb, sharedParts_cons_self, if_pos rfl]
            · rw [sharedParts_cons hb, if_neg hb, Nat.add_zero]
          · rw [sharedParts_cons_ne hbc]
            rfl

end

end Scaner
