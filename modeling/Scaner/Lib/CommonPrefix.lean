/-
# The common prefix of two lists

`commonPrefix x y` is the longest list that both begin with
(`prefix_commonPrefix_iff`).  `Near w n x y` compares two lists from the front: `x` is
used up before they differ, or they differ behind a common prefix of weight `n`.

`Near` is no order: with `x` near `y` and `y` near `z`, `x` need not be near `z`.
`near_trans_iff` says when it is.
-/

import Mathlib.Data.List.Infix
import Mathlib.Tactic.Cases

namespace Scaner

variable {α : Type*} [DecidableEq α]

/-- The longest common prefix. -/
def commonPrefix : List α → List α → List α
  | a :: x, b :: y => if a = b then a :: commonPrefix x y else []
  | _, _ => []

/-- Two lists share their first elements, or nothing. -/
theorem commonPrefix_cons (a b : α) (x y : List α) :
    commonPrefix (a :: x) (b :: y) = if a = b then a :: commonPrefix x y else [] := rfl

/-- What `commonPrefix` is for. -/
theorem prefix_commonPrefix_iff {x y z : List α} :
    z <+: commonPrefix x y ↔ z <+: x ∧ z <+: y := by
  induction x generalizing y z with
  | nil => simp +contextual [commonPrefix]
  | cons a x ih =>
      cases y with
      | nil => simp +contextual [commonPrefix]
      | cons b y =>
          rw [commonPrefix_cons]
          cases z with
          | nil => simp
          | cons c z =>
              split_ifs with hab
              · simp only [List.cons_prefix_cons, ih, ← hab]
                exact and_and_left
              · simp only [List.prefix_nil, reduceCtorEq, List.cons_prefix_cons, false_iff]
                rintro ⟨⟨rfl, -⟩, rfl, -⟩
                exact hab rfl

/-- The common prefix is a prefix of the first list. -/
theorem commonPrefix_prefix_left (x y : List α) : commonPrefix x y <+: x :=
  (prefix_commonPrefix_iff.1 (List.prefix_refl _)).1

/-- The common prefix is a prefix of the second list. -/
theorem commonPrefix_prefix_right (x y : List α) : commonPrefix x y <+: y :=
  (prefix_commonPrefix_iff.1 (List.prefix_refl _)).2

/-- A prefix of a list is shared with it. -/
theorem commonPrefix_eq_left {x y : List α} (h : x <+: y) : commonPrefix x y = x := by
  have hle : x <+: commonPrefix x y := prefix_commonPrefix_iff.2 ⟨List.prefix_refl _, h⟩
  exact (commonPrefix_prefix_left x y).eq_of_length_le hle.length_le

/-- `x` ends before the lists differ, or they differ behind a prefix of weight `n`. -/
def Near (w : List α → ℕ) (n : ℕ) (x y : List α) : Prop :=
  x <+: y ∨ ¬ y <+: x ∧ n ≤ w (commonPrefix x y)

section Weight

variable {w : List α → ℕ} {n k : ℕ} {x y z : List α}

/-- A list that is near another and does not go on with `z` leaves it behind a prefix of
weight `n`, if both have this prefix. -/
theorem Near.le_weight (h : Near w n x y) (hx : ¬ x <+: z) (hz : commonPrefix x y <+: z) :
    n ≤ w (commonPrefix x y) := by
  rcases h with h | h
  · rw [commonPrefix_eq_left h] at hz
    exact absurd hz hx
  · exact h.2

/-- **When nearness is passed on**: `x` ends before it differs from `z`, or `y` is as near
to `z` as `x` is to `y`, and `z` does not end before it differs from `x`. -/
theorem near_trans_iff (hw : ∀ u v, u <+: v → w u ≤ w v) (hxy : Near w n x y)
    (hyz : Near w k y z) : Near w n x z ↔ x <+: z ∨ Near w n y z ∧ ¬ z <+: x := by
  by_cases hx : x <+: z
  · exact iff_of_true (Or.inl hx) (Or.inl hx)
  by_cases hz : z <+: x
  · simp [Near, hx, hz]
  simp only [Near, hx, hz, false_or, not_false_eq_true, true_and, and_true]
  constructor
  · intro hn
    by_cases hy : y <+: z
    · exact Or.inl hy
    · refine Or.inr ⟨(hyz.resolve_left hy).1, ?_⟩
      -- the shorter of the prefixes that `x` shares with `y` and with `z`
      rcases List.prefix_or_prefix_of_prefix (commonPrefix_prefix_left x y)
        (commonPrefix_prefix_left x z) with h | h
      · have hpre : commonPrefix x y <+: z := h.trans (commonPrefix_prefix_right x z)
        exact (hxy.le_weight hx hpre).trans (hw _ _ (prefix_commonPrefix_iff.2
          ⟨commonPrefix_prefix_right x y, hpre⟩))
      · exact hn.trans (hw _ _ (prefix_commonPrefix_iff.2
          ⟨h.trans (commonPrefix_prefix_right x y), commonPrefix_prefix_right x z⟩))
  · intro h
    -- the shorter of the prefixes that `y` shares with `x` and with `z`
    rcases List.prefix_or_prefix_of_prefix (commonPrefix_prefix_right x y)
      (commonPrefix_prefix_left y z) with hle | hle
    · have hpre : commonPrefix x y <+: z := hle.trans (commonPrefix_prefix_right y z)
      exact (hxy.le_weight hx hpre).trans (hw _ _ (prefix_commonPrefix_iff.2
        ⟨commonPrefix_prefix_left x y, hpre⟩))
    · have hpre : commonPrefix y z <+: x := hle.trans (commonPrefix_prefix_left x y)
      rcases h with hy | ⟨-, hn⟩
      · rw [commonPrefix_eq_left hy] at hpre
        rcases hxy with hxy | hxy
        · exact absurd (hxy.trans hy) hx
        · exact absurd hpre hxy.1
      · exact hn.trans (hw _ _ (prefix_commonPrefix_iff.2
          ⟨hpre, commonPrefix_prefix_right y z⟩))

end Weight

end Scaner
