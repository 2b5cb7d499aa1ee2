/-
# A text cut at every occurrence of another

`cut pat s` is the list of the texts between the occurrences of `pat` in `s`, taken from
the left one behind the other, as a loop over `s.find(pat, pos)` meets them.

`cut_append` cuts off the first piece, `cut_eq_singleton` the last one, and
`cut_induction` is the induction that goes with the two.  Where `pat` does not overlap
with itself an occurrence divides the pieces wherever it stands
(`cut_append_of_not_mem`), and texts that it joins are cut apart again (`cut_intercalate`).
-/

import Scaner.Lib.Find

namespace Scaner
namespace Bytes

/-- At most `n` cuts. -/
def cutFuel (pat : Bytes) : ℕ → Bytes → List Bytes
  | 0, s => [s]
  | n + 1, s =>
      match splitFirst pat s with
      | none => [s]
      | some (x, y) => x :: cutFuel pat n y

/-- The pieces of `s` between the occurrences of `pat`. -/
def cut (pat s : Bytes) : List Bytes := cutFuel pat s.length s

variable {pat s x y : Bytes}

/-- A turn for each byte is enough. -/
theorem cutFuel_eq_cut (hpat : pat ≠ []) {n : ℕ} (h : s.length ≤ n) :
    cutFuel pat n s = cut pat s := by
  have hlen : 0 < pat.length := List.length_pos_of_ne_nil hpat
  -- any two counts that are large enough give the same pieces
  suffices hall : ∀ (n m : ℕ) (s : Bytes), s.length ≤ n → s.length ≤ m →
      cutFuel pat n s = cutFuel pat m s from hall n _ s h le_rfl
  intro n
  induction n with
  | zero =>
      intro m s hn _
      obtain rfl : s = [] := List.length_eq_zero_iff.1 (Nat.le_zero.1 hn)
      cases m with
      | zero => rfl
      | succ m => simp [cutFuel, splitFirst, hpat]
  | succ n ih =>
      intro m s hn hm
      rw [cutFuel]
      cases hsplit : splitFirst pat s with
      | none =>
          cases m with
          | zero => rfl
          | succ m => rw [cutFuel, hsplit]
      | some r =>
          obtain ⟨x, y⟩ := r
          obtain ⟨rfl, -⟩ := splitFirst_eq_some_iff.1 hsplit
          simp only [List.length_append] at hn hm
          cases m with
          | zero => omega
          | succ m =>
              rw [cutFuel, hsplit]
              simp only
              rw [ih m y (by omega) (by omega)]

/-- A text in which the pattern does not occur is one piece. -/
theorem cut_eq_singleton (h : ¬ pat <:+: s) : cut pat s = [s] := by
  unfold cut
  cases s.length with
  | zero => rfl
  | succ n => rw [cutFuel, splitFirst_eq_none_iff.2 h]

/-- The first piece ends at the first occurrence. -/
theorem cut_append (hpat : pat ≠ []) (h : FirstAt pat x) (y : Bytes) :
    cut pat (x ++ (pat ++ y)) = x :: cut pat y := by
  have hlen : 0 < pat.length := List.length_pos_of_ne_nil hpat
  unfold cut
  obtain ⟨n, hn⟩ : ∃ n, (x ++ (pat ++ y)).length = n + 1 :=
    ⟨_, (Nat.succ_pred_eq_of_pos (by simp only [List.length_append]; omega)).symm⟩
  rw [hn, cutFuel, h.splitFirst_append]
  simp only
  rw [cutFuel_eq_cut hpat (by simp only [List.length_append] at hn; omega)]
  rfl

/-- Induction over the pieces of a text. -/
theorem cut_induction (hpat : pat ≠ []) {P : Bytes → Prop} (hlast : ∀ s, ¬ pat <:+: s → P s)
    (hnext : ∀ x y, FirstAt pat x → P y → P (x ++ (pat ++ y))) (s : Bytes) : P s := by
  have hlen : 0 < pat.length := List.length_pos_of_ne_nil hpat
  induction hn : s.length using Nat.strong_induction_on generalizing s with
  | _ n ih =>
      cases hsplit : splitFirst pat s with
      | none => exact hlast s (splitFirst_eq_none_iff.1 hsplit)
      | some r =>
          obtain ⟨x, y⟩ := r
          obtain ⟨rfl, hfirst⟩ := splitFirst_eq_some_iff.1 hsplit
          simp only [List.length_append] at hn
          exact hnext x y hfirst (ih _ (by omega) y rfl)

/-- There is at least one piece. -/
theorem cut_ne_nil (hpat : pat ≠ []) (s : Bytes) : cut pat s ≠ [] := by
  induction s using cut_induction hpat with
  | hlast s h => simp [cut_eq_singleton h]
  | hnext x y h _ => simp [cut_append hpat h]

/-- Every occurrence of a text that does not overlap with itself divides the pieces. -/
theorem cut_append_of_not_mem {a : UInt8} {q : Bytes} (ha : a ∉ q) (x y : Bytes) :
    cut (a :: q) (x ++ (a :: q ++ y)) = cut (a :: q) x ++ cut (a :: q) y := by
  have hpat : a :: q ≠ [] := by simp
  induction x using cut_induction hpat with
  | hlast x h => rw [cut_append hpat ((firstAt_iff_of_not_mem ha).2 h), cut_eq_singleton h]; rfl
  | hnext x z h ih =>
      rw [List.append_assoc, List.append_assoc, cut_append hpat h, cut_append hpat h, ih]
      rfl

/-- There is at least one piece, with any number of turns. -/
theorem cutFuel_ne_nil (pat : Bytes) (n : ℕ) (s : Bytes) : cutFuel pat n s ≠ [] := by
  cases n with
  | zero => simp [cutFuel]
  | succ n =>
      rw [cutFuel]
      split <;> simp

/-- **Texts that are joined are cut apart again**, if what joins them does not overlap with
itself and is in none of them. -/
theorem cut_intercalate {a : UInt8} {q : Bytes} (ha : a ∉ q) {xs : List Bytes} (hne : xs ≠ [])
    (hxs : ∀ x ∈ xs, ¬ a :: q <:+: x) : cut (a :: q) ((a :: q).intercalate xs) = xs := by
  induction xs with
  | nil => exact absurd rfl hne
  | cons x xs ih =>
      obtain ⟨hx, hrest⟩ := List.forall_mem_cons.1 hxs
      cases xs with
      | nil => rw [List.intercalate_singleton, cut_eq_singleton hx]
      | cons y xs =>
          rw [List.intercalate_cons_cons, List.append_assoc, cut_append_of_not_mem ha,
            cut_eq_singleton hx, ih (by simp) hrest]
          rfl

end Bytes
end Scaner
