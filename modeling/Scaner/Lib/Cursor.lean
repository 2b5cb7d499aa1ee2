/-
# Iterators into a buffer

An iterator into the buffer `content` is the suffix of `content` behind it.
Moving one by `n` is undefined when it would leave the buffer on either side,
and so is copying a range whose first end lies behind its last.  Both are
`Fault`s here, so that a value of type `Bytes` that an operation returns is
always an iterator of the buffer.
-/

import Scaner.Lib.Bytes
import Mathlib.Data.Nat.Cast.Defs

namespace Scaner

/-- What an iterator can do that is undefined. -/
inductive Fault
  | beforeBegin
  | pastEnd
  | reversedRange
  deriving DecidableEq

namespace Cursor

/-- `cursor + n`. -/
def advance (content cursor : Bytes) (n : ℤ) : Except Fault Bytes :=
  let pos : ℤ := content.length - cursor.length + n
  if pos < 0 then .error .beforeBegin
  else if content.length < pos then .error .pastEnd
  else .ok (content.drop pos.toNat)

/-- The bytes of the range `[first, last)`. -/
def copyRange (first last : Bytes) : Except Fault Bytes :=
  if last.length ≤ first.length then .ok (first.take (first.length - last.length))
  else .error .reversedRange

variable {content cursor c : Bytes} {n : ℤ}

/-- A cursor stays within its buffer behind a byte that is found from it on. -/
theorem suffix_of_append_cons {b : UInt8} {x : Bytes} (h : x ++ b :: c <:+ content) :
    c <:+ content :=
  (List.suffix_cons b c).trans ((List.suffix_append x _).trans h)

/-- A cursor that is moved stays within its buffer. -/
theorem advance_suffix (h : advance content cursor n = .ok c) : c <:+ content := by
  unfold advance at h
  simp only at h
  split_ifs at h
  obtain rfl := Except.ok.inj h
  exact List.drop_suffix _ _

/-- An iterator that is moved by `n` has `n` bytes less in front of it. -/
theorem advance_length (hs : cursor <:+ content) (h : advance content cursor n = .ok c) :
    (c.length : ℤ) = cursor.length - n := by
  have hle := hs.length_le
  unfold advance at h
  simp only at h
  split_ifs at h
  obtain rfl := Except.ok.inj h
  rw [List.length_drop]
  omega

/-- Moving forward inside the buffer drops bytes. -/
theorem advance_of_le {k : ℕ} (hs : cursor <:+ content) (hk : k ≤ cursor.length) :
    advance content cursor k = .ok (cursor.drop k) := by
  obtain ⟨u, rfl⟩ := hs
  unfold advance
  simp only [List.length_append]
  rw [if_neg (by omega), if_neg (by omega)]
  congr 1
  have : ((((u.length + cursor.length : ℕ) : ℤ) - cursor.length + k).toNat) = u.length + k := by
    omega
  rw [this, List.drop_append, List.drop_eq_nil_of_le (by omega)]
  simp

/-- **Where an iterator can be moved**: as far back as there are bytes behind it,
as far on as there are bytes in front. -/
theorem advance_isOk_iff (hs : cursor <:+ content) :
    (∃ c, advance content cursor n = .ok c) ↔
      -((content.length : ℤ) - cursor.length) ≤ n ∧ n ≤ cursor.length := by
  have hle := hs.length_le
  unfold advance
  simp only
  split_ifs with h₁ h₂
  · simp only [exists_false, false_iff]
    omega
  · simp only [exists_false, false_iff]
    omega
  · simp only [Except.ok.injEq, exists_eq', true_iff]
    omega

/-- A move out of the buffer fails. -/
theorem exists_advance_eq_error (hs : cursor <:+ content)
    (hn : ¬ (-((content.length : ℤ) - cursor.length) ≤ n ∧ n ≤ cursor.length)) :
    ∃ e, advance content cursor n = .error e := by
  cases h : advance content cursor n with
  | error e => exact ⟨e, rfl⟩
  | ok c => exact absurd ((advance_isOk_iff hs).1 ⟨c, h⟩) hn

/-- A copy from a cursor to one behind it. -/
theorem copyRange_drop {k : ℕ} (hk : k ≤ cursor.length) :
    copyRange cursor (cursor.drop k) = .ok (cursor.take k) := by
  rw [copyRange, if_pos (by simp), List.length_drop]
  congr 2
  omega

end Cursor
end Scaner
