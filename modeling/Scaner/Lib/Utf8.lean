/-
# The forms of a code point

UTF-8 writes a number in groups of six bits: a first byte, which tells how many continuation
bytes follow and holds the highest bits, and a continuation byte for every further group.
`form n c` is the number `c` with `n` continuation bytes, for any `c` below `room n`; the form
that UTF-8 prescribes is the shortest one (`encode`).

`tails_tailBytes` says what the continuation bytes stand for, `form_value` what the whole form
does, and `eq_form` that every first byte with the right number of continuation bytes is a form.
-/

import Mathlib.Tactic.IntervalCases
import Mathlib.Tactic.Positivity
import Mathlib.Tactic.Ring
import Scaner.Lib.Bytes

namespace Scaner
namespace Utf8

/-- A continuation byte. -/
def IsTail (b : UInt8) : Prop := 0x80 ≤ b ∧ b ≤ 0xBF

instance (b : UInt8) : Decidable (IsTail b) := inferInstanceAs (Decidable (_ ∧ _))

/-- The number that a number and the continuation bytes behind it stand for. -/
def tails (v : ℕ) (s : Bytes) : ℕ := s.foldl (fun v b => v * 64 + (b.toNat - 0x80)) v

/-- The last `6 * n` bits of `c` in continuation bytes. -/
def tailBytes : ℕ → ℕ → Bytes
  | 0, _ => []
  | n + 1, c => UInt8.ofNat (0x80 + c / 64 ^ n % 64) :: tailBytes n c

/-- What a first byte in front of `n` continuation bytes has beside the highest bits. -/
def leadMark : ℕ → ℕ
  | 0 => 0
  | 1 => 0xC0
  | 2 => 0xE0
  | _ => 0xF0

/-- The highest bits that a first byte in front of `n` continuation bytes has room for. -/
def leadRoom : ℕ → ℕ
  | 0 => 0x80
  | 1 => 0x20
  | 2 => 0x10
  | _ => 0x08

/-- The numbers with a form of `n` continuation bytes are those below. -/
def room (n : ℕ) : ℕ := leadRoom n * 64 ^ n

/-- The number `c` with `n` continuation bytes. -/
def form (n c : ℕ) : Bytes := UInt8.ofNat (leadMark n + c / 64 ^ n) :: tailBytes n c

/-- The continuation bytes of the shortest form. -/
def tailCount (c : ℕ) : ℕ :=
  if c < 0x80 then 0 else if c < 0x800 then 1 else if c < 0x10000 then 2 else 3

/-- The shortest form. -/
def encode (c : ℕ) : Bytes := form (tailCount c) c

variable {n c v : ℕ} {s : Bytes}

/-- The continuation bytes. -/
theorem isTail_iff {b : UInt8} : IsTail b ↔ 128 ≤ b.toNat ∧ b.toNat ≤ 191 := Iff.rfl

/-- Continuation bytes are read from the left. -/
theorem tails_cons (v : ℕ) (b : UInt8) (s : Bytes) :
    tails v (b :: s) = tails (v * 64 + (b.toNat - 0x80)) s := by
  simp only [tails, List.foldl_cons]

/-- `n` continuation bytes. -/
@[simp]
theorem length_tailBytes (n c : ℕ) : (tailBytes n c).length = n := by
  induction n with
  | zero => rfl
  | succ n ih => rw [tailBytes, List.length_cons, ih]

/-- A form has one byte more than continuation bytes. -/
@[simp]
theorem length_form (n c : ℕ) : (form n c).length = n + 1 := by simp [form]

/-- An ASCII character is its own byte. -/
theorem encode_of_lt (h : c < 0x80) : encode c = [UInt8.ofNat c] := by
  rw [encode, tailCount, if_pos h, form, tailBytes, leadMark, Nat.zero_add, Nat.pow_zero,
    Nat.div_one]

/-- A continuation byte fits in a byte. -/
theorem toNat_tail (x : ℕ) : (UInt8.ofNat (0x80 + x % 64)).toNat = 0x80 + x % 64 := by
  rw [UInt8.toNat_ofNat']
  omega

/-- The bytes that are written behind the first one are continuation bytes. -/
theorem isTail_tailBytes (n c : ℕ) : ∀ b ∈ tailBytes n c, IsTail b := by
  induction n with
  | zero => simp [tailBytes]
  | succ n ih =>
      rintro b (_ | ⟨_, hb⟩)
      · rw [isTail_iff, toNat_tail]
        omega
      · exact ih b hb

/-- What is written in continuation bytes is read back. -/
theorem tails_tailBytes (v n c : ℕ) : tails v (tailBytes n c) = v * 64 ^ n + c % 64 ^ n := by
  induction n generalizing v with
  | zero => simp [tails, tailBytes, Nat.mod_one]
  | succ n ih =>
      rw [tailBytes, tails_cons, toNat_tail, Nat.add_sub_cancel_left, ih, Nat.mod_pow_succ]
      ring

/-- A bound for what continuation bytes give. -/
theorem tails_lt (hs : ∀ b ∈ s, IsTail b) : tails v s < (v + 1) * 64 ^ s.length := by
  induction s generalizing v with
  | nil => simp [tails]
  | cons b s ih =>
      have hb := isTail_iff.1 (hs b List.mem_cons_self)
      have hrest := ih (v := v * 64 + (b.toNat - 0x80)) fun x hx => hs x (List.mem_cons_of_mem b hx)
      rw [tails_cons, List.length_cons, pow_succ]
      calc tails (v * 64 + (b.toNat - 0x80)) s
          < (v * 64 + (b.toNat - 0x80) + 1) * 64 ^ s.length := hrest
        _ ≤ ((v + 1) * 64) * 64 ^ s.length := Nat.mul_le_mul_right _ (by omega)
        _ = (v + 1) * (64 ^ s.length * 64) := by ring

/-- The bits of the first byte come back from what is read. -/
theorem tails_div (hs : ∀ b ∈ s, IsTail b) : tails v s / 64 ^ s.length = v := by
  have hlow : v * 64 ^ s.length ≤ tails v s := by
    clear hs
    induction s generalizing v with
    | nil => simp [tails]
    | cons b s ih =>
        rw [tails_cons, List.length_cons, pow_succ]
        calc v * (64 ^ s.length * 64) = (v * 64) * 64 ^ s.length := by ring
          _ ≤ (v * 64 + (b.toNat - 0x80)) * 64 ^ s.length := Nat.mul_le_mul_right _ (by omega)
          _ ≤ tails (v * 64 + (b.toNat - 0x80)) s := ih
  exact Nat.div_eq_of_lt_le hlow (tails_lt hs)

/-- Continuation bytes are those of the number that they stand for. -/
theorem tailBytes_tails (hs : ∀ b ∈ s, IsTail b) : tailBytes s.length (tails v s) = s := by
  induction s generalizing v with
  | nil => rfl
  | cons b s ih =>
      have hb := isTail_iff.1 (hs b List.mem_cons_self)
      have hs' : ∀ x ∈ s, IsTail x := fun x hx => hs x (List.mem_cons_of_mem b hx)
      rw [List.length_cons, tailBytes, tails_cons, tails_div hs', ih hs']
      have hbyte : 0x80 + (v * 64 + (b.toNat - 0x80)) % 64 = b.toNat := by omega
      rw [hbyte, UInt8.ofNat_toNat]

/-- The first byte of a form fits in a byte. -/
theorem toNat_lead (hn : n ≤ 3) (hc : c < room n) :
    (UInt8.ofNat (leadMark n + c / 64 ^ n)).toNat = leadMark n + c / 64 ^ n := by
  rw [UInt8.toNat_ofNat', Nat.mod_eq_of_lt]
  have hlead : c / 64 ^ n < leadRoom n := (Nat.div_lt_iff_lt_mul (by positivity)).2 hc
  interval_cases n <;> simp only [leadMark, leadRoom] at hlead ⊢ <;> omega

/-- The number is what its form stands for. -/
theorem form_value (n c : ℕ) : tails (c / 64 ^ n) (tailBytes n c) = c := by
  rw [tails_tailBytes]
  exact Nat.div_add_mod' c (64 ^ n)

/-- A first byte and its continuation bytes are a form. -/
theorem eq_form {b : UInt8} (hb : b.toNat = leadMark s.length + v) (hs : ∀ b ∈ s, IsTail b) :
    b :: s = form s.length (tails v s) := by
  rw [form, tails_div hs, tailBytes_tails hs, ← hb, UInt8.ofNat_toNat]

/-- There are at most three continuation bytes. -/
theorem tailCount_le (c : ℕ) : tailCount c ≤ 3 := by
  unfold tailCount
  split_ifs <;> omega

/-- Every code point has room in its shortest form. -/
theorem lt_room_tailCount (hc : c < 0x200000) : c < room (tailCount c) := by
  unfold tailCount
  split_ifs <;> simp only [room, leadRoom] <;> omega

end Utf8
end Scaner
