/-
# Byte strings and the C functions that read them

A `std::string` and a `std::vector<unsigned char>` are lists of bytes, and so is
a pointer into one: it is the list of the bytes from the pointer to the end of
its buffer, the past-the-end pointer being `[]`.  The comparison of two pointers
into one buffer is then the comparison of two suffixes of it, and their
difference the difference of two lengths.

`strncmp`, `strtol` and `atoi` stop at the end of the buffer, as they do at the
zero byte that ends a C string.  `int` and `long` have 32 bits, and a number out
of their range is read as the nearest one inside it.  The character classes are
those of the "C" locale.
-/

import Mathlib.Algebra.Ring.Int.Defs
import Mathlib.Algebra.Ring.Nat
import Mathlib.Data.List.DropRight
import Mathlib.Data.List.Infix
import Mathlib.Tactic.Cases

namespace Scaner

/-- A byte string, or what lies between a pointer and the end of its buffer. -/
abbrev Bytes := List UInt8

namespace Bytes

/-- The bytes of an ASCII literal. -/
def str (s : String) : Bytes := s.toList.map fun c => UInt8.ofNat c.toNat

/-- `'\r'`. -/
abbrev cr : UInt8 := 13

/-- `'\n'`. -/
abbrev lf : UInt8 := 10

/-- `' '`. -/
abbrev space : UInt8 := 32

/-- `':'`. -/
abbrev colon : UInt8 := 58

/-- `';'`. -/
abbrev semicolon : UInt8 := 59

/-- `strncmp(s, pat, strlen(pat)) == 0`. -/
def startsWith (s pat : Bytes) : Bool := pat.isPrefixOf s

/-- `s.find(pat) != npos`. -/
def containsSub (pat : Bytes) : Bytes → Bool
  | [] => pat.isPrefixOf []
  | b :: s => startsWith (b :: s) pat || containsSub pat s

/-- `while (it != end) { if (strncmp(it++, pat, strlen(pat)) == 0) break; }`:
the pointer is left behind the first byte of the first occurrence of `pat`, or
at the end. -/
def seekPast (pat : Bytes) : Bytes → Bytes
  | [] => []
  | b :: s => if startsWith (b :: s) pat then s else seekPast pat s

/-- What follows the first occurrence of `pat`: `s.substr(s.find(pat) + strlen(pat))`,
`none` where `find` is `npos`. -/
def afterFirst (pat : Bytes) : Bytes → Option Bytes
  | [] => if pat = [] then some [] else none
  | b :: s => if startsWith (b :: s) pat then some ((b :: s).drop pat.length) else afterFirst pat s

/-- `isspace`. -/
def isSpace (b : UInt8) : Bool := b == 32 || (9 ≤ b && b ≤ 13)

/-- `isdigit`. -/
def isDigit (b : UInt8) : Bool := 48 ≤ b && b ≤ 57

/-- `tolower`. -/
def toLower (b : UInt8) : UInt8 := if 65 ≤ b && b ≤ 90 then b + 32 else b

/-- `toupper`. -/
def toUpper (b : UInt8) : UInt8 := if 97 ≤ b && b ≤ 122 then b - 32 else b

/-- `s.erase(0, s.find_first_not_of(set))`, then
`s.erase(s.find_last_not_of(set) + 1)`. -/
def trim (set : Bytes) (s : Bytes) : Bytes :=
  (s.dropWhile (set.contains ·)).rdropWhile (set.contains ·)

/-- The value of a digit or a letter in a numeral, `36` for another byte. -/
def digitVal (b : UInt8) : ℕ :=
  if 48 ≤ b && b ≤ 57 then b.toNat - 48
  else if 97 ≤ b && b ≤ 122 then b.toNat - 87
  else if 65 ≤ b && b ≤ 90 then b.toNat - 55
  else 36

/-- The number a list of digits stands for. -/
def ofDigits (base : ℕ) (s : Bytes) : ℕ := s.foldl (fun n b => n * base + digitVal b) 0

/-- The number at the front of `s`: its longest prefix of digits of the base. -/
def numeral (base : ℕ) (s : Bytes) : ℕ := ofDigits base (s.takeWhile (digitVal · < base))

/-- An optional sign at the front of `s`, and the rest. -/
def sign : Bytes → ℤ × Bytes
  | [] => (1, [])
  | b :: s => if b = 45 then (-1, s) else if b = 43 then (1, s) else (1, b :: s)

/-- The optional `0x` in front of a hexadecimal number. -/
def skipHexMark (base : ℕ) (s : Bytes) : Bytes :=
  if base = 16 && (startsWith s (str "0x") || startsWith s (str "0X")) then s.drop 2 else s

/-- The nearest number of 32 bits. -/
def clamp32 (x : ℤ) : ℤ := max (-2 ^ 31) (min x (2 ^ 31 - 1))

/-- `strtol(s, &p, base)`. -/
def strtol (base : ℕ) (s : Bytes) : ℤ :=
  let r := sign (s.dropWhile isSpace)
  clamp32 (r.1 * numeral base (skipHexMark base r.2))

/-- `atoi(s)`. -/
def atoi (s : Bytes) : ℤ := strtol 10 s

/-! ### Prefixes and occurrences -/

/-- `strncmp` of a text with a pattern of its length: the pattern is a prefix. -/
theorem startsWith_iff {s pat : Bytes} : startsWith s pat = true ↔ pat <+: s := by
  simp [startsWith]

/-- A comparison that succeeds still does when bytes follow. -/
theorem startsWith_append {s pat : Bytes} (h : startsWith s pat = true) (t : Bytes) :
    startsWith (s ++ t) pat = true := by
  rw [startsWith_iff] at h ⊢
  exact h.trans (List.prefix_append s t)

/-- A pattern at the front is no longer than the text. -/
theorem length_le_of_startsWith {s pat : Bytes} (h : startsWith s pat = true) :
    pat.length ≤ s.length :=
  (startsWith_iff.1 h).length_le

/-- The bytes behind matter only to a comparison that reaches them. -/
theorem startsWith_append_of_length {s pat : Bytes} (h : pat.length ≤ s.length) (t : Bytes) :
    startsWith (s ++ t) pat = startsWith s pat := by
  rw [Bool.eq_iff_iff, startsWith_iff, startsWith_iff]
  exact ⟨fun hp => List.prefix_of_prefix_length_le hp (List.prefix_append s t) h,
    fun hp => hp.trans (List.prefix_append s t)⟩

/-- The search for a pattern finds it exactly if it occurs. -/
theorem containsSub_iff {pat s : Bytes} : containsSub pat s = true ↔ pat <:+: s := by
  induction s with
  | nil => simp [containsSub]
  | cons b s ih => rw [containsSub, Bool.or_eq_true, ih, startsWith_iff, List.infix_cons_iff]

/-- The last byte of a text is behind every other byte. -/
theorem exists_concat_of_suffix {x y : Bytes} {c d : UInt8} (h : [c] <:+ x ++ d :: y)
    (hne : c ≠ d) : ∃ w, y = w ++ [c] := by
  obtain ⟨r, hr⟩ := h
  have hlast := congrArg List.getLast? hr
  rcases List.eq_nil_or_concat' y with rfl | ⟨w, b, rfl⟩
  · simp [hne] at hlast
  · exact ⟨w, by simpa [List.getLast?_cons] using hlast.symm⟩

/-- What follows a pattern is an end of the text. -/
theorem seekPast_suffix (pat s : Bytes) : seekPast pat s <:+ s := by
  induction s with
  | nil => simp [seekPast]
  | cons b s ih =>
      rw [seekPast]
      split
      · exact List.suffix_cons b s
      · exact ih.trans (List.suffix_cons b s)

/-- What follows a pattern is no longer than the text. -/
theorem length_seekPast_le (pat s : Bytes) : (seekPast pat s).length ≤ s.length :=
  (seekPast_suffix pat s).length_le

/-- With no occurrence the pointer ends at the end. -/
theorem seekPast_eq_nil {pat s : Bytes} (h : ¬ pat <:+: s) : seekPast pat s = [] := by
  induction s with
  | nil => rfl
  | cons b s ih =>
      rw [List.infix_cons_iff, not_or] at h
      have hb : startsWith (b :: s) pat = false := by
        rw [← Bool.not_eq_true, startsWith_iff]
        exact h.1
      rw [seekPast, hb, ih h.2]
      rfl

/-- A pattern of more than one byte that occurs is found before the end. -/
theorem seekPast_ne_nil {pat s : Bytes} (hpat : 2 ≤ pat.length) (h : pat <:+: s) :
    seekPast pat s ≠ [] := by
  induction s with
  | nil =>
      have := h.length_le
      simp only [List.length_nil] at this
      omega
  | cons b s ih =>
      rw [seekPast]
      split_ifs with hb
      · rintro rfl
        have := length_le_of_startsWith hb
        simp only [List.length_singleton] at this
        omega
      · refine ih ((List.infix_cons_iff.1 h).resolve_left fun hp => hb (startsWith_iff.2 hp))

/-- Bytes with no occurrence that begins among them are passed over. -/
theorem seekPast_append {pat x y : Bytes}
    (h : ∀ u v, x = u ++ v → v ≠ [] → ¬ pat <+: v ++ y) :
    seekPast pat (x ++ y) = seekPast pat y := by
  induction x with
  | nil => rfl
  | cons b x ih =>
      have hb : startsWith (b :: (x ++ y)) pat = false := by
        rw [← Bool.not_eq_true, startsWith_iff]
        exact h [] (b :: x) rfl (by simp)
      rw [List.cons_append, seekPast, hb, ih fun u v hx hv => h (b :: u) v (by simp [hx]) hv]
      rfl

/-- A text is found in the texts it is joined to. -/
theorem infix_intercalate_of_mem {sep x : Bytes} {xs : List Bytes} (h : x ∈ xs) :
    x <:+: sep.intercalate xs := by
  induction xs with
  | nil => cases h
  | cons y xs ih =>
      rcases List.mem_cons.1 h with rfl | h
      · cases xs with
        | nil => simp
        | cons z xs =>
            rw [List.intercalate_cons_cons, List.append_assoc]
            exact (List.prefix_append _ _).isInfix
      · rw [List.intercalate_cons_of_ne_nil (List.ne_nil_of_mem h)]
        exact (ih h).trans (List.suffix_append _ _).isInfix

/-- A byte that is in no part and not in the separator is not in the whole. -/
theorem not_mem_intercalate {b : UInt8} {sep : Bytes} {xs : List Bytes} (hsep : b ∉ sep)
    (hxs : ∀ x ∈ xs, b ∉ x) : b ∉ sep.intercalate xs := by
  induction xs with
  | nil => simp
  | cons x xs ih =>
      obtain ⟨hx, hrest⟩ := List.forall_mem_cons.1 hxs
      cases xs with
      | nil => simpa using hx
      | cons y xs =>
          rw [List.intercalate_cons_cons, List.mem_append, List.mem_append]
          simp [hx, hsep, ih hrest]

/-- Texts in front add their bytes to what is joined. -/
theorem length_intercalate_append_le (sep : Bytes) (front xs : List Bytes) :
    (sep.intercalate xs).length + front.flatten.length ≤
      (sep.intercalate (front ++ xs)).length := by
  induction front with
  | nil => simp
  | cons x front ih =>
      rw [List.flatten_cons, List.length_append, List.cons_append]
      cases hrest : front ++ xs with
      | nil =>
          obtain ⟨rfl, rfl⟩ := List.append_eq_nil_iff.1 hrest
          simp
      | cons y ys =>
          rw [hrest] at ih
          rw [List.intercalate_cons_cons, List.length_append, List.length_append]
          omega

/-! ### Trimming -/

/-- An element that fails the test ends what is taken. -/
theorem takeWhile_append_stop {α : Type*} {p : α → Bool} {c : α} (hc : p c = false)
    (s t : List α) : (s ++ c :: t).takeWhile p = s.takeWhile p := by
  induction s with
  | nil => simp [hc]
  | cons b s ih => by_cases hb : p b = true <;> simp [hb, ih]

/-- A byte that fails the test ends what is dropped. -/
theorem dropWhile_append_stop {p : UInt8 → Bool} {c : UInt8} (hc : p c = false) (s t : Bytes) :
    (s ++ c :: t).dropWhile p = s.dropWhile p ++ c :: t := by
  induction s with
  | nil => simp [hc]
  | cons b s ih => by_cases hb : p b = true <;> simp [hb, ih]

/-- Trimming ignores the bytes of the set that are added behind. -/
theorem trim_append_of_mem {set : Bytes} {c : UInt8} (hc : c ∈ set) (s : Bytes) :
    trim set (s ++ [c]) = trim set s := by
  have hp : set.contains c = true := by simpa using hc
  unfold trim
  by_cases hs : s.dropWhile (set.contains ·) = []
  · have : (s ++ [c]).dropWhile (set.contains ·) = [] := by
      rw [List.dropWhile_eq_nil_iff] at hs ⊢
      intro x hx
      rcases List.mem_append.1 hx with hx | hx
      · exact hs x hx
      · rw [List.mem_singleton.1 hx]; exact hp
    rw [hs, this]
  · rw [List.dropWhile_append, if_neg (by simpa using hs), List.rdropWhile_concat, if_pos hp]

/-- Trimming ignores the bytes of the set that are added in front. -/
theorem trim_cons_of_mem {set : Bytes} {c : UInt8} (hc : c ∈ set) (s : Bytes) :
    trim set (c :: s) = trim set s := by
  simp [trim, hc]

/-- A byte outside the set stops the trimming from behind. -/
theorem trim_append_of_not_mem {set : Bytes} {c : UInt8} (hc : c ∉ set) (s : Bytes) :
    trim set (s ++ [c]) = s.dropWhile (set.contains ·) ++ [c] := by
  have hp : set.contains c = false := by simpa using hc
  rw [trim, dropWhile_append_stop hp, List.rdropWhile_concat_neg _ _ _ (by simpa using hc)]

/-- A text that begins with a byte outside the set is not cut into from the front. -/
theorem infix_dropWhile_of_not_mem {set s pat : Bytes} {b : UInt8} (hb : b ∉ set)
    (h : b :: pat <:+: s) : b :: pat <:+: s.dropWhile (set.contains ·) := by
  obtain ⟨x, y, rfl⟩ := h
  have hp : set.contains b = false := by simpa using hb
  rw [List.append_assoc, List.cons_append, dropWhile_append_stop hp]
  exact ⟨x.dropWhile (set.contains ·), y, List.append_assoc _ _ _⟩

/-- Only bytes of the set are cut off. -/
theorem infix_trim_of_not_mem {set s pat : Bytes} (hset : ∀ b ∈ pat, b ∉ set)
    (h : pat <:+: s) : pat <:+: trim set s := by
  rcases List.eq_nil_or_concat pat with rfl | ⟨front, c, rfl⟩
  · exact List.nil_infix
  rw [List.concat_eq_append] at h hset ⊢
  have hfront : front ++ [c] <:+: s.dropWhile (set.contains ·) := by
    cases front with
    | nil => exact infix_dropWhile_of_not_mem (hset c (by simp)) h
    | cons b front => exact infix_dropWhile_of_not_mem (hset b (by simp)) h
  have hrev : c :: front.reverse <:+: (s.dropWhile (set.contains ·)).reverse := by
    rw [← List.reverse_infix] at hfront
    simpa using hfront
  rw [trim, List.rdropWhile, ← List.reverse_infix, List.reverse_reverse]
  simpa using infix_dropWhile_of_not_mem (hset c (by simp)) hrev

/-- A byte that is not in the set is not trimmed. -/
theorem mem_trim_of_not_mem {set s : Bytes} {b : UInt8} (hb : b ∈ s) (hset : b ∉ set) :
    b ∈ trim set s := by
  rw [← List.singleton_infix_iff] at hb ⊢
  exact infix_trim_of_not_mem (by simpa using hset) hb

/-- Trimming takes from the end what the front has left. -/
theorem trim_prefix_dropWhile (set s : Bytes) : trim set s <+: s.dropWhile (set.contains ·) :=
  List.rdropWhile_prefix _ _

/-- What is left of a text is a part of it. -/
theorem infix_trim (set s : Bytes) : trim set s <:+: s :=
  (trim_prefix_dropWhile set s).isInfix.trans (List.dropWhile_suffix _).isInfix

/-- A trimmed text is left as it is. -/
theorem trim_trim (set s : Bytes) : trim set (trim set s) = trim set s := by
  have hfront : (trim set s).dropWhile (set.contains ·) = trim set s := by
    rw [List.dropWhile_eq_self_iff]
    intro hpos
    rw [(trim_prefix_dropWhile set s).getElem hpos]
    exact List.dropWhile_get_zero_not _ _ _
  rw [trim, hfront]
  exact List.rdropWhile_idempotent _ _

/-! ### Numbers -/

/-- An `int` that is in range is itself. -/
theorem clamp32_of_mem {x : ℤ} (h₁ : -2 ^ 31 ≤ x) (h₂ : x < 2 ^ 31) : clamp32 x = x := by
  unfold clamp32
  omega

/-- A numeral ends at the first byte that is no digit. -/
theorem numeral_append_stop {base : ℕ} {c : UInt8} (hc : ¬ digitVal c < base) (s t : Bytes) :
    numeral base (s ++ c :: t) = numeral base s := by
  rw [numeral, takeWhile_append_stop (by simpa using hc), numeral]

/-- What follows a `';'` is not part of a decimal number. -/
theorem atoi_append_semicolon (s t : Bytes) : atoi (s ++ semicolon :: t) = atoi s := by
  have hsp : isSpace semicolon = false := by decide
  have hdig : ¬ digitVal semicolon < 10 := by decide
  have hdrop := dropWhile_append_stop hsp s t
  have hsign : ∀ u : Bytes, (sign (u ++ semicolon :: t)).1 = (sign u).1 ∧
      (sign (u ++ semicolon :: t)).2 = (sign u).2 ++ semicolon :: t := by
    intro u
    cases u with
    | nil => exact ⟨rfl, rfl⟩
    | cons b u => by_cases h₁ : b = 45 <;> by_cases h₂ : b = 43 <;> simp [sign, h₁, h₂]
  unfold atoi strtol
  simp only [hdrop, (hsign _).1, (hsign _).2, skipHexMark, Nat.reduceEqDiff, decide_false,
    Bool.false_and, Bool.false_eq_true, if_false, numeral_append_stop hdig]

/-- A property that is tested byte by byte. -/
theorem forall_mem_of_all {P : UInt8 → Prop} [DecidablePred P] {s : Bytes}
    (h : s.all (fun b => decide (P b)) = true) : ∀ b ∈ s, P b :=
  fun b hb => of_decide_eq_true (List.all_eq_true.1 h b hb)

/-- A non-empty string of decimal digits that stands for `n`. -/
structure IsDecimal (s : Bytes) (n : ℕ) : Prop where
  ne_nil : s ≠ []
  digits : ∀ b ∈ s, isDigit b = true
  value : ofDigits 10 s = n

/-- A decimal digit has a value below ten. -/
theorem digitVal_lt_of_isDigit {b : UInt8} (h : isDigit b = true) : digitVal b < 10 := by
  have h' : (48 ≤ b && b ≤ 57) = true := h
  rw [digitVal, if_pos h']
  simp only [Bool.and_eq_true, decide_eq_true_eq, UInt8.le_iff_toNat_le] at h'
  have : b.toNat ≤ 57 := h'.2
  omega

/-- A decimal digit as a byte. -/
theorem isDigit_ofNat {c : Char} (h : c.isDigit = true) :
    isDigit (UInt8.ofNat c.toNat) = true ∧
      digitVal (UInt8.ofNat c.toNat) = c.toNat - '0'.toNat := by
  obtain ⟨hlow, hhigh⟩ : 48 ≤ c.toNat ∧ c.toNat ≤ 57 := by
    rw [Char.isDigit, Bool.and_eq_true, decide_eq_true_eq, decide_eq_true_eq] at h
    exact ⟨UInt32.le_iff_toNat_le.1 h.1, UInt32.le_iff_toNat_le.1 h.2⟩
  have hnat : (UInt8.ofNat c.toNat).toNat = c.toNat := by
    rw [UInt8.toNat_ofNat', Nat.mod_eq_of_lt (by omega)]
  have hdigit : (48 ≤ UInt8.ofNat c.toNat && UInt8.ofNat c.toNat ≤ 57) = true := by
    rw [Bool.and_eq_true, decide_eq_true_eq, decide_eq_true_eq, UInt8.le_iff_toNat_le,
      UInt8.le_iff_toNat_le, hnat]
    exact ⟨hlow, hhigh⟩
  refine ⟨hdigit, ?_⟩
  rw [digitVal, if_pos hdigit, hnat]
  rfl

/-- **The decimal digits of a number stand for it.** -/
theorem isDecimal_toString (n : ℕ) : IsDecimal (str (toString n)) n := by
  have hdigits : ∀ c ∈ Nat.toDigits 10 n, c.isDigit = true :=
    fun c hc => Nat.isDigit_of_mem_toDigits (by decide) le_rfl hc
  rw [str, Nat.toString_eq_repr, Nat.toList_repr]
  refine ⟨by simp [Nat.toDigits_ne_nil], ?_, ?_⟩
  · intro b hb
    obtain ⟨c, hc, rfl⟩ := List.mem_map.1 hb
    exact (isDigit_ofNat (hdigits c hc)).1
  · have hread : (Nat.toDigits 10 n).foldl
        (fun m c => m * 10 + digitVal (UInt8.ofNat c.toNat)) 0 =
          Nat.ofDigitChars 10 (Nat.toDigits 10 n) 0 := by
      rw [Nat.ofDigitChars_eq_foldl]
      refine List.foldl_ext _ _ _ fun m c hc => ?_
      rw [(isDigit_ofNat (hdigits c hc)).2, Nat.mul_comm]
    rw [ofDigits, List.foldl_map, hread, Nat.ofDigitChars_ten_toDigits]

/-- A byte that is no digit does not stand in a decimal number. -/
theorem IsDecimal.ne_of_mem {s : Bytes} {n : ℕ} (h : IsDecimal s n) {c d : UInt8}
    (hd : isDigit d = false) (hc : c ∈ s) : c ≠ d := by
  rintro rfl
  simp [h.digits c hc] at hd

/-- A hexadecimal digit is no blank, no sign, no mark of the base and no line end. -/
theorem hexDigit_spec {b : UInt8} (h : digitVal b < 16) :
    isSpace b = false ∧ b ∉ [45, 43, 120, 88, cr, lf] := by
  have hall : ∀ n : Fin 256, digitVal (UInt8.ofNat n) < 16 →
      isSpace (UInt8.ofNat n) = false ∧ UInt8.ofNat n ∉ [45, 43, 120, 88, cr, lf] := by
    decide +kernel
  have hb := hall ⟨b.toNat, UInt8.toNat_lt b⟩
  rw [UInt8.ofNat_toNat] at hb
  exact hb h

/-- A number that begins with a digit has no blanks and no sign in front of it. -/
theorem strtol_of_digit {base : ℕ} {b : UInt8} {s : Bytes} (hb : digitVal b < 16)
    (hmark : skipHexMark base (b :: s) = b :: s) :
    strtol base (b :: s) = clamp32 (numeral base (b :: s)) := by
  obtain ⟨hsp, hsign⟩ := hexDigit_spec hb
  simp only [List.mem_cons, not_or] at hsign
  unfold strtol
  simp only [List.dropWhile_cons, hsp, Bool.false_eq_true, if_false, sign, hsign.1, hsign.2.1,
    hmark, Int.one_mul]

/-- Digits in front of a byte that is none are the whole number. -/
theorem numeral_eq {base : ℕ} {s t : Bytes} (hs : ∀ b ∈ s, digitVal b < base)
    (ht : ∀ c r, t = c :: r → ¬ digitVal c < base) : numeral base (s ++ t) = ofDigits base s := by
  have htake : s.takeWhile (digitVal · < base) = s := by
    rw [List.takeWhile_eq_self_iff]
    intro c hc
    simpa using hs c hc
  cases t with
  | nil => rw [List.append_nil, numeral, htake]
  | cons c r => rw [numeral_append_stop (ht c r rfl), numeral, htake]

/-- **`atoi` reads a decimal number back**, whatever follows its digits. -/
theorem IsDecimal.atoi_append {s : Bytes} {n : ℕ} (h : IsDecimal s n) (hn : n < 2 ^ 31)
    {t : Bytes} (ht : ∀ c r, t = c :: r → ¬ digitVal c < 10) : atoi (s ++ t) = n := by
  have hdigits : ∀ b ∈ s, digitVal b < 10 := fun b hb => digitVal_lt_of_isDigit (h.digits b hb)
  have hval := numeral_eq hdigits ht
  obtain ⟨b, s, rfl⟩ := List.exists_cons_of_ne_nil h.ne_nil
  have hb : digitVal b < 16 := (hdigits b (by simp)).trans (by decide)
  rw [List.cons_append] at hval ⊢
  rw [atoi, strtol_of_digit hb rfl, hval, h.value]
  exact clamp32_of_mem (by omega) (by omega)

/-- **`atoi` reads a decimal number back.** -/
theorem IsDecimal.atoi_eq {s : Bytes} {n : ℕ} (h : IsDecimal s n) (hn : n < 2 ^ 31) :
    atoi s = n := by
  have happ := h.atoi_append hn (t := []) (by simp)
  rwa [List.append_nil] at happ

example : atoi (str " -12;7") = -12 ∧ strtol 16 (str "0x1F\r\n") = 31 ∧
    strtol 16 (str "FFFFFFFF") = 2 ^ 31 - 1 := by decide

/-- A non-empty string of hexadecimal digits that stands for `n`. -/
structure IsHex (s : Bytes) (n : ℕ) : Prop where
  ne_nil : s ≠ []
  digits : ∀ b ∈ s, digitVal b < 16
  value : ofDigits 16 s = n

/-- Hexadecimal digits in front of a line break have no mark of the base. -/
theorem IsHex.skipHexMark_eq {s : Bytes} {n : ℕ} (h : IsHex s n) (t : Bytes) :
    skipHexMark 16 (s ++ cr :: t) = s ++ cr :: t := by
  have hx : ∀ c : UInt8, c = 120 ∨ c = 88 → startsWith (s ++ cr :: t) [48, c] = false := by
    intro c hc
    rw [← Bool.not_eq_true, startsWith_iff]
    intro hpre
    -- the second byte is a digit, or the line break
    match s, h.ne_nil with
    | [b], _ =>
        simp only [List.cons_append, List.nil_append, List.cons_prefix_cons] at hpre
        obtain ⟨-, rfl, -⟩ := hpre
        exact absurd hc (by decide)
    | b :: d :: s, _ =>
        simp only [List.cons_append, List.cons_prefix_cons] at hpre
        obtain ⟨-, rfl, -⟩ := hpre
        have hd := (hexDigit_spec (h.digits c (by simp))).2
        simp only [List.mem_cons, not_or] at hd
        exact hc.elim hd.2.2.1 hd.2.2.2.1
  have h0 : str "0x" = [48, 120] ∧ str "0X" = [48, 88] := by decide
  rw [skipHexMark, h0.1, h0.2, hx _ (Or.inl rfl), hx _ (Or.inr rfl)]
  simp

/-- **`strtol` reads a hexadecimal number back** from the front of its line. -/
theorem IsHex.strtol_eq {s : Bytes} {n : ℕ} (h : IsHex s n) (hn : n < 2 ^ 31) (t : Bytes) :
    strtol 16 (s ++ cr :: t) = n := by
  have hmark := h.skipHexMark_eq t
  have hstop : ∀ c r, cr :: t = c :: r → ¬ digitVal c < 16 := by
    rintro c r heq
    rw [← (List.cons.inj heq).1]
    decide
  have hval := numeral_eq h.digits hstop
  obtain ⟨b, s, rfl⟩ := List.exists_cons_of_ne_nil h.ne_nil
  have hb : digitVal b < 16 := h.digits b (by simp)
  rw [List.cons_append] at hmark hval ⊢
  rw [strtol_of_digit hb hmark, hval, h.value]
  exact clamp32_of_mem (by omega) (by omega)

end Bytes
end Scaner
