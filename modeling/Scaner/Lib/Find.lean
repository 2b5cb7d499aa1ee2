/-
# Cutting strings

The two ways in which a string is cut at a place that `std::string` finds: before the
first occurrence of a text (`find`) and before the first byte of a set
(`find_first_of`).

`splitFirst_eq_some_iff` says where the first occurrence of a text is: where it is, with
no other one that begins before it (`FirstAt`).  Whether one does depends on the bytes
before the occurrence alone, so what follows it can be exchanged
(`FirstAt.splitFirst_append`).
-/

import Scaner.Lib.Bytes

namespace Scaner
namespace Bytes

/-- The texts before and behind the first occurrence of `pat`: `s.substr(0, n)` and
`s.substr(n + strlen(pat))` for `n = s.find(pat)`, `none` where that is `npos`. -/
def splitFirst (pat : Bytes) : Bytes → Option (Bytes × Bytes)
  | [] => if pat = [] then some ([], []) else none
  | b :: s =>
      if startsWith (b :: s) pat then some ([], (b :: s).drop pat.length)
      else (splitFirst pat s).map fun r => (b :: r.1, r.2)

/-- `s.substr(0, s.find_first_of(set))`. -/
def untilAny (set s : Bytes) : Bytes := s.takeWhile fun b => !set.contains b

/-- `s.substr(s.find_first_of(set))`, empty where that is `npos`. -/
def fromAny (set s : Bytes) : Bytes := s.dropWhile fun b => !set.contains b

/-! ### The first occurrence of a text -/

/-- An occurrence of `pat` behind `x` is the first one. -/
def FirstAt (pat x : Bytes) : Prop := ∀ u v, x = u ++ v → v ≠ [] → ¬ pat <+: v ++ pat

variable {pat s x y : Bytes}

/-- A pattern is found at once where it begins. -/
theorem FirstAt.nil : FirstAt pat [] := by
  intro u v hx hv
  exact absurd (List.append_eq_nil_iff.1 hx.symm).2 hv

/-- The first occurrence lies behind a byte if none begins with it. -/
theorem firstAt_cons {b : UInt8} :
    FirstAt pat (b :: x) ↔ ¬ pat <+: b :: (x ++ pat) ∧ FirstAt pat x := by
  constructor
  · intro h
    exact ⟨h [] (b :: x) rfl (by simp), fun u v hx => h (b :: u) v (by simp [hx])⟩
  · rintro ⟨hb, h⟩ u v hx hv
    cases u with
    | nil =>
        obtain rfl : b :: x = v := hx
        exact hb
    | cons c u => exact h u v (List.cons.inj hx).2 hv

/-- A byte is found behind a text that does not have it. -/
theorem firstAt_singleton {c : UInt8} (h : c ∉ x) : FirstAt [c] x := by
  induction x with
  | nil => exact .nil
  | cons b x ih =>
      obtain ⟨hb, hx⟩ : c ≠ b ∧ c ∉ x := by simpa using h
      exact firstAt_cons.2 ⟨fun hp => hb (List.cons_prefix_cons.1 hp).1, ih hx⟩

/-- An occurrence that begins before another one ends in it or before it. -/
theorem prefix_of_prefix_append {v : Bytes} (h : pat <+: v ++ (pat ++ y)) : pat <+: v ++ pat := by
  rw [← List.append_assoc] at h
  refine List.prefix_of_prefix_length_le h (List.prefix_append _ _) ?_
  simp

/-- **Where the first occurrence is.** -/
theorem splitFirst_eq_some_iff :
    splitFirst pat s = some (x, y) ↔ s = x ++ (pat ++ y) ∧ FirstAt pat x := by
  induction s generalizing x with
  | nil =>
      rw [splitFirst]
      constructor
      · intro h
        split_ifs at h with hpat
        obtain ⟨rfl, rfl⟩ : [] = x ∧ [] = y := by simpa using h
        exact ⟨by simp [hpat], .nil⟩
      · rintro ⟨h, -⟩
        obtain ⟨rfl, hpat⟩ := List.append_eq_nil_iff.1 h.symm
        obtain ⟨rfl, rfl⟩ := List.append_eq_nil_iff.1 hpat
        rfl
  | cons b s ih =>
      rw [splitFirst]
      by_cases hb : startsWith (b :: s) pat = true
      · rw [if_pos hb]
        obtain ⟨z, hz⟩ := startsWith_iff.1 hb
        rw [← hz, List.drop_left]
        constructor
        · intro h
          obtain ⟨rfl, rfl⟩ : [] = x ∧ z = y := by simpa using h
          exact ⟨rfl, .nil⟩
        · rintro ⟨h, hfirst⟩
          cases x with
          | nil =>
              obtain rfl : z = y := by simpa using h
              rfl
          | cons c x =>
              exact absurd (prefix_of_prefix_append (v := c :: x) ⟨z, h⟩) (firstAt_cons.1 hfirst).1
      · rw [if_neg hb]
        cases x with
        | nil =>
            simp only [Option.map_eq_some_iff, Prod.mk.injEq, reduceCtorEq, false_and, and_false,
              exists_false, List.nil_append, false_iff]
            rintro ⟨h, -⟩
            exact hb (startsWith_iff.2 ⟨y, h.symm⟩)
        | cons c x =>
            have hsplit : (splitFirst pat s).map (fun r => (b :: r.1, r.2)) = some (c :: x, y) ↔
                b = c ∧ splitFirst pat s = some (x, y) := by
              cases splitFirst pat s with
              | none => simp
              | some r => simp [Prod.ext_iff, and_assoc]
            rw [hsplit, ih, firstAt_cons, List.cons_append, List.cons.injEq]
            constructor
            · rintro ⟨rfl, rfl, hfirst⟩
              refine ⟨⟨rfl, rfl⟩, fun hp => hb (startsWith_iff.2 ?_), hfirst⟩
              rw [← List.append_assoc]
              exact hp.trans (List.prefix_append _ y)
            · rintro ⟨⟨rfl, rfl⟩, -, hfirst⟩
              exact ⟨rfl, rfl, hfirst⟩

/-- What follows the first occurrence can be exchanged. -/
theorem FirstAt.splitFirst_append (h : FirstAt pat x) (y : Bytes) :
    splitFirst pat (x ++ (pat ++ y)) = some (x, y) :=
  splitFirst_eq_some_iff.2 ⟨rfl, h⟩

/-- A text is not split exactly if the pattern does not occur in it. -/
theorem splitFirst_eq_none_iff : splitFirst pat s = none ↔ ¬ pat <:+: s := by
  induction s with
  | nil =>
      rw [splitFirst]
      split_ifs with hpat <;> simp [hpat]
  | cons b s ih =>
      rw [splitFirst, List.infix_cons_iff, not_or, ← startsWith_iff]
      split_ifs with hb
      · simp [hb]
      · simp [hb, ih]

/-! ### What follows the first occurrence -/

/-- What follows the first occurrence is the second half of the split. -/
theorem afterFirst_eq_map_splitFirst (pat s : Bytes) :
    afterFirst pat s = (splitFirst pat s).map (·.2) := by
  induction s with
  | nil =>
      rw [afterFirst, splitFirst]
      split_ifs <;> rfl
  | cons b s ih =>
      rw [afterFirst, splitFirst]
      split_ifs
      · rfl
      · rw [ih, Option.map_map]
        rfl

/-- There is nothing to find in an empty text. -/
theorem afterFirst_nil (h : pat ≠ []) : afterFirst pat [] = none :=
  if_neg h

/-- What is found is an occurrence of the pattern. -/
theorem suffix_of_afterFirst (h : afterFirst pat s = some y) : pat ++ y <:+ s := by
  rw [afterFirst_eq_map_splitFirst, Option.map_eq_some_iff] at h
  obtain ⟨⟨x, z⟩, hsplit, rfl⟩ := h
  exact ⟨x, (splitFirst_eq_some_iff.1 hsplit).1.symm⟩

/-- What follows an occurrence is made of bytes of the text. -/
theorem subset_of_afterFirst (h : afterFirst pat s = some y) : y ⊆ s :=
  ((List.suffix_append pat y).trans (suffix_of_afterFirst h)).subset

/-- Nothing is found exactly if the pattern does not occur. -/
theorem afterFirst_eq_none_iff : afterFirst pat s = none ↔ ¬ pat <:+: s := by
  rw [afterFirst_eq_map_splitFirst, Option.map_eq_none_iff, splitFirst_eq_none_iff]

/-- A pattern at the front is the one that is found. -/
theorem afterFirst_append_self (pat y : Bytes) : afterFirst pat (pat ++ y) = some y := by
  rw [afterFirst_eq_map_splitFirst, ← List.nil_append (pat ++ y), FirstAt.nil.splitFirst_append]
  rfl

/-- An occurrence does not begin with a byte other than the first of the text. -/
theorem afterFirst_append_of_not_mem {c : UInt8} (hc : c ∉ x) (y : Bytes) :
    afterFirst (c :: pat) (x ++ y) = afterFirst (c :: pat) y := by
  induction x with
  | nil => rfl
  | cons b x ih =>
      obtain ⟨hb, hx⟩ : c ≠ b ∧ c ∉ x := by simpa using hc
      rw [List.cons_append, afterFirst, if_neg, ih hx]
      rw [startsWith_iff, List.cons_prefix_cons]
      exact fun h => hb h.1

/-- A text without the byte `b` begins before it where it ends before it. -/
theorem prefix_append_cons_iff {b : UInt8} (hb : b ∉ pat) : pat <+: x ++ b :: y ↔ pat <+: x := by
  refine ⟨fun h => ?_, fun h => h.trans (List.prefix_append _ _)⟩
  obtain ⟨z, hz⟩ := h
  rcases List.append_eq_append_iff.1 hz with ⟨w, rfl, -⟩ | ⟨w, rfl, hw⟩
  · exact List.prefix_append _ _
  · cases w with
    | nil => simp
    | cons c w =>
        obtain rfl : b = c := (List.cons.inj hw).1
        simp at hb

/-- A text without the byte `b` is found before it, or behind it. -/
theorem afterFirst_append_cons {b : UInt8} (hb : b ∉ pat) (hpat : pat ≠ []) (x y : Bytes) :
    afterFirst pat (x ++ b :: y) =
      ((afterFirst pat x).map (· ++ b :: y)).or (afterFirst pat y) := by
  induction x with
  | nil =>
      have hstart : ¬ startsWith (b :: y) pat = true := by
        rw [startsWith_iff, ← List.nil_append (b :: y), prefix_append_cons_iff hb]
        simpa using hpat
      simp [afterFirst, hstart, hpat]
  | cons c x ih =>
      rw [List.cons_append, afterFirst, afterFirst, ih]
      have hstart : startsWith (c :: (x ++ b :: y)) pat = startsWith (c :: x) pat := by
        rw [Bool.eq_iff_iff, startsWith_iff, startsWith_iff, ← List.cons_append,
          prefix_append_cons_iff hb]
      rw [hstart]
      split_ifs with hc
      · obtain ⟨z, hz⟩ := startsWith_iff.1 hc
        rw [← List.cons_append, ← hz]
        simp
      · rfl

/-- A text whose first byte does not come again does not overlap with itself. -/
theorem firstAt_iff_of_not_mem {a : UInt8} {q : Bytes} (ha : a ∉ q) :
    FirstAt (a :: q) x ↔ ¬ a :: q <:+: x := by
  induction x with
  | nil => simp [FirstAt.nil]
  | cons c x ih =>
      rw [firstAt_cons, ih, List.infix_cons_iff, not_or, List.cons_prefix_cons,
        List.cons_prefix_cons, prefix_append_cons_iff ha]

/-- An occurrence in two texts is in one of them, or where they meet. -/
theorem infix_append_cases (h : pat <:+: x ++ y) :
    pat <:+: x ∨ pat <:+: y ∨ ∃ s t, s ≠ [] ∧ t ≠ [] ∧ pat = s ++ t ∧ s <:+ x ∧ t <+: y := by
  obtain ⟨u, v, h⟩ := h
  rw [List.append_assoc] at h
  rcases List.append_eq_append_iff.1 h with ⟨s, rfl, hs⟩ | ⟨s, -, rfl⟩
  · rcases List.append_eq_append_iff.1 hs with ⟨t, rfl, -⟩ | ⟨t, rfl, rfl⟩
    · exact Or.inl ⟨u, t, by simp⟩
    · by_cases hnil : s = []
      · subst hnil
        exact Or.inr (Or.inl (List.prefix_append t v).isInfix)
      by_cases hnil' : t = []
      · subst hnil'
        rw [List.append_nil]
        exact Or.inl (List.suffix_append u s).isInfix
      exact Or.inr (Or.inr ⟨s, t, hnil, hnil', rfl, List.suffix_append u s,
        List.prefix_append t v⟩)
  · exact Or.inr (Or.inl ⟨s, v, by simp⟩)

/-! ### Texts of two bytes -/

section Pair

variable {a b : UInt8}

/-- Two bytes at the front of a text. -/
theorem pair_prefix_cons {c : UInt8} : [a, b] <+: c :: x ↔ a = c ∧ x.head? = some b := by
  cases x with
  | nil => simp
  | cons d x => simp [List.cons_prefix_cons, eq_comm (a := b)]

/-- Two different bytes do not overlap with themselves. -/
theorem firstAt_pair_iff (hab : a ≠ b) : FirstAt [a, b] x ↔ ¬ [a, b] <:+: x :=
  firstAt_iff_of_not_mem (by simpa using hab)

/-- A byte twice overlaps with itself where the text before it ends with the byte. -/
theorem firstAt_twin_iff : FirstAt [a, a] x ↔ ¬ [a, a] <:+: x ∧ ¬ [a] <:+ x := by
  induction x with
  | nil => simp [FirstAt.nil]
  | cons c x ih =>
      rw [firstAt_cons, ih, List.infix_cons_iff, List.suffix_cons_iff, pair_prefix_cons,
        pair_prefix_cons]
      cases x with
      | nil => simp
      | cons d x =>
          simp only [List.cons_append, List.head?_cons]
          simp only [List.cons.injEq, reduceCtorEq, and_false, false_or]
          tauto

/-- An occurrence in two texts is in one of them, unless it begins at the end of the first. -/
theorem pair_infix_append (hy : y.head? ≠ some b) :
    [a, b] <:+: x ++ y ↔ [a, b] <:+: x ∨ [a, b] <:+: y := by
  induction x with
  | nil => simp
  | cons c x ih =>
      rw [List.cons_append, List.infix_cons_iff, List.infix_cons_iff, ih, or_assoc,
        pair_prefix_cons, pair_prefix_cons]
      cases x with
      | nil => simp [hy]
      | cons d x => simp

/-- No occurrence begins in a text without the first byte. -/
theorem pair_infix_append_of_not_mem (ha : a ∉ x) (y : Bytes) :
    [a, b] <:+: x ++ y ↔ [a, b] <:+: y := by
  induction x with
  | nil => rfl
  | cons c x ih =>
      obtain ⟨hc, hx⟩ : a ≠ c ∧ a ∉ x := by simpa using ha
      rw [List.cons_append, List.infix_cons_iff, pair_prefix_cons, ih hx]
      simp [hc]

end Pair

/-! ### The first byte of a set -/

variable {set set' : Bytes}

/-- The two halves of a cut are the text. -/
theorem untilAny_append_fromAny (set s : Bytes) : untilAny set s ++ fromAny set s = s :=
  List.takeWhile_append_dropWhile

/-- The first half of a cut has no byte of the set. -/
theorem not_mem_untilAny {b : UInt8} (h : b ∈ untilAny set s) : b ∉ set := by
  simpa using List.mem_takeWhile_imp h

/-- What is cut off begins with a byte of the set. -/
theorem fromAny_eq_nil_or (set s : Bytes) :
    fromAny set s = [] ∨ ∃ b r, b ∈ set ∧ fromAny set s = b :: r := by
  cases h : fromAny set s with
  | nil => exact Or.inl rfl
  | cons b r =>
      have hb := List.head?_dropWhile_not (fun b => !set.contains b) s
      rw [fromAny] at h
      rw [h] at hb
      exact Or.inr ⟨b, r, by simpa using hb, rfl⟩

/-- The second half is empty exactly if the text has no byte of the set. -/
theorem fromAny_eq_nil_iff : fromAny set s = [] ↔ ∀ b ∈ s, b ∉ set := by
  simp [fromAny, List.dropWhile_eq_nil_iff]

/-- A text is cut where its first byte of the set is. -/
theorem untilAny_append (hx : ∀ b ∈ x, b ∉ set) (hy : y = [] ∨ ∃ b r, b ∈ set ∧ y = b :: r) :
    untilAny set (x ++ y) = x ∧ fromAny set (x ++ y) = y := by
  have hpass : ∀ b ∈ x, (!set.contains b) = true := by simpa using hx
  unfold untilAny fromAny
  rw [List.takeWhile_append_of_pos hpass, List.dropWhile_append_of_pos hpass]
  rcases hy with rfl | ⟨b, r, hb, rfl⟩
  · simp
  · simp [hb]

/-- The first half is no longer than the text. -/
theorem length_untilAny_le (set s : Bytes) : (untilAny set s).length ≤ s.length :=
  (List.takeWhile_sublist _).length_le

/-- A byte of the set ends what is taken. -/
theorem untilAny_append_stop {c : UInt8} (hc : c ∈ set) (x y : Bytes) :
    untilAny set (x ++ c :: y) = untilAny set x :=
  takeWhile_append_stop (by simpa using hc) x y

/-- A text with no byte of the set is not cut. -/
theorem untilAny_eq_self (h : ∀ b ∈ x, b ∉ set) : untilAny set x = x :=
  List.takeWhile_eq_self_iff.2 (by simpa using h)

/-- A text is not cut at a byte that it does not have. -/
theorem untilAny_of_not_mem {c : UInt8} (hx : c ∉ x) : untilAny [c] x = x :=
  untilAny_eq_self fun _ hb hmem => hx (List.mem_singleton.1 hmem ▸ hb)

/-- A text is cut at the first occurrence of a byte. -/
theorem untilAny_append_cons {c : UInt8} (hx : c ∉ x) (y : Bytes) :
    untilAny [c] (x ++ c :: y) = x := by
  rw [untilAny_append_stop (by simp), untilAny_of_not_mem hx]

/-- The first occurrence of a byte divides a text in one way. -/
theorem append_cons_inj {c : UInt8} {x' y' : Bytes} (hx : c ∉ x) (hx' : c ∉ x')
    (h : x ++ c :: y = x' ++ c :: y') : x = x' ∧ y = y' := by
  obtain rfl : x = x' := by rw [← untilAny_append_cons hx y, h, untilAny_append_cons hx' y']
  exact ⟨rfl, by simpa using h⟩

/-- A text in which a byte of the set stands is cut whatever follows. -/
theorem untilAny_append_of_mem (h : ∃ b ∈ x, b ∈ set) (y : Bytes) :
    untilAny set (x ++ y) = untilAny set x := by
  obtain ⟨b, hb, hset⟩ := h
  obtain ⟨u, v, rfl⟩ := List.append_of_mem hb
  rw [List.append_assoc, List.cons_append, untilAny_append_stop hset, untilAny_append_stop hset]

/-- What has no byte of the set is passed over. -/
theorem untilAny_append_of_not_mem (h : ∀ b ∈ x, b ∉ set) (y : Bytes) :
    untilAny set (x ++ y) = x ++ untilAny set y := by
  have hpass : ∀ b ∈ x, (!set.contains b) = true := by simpa using h
  exact List.takeWhile_append_of_pos hpass

/-- Cutting twice is cutting at either set. -/
theorem untilAny_untilAny (set set' s : Bytes) :
    untilAny set (untilAny set' s) = untilAny (set ++ set') s := by
  unfold untilAny
  rw [List.takeWhile_takeWhile]
  congr 1
  funext b
  by_cases h : b ∈ set <;> by_cases h' : b ∈ set' <;> simp [h, h']

/-- Cutting at more bytes undoes the cut at fewer. -/
theorem untilAny_untilAny_of_subset (h : set' ⊆ set) (s : Bytes) :
    untilAny set (untilAny set' s) = untilAny set s := by
  rw [untilAny_untilAny]
  unfold untilAny
  congr 1
  funext b
  by_cases hb : b ∈ set
  · simp [hb]
  · have hb' : b ∉ set' := fun hb' => hb (h hb')
    simp [hb, hb']

end Bytes
end Scaner
