/-
# Reading cookies

What `cookie_2_map` of `scaner_test/http_tools.cpp` makes of a text.  It looks for the start
of a line from the second byte of the text on (`cookie2Map_lines`).  In a line it takes the
first `'='` for that of every pair, and the place where a pair ends for the length of its
value.

What it makes of a line is right when there is no `';'` in it (`readLine_pair`), as in a line
`Set-Cookie: name=value`.  The lines that `map_2_cookie` writes have one behind every pair:
if there is one pair in such a line, its value is read with the `';'` (`OnePair.readLine_eq`),
and if there are more, a name is stored that is none (`onePair_or_botched`).
-/

import Scaner.HttpTools.Cookie

namespace Scaner
namespace HttpTools

open Bytes

variable {m : CookieMap} {k v s temp : Bytes}

/-! ### The lines of a text -/

/-- What `cookie_2_map` reads pairs from in a line. -/
def tellLine (startLine line : Bytes) : Option Bytes :=
  (afterFirst startLine line).map (trim headBlank)

/-- What it reads pairs from in a text: the search passes over the first byte. -/
def told (startLine : Bytes) : List Bytes → List Bytes
  | [] => []
  | line :: lines => (line.drop 1 :: lines).filterMap (tellLine startLine)

/-- The text of lines. -/
def crlfLines (lines : List Bytes) : Bytes := lines.flatMap (· ++ [cr, lf])

/-- The first line, and the others. -/
theorem crlfLines_cons (line : Bytes) (lines : List Bytes) :
    crlfLines (line :: lines) = line ++ [cr] ++ lf :: crlfLines lines := by
  simp [crlfLines]

/-- A line has at least one byte. -/
theorem length_le_crlfLines (lines : List Bytes) : lines.length ≤ (crlfLines lines).length := by
  induction lines with
  | nil => exact le_rfl
  | cons line lines ih =>
      rw [crlfLines_cons, List.length_append, List.length_cons, List.length_cons]
      omega

/-- What `map_2_cookie` writes is a text of lines. -/
theorem cookieText_eq_crlfLines (its : List (Bytes × Bytes)) :
    cookieText its = crlfLines ((cookieLines its).map lineText) := by
  rw [cookieText_eq_lines, crlfLines, List.flatMap_map]

/-- What the loop does depends on what follows the first `start_line`. -/
theorem cookie2MapLoop_congr {startLine endLine src src' : Bytes}
    (h : afterFirst startLine src = afterFirst startLine src') (n : ℕ) (m : CookieMap) :
    cookie2MapLoop startLine endLine n src m = cookie2MapLoop startLine endLine n src' m := by
  cases n with
  | zero => rfl
  | succ n => rw [cookie2MapLoop, cookie2MapLoop, h]

/-- A turn of the loop: a line is found, and read. -/
theorem cookie2MapLoop_step {startLine endLine src rest line src' : Bytes} {n : ℕ}
    (hstart : afterFirst startLine src = some rest)
    (hend : splitFirst endLine rest = some (line, src')) :
    cookie2MapLoop startLine endLine (n + 1) src m =
      cookie2MapLoop startLine endLine n src' (readLine m (trim headBlank line)) := by
  rw [cookie2MapLoop, hstart]
  simp only [hend]

/-- With no `start_line` to come, the loop is at its end. -/
theorem cookie2MapLoop_of_none {startLine endLine src : Bytes}
    (h : afterFirst startLine src = none) (n : ℕ) (m : CookieMap) :
    cookie2MapLoop startLine endLine n src m = m := by
  cases n with
  | zero => rfl
  | succ n => rw [cookie2MapLoop, h]

section

variable {startLine : Bytes} (hne : startLine ≠ []) (hcr : cr ∉ startLine) (hlf : lf ∉ startLine)

include hne hcr hlf

/-- The start of a line is found in it, or behind it. -/
theorem afterFirst_line (line rest : Bytes) :
    afterFirst startLine (line ++ [cr] ++ lf :: rest) =
      ((afterFirst startLine line).map (· ++ [cr] ++ lf :: rest)).or
        (afterFirst startLine rest) := by
  rw [afterFirst_append_cons hlf hne, afterFirst_append_cons hcr hne, afterFirst_nil hne,
    Option.or_none, Option.map_map]
  rfl

/-- `start_line` does not occur in lines exactly if it occurs in none of them. -/
theorem afterFirst_crlfLines_eq_none_iff {lines : List Bytes} :
    afterFirst startLine (crlfLines lines) = none ↔
      ∀ line ∈ lines, afterFirst startLine line = none := by
  induction lines with
  | nil => exact ⟨fun _ => by simp, fun _ => afterFirst_nil hne⟩
  | cons line lines ih =>
      rw [crlfLines_cons, afterFirst_line hne hcr hlf, Option.or_eq_none_iff,
        Option.map_eq_none_iff, ih, List.forall_mem_cons]

/-- **What the loop makes of lines**: it reads what each of them tells, in their order. -/
theorem cookie2MapLoop_lines {lines : List Bytes} (hlines : ∀ line ∈ lines, lf ∉ line) {n : ℕ}
    (hn : lines.length < n) (m : CookieMap) :
    cookie2MapLoop startLine [lf] n (crlfLines lines) m =
      (lines.filterMap (tellLine startLine)).foldl readLine m := by
  induction lines generalizing n m with
  | nil => exact cookie2MapLoop_of_none (afterFirst_nil hne) n m
  | cons line lines ih =>
      have hrest : ∀ line ∈ lines, lf ∉ line := fun x hx => hlines x (by simp [hx])
      have hfind := afterFirst_line hne hcr hlf line (crlfLines lines)
      rw [← crlfLines_cons] at hfind
      cases hline : afterFirst startLine line with
      | none =>
          have hnone : tellLine startLine line = none := by rw [tellLine, hline]; rfl
          rw [hline] at hfind
          rw [cookie2MapLoop_congr hfind, List.filterMap_cons_none hnone]
          exact ih hrest (by simp at hn; omega) m
      | some r =>
          have hsome : tellLine startLine line = some (trim headBlank r) := by
            rw [tellLine, hline]; rfl
          have hr : lf ∉ r ++ [cr] := by
            have hl := hlines line (by simp)
            have hr : lf ∉ r := fun h => hl (subset_of_afterFirst hline h)
            simpa [hr] using (by decide : lf ≠ cr)
          obtain ⟨n, rfl⟩ := Nat.exists_eq_succ_of_ne_zero (Nat.ne_zero_of_lt hn)
          rw [hline] at hfind
          have hend := (firstAt_singleton hr).splitFirst_append (crlfLines lines)
          rw [cookie2MapLoop_step hfind hend, trim_append_of_mem (by decide),
            List.filterMap_cons_some hsome, List.foldl_cons]
          exact ih hrest (by simp at hn; omega) _

/-- **What `cookie_2_map` reads from a text of lines.** -/
theorem cookie2Map_lines {lines : List Bytes} (hlines : ∀ line ∈ lines, lf ∉ line)
    (m : CookieMap) :
    cookie2Map (crlfLines lines) m startLine [lf] = (told startLine lines).foldl readLine m := by
  have hlen : lines.length < (crlfLines lines).length + 1 := by
    have : lines.length ≤ (crlfLines lines).length := length_le_crlfLines lines
    omega
  cases lines with
  | nil => exact cookie2MapLoop_of_none (afterFirst_nil hne) _ m
  | cons line lines =>
      have hrest : ∀ line ∈ lines, lf ∉ line := fun x hx => hlines x (by simp [hx])
      rw [cookie2Map, told]
      cases line with
      | nil =>
          have hfind := afterFirst_append_cons hlf hne [] (crlfLines lines)
          rw [afterFirst_nil hne] at hfind
          have hnone : tellLine startLine [] = none := by rw [tellLine, afterFirst_nil hne]; rfl
          rw [List.drop_nil, List.filterMap_cons_none hnone]
          exact (cookie2MapLoop_congr hfind _ m).trans (cookie2MapLoop_lines hne hcr hlf hrest
            (Nat.lt_of_succ_lt hlen) m)
      | cons b line =>
          have hline : ∀ x ∈ line :: lines, lf ∉ x := by
            intro x hx
            rcases List.mem_cons.1 hx with rfl | hx
            · exact fun h => hlines (b :: x) (by simp) (by simp [h])
            · exact hrest x hx
          exact cookie2MapLoop_lines hne hcr hlf hline (by simpa using hlen) m

end

/-- What is told stands behind `start_line` in a line. -/
theorem exists_of_mem_told {startLine : Bytes} {lines : List Bytes}
    (h : temp ∈ told startLine lines) :
    ∃ line ∈ lines, ∃ r, startLine ++ r <:+ line ∧ temp = trim headBlank r := by
  cases lines with
  | nil => simp [told] at h
  | cons line lines =>
      obtain ⟨line', hline', htell⟩ := List.mem_filterMap.1 h
      obtain ⟨r, hr, rfl⟩ := Option.map_eq_some_iff.1 htell
      have hsuffix := suffix_of_afterFirst hr
      rcases List.mem_cons.1 hline' with rfl | hline'
      · exact ⟨line, by simp, r, hsuffix.trans (List.drop_suffix 1 line), rfl⟩
      · exact ⟨line', by simp [hline'], r, hsuffix, rfl⟩

/-! ### What is read from a line -/

/-- A line with no `'='` has no pair. -/
theorem readLine_of_not_mem (h : equals ∉ temp) (m : CookieMap) : readLine m temp = m :=
  if_neg h

/-- The first `'='` is the one that counts. -/
theorem readLine_eq {a y : Bytes} (ha : equals ∉ a) (m : CookieMap) :
    readLine m (a ++ equals :: y) =
      pairLoop (a ++ equals :: y) a.length (a ++ equals :: y).length 0 m := by
  rw [readLine, if_pos (by simp), untilAny_append_cons ha]

/-- At the end of a line the loop over its pairs stops. -/
theorem pairLoop_of_length_le {li lf : ℕ} (h : temp.length ≤ lf) (n : ℕ) (m : CookieMap) :
    pairLoop temp li n lf m = m := by
  cases n with
  | zero => rfl
  | succ n => rw [pairLoop, if_neg (by omega)]

/-- In the last turn the pair is ended by the line, or by a `';'` behind which there is
nothing. -/
theorem pairLoop_last {li lf n : ℕ} {e : Bytes} (hdrop : temp.drop lf = s ++ e)
    (hs : semicolon ∉ s) (hne : s ≠ []) (he : e = [] ∨ e = [semicolon]) (hn : n ≠ 0)
    (m : CookieMap) :
    pairLoop temp li n lf m =
      storePair (pairKey temp li lf) (pairValue temp li (lf + s.length)) m := by
  obtain ⟨n, rfl⟩ := Nat.exists_eq_succ_of_ne_zero hn
  have hend : pairEnd temp lf = lf + s.length := by
    rw [pairEnd, hdrop]
    rcases he with rfl | rfl
    · rw [List.append_nil, untilAny_of_not_mem hs]
    · rw [untilAny_append_cons hs]
  have hlen := congrArg List.length hdrop
  rw [List.length_drop, List.length_append] at hlen
  have hpos := List.length_pos_iff.2 hne
  have hle : e.length ≤ 1 := by rcases he with rfl | rfl <;> simp
  rw [pairLoop, if_pos (by omega)]
  simp only [hend]
  exact pairLoop_of_length_le (by omega) n _

/-- The name of a pair that begins before the first `'='`. -/
theorem pairKey_append (t k z : Bytes) :
    pairKey (t ++ (k ++ equals :: z)) (t.length + k.length) t.length = trim headBlank k := by
  rw [pairKey, if_pos (Nat.le_add_right _ _), List.drop_left, Nat.add_sub_cancel_left,
    List.take_left]

/-- The first name of a line begins at its front. -/
theorem pairKey_nil (k z : Bytes) :
    pairKey (k ++ equals :: z) k.length 0 = trim headBlank k := by
  simpa using pairKey_append [] k z

/-- The value of a pair that ends far enough behind the `'='`. -/
theorem pairValue_of_le (a : Bytes) {y : Bytes} (lb : ℕ) (h : y.length ≤ lb) :
    pairValue (a ++ equals :: y) a.length lb = trim headBlank y := by
  have hdrop : (a ++ equals :: y).drop (a.length + 1) = y := by simp
  rw [pairValue, hdrop, List.take_of_length_le h]

/-- **A line with no `';'` is read as one pair.** -/
theorem readLine_pair {y : Bytes} (hk : equals ∉ k) (hks : semicolon ∉ k) (hy : semicolon ∉ y)
    (m : CookieMap) :
    readLine m (k ++ equals :: y) = storePair (trim headBlank k) (trim headBlank y) m := by
  have hne : semicolon ≠ equals := by decide
  have hlen : y.length ≤ 0 + (k ++ equals :: y).length := by
    rw [List.length_append, List.length_cons]
    omega
  rw [readLine_eq hk, pairLoop_last (s := k ++ equals :: y) (e := []) (by simp)
    (by simp [hks, hne, hy]) (by simp) (Or.inl rfl) (by simp), pairKey_nil,
    pairValue_of_le k _ hlen]

/-- The line is trimmed before that. -/
theorem readLine_trim_pair {r : Bytes} (hr : equals ∉ r) (hrs : semicolon ∉ r)
    (hv : v = [] ∨ Clean v) (m : CookieMap) :
    readLine m (trim headBlank (r ++ equals :: v)) = storePair (trim headBlank r) v m := by
  have hblank : headBlank.contains equals = false := by decide
  have htrim : trim headBlank (r ++ equals :: v) =
      r.dropWhile (headBlank.contains ·) ++ equals :: v := by
    rcases hv with rfl | hv
    · rw [trim_append_of_not_mem (by decide)]
    · obtain ⟨w, c, rfl, hc⟩ := hv.exists_concat
      rw [← List.cons_append, ← List.append_assoc, trim_append_of_not_mem hc,
        dropWhile_append_stop hblank, List.append_assoc]
  have hsub : r.dropWhile (headBlank.contains ·) ⊆ r := (List.dropWhile_suffix _).subset
  have hkey : trim headBlank (r.dropWhile (headBlank.contains ·)) = trim headBlank r := by
    rw [trim, List.dropWhile_idempotent, trim]
  have hvs : semicolon ∉ v := not_mem_of_nil_or_clean hv (by simp)
  have hvalue : trim headBlank v = v := by
    rcases hv with rfl | hv
    · rfl
    · exact hv.trimmed
  rw [htrim, readLine_pair (fun h => hr (hsub h)) (fun h => hrs (hsub h)) hvs, hkey, hvalue]

/-! ### What is read from a line that was written -/

/-- What is kept by storing a pair is kept by reading a line. -/
theorem pairLoop_induct {I : CookieMap → Prop} (hstore : ∀ m k v, I m → I (storePair k v m))
    {li : ℕ} (hm : I m) (n lf : ℕ) : I (pairLoop temp li n lf m) := by
  induction n generalizing lf m with
  | zero => exact hm
  | succ n ih =>
      rw [pairLoop]
      split_ifs
      · exact ih (hstore _ _ _ hm) _
      · exact hm

/-- What every pair that is stored keeps holds after a line. -/
theorem readLine_induct {I : CookieMap → Prop} (hstore : ∀ m k v, I m → I (storePair k v m))
    (temp : Bytes) (hm : I m) : I (readLine m temp) := by
  unfold readLine
  split_ifs
  · exact pairLoop_induct hstore hm _ _
  · exact hm

/-- No name is removed. -/
theorem mem_readLine_of_mem {x : Bytes} (h : x ∈ m) (temp : Bytes) : x ∈ readLine m temp :=
  readLine_induct (I := (x ∈ ·)) (fun _ _ _ hx => mem_storePair_iff.2 (Or.inr hx)) temp h

/-- The loop comes to every place behind a `';'`. -/
theorem pairKey_mem_pairLoop {t u : Bytes} {li n lf : ℕ} (htemp : temp = t ++ u) (hu : u ≠ [])
    (ht : t.length = lf ∨ [semicolon] <:+ t) (hlf : lf ≤ t.length)
    (hn : temp.length ≤ lf + n) (hk : pairKey temp li t.length ≠ [])
    (hv : pairValue temp li (pairEnd temp t.length) ≠ []) :
    pairKey temp li t.length ∈ pairLoop temp li n lf m := by
  have hlen : t.length < temp.length := by
    have := List.length_pos_iff.2 hu
    rw [htemp, List.length_append]
    omega
  induction n generalizing lf m with
  | zero => omega
  | succ n ih =>
      rw [pairLoop, if_pos (by omega)]
      by_cases heq : t.length = lf
      · rw [← heq]
        exact pairLoop_induct (I := (pairKey temp li t.length ∈ ·))
          (fun _ _ _ hx => mem_storePair_iff.2 (Or.inr hx))
          (mem_storePair_iff.2 (Or.inl ⟨hk, hv, rfl⟩)) _ _
      · -- the pair at `lf` ends before this place
        obtain ⟨t', ht'⟩ := ht.resolve_left heq
        have hlen' : t.length = t'.length + 1 := by rw [← ht']; simp
        have hend : pairEnd temp lf ≤ t'.length := by
          have hdrop : temp.drop lf = t'.drop lf ++ semicolon :: u := by
            rw [htemp, ← ht', List.append_assoc, List.drop_append_of_le_length (by omega)]
            rfl
          have hle := length_untilAny_le [semicolon] (t'.drop lf)
          rw [List.length_drop] at hle
          rw [pairEnd, hdrop, untilAny_append_stop (by simp)]
          omega
        have hge : lf ≤ pairEnd temp lf := Nat.le_add_right _ _
        exact ih (Or.inr ⟨t', ht'⟩) (by omega) (by omega)

section

variable {a y t u z : Bytes} {b : UInt8}

/-- A value whose first byte is no blank is not empty. -/
theorem pairValue_ne_nil (hb : b ∉ headBlank) (a z : Bytes) {lb : ℕ} (h : 0 < lb) :
    pairValue (a ++ equals :: b :: z) a.length lb ≠ [] := by
  have hdrop : (a ++ equals :: b :: z).drop (a.length + 1) = b :: z := by simp
  obtain ⟨n, rfl⟩ := Nat.exists_eq_succ_of_ne_zero h.ne'
  rw [pairValue, hdrop, List.take_succ_cons]
  exact List.ne_nil_of_mem (mem_trim_of_not_mem (by simp) hb)

/-- A name at the front of the line or behind a `';'` is stored if something stands for
its value. -/
theorem pairKey_mem_readLine (ha : equals ∉ a) (hb : b ∉ headBlank)
    (htu : a ++ equals :: b :: z = t ++ u) (hu : u ≠ []) (ht : t = [] ∨ [semicolon] <:+ t)
    (hend : 0 < pairEnd (t ++ u) t.length) (hk : pairKey (t ++ u) a.length t.length ≠ [])
    (m : CookieMap) : pairKey (t ++ u) a.length t.length ∈ readLine m (t ++ u) := by
  have hv := pairValue_ne_nil hb a z hend
  rw [htu] at hv
  rw [← htu, readLine_eq ha, htu]
  refine pairKey_mem_pairLoop rfl hu ?_ (Nat.zero_le _) (by omega) hk hv
  exact ht.imp (fun h => by simp [h]) id

/-- A name that begins before the `'='` and has a `';'` in it. -/
theorem botched_of_before (ha : equals ∉ t ++ k) (hb : b ∉ headBlank)
    (ht : t = [] ∨ [semicolon] <:+ t) (hk : semicolon ∈ k)
    (hend : 0 < pairEnd (t ++ k ++ equals :: b :: z) t.length) :
    ∃ x, Botched x ∧ ∀ m, x ∈ readLine m (t ++ k ++ equals :: b :: z) := by
  have hsemi : semicolon ∈ trim headBlank k := mem_trim_of_not_mem hk (by decide)
  have heq : equals ∉ trim headBlank k := fun h =>
    ha (List.mem_append_right t ((infix_trim headBlank k).subset h))
  have hkey := pairKey_append t k (b :: z)
  refine ⟨trim headBlank k, Or.inr ⟨hsemi, heq⟩, fun m => ?_⟩
  rw [List.append_assoc] at hend ⊢
  rw [← hkey, ← List.length_append]
  refine pairKey_mem_readLine ha hb (List.append_assoc _ _ _) (by simp) ht hend ?_ m
  rw [List.length_append, hkey]
  exact List.ne_nil_of_mem hsemi

/-- A name that begins behind the `'='` of a line that ends with a `';'`. -/
theorem botched_of_behind (ha : equals ∉ a) (hb : b ∉ headBlank)
    (htu : a ++ equals :: b :: z = t ++ (u ++ [semicolon])) (ht : [semicolon] <:+ t)
    (hlt : a.length < t.length) :
    ∃ x, Botched x ∧ ∀ m, x ∈ readLine m (t ++ (u ++ [semicolon])) := by
  have hkey : pairKey (t ++ (u ++ [semicolon])) a.length t.length =
      u.dropWhile (headBlank.contains ·) ++ [semicolon] := by
    rw [pairKey, if_neg (by omega), List.drop_left, trim_append_of_not_mem (by decide)]
  have hend : 0 < pairEnd (t ++ (u ++ [semicolon])) t.length := Nat.add_pos_left (by omega) _
  exact ⟨_, Or.inl ⟨_, hkey.symm⟩,
    pairKey_mem_readLine ha hb htu (by simp) (Or.inr ht) hend (by simp [hkey])⟩

/-- A line in which there is one pair. -/
structure OnePair (temp k v : Bytes) : Prop where
  equals_not_mem : equals ∉ k
  semicolon_not_mem : semicolon ∉ k
  value_not_mem : semicolon ∉ v
  eq : temp = pairText (k, v) ∨ temp = semicolon :: pairText (k, v)

/-- A turn that ends where it begins finds no value. -/
theorem pairLoop_semicolon (s : Bytes) (li n : ℕ) (m : CookieMap) :
    pairLoop (semicolon :: s) li (n + 1) 0 m = pairLoop (semicolon :: s) li n 1 m := by
  have hend : pairEnd (semicolon :: s) 0 = 0 := by simp [pairEnd, untilAny]
  have hvalue : pairValue (semicolon :: s) li 0 = [] := by simp [pairValue, trim]
  rw [pairLoop, if_pos (by simp)]
  simp only [hend, hvalue, storePair, or_true, if_true]

/-- The value of the one pair of a line is read with the `';'` behind it. -/
theorem OnePair.readLine_eq (h : OnePair temp k v) (m : CookieMap) :
    readLine m temp = storePair (trim headBlank k) (trim headBlank (v ++ [semicolon])) m := by
  have hne : semicolon ≠ equals := by decide
  have hs : semicolon ∉ k ++ equals :: v := by simp [hne, h.semicolon_not_mem, h.value_not_mem]
  have hlen : (v ++ [semicolon]).length ≤ (k ++ equals :: v).length := by
    simp only [List.length_append, List.length_cons, List.length_nil]
    omega
  rcases h.eq with rfl | rfl
  · have hkey := pairKey_nil k (v ++ [semicolon])
    have hvalue := pairValue_of_le k (y := v ++ [semicolon])
      (0 + (k ++ equals :: v).length) (by omega)
    rw [← hkey, ← hvalue]
    exact (HttpTools.readLine_eq h.equals_not_mem m).trans
      (pairLoop_last (by simp) hs (by simp) (Or.inr rfl) (by simp) m)
  · have ha : equals ∉ semicolon :: k := by simp [hne.symm, h.equals_not_mem]
    have hkey := pairKey_append [semicolon] k (v ++ [semicolon])
    have hvalue := pairValue_of_le (semicolon :: k) (y := v ++ [semicolon])
      (1 + (k ++ equals :: v).length) (by omega)
    rw [← hkey, ← hvalue]
    refine (HttpTools.readLine_eq ha m).trans ((pairLoop_semicolon _ _ _ m).trans ?_)
    rw [Nat.add_comm [semicolon].length]
    exact pairLoop_last (by simp) hs (by simp) (Or.inr rfl) (by simp) m

/-- **What is read from a line whose pairs are each ended by a `';'`.**  Either there is one
pair in it, or a botched name is stored. -/
theorem onePair_or_botched (hlast : [semicolon] <:+ temp) (he : equals ∈ temp)
    (hval : ∀ b ∈ headBlank, ¬ [equals, b] <:+: temp) :
    (∃ k v, OnePair temp k v) ∨ ∃ x, Botched x ∧ ∀ m, x ∈ readLine m temp := by
  obtain ⟨a, y, rfl, ha⟩ := List.eq_append_cons_of_mem he
  -- what stands for a value ends with a `';'` and begins with no blank
  obtain ⟨w, rfl⟩ := exists_concat_of_suffix hlast (by decide)
  obtain ⟨b, z, hbz, hb⟩ : ∃ b z, w ++ [semicolon] = b :: z ∧ b ∉ headBlank := by
    cases w with
    | nil => exact ⟨semicolon, [], rfl, by decide⟩
    | cons b w =>
        refine ⟨b, w ++ [semicolon], rfl, fun hb => hval b hb ?_⟩
        exact ⟨a, w ++ [semicolon], by simp⟩
  by_cases hw : semicolon ∈ w
  · -- the rest of the line behind this `';'` is taken for a name
    obtain ⟨w₁, w₂, rfl⟩ := List.append_of_mem hw
    have hsplit : a ++ equals :: (w₁ ++ semicolon :: w₂ ++ [semicolon]) =
        (a ++ equals :: w₁ ++ [semicolon]) ++ (w₂ ++ [semicolon]) := by simp
    refine Or.inr ?_
    rw [hsplit]
    exact botched_of_behind ha hb (by rw [← hbz, hsplit]) (List.suffix_append _ _) (by simp)
  · by_cases has : semicolon ∈ a
    · obtain ⟨t, k, rfl, ht⟩ := List.eq_append_cons_of_mem has
      rw [hbz]
      -- all that stands before the `'='` is taken for a name, unless the line begins with
      -- the `';'`: then the first turn finds no value
      by_cases htn : t = []
      · subst htn
        by_cases hk : semicolon ∈ k
        · exact Or.inr (botched_of_before (t := [semicolon]) ha hb (Or.inr (List.suffix_rfl)) hk
            (Nat.add_pos_left (by simp) _))
        · refine Or.inl ⟨k, w, ?_, hk, hw, Or.inr ?_⟩
          · exact fun h => ha (by simp [h])
          · rw [← hbz]; rfl
      · refine Or.inr (botched_of_before (t := []) ha hb (Or.inl rfl) (by simp) ?_)
        have hpos := List.length_pos_iff.2 htn
        simpa [pairEnd, untilAny_append_cons ht] using hpos
    · exact Or.inl ⟨a, w, ha, has, hw, Or.inl rfl⟩

end

end HttpTools
end Scaner
