/-
# The text of the cookies

What `map_2_cookie` of `scaner_test/http_tools.cpp` writes, and what `cookie_2_map` reads from
it.

The writer keeps the length of the line that it writes in `nline` (`foldl_writePair_nline`),
and begins a new line with a pair that would make it longer than 81 bytes
(`map2Cookie_lines`).  Every pair is on a line, in the order of the map.

The reader does not read the text back: what it finds in a line ends with the `';'` behind
the last pair, so that a value is stored with it or a name that is none
(`cookie2Map_map2Cookie_iff`).
-/

import Mathlib.Data.List.DropRight
import Scaner.HttpTools.CookieUpdate

namespace Scaner
namespace HttpTools

open Bytes OrderedMap

variable {its : List (Bytes × Bytes)} {it : Bytes × Bytes} {n : ℕ}

/-! ### The length of a line -/

/-- A pair is written with two bytes beside its name and its value. -/
theorem length_pairText (it : Bytes × Bytes) :
    (pairText it).length = it.1.length + it.2.length + 2 := by
  simp only [pairText, List.length_append, List.length_cons, List.length_nil]
  omega

/-- The length of a line. -/
theorem length_lineText_cons (it : Bytes × Bytes) (its : List (Bytes × Bytes)) :
    (lineText (it :: its)).length =
      it.1.length + it.2.length + 10 + (its.flatMap pairText).length := by
  have hstart : (str "Cookie: ").length = 8 := rfl
  rw [lineText, List.flatMap_cons, List.length_append, List.length_append, length_pairText, hstart]
  omega

/-- Pairs that go on a line of the length `n` leave it short enough. -/
theorem length_wrap_le (h : (wrap n its).1 ≠ []) :
    n + ((wrap n its).1.flatMap pairText).length ≤ 81 := by
  induction its generalizing n with
  | nil => exact absurd rfl h
  | cons it its ih =>
      rw [wrap] at h ⊢
      by_cases hlt : n + it.1.length + it.2.length < 80
      · have hlead : lead n it = ([], n + (it.1.length + it.2.length + 2)) := if_pos hlt
        simp only [hlead, if_true]
        rw [List.flatMap_cons, List.length_append, length_pairText]
        -- the pair is the last one on the line, or others follow
        by_cases hlast : (wrap (n + (it.1.length + it.2.length + 2)) its).1 = []
        · rw [hlast, List.flatMap_nil, List.length_nil]
          omega
        · have := ih hlast
          omega
      · have hlead : (lead n it).1 ≠ [] := by simp [lead, hlt]
        simp [hlead] at h

/-- A line that begins with the pair `it`. -/
theorem length_lineText_wrap
    (h : 1 < (it :: (wrap (it.1.length + it.2.length + 10) its).1).length) :
    (lineText (it :: (wrap (it.1.length + it.2.length + 10) its).1)).length ≤ 81 := by
  rw [length_lineText_cons]
  apply length_wrap_le
  rintro hnil
  simp [hnil] at h

/-- A line with several pairs, behind the first line, has at most 81 bytes. -/
theorem length_of_mem_wrap {line : List (Bytes × Bytes)} (hline : line ∈ (wrap n its).2)
    (h : 1 < line.length) : (lineText line).length ≤ 81 := by
  induction its generalizing n with
  | nil => simp [wrap] at hline
  | cons it its ih =>
      rw [wrap] at hline
      split_ifs at hline with hlead
      · exact ih hline
      · have hnew : (lead n it).2 = it.1.length + it.2.length + 10 := by
          unfold lead at hlead ⊢
          split_ifs at hlead ⊢
          · exact absurd rfl hlead
          · rfl
        rcases List.mem_cons.1 hline with rfl | hline
        · rw [hnew] at h ⊢
          exact length_lineText_wrap h
        · exact ih hline

/-- **A line with more than one pair has 81 bytes at most.** -/
theorem length_of_mem_cookieLines {line : List (Bytes × Bytes)} (hline : line ∈ cookieLines its)
    (h : 1 < line.length) : (lineText line).length ≤ 81 := by
  cases its with
  | nil => simp [cookieLines] at hline
  | cons it its =>
      rcases List.mem_cons.1 hline with rfl | hline
      · exact length_lineText_wrap h
      · exact length_of_mem_wrap hline h

/-! ### The line that is being written -/

/-- A text with no line break in it. -/
def NoBreak (s : Bytes) : Prop := cr ∉ s ∧ lf ∉ s

/-- The line that is being written: what stands behind the last line feed. -/
def lastLine (s : Bytes) : Bytes := s.rtakeWhile (· ≠ lf)

/-- What has no newline in it is added to the last line. -/
theorem lastLine_append {w x : Bytes} (h : lf ∉ x) : lastLine (w ++ x) = lastLine w ++ x := by
  induction x using List.reverseRecOn with
  | nil => simp
  | append_singleton x b ih =>
      rw [List.mem_append, not_or, List.mem_singleton, eq_comm] at h
      rw [← List.append_assoc, lastLine, List.rtakeWhile_concat_pos _ _ _ (by simpa using h.2),
        ← List.append_assoc, ← ih h.1, lastLine]

/-- Behind a newline a new line begins. -/
theorem lastLine_append_lf {w x : Bytes} (h : lf ∉ x) : lastLine (w ++ lf :: x) = x := by
  have hlf : lastLine (w ++ [lf]) = [] := List.rtakeWhile_concat_neg _ _ _ (by simp)
  rw [← List.singleton_append, ← List.append_assoc, lastLine_append h, hlf, List.nil_append]

/-- There is no line break in a pair if there is none in its name and its value. -/
theorem noBreak_pairText (hk : NoBreak it.1) (hv : NoBreak it.2) : NoBreak (pairText it) := by
  have hcr : cr ≠ equals ∧ cr ≠ semicolon := by decide
  have hlf : lf ≠ equals ∧ lf ≠ semicolon := by decide
  constructor
  · simp [pairText, hk.1, hv.1, hcr]
  · simp [pairText, hk.2, hv.2, hlf]

/-- There is no line break in a line of such pairs. -/
theorem noBreak_lineText (h : ∀ it ∈ its, NoBreak it.1 ∧ NoBreak it.2) :
    NoBreak (lineText its) := by
  have hstart : NoBreak (str "Cookie: ") := by
    unfold NoBreak
    decide
  have hpair : ∀ it ∈ its, NoBreak (pairText it) := fun it hit =>
    noBreak_pairText (h it hit).1 (h it hit).2
  constructor
  · simpa [lineText, hstart.1] using fun k v hit => (hpair (k, v) hit).1
  · simpa [lineText, hstart.2] using fun k v hit => (hpair (k, v) hit).2

/-- A turn of the loop leaves the length of the line in `nline`. -/
theorem writePair_nline (hk : NoBreak it.1) (hv : NoBreak it.2) (out w : Bytes) :
    ∃ w', writePair (out ++ w, (lastLine w).length) it = (out ++ w', (lastLine w').length) := by
  have hpair : lf ∉ pairText it := (noBreak_pairText hk hv).2
  have hline : lf ∉ str "Cookie: " ++ pairText it := by
    simp [hpair, (by decide : lf ∉ str "Cookie: ")]
  have hlen : (str "Cookie: " ++ pairText it).length = it.1.length + it.2.length + 10 := by
    simpa [lineText] using length_lineText_cons it []
  unfold writePair
  split_ifs with hzero hlt
  · refine ⟨w ++ (str "Cookie: " ++ pairText it), ?_⟩
    rw [lastLine_append hline, List.length_append, hlen, List.append_assoc]
    simp only at hzero
    rw [hzero, Nat.zero_add]
  · refine ⟨w ++ pairText it, ?_⟩
    rw [lastLine_append hpair, List.length_append, length_pairText, List.append_assoc]
  · refine ⟨w ++ [cr] ++ lf :: (str "Cookie: " ++ pairText it), ?_⟩
    rw [lastLine_append_lf hline, hlen]
    simp

/-- **`nline` is the length of the line that is being written**, whatever pairs have been
written. -/
theorem foldl_writePair_nline (h : ∀ it ∈ its, NoBreak it.1 ∧ NoBreak it.2) (out w : Bytes) :
    ∃ w', its.foldl writePair (out ++ w, (lastLine w).length) =
      (out ++ w', (lastLine w').length) := by
  induction its generalizing w with
  | nil => exact ⟨w, rfl⟩
  | cons it its ih =>
      obtain ⟨hk, hv⟩ := h it (by simp)
      obtain ⟨w₁, hw₁⟩ := writePair_nline hk hv out w
      rw [List.foldl_cons, hw₁]
      exact ih (fun x hx => h x (by simp [hx])) w₁

/-! ### The lines of the text -/

/-- **What `map_2_cookie` appends** for names and values with no line break: lines, each with
pairs behind `Cookie: `, that hold the pairs of the map in the order of the names and are not
long unless one pair is; and `nline` is the length of the line that is being written, after
any number of pairs. -/
theorem map2Cookie_lines (m : CookieMap) (hne : m ≠ ∅)
    (h : ∀ k v, m[k]? = some v → NoBreak k ∧ NoBreak v) (out : Bytes) :
    (∃ lines : List (List (Bytes × Bytes)), lines ≠ [] ∧
      map2Cookie m out = out ++ crlfLines (lines.map lineText) ∧
      (∀ line ∈ lines, line ≠ [] ∧ NoBreak (lineText line) ∧
        (1 < line.length → (lineText line).length ≤ 81)) ∧
      lines.flatten = m.toList ∧
      lines.flatten.Pairwise fun it it' => compare it.1 it'.1 = .lt) ∧
    ∀ done rest, m.toList = done ++ rest → ∃ w,
      done.foldl writePair (out, 0) = (out ++ w, (lastLine w).length) := by
  have hlist : ∀ it ∈ m.toList, NoBreak it.1 ∧ NoBreak it.2 := fun it hit =>
    h it.1 it.2 (Std.ExtTreeMap.mem_toList_iff_getElem?_eq_some.1 hit)
  have hflat := flatten_cookieLines m.toList
  have htext : map2Cookie m out = out ++ crlfLines ((cookieLines m.toList).map lineText) := by
    rw [map2Cookie_append, cookieText_eq_crlfLines]
  refine ⟨⟨cookieLines m.toList, ?_, htext, fun line hline => ?_, hflat, ?_⟩,
    fun done rest hdone => ?_⟩
  · intro hnil
    rw [hnil, List.flatten_nil] at hflat
    exact hne (Std.ExtTreeMap.toList_eq_nil_iff.1 hflat.symm)
  · have hbreak : ∀ it ∈ line, NoBreak it.1 ∧ NoBreak it.2 := fun it hit =>
      hlist it (hflat ▸ List.mem_flatten.2 ⟨line, hline, hit⟩)
    exact ⟨ne_nil_of_mem_cookieLines hline, noBreak_lineText hbreak,
      length_of_mem_cookieLines hline⟩
  · rw [hflat]
    exact Std.ExtTreeMap.ordered_keys_toList
  · have hdoneBreak : ∀ it ∈ done, NoBreak it.1 ∧ NoBreak it.2 := fun it hit =>
      hlist it (hdone ▸ List.mem_append_left rest hit)
    simpa [lastLine] using foldl_writePair_nline hdoneBreak out []

/-- Three cookies, of which the first two fit on a line of 81 bytes. -/
def threeCookies : CookieMap :=
  ((∅ : CookieMap).insert (str "c") (str "3")).insert (str "a") (List.replicate 66 49)
    |>.insert (str "b") (str "2")

/-- The cookies in their order. -/
theorem threeCookies_toList :
    threeCookies.toList =
      [(str "a", List.replicate 66 49), (str "b", str "2"), (str "c", str "3")] := by
  decide +kernel

/-- The third cookie goes on a line of its own: the lines have 81 and 12 bytes. -/
theorem map2Cookie_lines_threeCookies :
    map2Cookie threeCookies (str "X") = str "X" ++
        crlfLines [str "Cookie: a=" ++ List.replicate 66 49 ++ str ";b=2;", str "Cookie: c=3;"] ∧
    (str "Cookie: a=" ++ List.replicate 66 49 ++ str ";b=2;").length = 81 ∧
    (∃ lines : List (List (Bytes × Bytes)), lines ≠ [] ∧
      map2Cookie threeCookies (str "X") = str "X" ++ crlfLines (lines.map lineText) ∧
      (∀ line ∈ lines, line ≠ [] ∧ NoBreak (lineText line) ∧
        (1 < line.length → (lineText line).length ≤ 81)) ∧
      lines.flatten =
        [(str "a", List.replicate 66 49), (str "b", str "2"), (str "c", str "3")] ∧
      lines.flatten.Pairwise fun it it' => compare it.1 it'.1 = .lt) ∧
    ∀ done rest,
      [(str "a", List.replicate 66 49), (str "b", str "2"), (str "c", str "3")] = done ++ rest →
        ∃ w, done.foldl writePair (str "X", 0) = (str "X" ++ w, (lastLine w).length) := by
  have hbreak : ∀ k v, threeCookies[k]? = some v → NoBreak k ∧ NoBreak v := by
    intro k v hkv
    have hmem := Std.ExtTreeMap.mem_toList_iff_getElem?_eq_some.2 hkv
    rw [threeCookies_toList] at hmem
    have hall : ∀ it ∈ [(str "a", List.replicate 66 49), (str "b", str "2"), (str "c", str "3")],
        NoBreak it.1 ∧ NoBreak it.2 := by
      unfold NoBreak
      decide
    exact hall (k, v) hmem
  have hlines := map2Cookie_lines threeCookies Std.ExtTreeMap.insert_ne_empty hbreak (str "X")
  rw [threeCookies_toList] at hlines
  exact ⟨by decide +kernel, by decide, hlines⟩

/-! ### The text is not read back -/

/-- A name that spoils its line has a `';'` in it. -/
theorem Botched.semicolon_mem {k : Bytes} (h : Botched k) : semicolon ∈ k := by
  rcases h with ⟨t, rfl⟩ | ⟨h, -⟩
  · simp
  · exact h

/-- Nothing clean is read from the text of a jar: a name that is none, or values with a `';'`
at their end. -/
theorem Jar.not_clean_of_mem_readBack (J : Jar) {x : Bytes} (hx : x ∈ J.readBack) :
    ∃ k v : Bytes, J.readBack[k]? = some v ∧ ¬ (Clean k ∧ Clean v) := by
  by_cases hone : ∀ temp ∈ J.toldTexts, equals ∉ temp ∨ ∃ k v, OnePair temp k v
  · obtain ⟨v, hv⟩ := Option.isSome_iff_exists.1 (Std.ExtTreeMap.mem_iff_isSome_getElem?.1 hx)
    refine ⟨x, v, hv, fun hclean => hclean.2.semicolon_not_mem ?_⟩
    obtain ⟨t, rfl⟩ := Jar.suffix_of_onePair hone x v hv
    simp
  · push Not at hone
    obtain ⟨temp, ht, heq, hnot⟩ := hone
    obtain ⟨hlast, hval⟩ := J.toldTexts_spec ht
    rcases onePair_or_botched hlast heq hval with ⟨k, v, h⟩ | ⟨k, hbotched, hk⟩
    · exact absurd h (hnot k v)
    · obtain ⟨v, hv⟩ := Option.isSome_iff_exists.1
        (Std.ExtTreeMap.mem_iff_isSome_getElem?.1 (J.mem_readBack ht hk))
      exact ⟨k, v, hv, fun hclean => hclean.1.semicolon_not_mem hbotched.semicolon_mem⟩

/-- **When a jar is read back from its text**: when there is nothing in it. -/
theorem cookie2Map_map2Cookie_iff (J : Jar) :
    cookie2Map (map2Cookie J.map []) ∅ (str "Cookie:") [lf] = J.map ↔ J.map = ∅ := by
  have hback : cookie2Map (map2Cookie J.map []) ∅ (str "Cookie:") [lf] = J.readBack :=
    J.cookie2Map_text
  rw [hback]
  constructor
  · intro heq
    by_contra hne
    obtain ⟨x, hx⟩ : ∃ x, x ∈ J.readBack := by
      rw [heq]
      by_contra hnone
      exact hne (Std.ExtTreeMap.eq_empty_iff_forall_not_mem.2 (not_exists.1 hnone))
    obtain ⟨k, v, hkv, hnot⟩ := J.not_clean_of_mem_readBack hx
    rw [heq] at hkv
    exact hnot (J.clean k v hkv)
  · intro hempty
    rw [Jar.readBack, Jar.toldTexts, hempty]
    rfl

/-- The cookie `a=1` is written as `Cookie: a=1;` and not found there. -/
theorem exists_cookie2Map_map2Cookie_ne : ∃ J : Jar,
    cookie2Map (map2Cookie J.map []) ∅ (str "Cookie:") [lf] ≠ J.map :=
  ⟨Jar.empty.store (by decide : Clean (str "a")) (by decide : Clean (str "1")),
    by decide +kernel⟩

end HttpTools
end Scaner
