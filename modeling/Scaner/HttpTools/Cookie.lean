/-
# Cookies

`cookie_2_map`, `map_2_cookie` and `get_new_cookie` of `scaner_test/http_tools.cpp`.  A
`std::map` from strings to strings is a `Std.ExtTreeMap`, in the order of the bytes.

The writer begins a line with `"Cookie: "` and goes on with pairs `name=value;` until the
line would get too long (`map2Cookie_eq`, `cookieText_eq_lines`).  Clean names and values can
be read back from their text (`map2Cookie_inj`), and no map with a `';'` in the wrong place
has the same text as a clean one (`cookieText_ne`).  What `cookie_2_map` reads from a text is
another matter (`Scaner.HttpTools.CookieRead`).
-/

import Mathlib.Data.List.Infix
import Scaner.HttpTools.Url
import Scaner.Lib.OrderedMap

namespace Scaner
namespace HttpTools

open Bytes OrderedMap

/-- `'='`. -/
abbrev equals : UInt8 := 61

/-- `std::map<std::string, std::string>`. -/
abbrev CookieMap := Std.ExtTreeMap Bytes Bytes compare

/-- The key of the pair that begins at `lf`, up to the `'='` at `li`; the rest of the line
when that lies before it. -/
def pairKey (strTemp : Bytes) (li lf : ℕ) : Bytes :=
  trim headBlank (if lf ≤ li then (strTemp.drop lf).take (li - lf) else strTemp.drop lf)

/-- The value of the pair that ends at `lb`: as many bytes from the `'='` on. -/
def pairValue (strTemp : Bytes) (li lb : ℕ) : Bytes :=
  trim headBlank ((strTemp.drop (li + 1)).take lb)

/-- `map_out[str_key] = str_value`, unless one of them is empty. -/
def storePair (strKey strValue : Bytes) (mapOut : CookieMap) : CookieMap :=
  if strKey = [] ∨ strValue = [] then mapOut else mapOut.insert strKey strValue

/-- The end of the pair that begins at `lf`. -/
def pairEnd (strTemp : Bytes) (lf : ℕ) : ℕ :=
  lf + (untilAny [semicolon] (strTemp.drop lf)).length

/-- The loop over the pairs of a line, from `lf` on.  Every turn moves `lf` up, so the
length of the line is enough for the number of turns. -/
def pairLoop (strTemp : Bytes) (li : ℕ) : ℕ → ℕ → CookieMap → CookieMap
  | 0, _, mapOut => mapOut
  | n + 1, lf, mapOut =>
      if lf < strTemp.length then
        let lb := pairEnd strTemp lf
        pairLoop strTemp li n (lb + 1)
          (storePair (pairKey strTemp li lf) (pairValue strTemp li lb) mapOut)
      else mapOut

/-- What `cookie_2_map` reads from a line. -/
def readLine (mapOut : CookieMap) (strTemp : Bytes) : CookieMap :=
  if equals ∈ strTemp then
    pairLoop strTemp (untilAny [equals] strTemp).length strTemp.length 0 mapOut
  else mapOut

/-- The loop of `cookie_2_map` over what is left of the text.  The last line may have no
end. -/
def cookie2MapLoop (startLine endLine : Bytes) : ℕ → Bytes → CookieMap → CookieMap
  | 0, _, mapOut => mapOut
  | n + 1, src, mapOut =>
      match afterFirst startLine src with
      | none => mapOut
      | some rest =>
          match splitFirst endLine rest with
          | none => readLine mapOut (trim headBlank rest)
          | some (line, src) =>
              cookie2MapLoop startLine endLine n src (readLine mapOut (trim headBlank line))

/-- `cookie_2_map`.  The search begins behind an `end_line` at the front of the text,
whether there is one or not. -/
def cookie2Map (src : Bytes) (mapOut : CookieMap) (startLine endLine : Bytes) : CookieMap :=
  cookie2MapLoop startLine endLine (src.length + 1) (src.drop endLine.length) mapOut

/-- `it.first + "=" + it.second + ";"`. -/
def pairText (it : Bytes × Bytes) : Bytes := it.1 ++ equals :: (it.2 ++ [semicolon])

/-- A turn of the loop of `map_2_cookie`: `cookie_out` and `nline`. -/
def writePair (s : Bytes × ℕ) (it : Bytes × Bytes) : Bytes × ℕ :=
  if s.2 = 0 then (s.1 ++ (str "Cookie: " ++ pairText it), it.1.length + it.2.length + 10)
  else if s.2 + it.1.length + it.2.length < 80 then
    (s.1 ++ pairText it, s.2 + (it.1.length + it.2.length + 2))
  else
    (s.1 ++ ([cr, lf] ++ (str "Cookie: " ++ pairText it)), it.1.length + it.2.length + 10)

/-- `map_2_cookie`. -/
def map2Cookie (mapIn : CookieMap) (cookieOut : Bytes) : Bytes :=
  if mapIn.isEmpty then cookieOut
  else (mapIn.toList.foldl writePair (cookieOut, 0)).1 ++ [cr, lf]

/-- The entries with no value are erased. -/
def eraseEmpty (m : CookieMap) : CookieMap :=
  ((m.toList.filter (·.2 = [])).map (·.1)).foldl (fun m key => m.erase key) m

/-- `get_new_cookie`: what it stores in `new_cookie`. -/
def getNewCookie (recvHead oldCookie : Bytes) : Bytes :=
  if containsSub (str "Set-Cookie:") recvHead = false then oldCookie
  else
    let mapTemp := cookie2Map oldCookie ∅ (str "Cookie:") [lf]
    let mapTemp := cookie2Map recvHead mapTemp (str "Set-Cookie:") [lf]
    map2Cookie (eraseEmpty mapTemp) []

/-! ### Maps -/

variable {m m' : CookieMap} {k v : Bytes}

/-- **What is left when the entries with no value are erased.** -/
theorem getElem?_eraseEmpty (m : CookieMap) (x : Bytes) :
    (eraseEmpty m)[x]? = if m[x]? = some [] then none else m[x]? := by
  rw [eraseEmpty, getElem?_foldl_erase]
  congr 1
  simp [Std.ExtTreeMap.mem_toList_iff_getElem?_eq_some]

/-- Every entry has a value. -/
def Valued (m : CookieMap) : Prop := ∀ x : Bytes, m[x]? ≠ some []

/-- A map in which every entry has a value is left as it is. -/
theorem Valued.eraseEmpty (h : Valued m) : eraseEmpty m = m := by
  apply Std.ExtTreeMap.ext_getElem?
  intro x
  rw [getElem?_eraseEmpty, if_neg (h x)]

/-- A pair is stored under its name, unless the name or the value is empty. -/
theorem getElem?_storePair (m : CookieMap) (k v x : Bytes) :
    (storePair k v m)[x]? = if k ≠ [] ∧ v ≠ [] ∧ k = x then some v else m[x]? := by
  unfold storePair
  by_cases hk : k = []
  · simp [hk]
  · by_cases hv : v = []
    · simp [hv]
    · simp [hk, hv, getElem?_insert]

/-- The names behind that. -/
theorem mem_storePair_iff {x : Bytes} :
    x ∈ storePair k v m ↔ (k ≠ [] ∧ v ≠ [] ∧ k = x) ∨ x ∈ m := by
  rw [Std.ExtTreeMap.mem_iff_isSome_getElem?, Std.ExtTreeMap.mem_iff_isSome_getElem?,
    getElem?_storePair]
  split_ifs with hx
  · exact ⟨fun _ => Or.inl hx, fun _ => rfl⟩
  · rw [or_iff_right hx]

/-- No empty value is stored. -/
theorem Valued.storePair (h : Valued m) (k v : Bytes) : Valued (storePair k v m) := by
  intro x
  rw [getElem?_storePair]
  split_ifs with hx
  · simpa using hx.2.1
  · exact h x

/-! ### The lines that are written -/

/-- What is written before a pair on a line of the length `n`, and the length of the line
with the pair. -/
def lead (n : ℕ) (it : Bytes × Bytes) : Bytes × ℕ :=
  if n + it.1.length + it.2.length < 80 then ([], n + (it.1.length + it.2.length + 2))
  else ([cr, lf] ++ str "Cookie: ", it.1.length + it.2.length + 10)

/-- What is written behind a line of the length `n`, with the end of the text. -/
def written : ℕ → List (Bytes × Bytes) → Bytes
  | _, [] => [cr, lf]
  | n, it :: its => (lead n it).1 ++ (pairText it ++ written (lead n it).2 its)

/-- What is written for a list of pairs. -/
def cookieText : List (Bytes × Bytes) → Bytes
  | [] => []
  | it :: its => str "Cookie: " ++ (pairText it ++ written (it.1.length + it.2.length + 10) its)

/-- The pairs that go on a line of the length `n`, and those of the lines behind it. -/
def wrap : ℕ → List (Bytes × Bytes) → List (Bytes × Bytes) × List (List (Bytes × Bytes))
  | _, [] => ([], [])
  | n, it :: its =>
      let r := wrap (lead n it).2 its
      if (lead n it).1 = [] then (it :: r.1, r.2) else ([], (it :: r.1) :: r.2)

/-- The lines of a text, each as its pairs. -/
def cookieLines : List (Bytes × Bytes) → List (List (Bytes × Bytes))
  | [] => []
  | it :: its =>
      let r := wrap (it.1.length + it.2.length + 10) its
      (it :: r.1) :: r.2

/-- A line. -/
def lineText (its : List (Bytes × Bytes)) : Bytes := str "Cookie: " ++ its.flatMap pairText

/-- A turn of the loop on a line that has been begun. -/
theorem writePair_eq (out : Bytes) {n : ℕ} (hn : n ≠ 0) (it : Bytes × Bytes) :
    writePair (out, n) it = (out ++ ((lead n it).1 ++ pairText it), (lead n it).2) := by
  rw [writePair, if_neg hn, lead]
  split_ifs
  · rfl
  · simp only [List.append_assoc]

/-- The line that a pair is on is not empty. -/
theorem lead_ne_zero (n : ℕ) (it : Bytes × Bytes) : (lead n it).2 ≠ 0 := by
  rw [lead]
  split_ifs <;> simp

/-- A pair goes on the line, or begins a new one. -/
theorem lead_cases (n : ℕ) (it : Bytes × Bytes) :
    (lead n it).1 = [] ∨ (lead n it).1 = [cr, lf] ++ str "Cookie: " := by
  rw [lead]
  split_ifs
  · exact Or.inl rfl
  · exact Or.inr rfl

/-- The loop from the middle of a line on. -/
theorem foldl_writePair (its : List (Bytes × Bytes)) (out : Bytes) {n : ℕ} (hn : n ≠ 0) :
    (its.foldl writePair (out, n)).1 ++ [cr, lf] = out ++ written n its := by
  induction its generalizing out n with
  | nil => rfl
  | cons it its ih =>
      rw [List.foldl_cons, writePair_eq out hn, ih _ (lead_ne_zero n it), written]
      simp only [List.append_assoc]

/-- **What `map_2_cookie` writes** behind a text. -/
theorem map2Cookie_append (m : CookieMap) (out : Bytes) :
    map2Cookie m out = out ++ cookieText m.toList := by
  have hempty : m.isEmpty = m.toList.isEmpty := Std.ExtTreeMap.isEmpty_toList.symm
  rw [map2Cookie, hempty]
  cases m.toList with
  | nil => simp [cookieText]
  | cons it its =>
      rw [List.isEmpty_cons, if_neg Bool.false_ne_true, List.foldl_cons, writePair, if_pos rfl,
        foldl_writePair _ _ (by omega), cookieText]
      simp only [List.append_assoc]

/-- The text of a map is that of its pairs. -/
theorem map2Cookie_eq (m : CookieMap) : map2Cookie m [] = cookieText m.toList :=
  map2Cookie_append m []

/-- What is written behind a line: the rest of the line, and the lines behind it. -/
theorem written_eq_lines (n : ℕ) (its : List (Bytes × Bytes)) :
    written n its = (wrap n its).1.flatMap pairText ++ ([cr, lf] ++
      (wrap n its).2.flatMap fun line => lineText line ++ [cr, lf]) := by
  induction its generalizing n with
  | nil => rfl
  | cons it its ih =>
      rw [written, wrap, ih]
      rcases lead_cases n it with h | h
      · simp [h]
      · simp [h, lineText]

/-- The text is made of lines. -/
theorem cookieText_eq_lines (its : List (Bytes × Bytes)) :
    cookieText its = (cookieLines its).flatMap fun line => lineText line ++ [cr, lf] := by
  cases its with
  | nil => rfl
  | cons it its => simp [cookieText, cookieLines, written_eq_lines, lineText]

/-- No pair is lost where the lines are broken. -/
theorem flatten_wrap (n : ℕ) (its : List (Bytes × Bytes)) :
    (wrap n its).1 ++ (wrap n its).2.flatten = its := by
  induction its generalizing n with
  | nil => rfl
  | cons it its ih =>
      rw [wrap]
      split_ifs
      · simp [ih]
      · simp [ih]

/-- The lines hold the pairs, in their order. -/
theorem flatten_cookieLines (its : List (Bytes × Bytes)) : (cookieLines its).flatten = its := by
  cases its with
  | nil => rfl
  | cons it its => simp [cookieLines, flatten_wrap]

/-- A line is begun for a pair. -/
theorem ne_nil_of_mem_wrap {n : ℕ} {its line : List (Bytes × Bytes)} (h : line ∈ (wrap n its).2) :
    line ≠ [] := by
  induction its generalizing n with
  | nil => simp [wrap] at h
  | cons it its ih =>
      rw [wrap] at h
      split_ifs at h
      · exact ih h
      · rcases List.mem_cons.1 h with rfl | h
        · simp
        · exact ih h

/-- Every line has a pair in it. -/
theorem ne_nil_of_mem_cookieLines {its line : List (Bytes × Bytes)} (h : line ∈ cookieLines its) :
    line ≠ [] := by
  cases its with
  | nil => simp [cookieLines] at h
  | cons it its =>
      rcases List.mem_cons.1 h with rfl | h
      · simp
      · exact ne_nil_of_mem_wrap h

/-- A line ends with a `';'`. -/
theorem suffix_lineText {line : List (Bytes × Bytes)} (h : line ≠ []) :
    [semicolon] <:+ lineText line := by
  rcases List.eq_nil_or_concat' line with rfl | ⟨its, it, rfl⟩
  · exact absurd rfl h
  · exact ⟨str "Cookie: " ++ (its.flatMap pairText ++ (it.1 ++ equals :: it.2)),
      by simp [lineText, pairText]⟩

/-! ### The text of clean names and values -/

/-- A name or a value that is not empty, is trimmed, and has none of the bytes that the
text is divided by. -/
structure Clean (s : Bytes) : Prop where
  ne_nil : s ≠ []
  trimmed : trim headBlank s = s
  not_mem : ∀ b ∈ [semicolon, equals, cr, lf], b ∉ s

/-- Whether a text is clean can be computed. -/
theorem clean_iff {s : Bytes} : Clean s ↔ s ≠ [] ∧ trim headBlank s = s ∧
    s.all (fun b => b ∉ [semicolon, equals, cr, lf]) = true := by
  constructor
  · intro h
    exact ⟨h.ne_nil, h.trimmed,
      List.all_eq_true.2 fun b hb => decide_eq_true fun hm => h.not_mem b hm hb⟩
  · rintro ⟨hne, htrim, hall⟩
    exact ⟨hne, htrim, fun b hm hb => forall_mem_of_all hall b hb hm⟩

instance (s : Bytes) : Decidable (Clean s) := decidable_of_iff _ clean_iff.symm

/-- Both parts of a pair are clean. -/
def CleanPair (it : Bytes × Bytes) : Prop := Clean it.1 ∧ Clean it.2

variable {its its' : List (Bytes × Bytes)} {it it' : Bytes × Bytes} {s temp : Bytes}

/-- A clean name begins with no blank. -/
theorem Clean.exists_cons (h : Clean s) : ∃ b r, s = b :: r ∧ b ∉ headBlank := by
  obtain ⟨b, r, rfl⟩ := List.exists_cons_of_ne_nil h.ne_nil
  refine ⟨b, r, rfl, fun hb => ?_⟩
  have hlen := (infix_trim headBlank r).length_le
  rw [← trim_cons_of_mem hb, h.trimmed, List.length_cons] at hlen
  omega

/-- A clean name ends with no blank. -/
theorem Clean.exists_concat (h : Clean s) : ∃ r b, s = r ++ [b] ∧ b ∉ headBlank := by
  rcases List.eq_nil_or_concat' s with rfl | ⟨r, b, rfl⟩
  · exact absurd rfl h.ne_nil
  · refine ⟨r, b, rfl, fun hb => ?_⟩
    have hlen := (infix_trim headBlank r).length_le
    rw [← trim_append_of_mem hb, h.trimmed, List.length_append, List.length_singleton] at hlen
    omega

/-- A value may be missing as well. -/
theorem not_mem_of_nil_or_clean (h : s = [] ∨ Clean s) {b : UInt8}
    (hb : b ∈ [semicolon, equals, cr, lf]) : b ∉ s := by
  rcases h with rfl | h
  · simp
  · exact h.not_mem b hb

/-- There is no `';'` in a clean text. -/
theorem Clean.semicolon_not_mem (h : Clean s) : semicolon ∉ s := h.not_mem _ (by simp)

/-- There is no `'='` in a clean text. -/
theorem Clean.equals_not_mem (h : Clean s) : equals ∉ s := h.not_mem _ (by simp)

/-- A pair can be read from the front of a text. -/
theorem pairText_append_inj (h : CleanPair it) (h' : CleanPair it') {r r' : Bytes}
    (he : pairText it ++ r = pairText it' ++ r') : it = it' ∧ r = r' := by
  simp only [pairText, List.append_assoc, List.cons_append, List.nil_append] at he
  obtain ⟨h₁, he⟩ := append_cons_inj h.1.equals_not_mem h'.1.equals_not_mem he
  obtain ⟨h₂, he⟩ := append_cons_inj h.2.semicolon_not_mem h'.2.semicolon_not_mem he
  exact ⟨Prod.ext h₁ h₂, he⟩

/-- A clean pair begins with no line break. -/
theorem pairText_append_ne (h : CleanPair it) (r r' : Bytes) :
    pairText it ++ r ≠ [cr, lf] ++ r' := by
  obtain ⟨b, k, hk, -⟩ := h.1.exists_cons
  intro he
  rw [pairText, hk] at he
  obtain rfl : b = cr := (List.cons.inj he).1
  exact h.1.not_mem cr (by simp) (by simp [hk])

/-- The first pair can be told from what is written. -/
theorem lead_append_inj (h : CleanPair it) (h' : CleanPair it') {n : ℕ} {r r' : Bytes}
    (he : (lead n it).1 ++ (pairText it ++ r) = (lead n it').1 ++ (pairText it' ++ r')) :
    it = it' ∧ r = r' := by
  rcases lead_cases n it with hl | hl <;> rcases lead_cases n it' with hl' | hl' <;>
    rw [hl, hl'] at he
  · exact pairText_append_inj h h' he
  · exact absurd he (pairText_append_ne h r _)
  · exact absurd he.symm (pairText_append_ne h' r' _)
  · exact pairText_append_inj h h' (List.append_cancel_left he)

/-- A text with a pair in it is not an empty one. -/
theorem written_cons_ne (h : CleanPair it) (n : ℕ) (its : List (Bytes × Bytes)) :
    written n (it :: its) ≠ [cr, lf] := by
  intro he
  rw [written] at he
  rcases lead_cases n it with hl | hl
  · exact pairText_append_ne h _ [] (by simpa [hl] using he)
  · simp [hl, pairText] at he

/-- **Pairs that are clean can be told from what is written**: by induction on them. -/
theorem written_inj (h : ∀ it ∈ its, CleanPair it) (h' : ∀ it ∈ its', CleanPair it) {n : ℕ}
    (he : written n its = written n its') : its = its' := by
  induction its generalizing its' n with
  | nil =>
      cases its' with
      | nil => rfl
      | cons it' its' => exact absurd he.symm (written_cons_ne (h' it' (by simp)) n its')
  | cons it its ih =>
      cases its' with
      | nil => exact absurd he (written_cons_ne (h it (by simp)) n its)
      | cons it' its' =>
          rw [written, written] at he
          obtain ⟨rfl, he⟩ := lead_append_inj (h it (by simp)) (h' it' (by simp)) he
          rw [ih (fun x hx => h x (by simp [hx])) (fun x hx => h' x (by simp [hx])) he]

/-- Clean pairs can be read back from their text. -/
theorem cookieText_inj (h : ∀ it ∈ its, CleanPair it) (h' : ∀ it ∈ its', CleanPair it)
    (he : cookieText its = cookieText its') : its = its' := by
  cases its with
  | nil =>
      cases its' with
      | nil => rfl
      | cons it' its' => simp [cookieText, pairText] at he
  | cons it its =>
      cases its' with
      | nil => simp [cookieText, pairText] at he
      | cons it' its' =>
          obtain ⟨rfl, he⟩ := pairText_append_inj (h it (by simp)) (h' it' (by simp))
            (List.append_cancel_left he)
          rw [written_inj (fun x hx => h x (by simp [hx])) (fun x hx => h' x (by simp [hx])) he]

/-- Every name and value of a map is clean. -/
def CleanMap (m : CookieMap) : Prop := ∀ k v, m[k]? = some v → Clean k ∧ Clean v

/-- The pairs of a clean map are clean. -/
theorem CleanMap.toList (h : CleanMap m) : ∀ it ∈ m.toList, CleanPair it := by
  rintro ⟨k, v⟩ hit
  exact h k v (Std.ExtTreeMap.mem_toList_iff_getElem?_eq_some.1 hit)

/-- **A clean map can be read back from what `map_2_cookie` writes for it.** -/
theorem map2Cookie_inj (h : CleanMap m) (h' : CleanMap m')
    (he : map2Cookie m [] = map2Cookie m' []) : m = m' := by
  rw [map2Cookie_eq, map2Cookie_eq] at he
  have hlist := cookieText_inj h.toList h'.toList he
  apply Std.ExtTreeMap.ext_getElem?
  intro x
  rw [Option.ext_iff]
  intro v
  rw [← Std.ExtTreeMap.mem_toList_iff_getElem?_eq_some, hlist,
    Std.ExtTreeMap.mem_toList_iff_getElem?_eq_some]

/-- A line of clean pairs is one line. -/
theorem lf_not_mem_lineText (h : ∀ it ∈ its, CleanPair it) : lf ∉ lineText its := by
  have hstart : lf ∉ str "Cookie: " := by decide
  have hpair : ∀ it ∈ its, lf ∉ pairText it := by
    intro it hit
    obtain ⟨hk, hv⟩ := h it hit
    simpa [pairText, hk.not_mem lf (by simp), hv.not_mem lf (by simp)] using
      (by decide : lf ≠ equals ∧ lf ≠ semicolon)
  simpa [lineText, hstart] using hpair

/-- In a line of clean pairs no blank follows on a `'='`. -/
theorem not_infix_lineText (h : ∀ it ∈ its, CleanPair it) {b : UInt8} (hb : b ∈ headBlank) :
    ¬ [equals, b] <:+: lineText its := by
  rw [lineText, pair_infix_append_of_not_mem (by decide)]
  induction its with
  | nil => simp
  | cons it its ih =>
      obtain ⟨hk, hv⟩ := h it (by simp)
      obtain ⟨c, r, hc, hcb⟩ := hv.exists_cons
      have hfree : equals ∉ it.2 ++ [semicolon] := by
        simpa [hv.equals_not_mem] using (by decide : equals ≠ semicolon)
      have hsplit : (it :: its).flatMap pairText =
          it.1 ++ equals :: ((it.2 ++ [semicolon]) ++ its.flatMap pairText) := by
        simp [pairText]
      rw [hsplit, pair_infix_append_of_not_mem hk.equals_not_mem, List.infix_cons_iff,
        pair_prefix_cons, pair_infix_append_of_not_mem hfree]
      refine not_or.2 ⟨fun hp => hcb ?_, ih fun x hx => h x (by simp [hx])⟩
      obtain rfl : c = b := by simpa [hc] using hp.2
      exact hb

/-! ### Traces of names and values that are not clean -/

/-- The bytes of a text that divide pairs. -/
def marks (s : Bytes) : Bytes := s.filter fun b => b = semicolon ∨ b = equals

/-- The marks of two texts, one behind the other. -/
theorem marks_append (s s' : Bytes) : marks (s ++ s') = marks s ++ marks s' :=
  List.filter_append _ _

/-- The marks of a pair: those of its name, `'='`, those of its value, and `';'`. -/
theorem marks_pairText (it : Bytes × Bytes) :
    marks (pairText it) = marks it.1 ++ equals :: (marks it.2 ++ [semicolon]) := by
  simp [marks, pairText]

/-- A clean text has no marks of its own. -/
theorem Clean.marks (h : Clean s) : marks s = [] := by
  rw [HttpTools.marks, List.filter_eq_nil_iff]
  intro b hb hmark
  rcases of_decide_eq_true hmark with rfl | rfl
  · exact h.semicolon_not_mem hb
  · exact h.equals_not_mem hb

/-- There are no marks between the pairs. -/
theorem marks_lead (n : ℕ) (it : Bytes × Bytes) : marks (lead n it).1 = [] := by
  rcases lead_cases n it with h | h
  · rw [h]; rfl
  · rw [h]; decide

/-- The marks behind the first pair are those of the pairs. -/
theorem marks_written (n : ℕ) (its : List (Bytes × Bytes)) :
    marks (written n its) = its.flatMap fun it => marks (pairText it) := by
  induction its generalizing n with
  | nil => rfl
  | cons it its ih => simp [written, marks_append, marks_lead, ih]

/-- The marks of a text are those of its pairs. -/
theorem marks_cookieText (its : List (Bytes × Bytes)) :
    marks (cookieText its) = its.flatMap fun it => marks (pairText it) := by
  have hlead : marks (str "Cookie: ") = [] := by decide
  cases its with
  | nil => rfl
  | cons it its => simp [cookieText, marks_append, hlead, marks_written]

/-- Between two `';'` of the text of clean pairs there is a `'='`. -/
theorem not_infix_marks_cookieText (h : ∀ it ∈ its, CleanPair it) :
    ¬ [semicolon, semicolon] <:+: semicolon :: marks (cookieText its) := by
  rw [marks_cookieText]
  induction its with
  | nil => simp [List.infix_cons_iff]
  | cons it its ih =>
      have hne : semicolon ≠ equals := by decide
      have hit := h it (by simp)
      rw [List.flatMap_cons, marks_pairText, hit.1.marks, hit.2.marks]
      have := ih fun x hx => h x (by simp [hx])
      simpa [List.infix_cons_iff, hne] using this

/-- Up to its end a clean pair has no `';'`. -/
theorem infix_append_pairText (h : CleanPair it) {x : Bytes} (hx : semicolon ∉ x) (r : Bytes) :
    [semicolon, equals] <:+: x ++ (pairText it ++ r) ↔ [semicolon, equals] <:+: semicolon :: r := by
  have hne : semicolon ≠ equals := by decide
  have hfree : semicolon ∉ x ++ (it.1 ++ equals :: it.2) := by
    simp [hx, hne, h.1.semicolon_not_mem, h.2.semicolon_not_mem]
  have hsplit : x ++ (pairText it ++ r) = (x ++ (it.1 ++ equals :: it.2)) ++ semicolon :: r := by
    simp [pairText]
  rw [hsplit, pair_infix_append_of_not_mem hfree]

/-- What is written does not begin with `'='`. -/
theorem head?_written (h : ∀ it ∈ its, CleanPair it) (n : ℕ) :
    (written n its).head? ≠ some equals := by
  cases its with
  | nil => exact fun he => absurd (Option.some.inj he) (by decide)
  | cons it its =>
      rw [written]
      rcases lead_cases n it with hl | hl
      · have hk := (h it (by simp)).1
        obtain ⟨b, r, hb, -⟩ := hk.exists_cons
        have hne : b ≠ equals := fun hbe => hk.equals_not_mem (by simp [hb, hbe])
        simpa [hl, pairText, hb] using hne
      · rw [hl]
        exact fun he => absurd (Option.some.inj he) (by decide)

/-- So no `'='` follows a `';'` in clean pairs. -/
theorem not_infix_written (h : ∀ it ∈ its, CleanPair it) (n : ℕ) :
    ¬ [semicolon, equals] <:+: semicolon :: written n its := by
  induction its generalizing n with
  | nil => exact (by decide : ¬ [semicolon, equals] <:+: [semicolon, cr, lf])
  | cons it its ih =>
      have hlead : semicolon ∉ (lead n it).1 := by
        rcases lead_cases n it with hl | hl
        · simp [hl]
        · rw [hl]; decide
      rw [List.infix_cons_iff, pair_prefix_cons]
      refine not_or.2 ⟨fun hp => head?_written h n hp.2, ?_⟩
      rw [written, infix_append_pairText (h it (by simp)) hlead]
      exact ih (fun x hx => h x (by simp [hx])) _

/-- No name of the text of clean pairs is empty. -/
theorem not_infix_cookieText (h : ∀ it ∈ its, CleanPair it) :
    ¬ [semicolon, equals] <:+: cookieText its := by
  cases its with
  | nil => decide
  | cons it its =>
      rw [cookieText, infix_append_pairText (h it (by simp)) (by decide)]
      exact not_infix_written (fun x hx => h x (by simp [hx])) _

/-- Every pair stands in what is written. -/
theorem pairText_infix_written (hit : it ∈ its) (n : ℕ) : pairText it <:+: written n its := by
  induction its generalizing n with
  | nil => simp at hit
  | cons x its ih =>
      rw [written]
      rcases List.mem_cons.1 hit with rfl | hit
      · exact ⟨_, _, List.append_assoc _ _ _⟩
      · exact ((ih hit _).trans (List.suffix_append _ _).isInfix).trans
          (List.suffix_append _ _).isInfix

/-- Every pair of a map stands in its text. -/
theorem pairText_infix_cookieText (hit : it ∈ its) : pairText it <:+: cookieText its := by
  cases its with
  | nil => simp at hit
  | cons x its =>
      rw [cookieText]
      refine List.IsInfix.trans ?_ (List.suffix_append _ _).isInfix
      rcases List.mem_cons.1 hit with rfl | hit
      · exact (List.prefix_append _ _).isInfix
      · exact (pairText_infix_written hit _).trans (List.suffix_append _ _).isInfix

/-- A name that is not that of a cookie: there is a `';'` at its end, or one in it and
no `'='`. -/
def Botched (k : Bytes) : Prop := [semicolon] <:+ k ∨ (semicolon ∈ k ∧ equals ∉ k)

/-- In a name with a `';'` and no `'='`, the first mark is a `';'`. -/
theorem exists_marks_cons (h : semicolon ∈ k) (he : equals ∉ k) :
    ∃ r, marks k = semicolon :: r := by
  have hmem : semicolon ∈ marks k := by simp [marks, h]
  obtain ⟨b, r, hb⟩ := List.exists_cons_of_ne_nil (List.ne_nil_of_mem hmem)
  have hbm : b ∈ marks k := by simp [hb]
  obtain ⟨hbk, hor⟩ : b ∈ k ∧ (b = semicolon ∨ b = equals) := by simpa [marks] using hbm
  rcases hor with rfl | rfl
  · exact ⟨r, hb⟩
  · exact absurd hbk he

/-- A `';'` in a name follows the `';'` of the pair before it. -/
theorem infix_marks_of_mem (hit : it ∈ its) (h : semicolon ∈ it.1) (he : equals ∉ it.1) :
    [semicolon, semicolon] <:+: semicolon :: its.flatMap fun it => marks (pairText it) := by
  induction its with
  | nil => simp at hit
  | cons x its ih =>
      rw [List.flatMap_cons, marks_pairText]
      rcases List.mem_cons.1 hit with rfl | hit
      · obtain ⟨r, hr⟩ := exists_marks_cons h he
        exact ⟨[], r ++ _, by simp [hr]; rfl⟩
      · refine (ih hit).trans ⟨semicolon :: (marks x.1 ++ equals :: marks x.2), [], ?_⟩
        simp

/-- **A name or a value that is not clean is seen in the text.** -/
theorem cookieText_ne (h : ∀ it ∈ its, CleanPair it) (hit : it ∈ its')
    (hbad : Botched it.1 ∨ [semicolon] <:+ it.2) : cookieText its' ≠ cookieText its := by
  intro heq
  rcases hbad with (⟨t, ht⟩ | ⟨hs, he⟩) | ⟨t, ht⟩
  · refine not_infix_cookieText h (heq ▸ List.IsInfix.trans ?_ (pairText_infix_cookieText hit))
    exact ⟨t, it.2 ++ [semicolon], by simp [pairText, ← ht]⟩
  · apply not_infix_marks_cookieText h
    rw [← heq, marks_cookieText]
    exact infix_marks_of_mem hit hs he
  · have hmarks : [semicolon, semicolon] <:+: marks (pairText it) := by
      rw [marks_pairText, ← ht, marks_append]
      exact ⟨marks it.1 ++ equals :: marks t, [], by simp [marks]⟩
    have hpair : marks (pairText it) <:+: marks (cookieText its') :=
      (pairText_infix_cookieText hit).filter _
    apply not_infix_marks_cookieText h
    rw [← heq]
    exact (hmarks.trans hpair).trans (List.suffix_cons _ _).isInfix

end HttpTools
end Scaner
