/-
# The update of the cookies

`get_new_cookie` of `scaner_test/http_tools.cpp`, called with the text that `map_2_cookie`
wrote for a jar of cookies and with a head made of lines.  What it is for is to keep the
jar: a cookie that a line `Set-Cookie: name=value` brings is stored, or removed if it has no
value, and all others stay.

It does not.  The cookies of the jar are not read back, because the reader passes over the
start of the first line and does not read the pairs of the others as they were written; a
cookie that comes without a value is not removed; and the first line of the head is passed
over as well.  `getNewCookie_eq_iff` says when the result is right all the same: when the head
brings nothing, or when the lines behind the first bring the whole jar and what is left in
the old text does no harm.  It is about heads in which no other line has the text
`Set-Cookie:` in it; where one has, the text behind it is taken for a cookie that no line
brings (`exists_getNewCookie_stray`).
-/

import Scaner.HttpTools.CookieRead

namespace Scaner
namespace HttpTools

open Bytes OrderedMap

/-- The names and values of cookies. -/
structure Jar where
  map : CookieMap
  clean : CleanMap map

/-- A line of a head: one that brings a cookie, or another one. -/
inductive HeadLine where
  | setCookie (name value : Bytes) (hname : Clean name) (hvalue : value = [] ∨ Clean value)
  | other (text : Bytes) (hlf : lf ∉ text)

namespace HeadLine

/-- The line without its end. -/
def text : HeadLine → Bytes
  | setCookie name value _ _ => str "Set-Cookie: " ++ (name ++ equals :: value)
  | other text _ => text

/-- The name and the value that the line brings. -/
def cookie : HeadLine → Option (Bytes × Bytes)
  | setCookie name value _ _ => some (name, value)
  | other _ _ => none

/-- The text `Set-Cookie:` stands in no line but those that bring a cookie. -/
def Plain : HeadLine → Prop
  | setCookie _ _ _ _ => True
  | other text _ => ¬ str "Set-Cookie:" <:+: text

instance decidablePlain : DecidablePred Plain
  | setCookie _ _ _ _ => inferInstanceAs (Decidable True)
  | other text _ => inferInstanceAs (Decidable (¬ str "Set-Cookie:" <:+: text))

/-- What is seen of the first line, of which the start is passed over: a name that follows
on another `Set-Cookie:`. -/
def rest : HeadLine → Option (Bytes × Bytes)
  | setCookie name value _ _ =>
      (afterFirst (str "Set-Cookie:") name).map fun r => (trim headBlank r, value)
  | other _ _ => none

end HeadLine

/-- The head. -/
def headText (lines : List HeadLine) : Bytes := crlfLines (lines.map HeadLine.text)

/-- The pairs that are seen in a head. -/
def seen : List HeadLine → List (Bytes × Bytes)
  | [] => []
  | line :: lines => line.rest.toList ++ lines.filterMap HeadLine.cookie

/-- The pairs are stored in turn. -/
def storeAll (its : List (Bytes × Bytes)) (m : CookieMap) : CookieMap :=
  its.foldl (fun m it => storePair it.1 it.2 m) m

/-- What a head gives: the cookies seen in it, without those that have no value. -/
def given (lines : List HeadLine) : CookieMap := storeAll (seen lines) ∅

namespace Jar

/-- The text that is kept for the jar. -/
def text (J : Jar) : Bytes := map2Cookie J.map []

/-- The texts behind a `Cookie:` from which the jar is read. -/
def toldTexts (J : Jar) : List Bytes :=
  told (str "Cookie:") ((cookieLines J.map.toList).map lineText)

/-- The jar with no cookie. -/
def empty : Jar where
  map := ∅
  clean := by
    intro k v h
    simp at h

/-- The jar with a cookie removed. -/
def remove (J : Jar) (name : Bytes) : Jar where
  map := J.map.erase name
  clean := by
    intro k v h
    rw [getElem?_erase] at h
    split_ifs at h
    exact J.clean k v h

/-- The jar with a cookie stored. -/
def store (J : Jar) {name value : Bytes} (hname : Clean name) (hvalue : Clean value) : Jar where
  map := J.map.insert name value
  clean := by
    intro k v h
    rw [getElem?_insert] at h
    split_ifs at h with hk
    · obtain rfl := Option.some.inj h
      exact ⟨hk ▸ hname, hvalue⟩
    · exact J.clean k v h

/-- What a line of a head means for the jar. -/
def receive (J : Jar) : HeadLine → Jar
  | .setCookie name value hname hvalue =>
      if h : value = [] then J.remove name else J.store hname (hvalue.resolve_left h)
  | .other _ _ => J

/-- What a head means for the jar. -/
def update (J : Jar) (lines : List HeadLine) : Jar := lines.foldl receive J

end Jar

/-- A text behind a `Cookie:` that does no harm: no pair is read from it, or one pair with a
name that the head gives, or with none. -/
def Harmless (lines : List HeadLine) (temp : Bytes) : Prop :=
  equals ∉ temp ∨ ∃ k v, OnePair temp k v ∧ (trim headBlank k = [] ∨ trim headBlank k ∈ given lines)

/-! ### The pairs of a head -/

section

variable {its : List (Bytes × Bytes)} {m : CookieMap} {lines : List HeadLine}

/-- Pairs are stored one after the other. -/
theorem storeAll_append (its its' : List (Bytes × Bytes)) (m : CookieMap) :
    storeAll (its ++ its') m = storeAll its' (storeAll its m) :=
  List.foldl_append

/-- What is stored later hides what was stored before. -/
theorem getElem?_storeAll (its : List (Bytes × Bytes)) (m : CookieMap) (x : Bytes) :
    (storeAll its m)[x]? = (storeAll its ∅)[x]?.or m[x]? := by
  induction its generalizing m with
  | nil => simp [storeAll]
  | cons it its ih =>
      have hstore : (storePair it.1 it.2 m)[x]? = (storePair it.1 it.2 ∅)[x]?.or m[x]? := by
        rw [getElem?_storePair, getElem?_storePair]
        split_ifs <;> simp
      have hcons : ∀ m, storeAll (it :: its) m = storeAll its (storePair it.1 it.2 m) :=
        fun _ => rfl
      rw [hcons, hcons, ih, ih (storePair it.1 it.2 ∅), hstore, Option.or_assoc]

/-- Clean pairs are stored in a clean map. -/
theorem cleanMap_storeAll (hm : CleanMap m)
    (hits : ∀ it ∈ its, it.1 ≠ [] → it.2 ≠ [] → CleanPair it) : CleanMap (storeAll its m) := by
  refine List.foldlRecOn its _ hm fun m hm it hit k v h => ?_
  rw [getElem?_storePair] at h
  split_ifs at h with hk
  · obtain rfl := Option.some.inj h
    obtain ⟨h₁, h₂, rfl⟩ := hk
    exact hits it hit h₁ h₂
  · exact hm k v h

/-- What the first element gives, and what the others give. -/
theorem filterMap_cons_eq {α β : Type} (f : α → Option β) (a : α) (as : List α) :
    (a :: as).filterMap f = (f a).toList ++ as.filterMap f := by
  simp only [List.filterMap_eq_flatMap_toList, List.flatMap_cons]

/-- A line of a head is one line. -/
theorem lf_not_mem_text (line : HeadLine) : lf ∉ line.text := by
  cases line with
  | setCookie name value hname hvalue =>
      have hv : lf ∉ value := not_mem_of_nil_or_clean hvalue (by simp)
      have hn : lf ∉ name := hname.not_mem _ (by simp)
      have hstart : lf ∉ str "Set-Cookie: " := by decide
      have hne : lf ≠ equals := by decide
      simp [HeadLine.text, hv, hn, hstart, hne]
  | other text hlf => exact hlf

/-- In a plain line, only the cookie that it sets stands behind `Set-Cookie:`. -/
theorem afterFirst_text {line : HeadLine} (hplain : line.Plain) :
    afterFirst (str "Set-Cookie:") line.text = line.cookie.map fun it =>
      space :: (it.1 ++ equals :: it.2) := by
  cases line with
  | setCookie name value hname hvalue =>
      have hstart : str "Set-Cookie: " = str "Set-Cookie:" ++ [space] := rfl
      rw [HeadLine.text, hstart, List.append_assoc, afterFirst_append_self]
      rfl
  | other text hlf => exact afterFirst_eq_none_iff.2 hplain

/-- A line is read as it was meant. -/
theorem foldl_readLine_text {line : HeadLine} (hplain : line.Plain) (m : CookieMap) :
    (tellLine (str "Set-Cookie:") line.text).toList.foldl readLine m =
      storeAll line.cookie.toList m := by
  rw [tellLine, afterFirst_text hplain]
  cases line with
  | setCookie name value hname hvalue =>
      have hne : equals ≠ space := by decide
      have hne' : semicolon ≠ space := by decide
      have hread := readLine_trim_pair (r := space :: name) (by simp [hne, hname.equals_not_mem])
        (by simp [hne', hname.semicolon_not_mem]) hvalue m
      rw [trim_cons_of_mem (by decide) name, hname.trimmed] at hread
      exact hread
  | other text hlf => rfl

/-- The start of the first line is passed over. -/
theorem foldl_readLine_first {line : HeadLine} (hplain : line.Plain) (m : CookieMap) :
    (tellLine (str "Set-Cookie:") (line.text.drop 1)).toList.foldl readLine m =
      storeAll line.rest.toList m := by
  cases line with
  | setCookie name value hname hvalue =>
      have hdrop : (str "Set-Cookie: " ++ (name ++ equals :: value)).drop 1 =
          str "et-Cookie: " ++ (name ++ equals :: value) := rfl
      have hstart : str "Set-Cookie:" = 83 :: str "et-Cookie:" := rfl
      have hfind : afterFirst (str "Set-Cookie:") (str "et-Cookie: " ++ (name ++ equals :: value)) =
          ((afterFirst (str "Set-Cookie:") name).map (· ++ equals :: value)).or
            (afterFirst (str "Set-Cookie:") value) := by
        rw [← afterFirst_append_cons (by decide) (by decide), hstart,
          afterFirst_append_of_not_mem (by decide)]
      rw [tellLine, HeadLine.text, hdrop, hfind, HeadLine.rest]
      cases hr : afterFirst (str "Set-Cookie:") name with
      | some r =>
          have hsub : r ⊆ name := subset_of_afterFirst hr
          exact readLine_trim_pair (fun h => hname.equals_not_mem (hsub h))
            (fun h => hname.semicolon_not_mem (hsub h)) hvalue m
      | none =>
          -- there is no pair in a value
          cases hr' : afterFirst (str "Set-Cookie:") value with
          | none => rfl
          | some r =>
              have hsub : r ⊆ value := subset_of_afterFirst hr'
              have hv : equals ∉ value := not_mem_of_nil_or_clean hvalue (by simp)
              exact readLine_of_not_mem (fun h => hv (hsub ((infix_trim _ _).subset h))) m
  | other text hlf =>
      have hnone : afterFirst (str "Set-Cookie:") (text.drop 1) = none :=
        afterFirst_eq_none_iff.2 fun h => hplain (h.trans (List.drop_suffix 1 text).isInfix)
      rw [tellLine, HeadLine.text, hnone]
      rfl

/-- Lines behind the first are read as they were meant. -/
theorem foldl_readLine_texts (hplain : ∀ line ∈ lines, line.Plain) (m : CookieMap) :
    ((lines.map HeadLine.text).filterMap (tellLine (str "Set-Cookie:"))).foldl readLine m =
      storeAll (lines.filterMap HeadLine.cookie) m := by
  induction lines generalizing m with
  | nil => rfl
  | cons line lines ih =>
      obtain ⟨hline, hrest⟩ := List.forall_mem_cons.1 hplain
      rw [List.map_cons, filterMap_cons_eq, filterMap_cons_eq, List.foldl_append, storeAll_append,
        foldl_readLine_text hline, ih hrest]

/-- **What `cookie_2_map` reads from a head.** -/
theorem cookie2Map_headText (hplain : ∀ line ∈ lines, line.Plain) (m : CookieMap) :
    cookie2Map (headText lines) m (str "Set-Cookie:") [lf] = storeAll (seen lines) m := by
  have hlf : ∀ text ∈ lines.map HeadLine.text, lf ∉ text := by
    simpa using fun line _ => lf_not_mem_text line
  rw [headText, cookie2Map_lines (by decide) (by decide) (by decide) hlf]
  cases lines with
  | nil => rfl
  | cons line lines =>
      obtain ⟨hline, hrest⟩ := List.forall_mem_cons.1 hplain
      rw [List.map_cons, told, filterMap_cons_eq, List.foldl_append, seen, storeAll_append,
        foldl_readLine_first hline, foldl_readLine_texts hrest]

/-- A cookie that is seen and has a name and a value is clean. -/
theorem cleanPair_of_mem_seen {it : Bytes × Bytes} (hit : it ∈ seen lines) (hname : it.1 ≠ [])
    (hvalue : it.2 ≠ []) : CleanPair it := by
  cases lines with
  | nil => simp [seen] at hit
  | cons line lines =>
      rcases List.mem_append.1 hit with hit | hit
      · cases line with
        | setCookie name value hn hv =>
            obtain ⟨r, hr, rfl⟩ := Option.map_eq_some_iff.1 (Option.mem_toList.1 hit)
            refine ⟨⟨hname, trim_trim _ _, fun b hb hbr => hn.not_mem b hb ?_⟩,
              hv.resolve_left hvalue⟩
            exact subset_of_afterFirst hr ((infix_trim _ _).subset hbr)
        | other text hlf => simp [HeadLine.rest] at hit
      · obtain ⟨line, -, hline⟩ := List.mem_filterMap.1 hit
        cases line with
        | setCookie name value hn hv =>
            obtain rfl := Option.some.inj hline
            exact ⟨hn, hv.resolve_left hvalue⟩
        | other text hlf => exact absurd hline (by simp [HeadLine.cookie])

/-- What a head gives is clean. -/
theorem cleanMap_given (lines : List HeadLine) : CleanMap (given lines) := by
  refine cleanMap_storeAll ?_ fun it hit hname hvalue => cleanPair_of_mem_seen hit hname hvalue
  intro k v h
  simp at h

/-- No line of a head brings a cookie where the text `Set-Cookie:` does not occur. -/
theorem containsSub_headText_iff (hplain : ∀ line ∈ lines, line.Plain) :
    containsSub (str "Set-Cookie:") (headText lines) = false ↔
      ∀ line ∈ lines, line.cookie = none := by
  rw [← Bool.not_eq_true, containsSub_iff, ← afterFirst_eq_none_iff, headText,
    afterFirst_crlfLines_eq_none_iff (by decide) (by decide) (by decide), List.forall_mem_map]
  refine forall₂_congr fun line hline => ?_
  rw [afterFirst_text (hplain line hline), Option.map_eq_none_iff]

end

/-! ### What is read from the text of a jar -/

/-- A line of the text of a jar has pairs in it, and they are clean. -/
theorem Jar.cleanPair_of_mem_lines (J : Jar) {line : List (Bytes × Bytes)}
    (h : line ∈ cookieLines J.map.toList) : ∀ it ∈ line, CleanPair it := by
  intro it hit
  apply J.clean.toList
  rw [← flatten_cookieLines J.map.toList]
  exact List.mem_flatten.2 ⟨line, h, hit⟩

/-- What is read from the text of a jar ends with a `';'`, and no blank follows on a `'='`. -/
theorem Jar.toldTexts_spec (J : Jar) {temp : Bytes} (h : temp ∈ J.toldTexts) :
    [semicolon] <:+ temp ∧ ∀ b ∈ headBlank, ¬ [equals, b] <:+: temp := by
  obtain ⟨text, htext, r, hr, rfl⟩ := exists_of_mem_told h
  obtain ⟨line, hline, rfl⟩ := List.mem_map.1 htext
  have hclean := J.cleanPair_of_mem_lines hline
  constructor
  · have hlast : [semicolon] <:+ str "Cookie:" ++ r :=
      List.suffix_of_suffix_length_le (suffix_lineText (ne_nil_of_mem_cookieLines hline)) hr
        (by simp [str])
    obtain ⟨w, rfl⟩ := exists_concat_of_suffix (x := str "Cookie") (d := colon) hlast (by decide)
    rw [trim_append_of_not_mem (by decide)]
    exact List.suffix_append _ _
  · intro b hb hin
    refine not_infix_lineText hclean hb ((hin.trans (infix_trim _ _)).trans ?_)
    exact ((List.suffix_append _ _).trans hr).isInfix

/-- What is read from the text of the jar. -/
def Jar.readBack (J : Jar) : CookieMap := J.toldTexts.foldl readLine ∅

/-- What is read back of the text of a jar. -/
theorem Jar.cookie2Map_text (J : Jar) : cookie2Map J.text ∅ (str "Cookie:") [lf] = J.readBack := by
  have htext : J.text = crlfLines ((cookieLines J.map.toList).map lineText) := by
    rw [text, map2Cookie_eq, cookieText_eq_crlfLines]
  rw [htext, cookie2Map_lines (by decide) (by decide) (by decide)]
  · rfl
  · intro text htext
    obtain ⟨line, hline, rfl⟩ := List.mem_map.1 htext
    exact lf_not_mem_lineText (J.cleanPair_of_mem_lines hline)

/-- No name that is read is lost. -/
theorem Jar.mem_readBack (J : Jar) {temp x : Bytes} (ht : temp ∈ J.toldTexts)
    (hx : ∀ m, x ∈ readLine m temp) : x ∈ J.readBack := by
  obtain ⟨before, behind, h⟩ := List.append_of_mem ht
  rw [readBack, h, List.foldl_append, List.foldl_cons]
  exact List.foldlRecOn (motive := (x ∈ ·)) behind _ (hx _) fun _ h t _ =>
    mem_readLine_of_mem h t

/-- What is stored in the end, before the entries with no value are erased. -/
def Jar.merged (J : Jar) (lines : List HeadLine) : CookieMap := storeAll (seen lines) J.readBack

/-- No cookie of the merged map is without a value. -/
theorem Jar.valued_merged (J : Jar) (lines : List HeadLine) : Valued (J.merged lines) := by
  have hback : Valued J.readBack := by
    refine List.foldlRecOn J.toldTexts _ (fun x => by simp) fun m hm temp _ => ?_
    exact readLine_induct (fun _ k v h => h.storePair k v) temp hm
  exact List.foldlRecOn (seen lines) _ hback fun m hm it _ => hm.storePair it.1 it.2

/-- **What `get_new_cookie` makes of the text of a jar and a head.** -/
theorem getNewCookie_eq (J : Jar) {lines : List HeadLine} (hplain : ∀ line ∈ lines, line.Plain) :
    getNewCookie (headText lines) J.text =
      if ∀ line ∈ lines, line.cookie = none then J.text else map2Cookie (J.merged lines) [] := by
  unfold getNewCookie
  simp only [containsSub_headText_iff hplain, J.cookie2Map_text, cookie2Map_headText hplain]
  split_ifs
  · rfl
  · exact congrArg (map2Cookie · []) (J.valued_merged lines).eraseEmpty

/-! ### When the result is right -/

section

variable {J : Jar} {lines : List HeadLine}

/-- A cookie that is read back is in the merged map. -/
theorem Jar.mem_merged (J : Jar) (lines : List HeadLine) {x : Bytes} (h : x ∈ J.readBack) :
    ∃ v, (J.merged lines)[x]? = some v := by
  obtain ⟨w, hw⟩ := Option.isSome_iff_exists.1 (Std.ExtTreeMap.mem_iff_isSome_getElem?.1 h)
  rw [merged, getElem?_storeAll, hw]
  cases (storeAll (seen lines) ∅)[x]? with
  | none => exact ⟨w, rfl⟩
  | some v => exact ⟨v, rfl⟩

/-- What is read from the old text does not matter if the head gives every name in it. -/
theorem Jar.merged_eq_given (h : ∀ x ∈ J.readBack, x ∈ given lines) :
    J.merged lines = given lines := by
  apply Std.ExtTreeMap.ext_getElem?
  intro x
  rw [merged, getElem?_storeAll]
  cases hx : (storeAll (seen lines) ∅)[x]? with
  | some v => exact hx.symm
  | none =>
      have hnot : x ∉ J.readBack := by
        intro hmem
        have hgiven := Std.ExtTreeMap.mem_iff_isSome_getElem?.1 (h x hmem)
        rw [given, hx] at hgiven
        simp at hgiven
      rw [Std.ExtTreeMap.getElem?_eq_none hnot]
      exact hx.symm

/-- When all that is told is harmless, every name that is read back is given anew. -/
theorem Jar.mem_given_of_harmless (h : ∀ temp ∈ J.toldTexts, Harmless lines temp) :
    ∀ x ∈ J.readBack, x ∈ given lines := by
  refine List.foldlRecOn (motive := fun m : CookieMap => ∀ x ∈ m, x ∈ given lines)
    J.toldTexts _ (by simp) fun m hm temp ht x hx => ?_
  rcases h temp ht with heq | ⟨k, v, hone, hk⟩
  · rw [readLine_of_not_mem heq] at hx
    exact hm x hx
  · rw [hone.readLine_eq, mem_storePair_iff] at hx
    rcases hx with ⟨hne, -, rfl⟩ | hx
    · exact hk.resolve_left hne
    · exact hm x hx

/-- What is read from texts with one pair each has a `';'` at its end. -/
theorem Jar.suffix_of_onePair (h : ∀ temp ∈ J.toldTexts, equals ∉ temp ∨ ∃ k v, OnePair temp k v) :
    ∀ x w : Bytes, J.readBack[x]? = some w → [semicolon] <:+ w := by
  refine List.foldlRecOn (motive := fun m : CookieMap => ∀ x w : Bytes, m[x]? = some w →
    [semicolon] <:+ w) J.toldTexts _ (by simp) fun m hm temp ht x w hx => ?_
  rcases h temp ht with heq | ⟨k, v, hone⟩
  · rw [readLine_of_not_mem heq] at hx
    exact hm x w hx
  · rw [hone.readLine_eq, getElem?_storePair] at hx
    split_ifs at hx
    · rw [← Option.some.inj hx, trim_append_of_not_mem (by decide)]
      exact List.suffix_append _ _
    · exact hm x w hx

/-- A text that is right shows that nothing of the old text is left. -/
theorem Jar.harmless_of_text_eq (htext : map2Cookie (J.merged lines) [] = (J.update lines).text) :
    (∀ x ∈ J.readBack, x ∈ given lines) ∧ ∀ temp ∈ J.toldTexts, Harmless lines temp := by
  have hgood : ∀ k v : Bytes, (J.merged lines)[k]? = some v →
      ¬ (Botched k ∨ [semicolon] <:+ v) := by
    intro k v hkv hbad
    rw [text, map2Cookie_eq, map2Cookie_eq] at htext
    exact cookieText_ne (J.update lines).clean.toList
      (Std.ExtTreeMap.mem_toList_iff_getElem?_eq_some.2 hkv) hbad htext
  have hone : ∀ temp ∈ J.toldTexts, equals ∉ temp ∨ ∃ k v, OnePair temp k v := by
    intro temp ht
    by_cases heq : equals ∈ temp
    · obtain ⟨hlast, hval⟩ := J.toldTexts_spec ht
      refine Or.inr ((onePair_or_botched hlast heq hval).resolve_right ?_)
      rintro ⟨x, hbotched, hx⟩
      obtain ⟨v, hv⟩ := J.mem_merged lines (J.mem_readBack ht hx)
      exact hgood x v hv (Or.inl hbotched)
    · exact Or.inl heq
  have hgiven : ∀ x ∈ J.readBack, x ∈ given lines := by
    intro x hx
    by_contra hnot
    obtain ⟨w, hw⟩ := Option.isSome_iff_exists.1 (Std.ExtTreeMap.mem_iff_isSome_getElem?.1 hx)
    have hmerged : (J.merged lines)[x]? = some w := by
      rw [merged, getElem?_storeAll, hw]
      exact congrArg (Option.or · (some w)) (Std.ExtTreeMap.getElem?_eq_none hnot)
    exact hgood x w hmerged (Or.inr (Jar.suffix_of_onePair hone x w hw))
  refine ⟨hgiven, fun temp ht => (hone temp ht).imp_right ?_⟩
  rintro ⟨k, v, hkv⟩
  refine ⟨k, v, hkv, or_iff_not_imp_left.2 fun hk => hgiven _ (J.mem_readBack ht fun m => ?_)⟩
  rw [hkv.readLine_eq, mem_storePair_iff, trim_append_of_not_mem (by decide)]
  exact Or.inl ⟨hk, by simp, rfl⟩

/-- A head that sets no cookie does not change a jar. -/
theorem Jar.update_of_none (h : ∀ line ∈ lines, line.cookie = none) : J.update lines = J := by
  refine List.foldlRecOn (motive := (· = J)) lines _ rfl fun J' hJ line hline => ?_
  cases line with
  | setCookie name value hname hvalue => exact absurd (h _ hline) (by simp [HeadLine.cookie])
  | other text hlf => exact hJ

/-- **When `get_new_cookie` keeps the jar**, for a head in which no other line has the text
`Set-Cookie:` in it.  It does when the head brings no cookie.  Otherwise it does exactly when
the head gives the whole jar as it is after the update, and none of the texts behind a
`Cookie:` in the old text leaves something of its own. -/
theorem getNewCookie_eq_iff (J : Jar) (lines : List HeadLine)
    (hplain : ∀ line ∈ lines, line.Plain) :
    getNewCookie (headText lines) J.text = (J.update lines).text ↔
      (∀ line ∈ lines, line.cookie = none) ∨
        (given lines = (J.update lines).map ∧ ∀ temp ∈ J.toldTexts, Harmless lines temp) := by
  rw [getNewCookie_eq J hplain]
  split_ifs with hnone
  · rw [Jar.update_of_none hnone]
    exact iff_of_true rfl (Or.inl hnone)
  · rw [or_iff_right hnone]
    constructor
    · intro htext
      obtain ⟨hgiven, hharmless⟩ := Jar.harmless_of_text_eq htext
      refine ⟨map2Cookie_inj (cleanMap_given lines) (J.update lines).clean ?_, hharmless⟩
      rwa [Jar.merged_eq_given hgiven] at htext
    · rintro ⟨hmap, hharmless⟩
      rw [Jar.merged_eq_given (Jar.mem_given_of_harmless hharmless), hmap]
      rfl

end

/-- The jar that holds the cookie `a=1`. -/
def Jar.one : Jar := empty.store (by decide : Clean (str "a")) (by decide : Clean (str "1"))

/-- A head whose second line sets the cookie `a` to `2`. -/
def setAgain : List HeadLine :=
  [.other (str "HTTP/1.1 200 OK") (by decide), .setCookie (str "a") (str "2") (by decide)
    (by decide)]

/-- The cookie of the jar is set again: the new text is `Cookie: a=2;`, as it should be, for
nothing is read from the text of the jar. -/
theorem getNewCookie_setAgain :
    (∀ line ∈ setAgain, line.Plain) ∧ (∃ line ∈ setAgain, line.cookie ≠ none) ∧
      getNewCookie (headText setAgain) Jar.one.text = (Jar.one.update setAgain).text ∧
      (Jar.one.update setAgain).text = str "Cookie: a=2;\r\n" := by
  have hplain : ∀ line ∈ setAgain, line.Plain := by decide
  have htold : Jar.one.toldTexts = [] := by decide +kernel
  have hgiven : given setAgain = (Jar.one.update setAgain).map := by decide +kernel
  refine ⟨hplain, by decide, ?_, by decide +kernel⟩
  refine (getNewCookie_eq_iff Jar.one setAgain hplain).2 (Or.inr ⟨hgiven, ?_⟩)
  rw [htold]
  exact fun temp h => absurd h List.not_mem_nil

/-- **A cookie that a response does not mention is lost.**  The jar holds `a=1` and the
response brings `b=2`; the new text is `Cookie: b=2;`. -/
theorem exists_getNewCookie_ne : ∃ (J : Jar) (lines : List HeadLine),
    getNewCookie (headText lines) J.text ≠ (J.update lines).text :=
  ⟨Jar.one, [.other (str "HTTP/1.1 200 OK") (by decide),
    .setCookie (str "b") (str "2") (by decide) (by decide)], by decide +kernel⟩

/-- A line that only has `Set-Cookie:` in it brings a cookie too: the jar is empty, and the new
text is `Cookie: a=1;`. -/
theorem exists_getNewCookie_stray : ∃ lines : List HeadLine,
    (∀ line ∈ lines, line.cookie = none) ∧
      getNewCookie (headText lines) Jar.empty.text ≠ (Jar.empty.update lines).text :=
  ⟨[.other (str "HTTP/1.1 200 OK") (by decide), .other (str "X: Set-Cookie: a=1") (by decide)],
    by decide, by decide +kernel⟩

end HttpTools
end Scaner
