/-
# The header names of a request

`get_package` in `scaner_test/http_tools.cpp`: which header lines a `GET` has, as a reader
sees them that cuts the package at every line break up to the first empty line.

The parts of the URL go into the request line and the `Host:` line as they stand, so every
line break in them begins a line of its own.  What the package has besides these lines depends
on the head alone (`textLines_getPackage`).  A URL with no line break in its parts brings no
name but `Host`, so that two such URLs give the same names (`headerNames_of_unbroken`).  One
with a line break brings other names, unless it brings an empty line, which hides all that
follows, and has written the same names before it (`headerNames_getPackage_iff`).
-/

import Scaner.HttpTools.Package
import Scaner.Lib.Cut

namespace Scaner
namespace HttpTools

open Bytes

/-- The lines of a text. -/
def textLines (s : Bytes) : List Bytes := cut [cr, lf] s

/-- The names of the lines up to the first empty one: what stands before the `':'`. -/
def names (ls : List Bytes) : List Bytes := (ls.takeWhile (· ≠ [])).map (untilAny [colon])

/-- The names of the header lines of a request. -/
def headerNames (package : Bytes) : List Bytes := names (textLines package).tail

/-- The request line of a `GET`, without the line break. -/
def getLine (info : UrlInfo) : Bytes :=
  str "GET " ++ (info.path ++ ((if info.params = [] then [] else str "?") ++
    (info.params ++ str " HTTP/1.1")))

/-- The `Host:` line, without the line break. -/
def hostLine (info : UrlInfo) : Bytes := str "Host: " ++ (info.domain ++ info.port)

/-- The lines that a URL brings into the header: those of the request line behind the first,
and those of the `Host:` line if the head has none. -/
def broughtLines (url head : Bytes) : List Bytes :=
  (textLines (getLine (urlInfo url))).tail ++
    if containsSub (str "Host:") head then [] else textLines (hostLine (urlInfo url))

/-- The parts of a URL that `get_package` writes have no line break: the path and the
parameters, and the host and the port if the head has no `Host:`. -/
structure Unbroken (url head : Bytes) : Prop where
  path : ¬ [cr, lf] <:+: (urlInfo url).path
  params : ¬ [cr, lf] <:+: (urlInfo url).params
  domain : containsSub (str "Host:") head = false → ¬ [cr, lf] <:+: (urlInfo url).domain
  port : containsSub (str "Host:") head = false → ¬ [cr, lf] <:+: (urlInfo url).port

/-- What every request with the head has behind these lines. -/
def commonHead (head : Bytes) : Bytes :=
  addMissing head (str "Accept:") (str "Accept: */*\r\n") ++
  addMissing head (str "Accept-Encoding:") (str "Accept-Encoding: gzip, deflate\r\n") ++
  addMissing head (str "User-Agent:") (str
    "User-Agent: Mozilla/4.0 (compatible; MSIE 7.0; Windows NT 6.0; Trident/5.0)\r\n") ++
  addMissing head (str "Connection:") (str "Connection: keep-Alive\r\n") ++ head ++ str "\r\n"

/-- The names in the request for a URL with no line break. -/
def plainNames (head : Bytes) : List Bytes :=
  (if containsSub (str "Host:") head then [] else [str "Host"]) ++
    names (textLines (commonHead head))

/-- A URL that writes the whole header: it brings an empty line, and before it lines with just
the names of a plain request. -/
structure WritesHeader (url head : Bytes) : Prop where
  empty : [] ∈ broughtLines url head
  names_eq : names (broughtLines url head) = plainNames head

variable {url head : Bytes} {l : List Bytes}

/-! ### The lines of a package -/

/-- Two texts with a line break between them. -/
theorem textLines_append (x y : Bytes) :
    textLines (x ++ ([cr, lf] ++ y)) = textLines x ++ textLines y :=
  cut_append_of_not_mem (by decide) x y

/-- A text has at least one line. -/
theorem textLines_ne_nil (s : Bytes) : textLines s ≠ [] := cut_ne_nil (by simp) s

/-- A text with no line break is one line. -/
theorem textLines_eq_singleton {s : Bytes} (h : ¬ [cr, lf] <:+: s) : textLines s = [s] :=
  cut_eq_singleton h

/-- A line break makes two lines at least. -/
theorem one_lt_length_textLines {s : Bytes} (h : [cr, lf] <:+: s) : 1 < (textLines s).length := by
  obtain ⟨x, y, rfl⟩ := h
  have hx := List.length_pos_iff.2 (textLines_ne_nil x)
  have hy := List.length_pos_iff.2 (textLines_ne_nil y)
  rw [List.append_assoc, textLines_append, List.length_append]
  omega

/-- What `get_package` writes for a GET. -/
theorem getPackage_get (h : url ≠ []) (head : Bytes) :
    getPackage .get url head = getLine (urlInfo url) ++ ([cr, lf] ++
      (addMissing head (str "Host:") (hostLine (urlInfo url) ++ [cr, lf]) ++ commonHead head)) := by
  obtain ⟨path, hpath, -⟩ := (valid_urlInfo url).path
  have hend : str " HTTP/1.1\r\n" = str " HTTP/1.1" ++ [cr, lf] := rfl
  have hbreak : str "\r\n" = [cr, lf] := rfl
  simp [getPackage, getUrlInfo, h, requestLine, requestHead, getLine, hostLine, commonHead, hpath,
    hend, hbreak]

/-- **The header lines of a request**: those that the URL brings, then those that depend on
the head alone. -/
theorem textLines_getPackage (h : url ≠ []) (head : Bytes) :
    (textLines (getPackage .get url head)).tail =
      broughtLines url head ++ textLines (commonHead head) := by
  rw [getPackage_get h, textLines_append, List.tail_append_of_ne_nil (textLines_ne_nil _),
    broughtLines, addMissing]
  split_ifs with hhost
  · simp
  · rw [List.append_assoc, textLines_append, List.append_assoc]

/-! ### Names up to an empty line -/

/-- Lines behind an empty one are not in the header. -/
theorem names_append_of_mem (h : [] ∈ l) (m : List Bytes) : names (l ++ m) = names l := by
  obtain ⟨u, v, rfl⟩ := List.append_of_mem h
  have hstop : ∀ w : List Bytes, (u ++ [] :: w).takeWhile (· ≠ []) = u.takeWhile (· ≠ []) :=
    fun w => takeWhile_append_stop (by simp) u w
  rw [names, names, List.append_assoc, List.cons_append, hstop, hstop]

/-- Lines none of which is empty are not ended by one of them. -/
theorem takeWhile_append_of_not_mem (h : [] ∉ l) (m : List Bytes) :
    (l ++ m).takeWhile (· ≠ []) = l ++ m.takeWhile (· ≠ []) := by
  refine List.takeWhile_append_of_pos fun x hx => ?_
  rw [decide_eq_true_eq]
  rintro rfl
  exact h hx

/-- The names of lines of which none is empty. -/
theorem names_of_not_mem (h : [] ∉ l) : names l = l.map (untilAny [colon]) := by
  have htake := takeWhile_append_of_not_mem h []
  rw [List.append_nil, List.takeWhile_nil, List.append_nil] at htake
  rw [names, htake]

/-- The names of lines with no empty one, and of those behind them. -/
theorem names_append_of_not_mem (h : [] ∉ l) (m : List Bytes) :
    names (l ++ m) = names l ++ names m := by
  rw [names_of_not_mem h, names, takeWhile_append_of_not_mem h, List.map_append, names]

/-! ### URLs with no line break -/

/-- What follows the protocol is an end of the URL. -/
theorem suffix_splitProtocal (url : Bytes) : (splitProtocal url).2 <:+ url := by
  unfold splitProtocal
  cases h : splitFirst (str "://") url with
  | none => exact List.suffix_rfl
  | some r =>
      obtain ⟨x, y⟩ := r
      obtain ⟨rfl, -⟩ := splitFirst_eq_some_iff.1 h
      exact (List.suffix_append _ y).trans (List.suffix_append x _)

/-- The parts of a URL with no line break have none. -/
theorem unbroken_of_noBreak (h : ¬ [cr, lf] <:+: url) (head : Bytes) : Unbroken url head := by
  have huntil : ∀ set s : Bytes, untilAny set s <:+: s :=
    fun _ _ => (List.takeWhile_prefix _).isInfix
  have hfrom : ∀ set s : Bytes, fromAny set s <:+: s := fun _ _ => (List.dropWhile_suffix _).isInfix
  have hrest : ∀ {t : Bytes}, t <:+: (splitProtocal url).2 → ¬ [cr, lf] <:+: t :=
    fun ht hbreak => h ((hbreak.trans ht).trans (suffix_splitProtocal url).isInfix)
  have hpage := huntil (str "?#") (splitProtocal url).2
  have hhost := (huntil [slash] _).trans hpage
  have hports : ∀ port ∈ [str "80", str "21", str "22", str "443"],
      ¬ [cr, lf] <:+: colon :: port := by decide
  refine ⟨?_, hrest (hfrom _ _), fun _ => hrest ((huntil _ _).trans hhost), fun _ => ?_⟩
  · unfold urlInfo
    simp only
    split_ifs
    · decide
    · exact hrest ((hfrom _ _).trans hpage)
  · unfold urlInfo
    simp only
    split_ifs
    · exact hports _ (getPortByProtocal_mem _)
    · exact hrest ((hfrom _ _).trans hhost)

/-- What stands behind the path is not the second half of a line break. -/
theorem getLine_noBreak_iff (url : Bytes) :
    ¬ [cr, lf] <:+: getLine (urlInfo url) ↔
      ¬ [cr, lf] <:+: (urlInfo url).path ∧ ¬ [cr, lf] <:+: (urlInfo url).params := by
  have hversion : ¬ [cr, lf] <:+: str " HTTP/1.1" := by decide
  have hmark : cr ∉ if (urlInfo url).params = [] then [] else str "?" := by
    split_ifs <;> decide
  rw [getLine, pair_infix_append_of_not_mem (by decide), pair_infix_append, not_or,
    pair_infix_append_of_not_mem hmark, pair_infix_append (by decide), not_or]
  · exact and_congr_right fun _ => and_iff_left hversion
  · -- behind the path there is a `'?'` or the version
    split_ifs with hnil
    · rw [hnil]
      decide
    · exact fun h => absurd (Option.some.inj h) (by decide)

/-- There is no line break in the host line exactly if there is none in the host and the port. -/
theorem hostLine_noBreak_iff (url : Bytes) :
    ¬ [cr, lf] <:+: hostLine (urlInfo url) ↔
      ¬ [cr, lf] <:+: (urlInfo url).domain ∧ ¬ [cr, lf] <:+: (urlInfo url).port := by
  obtain ⟨port, hcolon, -⟩ := (valid_urlInfo url).port
  have hhead : (urlInfo url).port.head? ≠ some lf := by
    rw [hcolon]
    exact fun h => absurd (Option.some.inj h) (by decide)
  rw [hostLine, pair_infix_append_of_not_mem (by decide), pair_infix_append hhead, not_or]

/-- The parts are whole in the lines that they are written into. -/
theorem unbroken_iff (url head : Bytes) :
    Unbroken url head ↔ ¬ [cr, lf] <:+: getLine (urlInfo url) ∧
      (containsSub (str "Host:") head = false → ¬ [cr, lf] <:+: hostLine (urlInfo url)) := by
  rw [getLine_noBreak_iff, hostLine_noBreak_iff]
  exact ⟨fun h => ⟨⟨h.path, h.params⟩, fun hh => ⟨h.domain hh, h.port hh⟩⟩,
    fun h => ⟨h.1.1, h.1.2, fun hh => (h.2 hh).1, fun hh => (h.2 hh).2⟩⟩

instance (url head : Bytes) : Decidable (Unbroken url head) :=
  decidable_of_iff _ (unbroken_iff url head).symm

/-- **A URL with no line break brings the `Host:` line at most.** -/
theorem Unbroken.broughtLines_eq (h : Unbroken url head) :
    broughtLines url head =
      if containsSub (str "Host:") head then [] else [hostLine (urlInfo url)] := by
  obtain ⟨hget, hhost⟩ := (unbroken_iff url head).1 h
  rw [broughtLines, textLines_eq_singleton hget]
  split_ifs with hmem
  · rfl
  · rw [textLines_eq_singleton (hhost (by simpa using hmem))]
    rfl

/-- A URL with a line break brings more lines. -/
theorem length_broughtLines_of_broken (h : ¬ Unbroken url head) :
    (if containsSub (str "Host:") head then 0 else 1) < (broughtLines url head).length := by
  rw [unbroken_iff, not_and_or, not_not, Classical.not_imp, not_not] at h
  have hpos := List.length_pos_iff.2 (textLines_ne_nil (hostLine (urlInfo url)))
  rw [broughtLines, List.length_append, List.length_tail]
  rcases h with hget | ⟨hmem, hhost⟩
  · have hget := one_lt_length_textLines hget
    split_ifs
    · omega
    · omega
  · have hhost := one_lt_length_textLines hhost
    simp only [hmem, Bool.false_eq_true, if_false]
    omega

/-- The host line is a header named `Host`. -/
theorem names_hostLine (info : UrlInfo) : names [hostLine info] = [str "Host"] := by
  have hname : untilAny [colon] (hostLine info) = str "Host" :=
    untilAny_append_cons (x := str "Host") (by decide) _
  have hne : hostLine info ≠ [] := by simp [hostLine, str]
  simp [names, hne, hname]

/-- **No header line from a URL with no line break**: the header names of its request are
`Host`, if the head has none, and those that depend on the head alone. -/
theorem headerNames_of_unbroken (hurl : url ≠ []) (h : Unbroken url head) :
    headerNames (getPackage .get url head) = plainNames head := by
  rw [headerNames, textLines_getPackage hurl, h.broughtLines_eq, plainNames]
  split_ifs
  · rfl
  · rw [names_append_of_not_mem, names_hostLine]
    simp [hostLine, str]

/-! ### Two URLs -/

/-- **When a URL gives the header names of a plain request**: when it has no line break, or
when it has written the whole header. -/
theorem headerNames_eq_plainNames_iff (hurl : url ≠ []) (head : Bytes) :
    headerNames (getPackage .get url head) = plainNames head ↔
      Unbroken url head ∨ WritesHeader url head := by
  by_cases hun : Unbroken url head
  · exact iff_of_true (headerNames_of_unbroken hurl hun) (Or.inl hun)
  rw [or_iff_right hun, headerNames, textLines_getPackage hurl]
  by_cases hmem : [] ∈ broughtLines url head
  · rw [names_append_of_mem hmem]
    exact ⟨fun h => ⟨hmem, h⟩, fun h => h.names_eq⟩
  · -- there are more names than in a plain request
    refine iff_of_false (fun heq => ?_) fun h => hmem h.empty
    have hlt := length_broughtLines_of_broken hun
    rw [names_append_of_not_mem hmem, plainNames] at heq
    have hlen := congrArg List.length (List.append_cancel_right heq)
    rw [names_of_not_mem hmem, List.length_map] at hlen
    split_ifs at hlen hlt
    · exact absurd hlen hlt.ne'
    · exact absurd hlen hlt.ne'

/-- **When two URLs give the same header names**, if the first has no line break in its
parts: when the second has none either, or has written the whole header. -/
theorem headerNames_getPackage_iff (u₁ u₂ head : Bytes) (h₁ : u₁ ≠ []) (h₂ : u₂ ≠ [])
    (hun : Unbroken u₁ head) :
    headerNames (getPackage .get u₁ head) = headerNames (getPackage .get u₂ head) ↔
      Unbroken u₂ head ∨ WritesHeader u₂ head := by
  rw [headerNames_of_unbroken h₁ hun, eq_comm]
  exact headerNames_eq_plainNames_iff h₂ head

/-- A line break in the protocol of a URL brings no name, for `get_package` does not write it;
one in the path does. -/
theorem headerNames_getPackage_hosts :
    Unbroken (str "http://a/") [] ∧
      headerNames (getPackage .get (str "http://a/") []) =
        [str "Host", str "Accept", str "Accept-Encoding", str "User-Agent", str "Connection"] ∧
      headerNames (getPackage .get (str "http://a/") []) =
        headerNames (getPackage .get (str "x\r\nX:y://b/c?d") []) ∧
      headerNames (getPackage .get (str "http://a/") []) ≠
        headerNames (getPackage .get (str "http://b/c?d\r\nX:y") []) := by
  have hun : Unbroken (str "http://a/") [] := by decide +kernel
  refine ⟨hun, by decide +kernel, ?_, ?_⟩
  · exact (headerNames_getPackage_iff _ _ [] (by decide) (by decide) hun).2
      (Or.inl (by decide +kernel))
  · rw [Ne, headerNames_getPackage_iff _ _ [] (by decide) (by decide) hun, not_or]
    exact ⟨by decide +kernel, fun h => absurd h.empty (by decide +kernel)⟩

/-- A line break in the path of a URL brings the header line `X`. -/
theorem headerNames_getPackage_ne :
    headerNames (getPackage .get (str "http://a/") []) ≠
      headerNames (getPackage .get (str "http://a/\r\nX:y") []) := by
  decide +kernel

/-- An empty line hides the lines behind it: the URL has written the names itself. -/
example : WritesHeader (str "http://a/\r\nHost:\r\nAccept:\r\nAccept-Encoding:\r\n" ++
    str "User-Agent:\r\nConnection:\r\n\r\n") [] :=
  ⟨by decide +kernel, by decide +kernel⟩

end HttpTools
end Scaner
