/-
# The `Host` line of a request

`get_package` in `scaner_test/http_tools.cpp` writes a header line of its own for every name
that the given head does not have.  It decides that with a search for the name and its `':'`
in the whole head, while a reader of the request goes by the names of its lines and does not
distinguish capital letters.  So a head with the line `host: a` gets a second line of this
name, and one with `X-Host: a` gets none (`oneHost_iff`).
-/

import Scaner.HttpTools.HeaderNames

namespace Scaner
namespace HttpTools

open Bytes

/-- The line has the name, which is given in small letters. -/
def isNamed (name line : Bytes) : Bool := (untilAny [colon] line).map toLower = name

/-- The lines of a request up to the first empty one. -/
def requestLines (package : Bytes) : List Bytes := (textLines package).takeWhile (· ≠ [])

/-- How many lines of a request have the name. -/
def headerCount (name package : Bytes) : ℕ := (requestLines package).countP (isNamed name)

/-- The lines of a head, each of which is ended by a line break. -/
def headLines (head : Bytes) : List Bytes := (textLines head).dropLast

/-- The request line, without the line break. -/
def sentLine (sendType : SendPackageType) (info : UrlInfo) : Bytes :=
  match sendType with
  | .post => str "POST " ++ (info.path ++ str " HTTP/1.1")
  | _ => getLine info

/-- The header lines that `get_package` writes itself: what it looks for in the head, and the
line without the line break. -/
def defaultLines (sendType : SendPackageType) (info : UrlInfo) : List (Bytes × Bytes) :=
  [(str "Host:", hostLine info),
    (str "Accept:", str "Accept: */*"),
    (str "Accept-Encoding:", str "Accept-Encoding: gzip, deflate"),
    (str "User-Agent:",
      str "User-Agent: Mozilla/4.0 (compatible; MSIE 7.0; Windows NT 6.0; Trident/5.0)"),
    (str "Connection:", str "Connection: keep-Alive")] ++
  match sendType with
  | .post =>
      [(str "Content-Type:", str "Content-Type: application/x-www-form-urlencoded"),
        (str "Content-Length:", str "Content-Length: " ++ str (toString info.params.length))]
  | _ => []

/-- The line is written if what it is looked for by is not in the head. -/
def missing (head : Bytes) (d : Bytes × Bytes) : Option Bytes :=
  if containsSub d.1 head then none else some d.2

/-- The lines that are written. -/
def addedLines (sendType : SendPackageType) (info : UrlInfo) (head : Bytes) : List Bytes :=
  (defaultLines sendType info).filterMap (missing head)

variable {url head : Bytes} {sendType : SendPackageType}

/-! ### The lines of a package -/

/-- The lines that are added, as `get_package` writes them. -/
theorem flatMap_addedLines (sendType : SendPackageType) (info : UrlInfo) (head : Bytes) :
    (addedLines sendType info head).flatMap (· ++ [cr, lf]) =
      (defaultLines sendType info).flatMap fun d => addMissing head d.1 (d.2 ++ [cr, lf]) := by
  rw [addedLines, List.filterMap_eq_flatMap_toList, List.flatMap_assoc]
  congr 1
  funext d
  unfold addMissing missing
  split_ifs <;> simp

/-- A literal that ends with a line break. -/
theorem str_lineBreak {s t : String} (h : t = s ++ "\r\n") : str t = str s ++ [cr, lf] := by
  rw [h, str, str, String.toList_append, List.map_append]
  rfl

/-- **What a package is made of**: the request line, the lines that are added, the head, an
empty line and the body. -/
theorem exists_getPackage (hurl : url ≠ []) (hsend : sendType ≠ .postMultipart) (head : Bytes) :
    ∃ body, getPackage sendType url head = sentLine sendType (urlInfo url) ++ ([cr, lf] ++
      ((addedLines sendType (urlInfo url) head).flatMap (· ++ [cr, lf]) ++
        (head ++ ([cr, lf] ++ body)))) := by
  obtain ⟨path, hpath, -⟩ := (valid_urlInfo url).path
  have hend : str " HTTP/1.1\r\n" = str " HTTP/1.1" ++ [cr, lf] := str_lineBreak (by simp)
  have hbreak : str "\r\n" = [cr, lf] := rfl
  have haccept : str "Accept: */*\r\n" = str "Accept: */*" ++ [cr, lf] :=
    str_lineBreak (by simp)
  have hencoding : str "Accept-Encoding: gzip, deflate\r\n" =
      str "Accept-Encoding: gzip, deflate" ++ [cr, lf] := str_lineBreak (by simp)
  have hagent : str
      "User-Agent: Mozilla/4.0 (compatible; MSIE 7.0; Windows NT 6.0; Trident/5.0)\r\n" = str
      "User-Agent: Mozilla/4.0 (compatible; MSIE 7.0; Windows NT 6.0; Trident/5.0)" ++ [cr, lf] :=
    str_lineBreak (by simp)
  have hconnection : str "Connection: keep-Alive\r\n" =
      str "Connection: keep-Alive" ++ [cr, lf] := str_lineBreak (by simp)
  have htype : str "Content-Type: application/x-www-form-urlencoded\r\n" =
      str "Content-Type: application/x-www-form-urlencoded" ++ [cr, lf] := str_lineBreak (by simp)
  cases sendType with
  | get =>
      refine ⟨[], ?_⟩
      simp [getPackage, getUrlInfo, hurl, requestLine, requestHead, sentLine, getLine, hostLine,
        flatMap_addedLines, defaultLines, hpath, hend, hbreak, haccept, hencoding, hagent,
        hconnection]
  | post =>
      refine ⟨(urlInfo url).params, ?_⟩
      simp [getPackage, getUrlInfo, hurl, requestLine, requestHead, postHead, sentLine, hostLine,
        flatMap_addedLines, defaultLines, hpath, hend, hbreak, haccept, hencoding, hagent,
        hconnection, htype]
  | postMultipart => exact absurd rfl hsend

/-- Lines that are each ended by a line break. -/
theorem textLines_flatMap {ls : List Bytes} (h : ∀ line ∈ ls, ¬ [cr, lf] <:+: line) (y : Bytes) :
    textLines (ls.flatMap (· ++ [cr, lf]) ++ y) = ls ++ textLines y := by
  induction ls with
  | nil => rfl
  | cons line ls ih =>
      have hsplit : (line :: ls).flatMap (· ++ [cr, lf]) ++ y =
          line ++ ([cr, lf] ++ (ls.flatMap (· ++ [cr, lf]) ++ y)) := by simp
      rw [hsplit, textLines_append, textLines_eq_singleton (h line (by simp)),
        ih fun x hx => h x (by simp [hx])]
      rfl

/-- A formatted head is a list of lines. -/
theorem textLines_formatHead (x : Bytes) :
    textLines (formatHead x) = headLines (formatHead x) ++ [[]] := by
  have hnil : textLines [] = [[]] := rfl
  unfold headLines formatHead
  simp only
  split_ifs with hempty
  · rfl
  · have hlines := textLines_append (trim headBlank x) []
    rw [List.append_nil, hnil] at hlines
    rw [hlines, List.dropLast_concat]

/-- The digits of a number have no line break. -/
theorem cr_not_mem_digits (n : ℕ) : cr ∉ str (toString n) :=
  fun h => (isDecimal_toString n).ne_of_mem (by decide) h rfl

/-- A URL with no line break gives a request line with none. -/
theorem not_infix_sentLine (h : ¬ [cr, lf] <:+: url) (sendType : SendPackageType) :
    ¬ [cr, lf] <:+: sentLine sendType (urlInfo url) := by
  cases sendType with
  | post =>
      have hpath := (unbroken_of_noBreak h []).path
      have hversion : ¬ [cr, lf] <:+: str " HTTP/1.1" := by decide
      rw [sentLine, pair_infix_append_of_not_mem (by decide), pair_infix_append (by decide), not_or]
      exact ⟨hpath, hversion⟩
  | get => exact ((unbroken_iff url []).1 (unbroken_of_noBreak h [])).1
  | postMultipart => exact ((unbroken_iff url []).1 (unbroken_of_noBreak h [])).1

/-- The lines with a fixed text. -/
def fixedLines : List Bytes :=
  [str "Accept: */*", str "Accept-Encoding: gzip, deflate",
    str "User-Agent: Mozilla/4.0 (compatible; MSIE 7.0; Windows NT 6.0; Trident/5.0)",
    str "Connection: keep-Alive", str "Content-Type: application/x-www-form-urlencoded"]

/-- The fixed lines: one line each, and none a host or a length. -/
theorem fixedLines_spec : ∀ line ∈ fixedLines, cr ∉ line ∧ line ≠ [] ∧
    isNamed (str "host") line = false ∧ isNamed (str "content-length") line = false := by
  decide +kernel

/-- Behind the `Host` line only the last line of a `POST` depends on the URL. -/
theorem mem_tail_defaultLines {d : Bytes × Bytes} {info : UrlInfo}
    (hd : d ∈ (defaultLines sendType info).tail) :
    d.2 ∈ fixedLines ∨ d.2 = str "Content-Length: " ++ str (toString info.params.length) := by
  unfold defaultLines at hd
  unfold fixedLines
  cases sendType <;> simp only [List.cons_append, List.nil_append, List.append_nil,
    List.tail_cons, List.mem_cons, List.not_mem_nil, or_false] at hd ⊢ <;> grind

/-- The lines but the last that may be added: the host, or a fixed one. -/
theorem mem_dropLast_defaultLines {d : Bytes × Bytes} {info : UrlInfo}
    (hd : d ∈ (defaultLines .post info).dropLast) : d.2 = hostLine info ∨ d.2 ∈ fixedLines := by
  unfold defaultLines at hd
  unfold fixedLines
  simp only [List.cons_append, List.nil_append, List.dropLast_cons_cons,
    List.dropLast_singleton, List.mem_cons, List.not_mem_nil, or_false] at hd ⊢
  grind

/-- There is no line break where there is no CR. -/
theorem not_infix_of_cr_not_mem {line : Bytes} (h : cr ∉ line) : ¬ [cr, lf] <:+: line :=
  fun hin => h (hin.subset (by simp))

/-- A line that is added is the one of the table. -/
theorem eq_of_missing {d : Bytes × Bytes} {line : Bytes} (h : missing head d = some line) :
    d.2 = line := by
  unfold missing at h
  split_ifs at h
  exact Option.some.inj h

/-- The lines that are added have no line break in them, and are not empty. -/
theorem addedLines_spec (h : ¬ [cr, lf] <:+: url) {line : Bytes}
    (hline : line ∈ addedLines sendType (urlInfo url) head) :
    ¬ [cr, lf] <:+: line ∧ line ≠ [] := by
  obtain ⟨d, hd, hsome⟩ := List.mem_filterMap.1 hline
  obtain rfl := eq_of_missing hsome
  have hlines : defaultLines sendType (urlInfo url) = (str "Host:", hostLine (urlInfo url)) ::
      (defaultLines sendType (urlInfo url)).tail := rfl
  rw [hlines, List.mem_cons] at hd
  rcases hd with rfl | hd
  · exact ⟨((unbroken_iff url []).1 (unbroken_of_noBreak h [])).2 (by decide),
      by simp [hostLine, str]⟩
  rcases mem_tail_defaultLines hd with hfixed | hlength
  · obtain ⟨hcr, hne, -⟩ := fixedLines_spec d.2 hfixed
    exact ⟨not_infix_of_cr_not_mem hcr, hne⟩
  · rw [hlength]
    refine ⟨not_infix_of_cr_not_mem ?_, by simp [str]⟩
    rw [List.mem_append, not_or]
    exact ⟨by decide, cr_not_mem_digits _⟩

/-- The request line is not empty. -/
theorem sentLine_ne_nil (sendType : SendPackageType) (info : UrlInfo) :
    sentLine sendType info ≠ [] := by
  cases sendType <;> simp [sentLine, getLine, str]

/-- **The lines of a request** up to the empty one. -/
theorem requestLines_getPackage (hurl : url ≠ []) (hbreak : ¬ [cr, lf] <:+: url)
    (hsend : sendType ≠ .postMultipart) {x : Bytes} (hblank : [] ∉ headLines (formatHead x)) :
    requestLines (getPackage sendType url (formatHead x)) =
      sentLine sendType (urlInfo url) :: (addedLines sendType (urlInfo url) (formatHead x) ++
        headLines (formatHead x)) := by
  obtain ⟨body, hpackage⟩ := exists_getPackage hurl hsend (formatHead x)
  have hlines : textLines (getPackage sendType url (formatHead x)) =
      (sentLine sendType (urlInfo url) :: (addedLines sendType (urlInfo url) (formatHead x) ++
        headLines (formatHead x))) ++ [] :: textLines body := by
    rw [hpackage, textLines_append, textLines_eq_singleton (not_infix_sentLine hbreak sendType),
      textLines_flatMap fun line hline => (addedLines_spec hbreak hline).1, textLines_append,
      textLines_formatHead]
    simp
  have hne : ∀ line ∈ sentLine sendType (urlInfo url) ::
      (addedLines sendType (urlInfo url) (formatHead x) ++ headLines (formatHead x)),
      decide (line ≠ []) = true := by
    intro line hline
    rw [decide_eq_true_eq]
    rcases List.mem_cons.1 hline with rfl | hline
    · exact sentLine_ne_nil sendType _
    · rcases List.mem_append.1 hline with hline | hline
      · exact (addedLines_spec hbreak hline).2
      · rintro rfl
        exact hblank hline
  rw [requestLines, hlines, List.takeWhile_append_of_pos hne]
  simp

/-! ### The names of the lines -/

/-- A line has the name in front of its first `':'`. -/
theorem isNamed_append {name n : Bytes} (h : colon ∉ n) (rest : Bytes) :
    isNamed name (n ++ colon :: rest) = decide (n.map toLower = name) := by
  rw [isNamed, untilAny_append_cons h]

/-- A line whose first byte is another has another name. -/
theorem isNamed_cons_of_ne {name : Bytes} {b : UInt8} (hb : b ≠ colon)
    (hname : name.head? ≠ some (toLower b)) (line : Bytes) : isNamed name (b :: line) = false := by
  have huntil : untilAny [colon] (b :: line) = b :: untilAny [colon] line := by
    simp [untilAny, hb]
  rw [isNamed, huntil, List.map_cons, decide_eq_false_iff_not]
  rintro rfl
  exact hname rfl

/-- The request line has none of the names. -/
theorem isNamed_sentLine (sendType : SendPackageType) (info : UrlInfo) :
    isNamed (str "host") (sentLine sendType info) = false ∧
      isNamed (str "content-length") (sentLine sendType info) = false := by
  cases sendType with
  | post =>
      exact ⟨isNamed_cons_of_ne (b := 80) (by decide) (by decide) _,
        isNamed_cons_of_ne (b := 80) (by decide) (by decide) _⟩
  | get =>
      exact ⟨isNamed_cons_of_ne (b := 71) (by decide) (by decide) _,
        isNamed_cons_of_ne (b := 71) (by decide) (by decide) _⟩
  | postMultipart =>
      exact ⟨isNamed_cons_of_ne (b := 71) (by decide) (by decide) _,
        isNamed_cons_of_ne (b := 71) (by decide) (by decide) _⟩

/-- The host line is a host, and no length. -/
theorem isNamed_hostLine (info : UrlInfo) :
    isNamed (str "host") (hostLine info) = true ∧
      isNamed (str "content-length") (hostLine info) = false := by
  have hsplit : str "Host: " = str "Host" ++ [colon, space] := by decide
  rw [hostLine, hsplit, List.append_assoc, List.cons_append, isNamed_append (by decide),
    isNamed_append (by decide)]
  decide

/-- The length line is a length, and no host. -/
theorem isNamed_lengthLine (digits : Bytes) :
    isNamed (str "host") (str "Content-Length: " ++ digits) = false ∧
      isNamed (str "content-length") (str "Content-Length: " ++ digits) = true := by
  have hsplit : str "Content-Length: " = str "Content-Length" ++ [colon, space] := by decide
  rw [hsplit, List.append_assoc, List.cons_append, isNamed_append (by decide),
    isNamed_append (by decide)]
  decide

/-- How many of the lines that are added have a name that one of the default lines has. -/
theorem countP_addedLines {name search line : Bytes} {info : UrlInfo}
    {before behind : List (Bytes × Bytes)}
    (hlines : defaultLines sendType info = before ++ (search, line) :: behind)
    (hline : isNamed name line = true)
    (hothers : ∀ d ∈ before ++ behind, isNamed name d.2 = false) (head : Bytes) :
    (addedLines sendType info head).countP (isNamed name) =
      if containsSub search head then 0 else 1 := by
  have hnone : ∀ ds : List (Bytes × Bytes), (∀ d ∈ ds, isNamed name d.2 = false) →
      (ds.filterMap (missing head)).countP (isNamed name) = 0 := by
    intro ds hds
    rw [List.countP_eq_zero]
    intro l hl
    obtain ⟨d, hd, hsome⟩ := List.mem_filterMap.1 hl
    simp [← eq_of_missing hsome, hds d hd]
  rw [addedLines, hlines, List.filterMap_append, List.countP_append,
    hnone before fun d hd => hothers d (List.mem_append_left _ hd), Nat.zero_add]
  have hbehind := hnone behind fun d hd => hothers d (List.mem_append_right _ hd)
  split_ifs with hsearch
  · have hmissing : missing head (search, line) = none := if_pos hsearch
    rw [List.filterMap_cons_none hmissing, hbehind]
  · have hmissing : missing head (search, line) = some line := if_neg hsearch
    rw [List.filterMap_cons_some hmissing, List.countP_cons_of_pos hline, hbehind]

/-- One host line is added, if the head has no `Host:` in it. -/
theorem countP_host_addedLines (sendType : SendPackageType) (info : UrlInfo) (head : Bytes) :
    (addedLines sendType info head).countP (isNamed (str "host")) =
      if containsSub (str "Host:") head then 0 else 1 := by
  have hlines : defaultLines sendType info = [] ++ (str "Host:", hostLine info) ::
      (defaultLines sendType info).tail := rfl
  refine countP_addedLines hlines (isNamed_hostLine info).1 (fun d hd => ?_) head
  rcases mem_tail_defaultLines hd with hfixed | hlength
  · exact (fixedLines_spec d.2 hfixed).2.2.1
  · rw [hlength]
    exact (isNamed_lengthLine _).1

/-- One length line is added to a POST, if the head has no `Content-Length:` in it. -/
theorem countP_length_addedLines (info : UrlInfo) (head : Bytes) :
    (addedLines .post info head).countP (isNamed (str "content-length")) =
      if containsSub (str "Content-Length:") head then 0 else 1 := by
  have hlines : defaultLines .post info = (defaultLines .post info).dropLast ++
      (str "Content-Length:",
        str "Content-Length: " ++ str (toString info.params.length)) :: [] := by
    simp only [defaultLines, List.cons_append, List.nil_append, List.dropLast_cons_cons,
      List.dropLast_singleton]
  refine countP_addedLines hlines (isNamed_lengthLine _).2 (fun d hd => ?_) head
  rw [List.append_nil] at hd
  rcases mem_dropLast_defaultLines hd with hhost | hfixed
  · rw [hhost]
    exact (isNamed_hostLine info).2
  · exact (fixedLines_spec d.2 hfixed).2.2.2

/-- **How many lines of a request are named `Host`**: those of the head, and one more if the
text `Host:` does not occur in it. -/
theorem headerCount_host (hurl : url ≠ []) (hbreak : ¬ [cr, lf] <:+: url)
    (hsend : sendType ≠ .postMultipart) {x : Bytes} (hblank : [] ∉ headLines (formatHead x)) :
    headerCount (str "host") (getPackage sendType url (formatHead x)) =
      (if containsSub (str "Host:") (formatHead x) then 0 else 1) +
        (headLines (formatHead x)).countP (isNamed (str "host")) := by
  rw [headerCount, requestLines_getPackage hurl hbreak hsend hblank,
    List.countP_cons_of_neg (by simp [isNamed_sentLine]), List.countP_append,
    countP_host_addedLines]

/-- The length lines of a POST: the one that is added, and those of the head. -/
theorem headerCount_length (hurl : url ≠ []) (hbreak : ¬ [cr, lf] <:+: url) {x : Bytes}
    (hblank : [] ∉ headLines (formatHead x)) :
    headerCount (str "content-length") (getPackage .post url (formatHead x)) =
      (if containsSub (str "Content-Length:") (formatHead x) then 0 else 1) +
        (headLines (formatHead x)).countP (isNamed (str "content-length")) := by
  rw [headerCount, requestLines_getPackage hurl hbreak (by decide) hblank,
    List.countP_cons_of_neg (by simp [isNamed_sentLine]), List.countP_append,
    countP_length_addedLines]

/-- The search for a name finds it exactly if a line has it. -/
def Found (search name head : Bytes) : Prop :=
  containsSub search head = true ↔ ∃ line ∈ headLines head, isNamed name line = true

/-- Of at most one line, and one that is added if the search finds nothing, there is one. -/
theorem count_eq_one_iff {search name : Bytes}
    (h : (headLines head).countP (isNamed name) ≤ 1) :
    (if containsSub search head then 0 else 1) + (headLines head).countP (isNamed name) = 1 ↔
      Found search name head := by
  unfold Found
  rw [← List.countP_pos_iff]
  split_ifs with hsearch
  · simp only [hsearch, true_iff]
    omega
  · simp only [hsearch, false_iff, Bool.false_eq_true]
    omega

/-- **When every request has one `Host` line**, and every `POST` one `Content-Length` line if
the head has at most one: when the search in the head finds these names exactly if a line has
them. -/
theorem oneHost_iff {url : Bytes} (x : Bytes) (hurl : url ≠ []) (hbreak : cr ∉ url ∧ lf ∉ url)
    (hblank : [] ∉ headLines (formatHead x))
    (hhost : (headLines (formatHead x)).countP (isNamed (str "host")) ≤ 1) :
    (headerCount (str "host") (getPackage .get url (formatHead x)) = 1 ∧
        headerCount (str "host") (getPackage .post url (formatHead x)) = 1 ∧
        ((headLines (formatHead x)).countP (isNamed (str "content-length")) ≤ 1 →
          headerCount (str "content-length") (getPackage .post url (formatHead x)) = 1)) ↔
      Found (str "Host:") (str "host") (formatHead x) ∧
        ((headLines (formatHead x)).countP (isNamed (str "content-length")) ≤ 1 →
          Found (str "Content-Length:") (str "content-length") (formatHead x)) := by
  have hpair := not_infix_of_cr_not_mem hbreak.1
  have hget : SendPackageType.get ≠ .postMultipart := by decide
  have hpost : SendPackageType.post ≠ .postMultipart := by decide
  rw [headerCount_host hurl hpair hget hblank, headerCount_host hurl hpair hpost hblank,
    headerCount_length hurl hpair hblank, count_eq_one_iff hhost, ← and_assoc, and_self]
  exact and_congr_right fun _ => forall_congr' fun hlength => count_eq_one_iff hlength

/-- A head with a `Host` line of its own. -/
theorem oneHost_given :
    headerCount (str "host") (getPackage .get (str "http://a/") (formatHead (str "Host: b"))) = 1 ∧
      headerCount (str "host") (getPackage .post (str "http://a/") (formatHead (str "Host: b"))) =
        1 := by
  have hfound : Found (str "Host:") (str "host") (formatHead (str "Host: b")) := by
    unfold Found
    decide +kernel
  have hlength : Found (str "Content-Length:") (str "content-length")
      (formatHead (str "Host: b")) := by
    unfold Found
    decide +kernel
  obtain ⟨hget, hpost, -⟩ := (oneHost_iff (str "Host: b") (by decide : str "http://a/" ≠ [])
    (by decide) (by decide +kernel) (by decide +kernel)).2 ⟨hfound, fun _ => hlength⟩
  exact ⟨hget, hpost⟩

/-- The line `host: b` is not found, so the request has two lines of this name. -/
theorem headerCount_twoHosts :
    [] ∉ headLines (formatHead (str "host: b")) ∧
      (headLines (formatHead (str "host: b"))).countP (isNamed (str "host")) ≤ 1 ∧
      headerCount (str "host") (getPackage .get (str "http://a/") (formatHead (str "host: b"))) =
        2 := by
  have hblank : [] ∉ headLines (formatHead (str "host: b")) := by decide +kernel
  have hcount : (headLines (formatHead (str "host: b"))).countP (isNamed (str "host")) = 1 := by
    decide +kernel
  have hsearch : containsSub (str "Host:") (formatHead (str "host: b")) = false := by
    decide +kernel
  have hbreak : ¬ [cr, lf] <:+: str "http://a/" := by decide
  refine ⟨hblank, hcount.le, ?_⟩
  rw [headerCount_host (by decide) hbreak (by decide) hblank]
  simp [hsearch, hcount]

end HttpTools
end Scaner
