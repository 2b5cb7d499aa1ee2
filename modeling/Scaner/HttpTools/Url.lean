/-
# URLs

`get_url_info`, `format_url`, `format_head`, `get_port_by_protocal`, `get_protocal`,
`get_domain`, `get_page`, `get_port` and `is_ssl` of `scaner_test/http_tools.cpp`.

`get_url_info` cuts a URL into five parts, and `format_url` writes them one behind the
other.  The parts of a URL are such that the text of them is cut in the same places
(`UrlInfo.Valid`, `valid_of_getUrlInfo`, `UrlInfo.Valid.getUrlInfo_text`); so what has been
normalised is not changed by normalising it again (`format_idempotent`), and the functions
that look into a URL on their own find the parts in it (`address_of_formatUrl`).

`get_url_info` is called with a pointer for every part; a part that it does not assign is
the empty string that it was.
-/

import Scaner.Lib.Find

namespace Scaner
namespace HttpTools

open Bytes

/-- `'/'`. -/
abbrev slash : UInt8 := 47

/-- What `get_url_info` stores. -/
structure UrlInfo where
  protocal : Bytes
  domain : Bytes
  port : Bytes
  path : Bytes
  params : Bytes
  deriving DecidableEq

/-- `get_port_by_protocal`. -/
def getPortByProtocal (protocal : Bytes) : Bytes :=
  let protocal := protocal.map toLower
  match protocal.length with
  | 3 => if protocal = str "ftp" then str "21" else if protocal = str "ssh" then str "22"
      else str "80"
  | 4 => if protocal = str "http" then str "80" else str "80"
  | 5 => if protocal = str "https" then str "443" else str "80"
  | _ => str "80"

/-- The protocol of a URL, and the text behind `"://"`. -/
def splitProtocal (url : Bytes) : Bytes × Bytes :=
  match splitFirst (str "://") url with
  | some r => r
  | none => (str "http", url)

/-- `get_url_info`, for a URL that is not empty. -/
def urlInfo (url : Bytes) : UrlInfo :=
  let strProtocal := (splitProtocal url).1
  let strDomain := (splitProtocal url).2
  let params := fromAny (str "?#") strDomain
  let strDomain := untilAny (str "?#") strDomain
  let path := if fromAny [slash] strDomain = [] then [slash] else fromAny [slash] strDomain
  let strDomain := untilAny [slash] strDomain
  let port := if fromAny [colon] strDomain = [] then colon :: getPortByProtocal strProtocal
    else fromAny [colon] strDomain
  ⟨strProtocal, untilAny [colon] strDomain, port, path, params⟩

/-- `get_url_info`, `none` where it returns false. -/
def getUrlInfo (url : Bytes) : Option UrlInfo := if url = [] then none else some (urlInfo url)

/-- The parts one behind the other. -/
def UrlInfo.text (info : UrlInfo) : Bytes :=
  info.protocal ++ (str "://" ++ (info.domain ++ (info.port ++ (info.path ++ info.params))))

/-- `format_url`. -/
def formatUrl (url : Bytes) : Bytes :=
  match getUrlInfo url with
  | none => []
  | some info => info.text

/-- The bytes that `format_head` trims. -/
def headBlank : Bytes := [cr, lf, space, 9]

/-- `format_head`. -/
def formatHead (head : Bytes) : Bytes :=
  let head := trim headBlank head
  if head = [] then [] else head ++ [cr, lf]

/-- `get_protocal`. -/
def getProtocal (url : Bytes) : Bytes :=
  match splitFirst (str "://") url with
  | none => str "http"
  | some (str, _) => str.map toLower

/-- The text up to the host, and the text from there on. -/
def splitHost (url : Bytes) : Bytes × Bytes :=
  match splitFirst (str "://") url with
  | none => ([], url)
  | some (protocal, rest) => (protocal ++ str "://", rest)

/-- `get_domain`. -/
def getDomain (url : Bytes) : Bytes := untilAny (str ":/?#") (splitHost url).2

/-- `get_page`. -/
def getPage (url : Bytes) : Bytes :=
  if fromAny (str "/?#") (splitHost url).2 = [] then url
  else (splitHost url).1 ++ (untilAny (str "/?#") (splitHost url).2 ++ [slash])

/-- `is_ssl`.  `_stricmp` reads up to a zero byte. -/
def isSsl (protocal : Bytes) : Bool := (protocal.takeWhile (· ≠ 0)).map toLower = str "https"

/-- `get_port`. -/
def getPort (url : Bytes) : Bytes :=
  match fromAny [colon] url with
  | [] => str "80"
  | _ :: rest =>
      if startsWith rest (str "//") then
        match fromAny [colon] (rest.drop 2) with
        | [] => if isSsl (untilAny [colon] url) then str "443" else str "80"
        | _ :: port => port.takeWhile isDigit
      else rest.takeWhile isDigit

/-! ### The parts of a URL -/

/-- The parts are such that their text is cut where they meet. -/
structure UrlInfo.Valid (info : UrlInfo) : Prop where
  protocal : FirstAt (str "://") info.protocal
  domain : ∀ b ∈ info.domain, b ∉ str ":/?#"
  port : ∃ port, info.port = colon :: port ∧ ∀ b ∈ port, b ∉ str "/?#"
  path : ∃ path, info.path = slash :: path ∧ ∀ b ∈ path, b ∉ str "?#"
  params : info.params = [] ∨ ∃ b r, b ∈ str "?#" ∧ info.params = b :: r

variable {url : Bytes} {info : UrlInfo}

/-- The ports that a protocol can have. -/
theorem getPortByProtocal_mem (protocal : Bytes) :
    getPortByProtocal protocal ∈ [str "80", str "21", str "22", str "443"] := by
  unfold getPortByProtocal
  simp only
  split
  · split_ifs <;> simp
  · split_ifs <;> simp
  · split_ifs <;> simp
  · simp

/-- The port of a protocol is a number. -/
theorem isDigit_getPortByProtocal (protocal : Bytes) :
    ∀ b ∈ getPortByProtocal protocal, isDigit b = true := by
  have hports : ∀ port ∈ [str "80", str "21", str "22", str "443"],
      port.all (isDigit ·) = true := by decide
  exact List.all_eq_true.1 (hports _ (getPortByProtocal_mem protocal))

/-- A digit delimits nothing. -/
theorem not_mem_of_isDigit {b : UInt8} (h : isDigit b = true) : b ∉ str ":/?#" := by
  intro hb
  have hset : (str ":/?#").all (fun b => !isDigit b) = true := rfl
  simpa [h] using List.all_eq_true.1 hset b hb

/-- `get_url_info` and `get_domain` cut the protocol off at the same place. -/
theorem splitProtocal_spec (url : Bytes) :
    FirstAt (str "://") (splitProtocal url).1 ∧ (splitHost url).2 = (splitProtocal url).2 := by
  unfold splitProtocal splitHost
  cases h : splitFirst (str "://") url with
  | none =>
      have hhttp : splitFirst (str "://") (str "http://") = some (str "http", []) := rfl
      exact ⟨(splitFirst_eq_some_iff.1 hhttp).2, rfl⟩
  | some r => exact ⟨(splitFirst_eq_some_iff.1 h).2, rfl⟩

/-- The sets at which a URL is cut, one after the other and at once. -/
theorem mem_delimiters {b : UInt8} :
    (b ∈ str "/?#" ↔ b = slash ∨ b ∈ str "?#") ∧
      (b ∈ str ":/?#" ↔ b = colon ∨ b = slash ∨ b ∈ str "?#") :=
  ⟨List.mem_cons, List.mem_cons.trans (or_congr_right List.mem_cons)⟩

/-- `get_domain` is the domain of `get_url_info`. -/
theorem getDomain_eq (url : Bytes) : getDomain url = (urlInfo url).domain := by
  simp only [getDomain, urlInfo, untilAny_untilAny, (splitProtocal_spec url).2]
  rfl

/-- **What `get_url_info` stores.** -/
theorem valid_urlInfo (url : Bytes) : (urlInfo url).Valid := by
  constructor
  case protocal => exact (splitProtocal_spec url).1
  case domain =>
    rw [← getDomain_eq]
    exact fun b hb => not_mem_untilAny hb
  case port =>
    simp only [urlInfo]
    split_ifs with hport
    · exact ⟨_, rfl, fun b hb hmem => not_mem_of_isDigit (isDigit_getPortByProtocal _ b hb)
        (List.mem_cons_of_mem _ hmem)⟩
    · obtain h | ⟨b, r, hb, h⟩ := fromAny_eq_nil_or [colon] (untilAny [slash] (untilAny (str "?#")
        (splitProtocal url).2))
      · exact absurd h hport
      · obtain rfl : b = colon := by simpa using hb
        refine ⟨r, h, fun c hc => ?_⟩
        have hmem : c ∈ untilAny [slash] (untilAny (str "?#") (splitProtocal url).2) := by
          rw [← untilAny_append_fromAny [colon] (untilAny [slash] _), h]
          simp [hc]
        rw [untilAny_untilAny] at hmem
        exact not_mem_untilAny hmem
  case path =>
    simp only [urlInfo]
    split_ifs with hpath
    · exact ⟨[], rfl, by simp⟩
    · obtain h | ⟨b, r, hb, h⟩ := fromAny_eq_nil_or [slash] (untilAny (str "?#")
        (splitProtocal url).2)
      · exact absurd h hpath
      · obtain rfl : b = slash := by simpa using hb
        refine ⟨r, h, fun c hc => ?_⟩
        have hmem : c ∈ untilAny (str "?#") (splitProtocal url).2 := by
          rw [← untilAny_append_fromAny [slash] (untilAny (str "?#") _), h]
          simp [hc]
        exact not_mem_untilAny hmem
  case params => exact fromAny_eq_nil_or _ _

/-- **The text of valid parts is cut into these parts.** -/
theorem UrlInfo.Valid.urlInfo_text (h : info.Valid) : urlInfo info.text = info := by
  obtain ⟨port, hport, hport'⟩ := h.port
  obtain ⟨path, hpath, hpath'⟩ := h.path
  have hsplit : splitProtocal info.text =
      (info.protocal, info.domain ++ info.port ++ info.path ++ info.params) := by
    simp only [splitProtocal, UrlInfo.text, h.protocal.splitFirst_append, List.append_assoc]
  have hdomain : ∀ b ∈ info.domain, b ≠ colon ∧ b ≠ slash ∧ b ∉ str "?#" := by
    intro b hb
    simpa only [mem_delimiters, not_or] using h.domain b hb
  have hfront : ∀ b ∈ info.domain ++ info.port, b ≠ slash ∧ b ∉ str "?#" := by
    intro b hb
    rcases List.mem_append.1 hb with hb | hb
    · exact (hdomain b hb).2
    · rw [hport] at hb
      rcases List.mem_cons.1 hb with rfl | hb
      · decide
      · simpa only [mem_delimiters, not_or] using hport' b hb
  have hall : ∀ b ∈ info.domain ++ info.port ++ info.path, b ∉ str "?#" := by
    intro b hb
    rcases List.mem_append.1 hb with hb | hb
    · exact (hfront b hb).2
    · rw [hpath] at hb
      rcases List.mem_cons.1 hb with rfl | hb
      · decide
      · exact hpath' b hb
  have hcolon : ∀ b ∈ info.domain, b ∉ [colon] := fun b hb => by simpa using (hdomain b hb).1
  have hslash : ∀ b ∈ info.domain ++ info.port, b ∉ [slash] :=
    fun b hb => by simpa using (hfront b hb).1
  obtain ⟨huntil₁, hparams₁⟩ := untilAny_append hall h.params
  obtain ⟨huntil₂, hpath₂⟩ := untilAny_append hslash (Or.inr ⟨slash, path, by simp, hpath⟩)
  obtain ⟨huntil₃, hport₃⟩ := untilAny_append hcolon (Or.inr ⟨colon, port, by simp, hport⟩)
  have hne : info.path ≠ [] ∧ info.port ≠ [] := by simp [hpath, hport]
  simp only [urlInfo, hsplit, huntil₁, hparams₁, huntil₂, hpath₂, huntil₃, hport₃, if_neg hne.1,
    if_neg hne.2]

/-- A formatted URL is not empty. -/
theorem text_ne_nil (info : UrlInfo) : info.text ≠ [] := by
  have hmark : str "://" ≠ [] := by decide
  simp [UrlInfo.text, hmark]

/-- What `get_url_info` returns, and what `format_url` makes of it. -/
theorem getUrlInfo_eq_some (h : getUrlInfo url = some info) :
    info = urlInfo url ∧ formatUrl url = info.text := by
  constructor
  · unfold getUrlInfo at h
    split_ifs at h
    exact (Option.some.inj h).symm
  · rw [formatUrl, h]

/-- **Formatting a URL does not change its parts.** -/
theorem getUrlInfo_formatUrl (url : Bytes) : getUrlInfo (formatUrl url) = getUrlInfo url := by
  by_cases hurl : url = []
  · subst hurl
    rfl
  · have hinfo : getUrlInfo url = some (urlInfo url) := if_neg hurl
    rw [(getUrlInfo_eq_some hinfo).2, hinfo, getUrlInfo, if_neg (text_ne_nil _),
      (valid_urlInfo url).urlInfo_text]

/-- **Normalising what is normalised changes nothing**: neither the parts of a URL, nor the
URL, nor a head. -/
theorem format_idempotent (url head : Bytes) :
    getUrlInfo (formatUrl url) = getUrlInfo url ∧
      formatUrl (formatUrl url) = formatUrl url ∧
      formatHead (formatHead head) = formatHead head := by
  have hinfo := getUrlInfo_formatUrl url
  refine ⟨hinfo, by rw [formatUrl, hinfo, formatUrl], ?_⟩
  by_cases hhead : trim headBlank head = []
  · have hempty : formatHead head = [] := if_pos hhead
    rw [hempty]
    rfl
  · have htrim : trim headBlank (trim headBlank head ++ [cr, lf]) = trim headBlank head := by
      rw [List.append_cons, trim_append_of_mem (by decide), trim_append_of_mem (by decide),
        trim_trim]
    simp only [formatHead, if_neg hhead, htrim]

/-! ### The functions that look into a URL -/

/-- The protocol of a formatted URL is that of its parts, in lower case. -/
theorem UrlInfo.Valid.getProtocal_text (h : info.Valid) :
    getProtocal info.text = info.protocal.map toLower := by
  simp only [getProtocal, UrlInfo.text, h.protocal.splitFirst_append]

/-- The first `':'` of the text is that of `"://"`, and the next one begins the port. -/
theorem UrlInfo.Valid.getPort_text (h : info.Valid) (hprotocal : colon ∉ info.protocal) :
    getPort info.text = info.port.tail.takeWhile isDigit := by
  obtain ⟨port, hport, -⟩ := h.port
  obtain ⟨path, hpath, -⟩ := h.path
  have hfirst : ∀ b ∈ info.protocal, b ∉ [colon] := by
    intro b hb hmem
    exact hprotocal (List.mem_singleton.1 hmem ▸ hb)
  have hsecond : ∀ b ∈ info.domain, b ∉ [colon] := by
    intro b hb hmem
    exact h.domain b hb (mem_delimiters.2.2 (Or.inl (List.mem_singleton.1 hmem)))
  generalize hhost : info.domain ++ (info.port ++ (info.path ++ info.params)) = host
  have hrest : fromAny [colon] info.text = colon :: (str "//" ++ host) := by
    rw [← hhost]
    exact (untilAny_append hfirst (Or.inr ⟨colon, _, by simp, rfl⟩)).2
  have hrest' : fromAny [colon] host = colon :: (port ++ slash :: (path ++ info.params)) := by
    rw [← hhost, hport, hpath]
    exact (untilAny_append hsecond (Or.inr ⟨colon, _, by simp, rfl⟩)).2
  have hmark : startsWith (str "//" ++ host) (str "//") = true :=
    startsWith_iff.2 (List.prefix_append _ _)
  have hdrop : (str "//" ++ host).drop 2 = host := rfl
  simp only [getPort, hrest, hmark, if_true, hdrop, hrest', hport, List.tail_cons]
  exact takeWhile_append_stop (p := isDigit) (by decide) port _

/-- Formatting a URL does not change its domain. -/
theorem getDomain_formatUrl (url : Bytes) : getDomain (formatUrl url) = getDomain url := by
  by_cases hurl : url = []
  · subst hurl
    rfl
  · have hinfo : getUrlInfo url = some (urlInfo url) := if_neg hurl
    rw [(getUrlInfo_eq_some hinfo).2, getDomain_eq, (valid_urlInfo url).urlInfo_text, getDomain_eq]

/-- A URL with no port gets the port of its protocol. -/
theorem port_urlInfo (h : colon ∉ untilAny (str "/?#") (splitHost url).2) :
    (urlInfo url).port = colon :: getPortByProtocal (urlInfo url).protocal := by
  have hnone : fromAny [colon] (untilAny [slash] (untilAny (str "?#") (splitProtocal url).2)) =
      [] := by
    rw [untilAny_untilAny, ← (splitProtocal_spec url).2, fromAny_eq_nil_iff]
    intro b hb hmem
    exact h (List.mem_singleton.1 hmem ▸ hb)
  simp only [urlInfo, hnone, if_true]

/-- **The address connected to is the address parsed.**  From the normalised URL
`get_domain` and `get_protocal` read the parts that `get_url_info` found in the URL, and
`get_port` the digits behind the `':'` of the port, all of it when it is a number; and so
it is when there is no port in the URL. -/
theorem address_of_formatUrl (h : getUrlInfo url = some info) :
    getDomain (formatUrl url) = info.domain ∧ getDomain url = info.domain ∧
      getProtocal (formatUrl url) = info.protocal.map toLower ∧
      (colon ∉ info.protocal → getPort (formatUrl url) = info.port.tail.takeWhile isDigit ∧
        ((∀ b ∈ info.port.tail, isDigit b = true) →
          colon :: getPort (formatUrl url) = info.port)) ∧
      (colon ∉ untilAny (str "/?#") (splitHost url).2 →
        ∀ b ∈ info.port.tail, isDigit b = true) := by
  obtain ⟨rfl, htext⟩ := getUrlInfo_eq_some h
  have hvalid := valid_urlInfo url
  obtain ⟨port, hport, -⟩ := hvalid.port
  rw [getDomain_formatUrl, htext]
  refine ⟨getDomain_eq url, getDomain_eq url, hvalid.getProtocal_text,
    fun hprotocal => ⟨?_, fun hdigits => ?_⟩, fun hnone => ?_⟩
  · exact hvalid.getPort_text hprotocal
  · rw [hvalid.getPort_text hprotocal, List.takeWhile_eq_self_iff.2 hdigits, hport]
    rfl
  · rw [port_urlInfo hnone]
    exact isDigit_getPortByProtocal _

/-- A protocol in upper case, and a port with more than digits. -/
theorem address_of_formatUrl_upper :
    getUrlInfo (str "HTTP://a:81x/p") =
        some ⟨str "HTTP", str "a", str ":81x", str "/p", []⟩ ∧
      getPort (formatUrl (str "HTTP://a:81x/p")) = str "81" := by
  have hinfo : getUrlInfo (str "HTTP://a:81x/p") =
      some ⟨str "HTTP", str "a", str ":81x", str "/p", []⟩ := rfl
  exact ⟨hinfo, ((address_of_formatUrl hinfo).2.2.2.1 (by decide)).1⟩

end HttpTools
end Scaner
