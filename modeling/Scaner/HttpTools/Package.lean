/-
# Request packages

`get_package` in `scaner_test/http_tools.cpp` writes the request for a URL: the request
line, the header lines that the given head does not have, the head, and for a `POST` the
parameters.

The request line of a `GET` has a `'?'` in front of the parameters.  `get_url_info` leaves
the `'?'` or `'#'` at which it cuts in the parameters, so the target of the request is not
the page that the URL names as soon as there are any.  `firstLine_getPackage_iff` says for
which URLs it is.
-/

import Scaner.HttpTools.Url

namespace Scaner
namespace HttpTools

open Bytes

/-- `enum send_package_type`. -/
inductive SendPackageType
  | get
  | post
  | postMultipart
  deriving DecidableEq

/-- A header line that is written when `name` does not occur in the head. -/
def addMissing (head name line : Bytes) : Bytes := if containsSub name head then [] else line

/-- The request line. -/
def requestLine (sendType : SendPackageType) (info : UrlInfo) : Bytes :=
  let path := if info.path = [] then [slash] else info.path
  match sendType with
  | .post => str "POST " ++ path ++ str " HTTP/1.1\r\n"
  | _ => str "GET " ++ path ++ (if info.params = [] then [] else str "?") ++ info.params ++
      str " HTTP/1.1\r\n"

/-- The header lines that every request has. -/
def requestHead (info : UrlInfo) (head : Bytes) : Bytes :=
  addMissing head (str "Host:") (str "Host: " ++ info.domain ++ info.port ++ str "\r\n") ++
  addMissing head (str "Accept:") (str "Accept: */*\r\n") ++
  addMissing head (str "Accept-Encoding:") (str "Accept-Encoding: gzip, deflate\r\n") ++
  addMissing head (str "User-Agent:") (str
    "User-Agent: Mozilla/4.0 (compatible; MSIE 7.0; Windows NT 6.0; Trident/5.0)\r\n") ++
  addMissing head (str "Connection:") (str "Connection: keep-Alive\r\n")

/-- The header lines of a `POST`. -/
def postHead (info : UrlInfo) (head : Bytes) : Bytes :=
  addMissing head (str "Content-Type:")
    (str "Content-Type: application/x-www-form-urlencoded\r\n") ++
  addMissing head (str "Content-Length:")
    (str "Content-Length: " ++ str (toString info.params.length) ++ str "\r\n")

/-- `get_package`. -/
def getPackage (sendType : SendPackageType) (url head : Bytes) : Bytes :=
  if sendType = .postMultipart then []
  else
    match getUrlInfo url with
    | none => []
    | some info =>
        requestLine sendType info ++ requestHead info head ++
          (if sendType = .post then postHead info head else []) ++ head ++ str "\r\n" ++
          (if sendType = .get then [] else info.params)

/-- The text up to the first line break. -/
def firstLine (s : Bytes) : Bytes :=
  match splitFirst [cr, lf] s with
  | some r => r.1
  | none => s

/-! ### The first line -/

variable {x y : Bytes}

/-- The first line ends at the first line break. -/
theorem firstLine_append (h : ¬ [cr, lf] <:+: x) (y : Bytes) :
    firstLine (x ++ ([cr, lf] ++ y)) = x := by
  have hfirst : FirstAt [cr, lf] x := (firstAt_pair_iff (by decide)).2 h
  rw [firstLine, hfirst.splitFirst_append]

/-- A text with a line break is its first line, the line break and the rest. -/
theorem firstLine_spec (x y : Bytes) : ¬ [cr, lf] <:+: firstLine (x ++ ([cr, lf] ++ y)) ∧
    ∃ z, x ++ ([cr, lf] ++ y) = firstLine (x ++ ([cr, lf] ++ y)) ++ ([cr, lf] ++ z) := by
  cases h : splitFirst [cr, lf] (x ++ ([cr, lf] ++ y)) with
  | none =>
      rw [splitFirst_eq_none_iff] at h
      exact absurd ⟨x, y, by simp⟩ h
  | some r =>
      obtain ⟨heq, hfirst⟩ := splitFirst_eq_some_iff.1 (show _ = some (r.1, r.2) from h)
      have hline : firstLine (x ++ ([cr, lf] ++ y)) = r.1 := by rw [firstLine, h]
      rw [hline]
      exact ⟨(firstAt_pair_iff (by decide)).1 hfirst, r.2, heq⟩

/-- A text that is moved by one byte matches itself only as long as that byte goes on. -/
theorem eq_of_shift {q c : UInt8} {a b : Bytes} (h : q :: (x ++ a) = x ++ c :: b) : c = q := by
  induction x with
  | nil => exact (List.cons.inj h).1.symm
  | cons d x ih =>
      obtain ⟨rfl, h⟩ := List.cons.inj h
      exact ih h

/-- The page and the parameters of a URL, in terms of the URL. -/
theorem urlInfo_page (url : Bytes) :
    ((urlInfo url).params = [] ↔ ∀ b ∈ (splitHost url).2, b ∉ str "?#") ∧
      ((urlInfo url).params = [] →
        ([cr, lf] <:+: (urlInfo url).path ↔ [cr, lf] <:+: fromAny [slash] (splitHost url).2)) := by
  have hrest := (splitProtocal_spec url).2
  have hparams : (urlInfo url).params = fromAny (str "?#") (splitHost url).2 := by
    rw [hrest]
    rfl
  refine ⟨by rw [hparams, fromAny_eq_nil_iff], fun hnil => ?_⟩
  have hwhole : untilAny (str "?#") (splitHost url).2 = (splitHost url).2 := by
    have hcut := untilAny_append_fromAny (str "?#") (splitHost url).2
    rwa [← hparams, hnil, List.append_nil] at hcut
  simp only [urlInfo, ← hrest, hwhole]
  split_ifs with hpath
  · simp [hpath, List.infix_cons_iff]
  · rfl

/-- The package of a `GET`, up to the end of the request line. -/
theorem exists_getPackage_get {url : Bytes} (h : url ≠ []) (head : Bytes) :
    ∃ rest, getPackage .get url head =
      (str "GET " ++ ((urlInfo url).path ++ ((if (urlInfo url).params = [] then [] else str "?") ++
        ((urlInfo url).params ++ str " HTTP/1.1")))) ++ ([cr, lf] ++ rest) := by
  obtain ⟨path, hpath, -⟩ := (valid_urlInfo url).path
  refine ⟨requestHead (urlInfo url) head ++ (head ++ str "\r\n"), ?_⟩
  have hend : str " HTTP/1.1\r\n" = str " HTTP/1.1" ++ [cr, lf] := rfl
  simp [getPackage, getUrlInfo, h, requestLine, hpath, hend]

/-- A line break in the request line of a page with no parameters is one in the page. -/
theorem infix_getLine_iff {path p : Bytes} (hp : path = slash :: p) :
    [cr, lf] <:+: str "GET " ++ (path ++ str " HTTP/1.1") ↔ [cr, lf] <:+: path := by
  have hget : ¬ [cr, lf] <:+: str "GET " := by decide
  have hversion : ¬ [cr, lf] <:+: str " HTTP/1.1" := by decide
  have hslash : (path ++ str " HTTP/1.1").head? ≠ some lf := by
    rw [hp]
    exact fun h => absurd (Option.some.inj h) (by decide)
  rw [pair_infix_append hslash, pair_infix_append (by decide)]
  simp [hget, hversion]

/-- **When the first line of a `GET` asks for the page of the URL**: the URL is not empty,
and behind its `"://"` it has neither a `'?'` nor a `'#'`, and no line break in its path. -/
theorem firstLine_getPackage_iff (url head : Bytes) :
    firstLine (getPackage .get url head) =
        str "GET " ++ ((urlInfo url).path ++ ((urlInfo url).params ++ str " HTTP/1.1")) ↔
      url ≠ [] ∧ (∀ b ∈ (splitHost url).2, b ∉ str "?#") ∧
        ¬ [cr, lf] <:+: fromAny [slash] (splitHost url).2 := by
  by_cases hurl : url = []
  · subst hurl
    have hempty : firstLine (getPackage .get [] head) = [] := rfl
    rw [hempty]
    exact iff_of_false nofun fun h => h.1 rfl
  obtain ⟨hparams, hpath⟩ := urlInfo_page url
  obtain ⟨rest, hpackage⟩ := exists_getPackage_get hurl head
  obtain ⟨p, hp, -⟩ := (valid_urlInfo url).path
  rw [and_iff_right hurl, ← hparams, hpackage]
  generalize (urlInfo url).path = path, (urlInfo url).params = params at *
  by_cases hnil : params = []
  · rw [and_iff_right hnil, ← hpath hnil]
    subst hnil
    have hbreak := infix_getLine_iff hp
    simp only [if_true, List.nil_append]
    constructor
    · intro h
      have hno := (firstLine_spec (str "GET " ++ (path ++ str " HTTP/1.1")) rest).1
      rwa [h, hbreak] at hno
    · exact fun h => firstLine_append (mt hbreak.1 h) rest
  · refine iff_of_false (fun h => ?_) fun h => hnil h.1
    -- the line would be the request line with its parameters moved by one byte
    obtain ⟨-, z, hz⟩ := firstLine_spec _ rest
    rw [h, if_neg hnil] at hz
    simp only [List.append_assoc, List.append_cancel_left_eq] at hz
    have hshift : space = 63 := eq_of_shift (x := params)
      (a := str " HTTP/1.1" ++ ([cr, lf] ++ rest)) (b := str "HTTP/1.1" ++ ([cr, lf] ++ z)) hz
    exact absurd hshift (by decide)

/-- The URL `http://a/?x` names the page `/` with the parameters `?x`; the request asks for
`/??x`. -/
theorem exists_firstLine_ne :
    getUrlInfo (str "http://a/?x") = some ⟨str "http", str "a", str ":80", str "/", str "?x"⟩ ∧
      firstLine (getPackage .get (str "http://a/?x") []) = str "GET /??x HTTP/1.1" ∧
      str "GET /??x HTTP/1.1" ≠ str "GET " ++ (str "/" ++ (str "?x" ++ str " HTTP/1.1")) :=
  ⟨rfl, rfl, by decide⟩

end HttpTools
end Scaner
