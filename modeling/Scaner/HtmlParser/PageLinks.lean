/-
# The domain of a relative link

`search_for_links` of `html_parser/html_parser_api.cpp` puts a `href` with no `"://"` behind
the URL of the page (`get_page`), and does not look at the domain of what it gets.

Nothing has to end the domain in the URL of the page: `http://a.com` is a page, and
`.evil.org` behind it is part of the domain.  And a `"://"` may arise where the two texts
meet.  `links_inScope_iff`: all links of a page are in its scope, and the relative ones in its
domain, exactly when no `href` of it meets the page in one of these ways.
-/

import Scaner.HtmlParser.Links

namespace Scaner
namespace HtmlParser

open Bytes HttpTools

/-- The text behind the `"://"` that arises where the page and the `href` meet. -/
def seam (page href : Bytes) : Option Bytes :=
  if [colon] <:+ page ∧ str "//" <+: href then some (href.drop 2)
  else if str ":/" <:+ page ∧ str "/" <+: href then some (href.drop 1)
  else none

/-- The `href`, put behind the page of the URL, leaves the domain as it is: where a `"://"`
arises, the same domain follows it; else the domain is ended in the URL, or by the `href`. -/
def KeepsDomain (url href : Bytes) : Prop :=
  match if containsSub (str "://") url then none else seam (getPage url) href with
  | some rest => untilAny (str ":/?#") rest = getDomain url
  | none => (∃ b ∈ (splitHost url).2, b ∈ str ":/?#") ∨ ∃ b r, href = b :: r ∧ b ∈ str ":/?#"

variable {url href rest : Bytes}

/-! ### URLs with no protocol -/

/-- A URL with no `://` has no protocol to cut off. -/
theorem splitHost_of_not_infix {u : Bytes} (h : ¬ str "://" <:+: u) : splitHost u = ([], u) := by
  rw [splitHost, splitFirst_eq_none_iff.2 h]

/-- The page of a URL with no protocol has none either. -/
theorem not_infix_getPage (h : ¬ str "://" <:+: url) : ¬ str "://" <:+: getPage url := by
  rw [getPage, splitHost_of_not_infix h]
  split_ifs with hpath
  · exact h
  · -- there is one `'/'` in the page
    intro hpage
    have hslash : slash ∉ untilAny (str "/?#") url :=
      fun hmem => not_mem_untilAny hmem (by decide)
    have hcount := hpage.sublist.count_le slash
    have htwo : (str "://").count slash = 2 := by decide
    rw [htwo, List.nil_append, List.count_append, List.count_eq_zero.2 hslash] at hcount
    simp at hcount

/-- The page ends the domain where the URL does. -/
theorem exists_mem_getPage_iff (h : ¬ str "://" <:+: url) :
    (∃ b ∈ getPage url, b ∈ str ":/?#") ↔ ∃ b ∈ url, b ∈ str ":/?#" := by
  rw [getPage, splitHost_of_not_infix h]
  split_ifs with hpath
  · rfl
  · rw [fromAny_eq_nil_iff] at hpath
    push Not at hpath
    obtain ⟨b, hb, hset⟩ := hpath
    refine iff_of_true ⟨slash, by simp, by decide⟩ ⟨b, hb, List.mem_cons_of_mem _ hset⟩

/-- The page of a URL has its host. -/
theorem untilAny_getPage (h : ¬ str "://" <:+: url) :
    untilAny (str ":/?#") (getPage url) = untilAny (str ":/?#") url := by
  rw [getPage, splitHost_of_not_infix h]
  split_ifs with hpath
  · rfl
  · have hcut : untilAny (str ":/?#") (untilAny (str "/?#") url) = untilAny (str ":/?#") url :=
      untilAny_untilAny_of_subset (by decide) url
    rw [List.nil_append, untilAny_append_stop (by decide), hcut]

/-- Where a `"://"` arises, the domain is read behind it. -/
theorem getDomain_of_seam (h : ¬ str "://" <:+: url) (hseam : seam (getPage url) href = some rest) :
    getDomain (getPage url ++ href) = untilAny (str ":/?#") rest := by
  have hread : ∀ x, x <+: getPage url → getPage url ++ href = x ++ (str "://" ++ rest) →
      getDomain (getPage url ++ href) = untilAny (str ":/?#") rest := by
    intro x hx heq
    have hfirst : FirstAt (str "://") x := by
      refine (firstAt_iff_of_not_mem (by decide)).2 fun hin => ?_
      exact not_infix_getPage h (hin.trans hx.isInfix)
    rw [getDomain, heq, splitHost_append hfirst]
  unfold seam at hseam
  split_ifs at hseam with h₁ h₂
  · obtain ⟨⟨x, hx⟩, y, hy⟩ := h₁
    obtain rfl := Option.some.inj hseam
    refine hread x ⟨_, hx⟩ ?_
    rw [← hx, ← hy]
    simp [str]
  · obtain ⟨⟨x, hx⟩, y, hy⟩ := h₂
    obtain rfl := Option.some.inj hseam
    refine hread x ⟨_, hx⟩ ?_
    rw [← hx, ← hy]
    simp [str]

/-- Where none arises, there is none. -/
theorem not_infix_of_seam (h : ¬ str "://" <:+: url) (href_ok : ¬ str "://" <:+: href)
    (hseam : seam (getPage url) href = none) : ¬ str "://" <:+: getPage url ++ href := by
  intro hin
  rcases infix_append_cases hin with hpage | hhref | ⟨s, t, hs, ht, heq, hsuf, hpre⟩
  · exact not_infix_getPage h hpage
  · exact href_ok hhref
  · have hcut : str "://" = [colon, slash, slash] := by decide
    unfold seam at hseam
    split_ifs at hseam with h₁ h₂
    -- the text is cut behind its first or its second byte
    match s, hs with
    | [a], _ =>
        obtain ⟨rfl, rfl⟩ : colon = a ∧ [slash, slash] = t := by simpa [hcut] using heq
        exact h₁ ⟨hsuf, hpre⟩
    | [a, b], _ =>
        obtain ⟨rfl, rfl, rfl⟩ : colon = a ∧ slash = b ∧ [slash] = t := by simpa [hcut] using heq
        exact h₂ ⟨hsuf, hpre⟩
    | a :: b :: c :: s, _ =>
        have hlen := congrArg List.length heq
        have hpos := List.length_pos_iff.2 ht
        rw [hcut, List.length_append] at hlen
        simp only [List.length_cons, List.length_nil] at hlen
        omega

/-! ### The domain of a link -/

/-- The domain of a page is that of its URL. -/
theorem getDomain_page (url : Bytes) : getDomain (getPage url) = getDomain url := by
  by_cases h : str "://" <:+: url
  · exact getDomain_getPage h
  · rw [getDomain, getDomain, splitHost_of_not_infix h,
      splitHost_of_not_infix (not_infix_getPage h), untilAny_getPage h]

/-- Nothing is appended exactly if the `href` begins with a byte of the set. -/
theorem append_untilAny_eq_self_iff {x set : Bytes} (hne : href ≠ []) :
    x ++ untilAny set href = x ↔ ∃ b r, href = b :: r ∧ b ∈ set := by
  rw [List.append_right_eq_self]
  obtain ⟨b, r, rfl⟩ := List.exists_cons_of_ne_nil hne
  by_cases hb : b ∈ set
  · exact iff_of_true (by simp [untilAny, hb]) ⟨b, r, rfl, hb⟩
  · refine iff_of_false (by simp [untilAny, hb]) ?_
    rintro ⟨b', r', heq, hb'⟩
    obtain ⟨rfl, -⟩ := List.cons.inj heq
    exact hb hb'

/-- **When a relative link is in the domain of its page.** -/
theorem getDomain_relative_iff (hne : href ≠ []) (href_ok : ¬ str "://" <:+: href) :
    getDomain (getPage url ++ href) = getDomain url ↔ KeepsDomain url href := by
  -- where the domain is not ended in the URL, the front of the `href` is added to it
  have hadded : ∀ {x : Bytes}, (x = if ∃ b ∈ (splitHost url).2, b ∈ str ":/?#" then getDomain url
      else getDomain url ++ untilAny (str ":/?#") href) → (x = getDomain url ↔
        (∃ b ∈ (splitHost url).2, b ∈ str ":/?#") ∨
          ∃ b r, href = b :: r ∧ b ∈ str ":/?#") := by
    rintro x rfl
    split_ifs with hend
    · exact iff_of_true rfl (Or.inl hend)
    · rw [append_untilAny_eq_self_iff hne]
      exact (or_iff_right hend).symm
  rw [KeepsDomain]
  by_cases h : str "://" <:+: url
  · rw [if_pos (containsSub_iff.2 h)]
    exact hadded (getDomain_getPage_append h href).2
  · rw [if_neg (mt containsSub_iff.1 h)]
    cases hseam : seam (getPage url) href with
    | some rest => rw [getDomain_of_seam h hseam]
    | none =>
        refine hadded ?_
        have hnone := not_infix_of_seam h href_ok hseam
        rw [getDomain, splitHost_of_not_infix hnone, getDomain, splitHost_of_not_infix h]
        simp only
        split_ifs with hend
        · rw [untilAny_append_of_mem ((exists_mem_getPage_iff h).2 hend), untilAny_getPage h]
        · have hpage : ∀ b ∈ getPage url, b ∉ str ":/?#" := fun b hb hset =>
            hend ((exists_mem_getPage_iff h).1 ⟨b, hb, hset⟩)
          rw [untilAny_append_of_not_mem hpage, ← untilAny_getPage h, untilAny_eq_self hpage]

/-- A link is taken from a `href` with no protocol as it stands behind the page. -/
theorem link_relative {level : ℕ} {link : Bytes} (href_ok : ¬ str "://" <:+: href) :
    HtmlParser.link (getPage url) level href = some link ↔
      href ≠ [] ∧ link = getPage url ++ href := by
  have hrel : containsSub (str "://") href = false := by
    rw [← Bool.not_eq_true, containsSub_iff]
    exact href_ok
  unfold HtmlParser.link
  split_ifs with hnil hpage
  · simp [hnil]
  · simp [hnil, hpage, eq_comm]
  · simp [hnil, eq_comm]

/-- A link from a `href` with a protocol is in the scope of the page. -/
theorem link_absolute {level : ℕ} {link : Bytes} (href_ok : str "://" <:+: href)
    (h : HtmlParser.link (getPage url) level href = some link) :
    matchDomain (getDomain (getPage url)) (getDomain link) level = true := by
  have habs : containsSub (str "://") href = true := containsSub_iff.2 href_ok
  unfold HtmlParser.link at h
  simp only [habs, Bool.true_eq_false, if_false] at h
  split_ifs at h with hnil hpage hmatch
  · rw [hpage]
    rfl
  · obtain rfl := Option.some.inj h
    simpa using hmatch

/-- **When the links of a page stay in its scope**, and the relative ones in its domain: when
every `href` with no protocol leaves the domain of the page as it is. -/
theorem links_inScope_iff (url : Bytes) (root : GumboNode) (level : ℕ) :
    ((∀ link ∈ searchForLinks (getPage url) level ∅ root,
          matchDomain (getDomain (getPage url)) (getDomain link) level = true) ∧
        ∀ href ∈ hrefs root, ¬ str "://" <:+: href → ∀ link,
          HtmlParser.link (getPage url) level href = some link →
            getDomain link = getDomain (getPage url)) ↔
      ∀ href ∈ hrefs root, href ≠ [] → ¬ str "://" <:+: href → KeepsDomain url href := by
  constructor
  · rintro ⟨-, hown⟩ href hmem hne href_ok
    have hdomain := hown href hmem href_ok _ ((link_relative href_ok).2 ⟨hne, rfl⟩)
    rw [getDomain_page] at hdomain
    exact (getDomain_relative_iff hne href_ok).1 hdomain
  · intro hkeeps
    have hown : ∀ href ∈ hrefs root, ¬ str "://" <:+: href → ∀ link,
        HtmlParser.link (getPage url) level href = some link →
          getDomain link = getDomain (getPage url) := by
      intro href hmem href_ok link hlink
      obtain ⟨hne, rfl⟩ := (link_relative href_ok).1 hlink
      rw [getDomain_page]
      exact (getDomain_relative_iff hne href_ok).2 (hkeeps href hmem hne href_ok)
    refine ⟨fun link hlink => ?_, hown⟩
    rw [mem_searchForLinks_iff] at hlink
    obtain ⟨href, hmem, hlink⟩ := hlink.resolve_left (by simp)
    by_cases href_ok : str "://" <:+: href
    · exact link_absolute href_ok hlink
    · rw [hown href hmem href_ok link hlink]
      exact matchDomain_iff.2 (Or.inl (List.prefix_refl _))

/-- A link on the page `http://a.com` leads to `http://a.com.evil.org`. -/
theorem exists_link_not_inScope :
    getPage (str "http://a.com") = str "http://a.com" ∧
      str "http://a.com.evil.org" ∈ searchForLinks (str "http://a.com") 1 ∅
        (.element .a [(str "href", str ".evil.org")] []) ∧
      getDomain (str "http://a.com.evil.org") = str "a.com.evil.org" ∧
      matchDomain (str "a.com") (str "a.com.evil.org") 1 = false :=
  ⟨by decide, by decide +kernel, by decide, by decide⟩

end HtmlParser
end Scaner
