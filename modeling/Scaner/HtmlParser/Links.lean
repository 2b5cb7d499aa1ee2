/-
# The links of a page

`html_parser/html_parser_api.cpp`: `match_domain`, `search_for_links` and
`API_html_parser`.  The document is the tree that gumbo returns; the strings of its
attributes are C strings, here without the zero byte.  A `std::set` is a
`Std.ExtTreeSet`, in the order of the bytes.

`match_domain` compares two domains from their ends: the base domain must be used up before
they differ, or `domain_level` dots must lie behind the place where they do
(`matchDomain_iff`).  `mem_searchForLinks_iff` says which links are taken from a document,
and `search_exact` says the same of the elements that are reached in it, with the number that
is returned; `getDomain_getPage_append` says what the domain of such a link is.
-/

import Mathlib.Data.List.Count
import Scaner.HttpTools.Url
import Scaner.Lib.CommonPrefix

namespace Scaner
namespace HtmlParser

open Bytes HttpTools

/-- `'.'`. -/
abbrev dot : UInt8 := 46

/-- The loop of `match_domain`, on what is left of the two domains from the end. -/
def matchLoop (domainLevel : ℕ) : Bytes → Bytes → ℕ → Bool
  | [], _, _ => true
  | _ :: _, [], _ => false
  | a :: x, b :: y, dotCount =>
      if a ≠ b then domainLevel ≤ dotCount
      else matchLoop domainLevel x y (if a = dot then dotCount + 1 else dotCount)

/-- `match_domain`. -/
def matchDomain (domainBase domain2 : Bytes) (domainLevel : ℕ) : Bool :=
  matchLoop domainLevel domainBase.reverse domain2.reverse 0

/-- The tags that `search_for_links` knows. -/
inductive GumboTag
  | a
  | form
  | other
  deriving DecidableEq

/-- A node of the document: an element, or one of another type. -/
inductive GumboNode
  | element (tag : GumboTag) (attributes : List (Bytes × Bytes)) (children : List GumboNode)
  | other

/-- A `std::set<std::string>`. -/
abbrev LinkSet := Std.ExtTreeSet Bytes compare

/-- The value of `gumbo_get_attribute(attributes, name)`. -/
def gumboGetAttribute (attributes : List (Bytes × Bytes)) (name : Bytes) : Option Bytes :=
  (attributes.find? fun attr => attr.1.map toLower = name.map toLower).map (·.2)

/-- The link that is taken for a `href`. -/
def link (pageUrl : Bytes) (domainLevel : ℕ) (href : Bytes) : Option Bytes :=
  if href = [] then none
  else if pageUrl = [] then some href
  else if containsSub (str "://") href = false then some (pageUrl ++ href)
  else if matchDomain (getDomain pageUrl) (getDomain href) domainLevel = false then none
  else some href

/-- What `search_for_links` does at an element itself. -/
def visit (pageUrl : Bytes) (domainLevel : ℕ) (vOut : LinkSet) (tag : GumboTag)
    (attributes : List (Bytes × Bytes)) : LinkSet :=
  match tag with
  | .a =>
      match gumboGetAttribute attributes (str "href") with
      | some href =>
          match link pageUrl domainLevel href with
          | some url => vOut.insert url
          | none => vOut
      | none => vOut
  | .form => vOut
  | .other => vOut

mutual

/-- `search_for_links`.  A node that is no element is not searched. -/
def searchForLinks (pageUrl : Bytes) (domainLevel : ℕ) (vOut : LinkSet) : GumboNode → LinkSet
  | .element tag attributes children =>
      searchChildren pageUrl domainLevel (visit pageUrl domainLevel vOut tag attributes) children
  | .other => vOut

/-- The loop over the children. -/
def searchChildren (pageUrl : Bytes) (domainLevel : ℕ) (vOut : LinkSet) :
    List GumboNode → LinkSet
  | [] => vOut
  | child :: children =>
      searchChildren pageUrl domainLevel (searchForLinks pageUrl domainLevel vOut child) children

end

/-- `API_html_parser`, for the document that gumbo finds in the body. -/
def apiHtmlParser (root : GumboNode) (vOut : LinkSet) (pageUrl : Bytes) (domainSubLevel : ℕ) :
    LinkSet × ℕ :=
  let v := searchForLinks pageUrl domainSubLevel vOut root
  (v, v.size - vOut.size)

/-! ### Which links are taken -/

mutual

/-- The `href`s of the A elements of a document. -/
def hrefs : GumboNode → List Bytes
  | .element tag attributes children =>
      (if tag = .a then (gumboGetAttribute attributes (str "href")).toList else []) ++
        childHrefs children
  | .other => []

/-- The `href`s below several nodes. -/
def childHrefs : List GumboNode → List Bytes
  | [] => []
  | child :: children => hrefs child ++ childHrefs children

end

variable {pageUrl url : Bytes} {domainLevel : ℕ}

/-- `std::set::insert` adds one link. -/
theorem mem_insert_iff {v : LinkSet} {link : Bytes} :
    url ∈ v.insert link ↔ url = link ∨ url ∈ v := by
  rw [Std.ExtTreeSet.mem_insert, Std.LawfulEqCmp.compare_eq_iff_eq, eq_comm]

/-- Visiting an element adds the link of its `href`, if it is an `a` and has one. -/
theorem mem_visit_iff {v : LinkSet} {tag : GumboTag} {attributes : List (Bytes × Bytes)} :
    url ∈ visit pageUrl domainLevel v tag attributes ↔ url ∈ v ∨
      ∃ href ∈ if tag = .a then (gumboGetAttribute attributes (str "href")).toList else [],
        link pageUrl domainLevel href = some url := by
  cases tag with
  | a =>
      simp only [visit, if_true]
      cases hattr : gumboGetAttribute attributes (str "href") with
      | none => simp
      | some href =>
          cases hlink : link pageUrl domainLevel href with
          | none => simp [hlink]
          | some l =>
              simp only [hlink, mem_insert_iff, Option.toList_some, List.mem_singleton,
                exists_eq_left, Option.some.injEq]
              rw [or_comm, eq_comm]
  | form => simp [visit]
  | other => simp [visit]

mutual

/-- **Which links `search_for_links` takes**: those of the A elements, and nothing is lost
that was there. -/
theorem mem_searchForLinks_iff (v : LinkSet) : ∀ root : GumboNode,
    url ∈ searchForLinks pageUrl domainLevel v root ↔
      url ∈ v ∨ ∃ href ∈ hrefs root, link pageUrl domainLevel href = some url
  | .element tag attributes children => by
      rw [searchForLinks, mem_searchChildren_iff, mem_visit_iff, hrefs]
      simp only [List.mem_append, or_and_right, exists_or, or_assoc]
  | .other => by simp [searchForLinks, hrefs]

/-- The links of a list of nodes. -/
theorem mem_searchChildren_iff (v : LinkSet) : ∀ children : List GumboNode,
    url ∈ searchChildren pageUrl domainLevel v children ↔
      url ∈ v ∨ ∃ href ∈ childHrefs children, link pageUrl domainLevel href = some url
  | [] => by simp [searchChildren, childHrefs]
  | child :: children => by
      rw [searchChildren, mem_searchChildren_iff, mem_searchForLinks_iff v child, childHrefs]
      simp only [List.mem_append, or_and_right, exists_or, or_assoc]

end

/-! ### Exactly the links of the document -/

/-- The elements of a document that are reached through elements. -/
inductive Reaches : GumboNode → GumboNode → Prop
  | refl (tag : GumboTag) (attributes : List (Bytes × Bytes)) (children : List GumboNode) :
      Reaches (.element tag attributes children) (.element tag attributes children)
  | child {tag : GumboTag} {attributes : List (Bytes × Bytes)} {children : List GumboNode}
      {child node : GumboNode} (hchild : child ∈ children) (h : Reaches child node) :
      Reaches (.element tag attributes children) node

/-- The `href` of an A element. -/
def HasHref (node : GumboNode) (href : Bytes) : Prop :=
  ∃ attributes children, node = .element .a attributes children ∧
    gumboGetAttribute attributes (str "href") = some href

/-- What an address on a page stands for: without a page it is itself; what has no `"://"` is
added to the page; what has one must lie in the domain of the page. -/
def StandsFor (pageUrl : Bytes) (domainLevel : ℕ) (href url : Bytes) : Prop :=
  (pageUrl = [] ∧ url = href) ∨
    (pageUrl ≠ [] ∧ ¬ str "://" <:+: href ∧ url = pageUrl ++ href) ∨
    (pageUrl ≠ [] ∧ str "://" <:+: href ∧
      matchDomain (getDomain pageUrl) (getDomain href) domainLevel = true ∧ url = href)

/-- A `href` that is not empty gives the URL that it stands for. -/
theorem link_eq_some_iff {href : Bytes} :
    link pageUrl domainLevel href = some url ↔
      href ≠ [] ∧ StandsFor pageUrl domainLevel href url := by
  unfold link StandsFor
  rw [← containsSub_iff]
  split_ifs with hnil hpage hsub hmatch
  · simp [hnil]
  · rw [Option.some.injEq, eq_comm]
    simp [hnil, hpage]
  · rw [Option.some.injEq, eq_comm]
    simp [hnil, hpage, hsub]
  · simp [hpage, hsub, hmatch]
  · rw [Bool.not_eq_false] at hsub hmatch
    rw [Option.some.injEq, eq_comm]
    simp [hnil, hpage, hsub, hmatch]

/-- An element is reached from one of several nodes. -/
theorem reaches_element_iff {tag : GumboTag} {attributes : List (Bytes × Bytes)}
    {children : List GumboNode} {node : GumboNode} :
    Reaches (.element tag attributes children) node ↔
      node = .element tag attributes children ∨ ∃ child ∈ children, Reaches child node := by
  constructor
  · rintro (_ | ⟨hchild, h⟩)
    · exact Or.inl rfl
    · exact Or.inr ⟨_, hchild, h⟩
  · rintro (rfl | ⟨child, hchild, h⟩)
    · exact .refl tag attributes children
    · exact .child hchild h

/-- The `href` of an element. -/
theorem hasHref_element_iff {tag : GumboTag} {attributes : List (Bytes × Bytes)} {href : Bytes}
    (children : List GumboNode) :
    HasHref (.element tag attributes children) href ↔
      href ∈ if tag = .a then (gumboGetAttribute attributes (str "href")).toList else [] := by
  unfold HasHref
  split_ifs with htag
  · simp [htag]
  · simp [htag]

mutual

/-- The `href`s of a tree are those of the elements that can be reached in it. -/
theorem mem_hrefs_iff {href : Bytes} : ∀ root : GumboNode,
    href ∈ hrefs root ↔ ∃ node, Reaches root node ∧ HasHref node href
  | .element tag attributes children => by
      rw [hrefs, List.mem_append, mem_childHrefs_iff children,
        ← hasHref_element_iff children]
      simp only [reaches_element_iff, or_and_right, exists_or, exists_eq_left]
      grind
  | .other => by
      refine iff_of_false (by simp [hrefs]) ?_
      rintro ⟨node, hreach, -⟩
      cases hreach

/-- The same of a list of trees. -/
theorem mem_childHrefs_iff {href : Bytes} : ∀ children : List GumboNode,
    href ∈ childHrefs children ↔
      ∃ child ∈ children, ∃ node, Reaches child node ∧ HasHref node href
  | [] => by simp [childHrefs]
  | child :: children => by
      rw [childHrefs, List.mem_append, mem_hrefs_iff child, mem_childHrefs_iff children,
        List.exists_mem_cons_iff]

end

/-- The number of elements that a set has more than another one that it contains. -/
theorem exists_added {v w : LinkSet} (h : ∀ url, url ∈ v → url ∈ w) :
    ∃ added : List Bytes, added.Nodup ∧ (∀ url, url ∈ added ↔ url ∈ w ∧ url ∉ v) ∧
      added.length = w.size - v.size := by
  have hnodup : ∀ u : LinkSet, u.toList.Nodup := fun u =>
    Std.ExtTreeSet.distinct_toList.imp fun hne heq =>
      hne (Std.LawfulEqCmp.compare_eq_iff_eq.2 heq)
  have hold : (w.toList.filter (· ∈ v)).Perm v.toList := by
    rw [List.perm_ext_iff_of_nodup ((hnodup w).filter _) (hnodup v)]
    intro url
    simp only [List.mem_filter, Std.ExtTreeSet.mem_toList, decide_eq_true_eq]
    exact ⟨fun hu => hu.2, fun hu => ⟨h url hu, hu⟩⟩
  refine ⟨w.toList.filter (· ∉ v), (hnodup w).filter _, by simp, ?_⟩
  have hsplit := List.length_eq_length_filter_add (l := w.toList) (fun url => decide (url ∈ v))
  rw [hold.length_eq, Std.ExtTreeSet.length_toList, Std.ExtTreeSet.length_toList] at hsplit
  simp only [decide_not]
  omega

/-- **A search adds exactly the links of the document**: those that the non-empty `href`s of
the A elements stand for that are reached through elements; and `API_html_parser` returns how
many of them are new. -/
theorem search_exact (root : GumboNode) (vOut : LinkSet) (pageUrl : Bytes) (domainLevel : ℕ) :
    (∀ url, url ∈ searchForLinks pageUrl domainLevel vOut root ↔
      url ∈ vOut ∨ ∃ node href, Reaches root node ∧ HasHref node href ∧ href ≠ [] ∧
        StandsFor pageUrl domainLevel href url) ∧
    (apiHtmlParser root vOut pageUrl domainLevel).1 =
      searchForLinks pageUrl domainLevel vOut root ∧
    ∃ added : List Bytes, added.Nodup ∧
      (∀ url, url ∈ added ↔
        url ∈ searchForLinks pageUrl domainLevel vOut root ∧ url ∉ vOut) ∧
      (apiHtmlParser root vOut pageUrl domainLevel).2 = added.length := by
  refine ⟨fun url => ?_, rfl, ?_⟩
  · rw [mem_searchForLinks_iff]
    simp only [mem_hrefs_iff, link_eq_some_iff]
    grind
  · have hkept : ∀ url, url ∈ vOut → url ∈ searchForLinks pageUrl domainLevel vOut root :=
      fun url hurl => (mem_searchForLinks_iff vOut root).2 (Or.inl hurl)
    obtain ⟨added, hnodup, hadded, hlen⟩ := exists_added hkept
    exact ⟨added, hnodup, hadded, hlen.symm⟩

/-! ### Domains -/

/-- The number of dots, by which `match_domain` weighs what two domains share. -/
def dots (s : Bytes) : ℕ := s.count dot

/-- A longer prefix has no fewer dots. -/
theorem dots_mono (u v : Bytes) (h : u <+: v) : dots u ≤ dots v := h.sublist.count_le dot

/-- The loop of `match_domain`, from the ends of the domains: the base is passed to its end, or
the domains part behind enough dots. -/
theorem matchLoop_iff {x y : Bytes} {n : ℕ} :
    matchLoop domainLevel x y n = true ↔
      x <+: y ∨ ¬ y <+: x ∧ domainLevel ≤ n + dots (commonPrefix x y) := by
  induction x generalizing y n with
  | nil => simp [matchLoop]
  | cons a x ih =>
      cases y with
      | nil => simp [matchLoop]
      | cons b y =>
          rw [matchLoop, commonPrefix_cons]
          by_cases hab : a = b
          · subst hab
            have hcount : dots (a :: commonPrefix x y) =
                (if a = dot then 1 else 0) + dots (commonPrefix x y) := by
              rw [dots, List.count_cons, dots, Nat.add_comm]
              simp
            simp only [ne_eq, not_true_eq_false, if_false, ih, if_true, List.cons_prefix_cons,
              true_and, hcount]
            split_ifs
            · rw [Nat.add_assoc]
            · rw [Nat.zero_add]
          · simp [hab, List.cons_prefix_cons, Ne.symm hab, dots]

/-- **When domains match**: the base domain is the end of the other one, or they differ
behind `domain_level` dots. -/
theorem matchDomain_iff {base domain : Bytes} :
    matchDomain base domain domainLevel = true ↔
      Near dots domainLevel base.reverse domain.reverse := by
  rw [matchDomain, matchLoop_iff, Nat.zero_add]
  rfl

/-- **A link of a link**: when the domain of a page matches the base domain at one level and
that of a link the domain of the page at another, this is when that of the link matches the
base domain. -/
theorem matchDomain_trans_iff {base page domain : Bytes} {level : ℕ}
    (hpage : matchDomain base page domainLevel = true)
    (hlink : matchDomain page domain level = true) :
    matchDomain base domain domainLevel = true ↔
      base <:+ domain ∨ matchDomain page domain domainLevel = true ∧ ¬ domain <:+ base := by
  rw [matchDomain_iff] at hpage hlink
  rw [matchDomain_iff, matchDomain_iff, ← List.reverse_prefix, ← List.reverse_prefix]
  exact near_trans_iff dots_mono hpage hlink

/-! ### The domain of a link -/

/-- A URL with a `"://"` is cut there, whatever follows. -/
theorem splitHost_append {protocal : Bytes} (h : FirstAt (str "://") protocal) (rest : Bytes) :
    splitHost (protocal ++ (str "://" ++ rest)) = (protocal ++ str "://", rest) := by
  rw [splitHost, h.splitFirst_append]

/-- The host stands behind the first `://`. -/
theorem exists_splitHost {u : Bytes} (h : str "://" <:+: u) :
    ∃ protocal, FirstAt (str "://") protocal ∧ u = protocal ++ (str "://" ++ (splitHost u).2) := by
  cases hsplit : splitFirst (str "://") u with
  | none => exact absurd h (splitFirst_eq_none_iff.1 hsplit)
  | some r =>
      obtain ⟨heq, hfirst⟩ := splitFirst_eq_some_iff.1 (show _ = some (r.1, r.2) from hsplit)
      refine ⟨r.1, hfirst, ?_⟩
      rw [splitHost, hsplit]
      exact heq

/-- **The domain of a text that is added to a page**: that of the page, to which the text is
added when nothing in the URL of the page ends its domain. -/
theorem getDomain_getPage_append {u : Bytes} (h : str "://" <:+: u) (href : Bytes) :
    str "://" <:+: getPage u ++ href ∧ getDomain (getPage u ++ href) =
      if ∃ b ∈ (splitHost u).2, b ∈ str ":/?#" then getDomain u
      else getDomain u ++ untilAny (str ":/?#") href := by
  obtain ⟨protocal, hfirst, hu⟩ := exists_splitHost h
  generalize (splitHost u).2 = rest at hu ⊢
  subst hu
  have hsplit := splitHost_append hfirst
  -- the page is the URL up to its path, or the whole of it
  by_cases hpath : fromAny (str "/?#") rest = []
  · have hpage : getPage (protocal ++ (str "://" ++ rest)) ++ href =
        protocal ++ (str "://" ++ (rest ++ href)) := by
      rw [getPage, hsplit, if_pos hpath]
      simp
    rw [hpage]
    refine ⟨⟨protocal, rest ++ href, by simp⟩, ?_⟩
    rw [getDomain, getDomain, hsplit, hsplit]
    split_ifs with hend
    · exact untilAny_append_of_mem hend href
    · have hnone : ∀ b ∈ rest, b ∉ str ":/?#" := fun b hb hset => hend ⟨b, hb, hset⟩
      rw [untilAny_append_of_not_mem hnone, untilAny_eq_self hnone]
  · have hpage : getPage (protocal ++ (str "://" ++ rest)) ++ href =
        protocal ++ (str "://" ++ (untilAny (str "/?#") rest ++ slash :: href)) := by
      rw [getPage, hsplit, if_neg hpath]
      simp
    have hend : ∃ b ∈ rest, b ∈ str ":/?#" := by
      rw [fromAny_eq_nil_iff] at hpath
      push Not at hpath
      obtain ⟨b, hb, hset⟩ := hpath
      exact ⟨b, hb, List.mem_cons_of_mem _ hset⟩
    rw [hpage, if_pos hend]
    have hcut : untilAny (str ":/?#") (untilAny (str "/?#") rest) = untilAny (str ":/?#") rest :=
      untilAny_untilAny_of_subset (by decide) rest
    refine ⟨⟨protocal, untilAny (str "/?#") rest ++ slash :: href, by simp⟩, ?_⟩
    rw [getDomain, getDomain, hsplit, hsplit, ← hcut]
    exact untilAny_append_stop (by decide) _ _

/-- The domain of a page is that of its URL. -/
theorem getDomain_getPage {u : Bytes} (h : str "://" <:+: u) :
    getDomain (getPage u) = getDomain u := by
  have hnil := (getDomain_getPage_append h []).2
  simpa [untilAny] using hnil

end HtmlParser
end Scaner
