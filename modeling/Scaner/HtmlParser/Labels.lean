/-
# Domains and their labels

`match_domain` of `html_parser/html_parser_api.cpp` compares two domains byte by byte from
their ends and counts the dots on the way, as a measure of the labels that they share.

It is right about whole labels where the domains differ in a byte.  Where one of them is used
up first, it asks for no dot in front: `xa.com` is taken for a domain below `a.com`, whatever
the level, and `com` is not matched with `a.com`, although they share a label.
`matchDomain_labels_iff` says that there is no other case.
-/

import Scaner.HtmlParser.Links
import Scaner.Lib.Parts

namespace Scaner
namespace HtmlParser

open Bytes

/-- The labels of a domain. -/
def labels (domain : Bytes) : List Bytes := domain.splitOn dot

/-- The number of labels that two domains have in common at their ends. -/
def commonLabels (base domain : Bytes) : ℕ :=
  (commonPrefix (labels base).reverse (labels domain).reverse).length

/-- The domains match by their labels: they are the same, the second one is below the first
one, or they share the last labels. -/
def LabelsMatch (base domain : Bytes) (level : ℕ) : Prop :=
  domain = base ∨ dot :: base <:+ domain ∨ level ≤ commonLabels base domain

variable {base domain : Bytes} {level : ℕ}

/-- The labels that two domains share at their ends are the parts that they share from their ends
on. -/
theorem commonLabels_eq (base domain : Bytes) :
    commonLabels base domain = sharedParts dot base.reverse domain.reverse := by
  have hlabels : ∀ s : Bytes, s.reverse.splitOn dot = (labels s).reverse.map List.reverse := by
    intro s
    rw [splitOn_reverse, labels, List.map_reverse]
  rw [sharedParts, hlabels, hlabels, commonPrefix_map List.reverse_injective, List.length_map]
  rfl

/-- The second domain is longer. -/
theorem commonLabels_below (x : Bytes) (c : UInt8) (base : Bytes) :
    commonLabels base (x ++ c :: base) = dots base + if c = dot then 1 else 0 := by
  have hrev : (x ++ c :: base).reverse = base.reverse ++ c :: x.reverse := by simp
  rw [commonLabels_eq, hrev, sharedParts_append_cons, List.count_reverse]
  rfl

/-- The first domain is longer. -/
theorem commonLabels_above (y : Bytes) (c : UInt8) (domain : Bytes) :
    commonLabels (y ++ c :: domain) domain = dots domain + if c = dot then 1 else 0 := by
  rw [commonLabels_eq, sharedParts_comm, ← commonLabels_eq, commonLabels_below]

/-- Where neither domain is the end of the other, each shared label has its dot. -/
theorem commonLabels_of_not_suffix (h : ¬ base <:+ domain) (h' : ¬ domain <:+ base) :
    commonLabels base domain = dots (commonPrefix base.reverse domain.reverse) := by
  rw [← List.reverse_prefix] at h h'
  rw [commonLabels_eq, sharedParts_of_not_prefix h h']
  rfl

/-- What goes on in front of a text does not end it. -/
theorem not_append_cons_suffix (x : Bytes) (c : UInt8) (s : Bytes) : ¬ x ++ c :: s <:+ s := by
  intro h
  have hlen := h.length_le
  simp only [List.length_append, List.length_cons] at hlen
  omega

/-- A text is not an end of itself with something in front. -/
theorem ne_append_cons (x : Bytes) (c : UInt8) (s : Bytes) : s ≠ x ++ c :: s :=
  fun h => not_append_cons_suffix x c s (h ▸ List.suffix_refl s)

/-- An end of a text is the whole text, or has a byte in front of it. -/
theorem suffix_cases {x y : Bytes} (h : x <:+ y) : y = x ∨ ∃ z c, y = z ++ c :: x := by
  obtain ⟨z, rfl⟩ := h
  rcases List.eq_nil_or_concat z with rfl | ⟨z, c, rfl⟩
  · exact Or.inl rfl
  · exact Or.inr ⟨z, c, by simp⟩

/-- A domain that ends with the base matches. -/
theorem matchDomain_of_suffix (h : base <:+ domain) : matchDomain base domain level = true :=
  matchDomain_iff.2 (Or.inl (List.reverse_prefix.2 h))

/-- A domain that the base goes beyond does not match. -/
theorem not_matchDomain_above (y : Bytes) (c : UInt8) (domain : Bytes) (level : ℕ) :
    matchDomain (y ++ c :: domain) domain level = false := by
  rw [← Bool.not_eq_true, matchDomain_iff]
  rintro (h | ⟨h, -⟩)
  · exact not_append_cons_suffix y c domain (List.reverse_prefix.1 h)
  · exact h (List.reverse_prefix.2 ((List.suffix_cons c domain).trans (List.suffix_append y _)))

/-- What the labels say when the second domain is longer. -/
theorem labelsMatch_below_iff {x : Bytes} {c : UInt8} :
    LabelsMatch base (x ++ c :: base) level ↔ c = dot ∨ level ≤ dots base := by
  have hne : x ++ c :: base ≠ base := (ne_append_cons x c base).symm
  have hdot : dot :: base <:+ x ++ c :: base ↔ c = dot := by
    constructor
    · intro h
      have heq := (List.suffix_of_suffix_length_le h (List.suffix_append x (c :: base))
        (by simp)).eq_of_length (by simp)
      exact (List.cons.inj heq).1.symm
    · rintro rfl
      exact List.suffix_append x _
  rw [LabelsMatch, hdot, commonLabels_below]
  simp only [hne, false_or]
  by_cases hc : c = dot
  · simp [hc]
  · simp [hc]

/-- What the labels say when the first domain is longer. -/
theorem labelsMatch_above_iff {y : Bytes} {c : UInt8} :
    LabelsMatch (y ++ c :: domain) domain level ↔
      level ≤ dots domain + if c = dot then 1 else 0 := by
  have hlong : ¬ dot :: (y ++ c :: domain) <:+ domain :=
    not_append_cons_suffix (dot :: y) c domain
  have hne : domain ≠ y ++ c :: domain := ne_append_cons y c domain
  rw [LabelsMatch, commonLabels_above]
  simp [hlong, hne]

/-- Where the domains differ in a byte, the labels are counted right. -/
theorem matchDomain_of_not_suffix (h : ¬ base <:+ domain) (h' : ¬ domain <:+ base) :
    matchDomain base domain level = true ↔ LabelsMatch base domain level := by
  have hne : domain ≠ base := by
    rintro rfl
    exact h (List.suffix_refl _)
  have hbelow : ¬ dot :: base <:+ domain := fun hb => h ((List.suffix_cons dot base).trans hb)
  rw [LabelsMatch, commonLabels_of_not_suffix h h', matchDomain_iff, Near, List.reverse_prefix,
    List.reverse_prefix]
  simp [h, h', hne, hbelow]

/-- The byte in front of an end of a text is one byte. -/
theorem append_cons_right_inj {x x' : Bytes} {c c' : UInt8}
    (h : x ++ c :: base = x' ++ c' :: base) : c = c' := by
  have heq : (x ++ [c]) ++ base = (x' ++ [c']) ++ base := by simpa using h
  have hlast := List.append_cancel_right heq
  exact (List.append_inj' hlast rfl).2 |> List.cons.inj |>.1

/-- **When domains are matched by their labels**: unless the second domain goes on in front of
the first one with another byte than a dot, and the first one has fewer dots than the level;
or the first one goes on in front of the second one, and the labels of that suffice. -/
theorem matchDomain_labels_iff (base domain : Bytes) (level : ℕ) :
    (matchDomain base domain level = true ↔ LabelsMatch base domain level) ↔
      (∀ x c, domain = x ++ c :: base → c = dot ∨ level ≤ dots base) ∧
        ∀ y c, base = y ++ c :: domain → dots domain + (if c = dot then 1 else 0) < level := by
  by_cases hbelow : base <:+ domain
  · have hmatch : matchDomain base domain level = true := matchDomain_of_suffix hbelow
    have hsecond : ∀ y c, base = y ++ c :: domain →
        dots domain + (if c = dot then 1 else 0) < level := by
      rintro y c rfl
      exact absurd hbelow (not_append_cons_suffix y c domain)
    simp only [hmatch, true_iff, and_iff_left hsecond]
    rcases suffix_cases hbelow with rfl | ⟨x, c, rfl⟩
    · exact iff_of_true (Or.inl rfl) fun x c h => absurd h (ne_append_cons x c domain)
    · rw [labelsMatch_below_iff]
      constructor
      · intro h x' c' heq
        rwa [append_cons_right_inj heq] at h
      · exact fun h => h x c rfl
  · by_cases habove : domain <:+ base
    · obtain ⟨y, c, rfl⟩ := (suffix_cases habove).resolve_left fun h =>
        hbelow (h ▸ List.suffix_refl _)
      have hfirst : ∀ x c', domain = x ++ c' :: (y ++ c :: domain) →
          c' = dot ∨ level ≤ dots (y ++ c :: domain) := by
        intro x c' h
        have hlong : domain = (x ++ c' :: y) ++ c :: domain := by simpa using h
        exact absurd hlong (ne_append_cons (x ++ c' :: y) c domain)
      rw [not_matchDomain_above, labelsMatch_above_iff, and_iff_right hfirst]
      simp only [Bool.false_eq_true, false_iff, not_le]
      constructor
      · intro h y' c' heq
        rwa [append_cons_right_inj heq] at h
      · exact fun h => h y c rfl
    · refine iff_of_true (matchDomain_of_not_suffix hbelow habove) ⟨?_, ?_⟩
      · rintro x c rfl
        exact absurd ((List.suffix_cons c base).trans (List.suffix_append x _)) hbelow
      · rintro y c rfl
        exact absurd ((List.suffix_cons c domain).trans (List.suffix_append y _)) habove

/-- `xa.com` is matched with `a.com` at the level `2`, and `com` is not at the level `1`. -/
theorem exists_labels_missed :
    (matchDomain (str "a.com") (str "xa.com") 2 = true ∧
        ¬ LabelsMatch (str "a.com") (str "xa.com") 2) ∧
      matchDomain (str "a.com") (str "com") 1 = false ∧ LabelsMatch (str "a.com") (str "com") 1 :=
  ⟨⟨rfl, by unfold LabelsMatch; decide +kernel⟩, rfl, Or.inr (Or.inr (by decide +kernel))⟩

end HtmlParser
end Scaner
