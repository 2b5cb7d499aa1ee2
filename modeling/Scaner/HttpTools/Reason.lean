/-
# Status lines with no reason phrase

`HTTP/1.1 200` with nothing behind the code, which a server may send.  The status scan of
`http_get_head` (`scaner_test/http_tools.hpp`) looks for the second space of the status line
in the whole text, so it finds one in a header line or in the body, and the field loop begins
behind that line.

`httpGetHead_bareBytes_iff`: what is read is what is read with a reason phrase exactly when
nothing is lost by that.  This is so when the first line with a space is not the last header
line, and no field up to it has a value; or when all the fields are found once more in the
text behind it.
-/

import Scaner.HttpTools.HeadText

namespace Scaner
namespace HttpTools

open Bytes

/-- There is a space in the line of the field. -/
def Field.spaced (f : Field) : Bool := f.name.contains space || f.value.contains space

/-- The head with a status line that ends behind the code. -/
def ResponseHead.bareBytes (h : ResponseHead) : Bytes :=
  str "HTTP/1.1 " ++ (h.code ++ (h.eol.bytes ++ (h.lines ++ h.eol.bytes)))

/-- The value, the status and the fields are the same. -/
def HeadResult.Same (r r' : HeadResult) : Prop :=
  r.ok = r'.ok ∧ r.state = r'.state ∧ r.head = r'.head

/-- What follows the line in which the first space of a text stands. -/
def BehindSpace (text rest : Bytes) : Prop :=
  ∃ x y, text = x ++ space :: (y ++ lf :: rest) ∧ space ∉ x ∧ lf ∉ y

/-- The values that lines have under a name, without the empty ones: the name of a line is the
text up to its first `':'`, and its value is what is behind that. -/
def lineContents (lines : List Bytes) (k : Bytes) : List Bytes :=
  ((lines.filter fun line => untilAny [colon] line ≠ [] ∧
      (untilAny [colon] line).map toLower = k).map fun line =>
    trim valueEnds ((fromAny [colon] line).drop 1)).filter (· ≠ [])

/-- There is an empty line in the text, and under every name the lines in front of it have the
values that the fields have, once the values of a name are joined with `';'`. -/
def Repeats (fields : List Field) (text : Bytes) : Prop :=
  ∃ front rest, splitBlank text = some (front, rest) ∧
    ∀ k, (str ";").intercalate (lineContents (front.splitOn lf) k) =
      (str ";").intercalate (contents fields k)

/-- Nothing is lost when the text up to the line of the first space is passed over. -/
def ResponseHead.KeepsFields (h : ResponseHead) (body : Bytes) : Prop :=
  match h.fields.dropWhile (!·.spaced) with
  | f :: _ :: _ => ∀ g ∈ h.fields.takeWhile (!·.spaced) ++ [f], g.content = []
  | last => ∃ text, BehindSpace (last.flatMap (Field.line h.eol) ++ (h.eol.bytes ++ body)) text ∧
      Repeats h.fields text

/-! ### The first space -/

section Space

variable {x text rest rest' : Bytes}

/-- What has no space in it may stand in front. -/
theorem BehindSpace.append_iff (hx : space ∉ x) :
    BehindSpace (x ++ text) rest ↔ BehindSpace text rest := by
  constructor
  · rintro ⟨u, y, heq, hu, hy⟩
    rcases List.append_eq_append_iff.1 heq with ⟨v, rfl, rfl⟩ | ⟨v, rfl, hv⟩
    · exact ⟨v, y, rfl, fun hv => hu (List.mem_append_right _ hv), hy⟩
    · cases v with
      | nil => exact ⟨[], y, hv.symm, by simp, hy⟩
      | cons c v =>
          rw [(List.cons.inj hv).1] at hx
          simp at hx
  · rintro ⟨u, y, rfl, hu, hy⟩
    exact ⟨x ++ u, y, by simp, by simp [hx, hu], hy⟩

/-- There is one first space, and one end of its line. -/
theorem BehindSpace.unique (h : BehindSpace text rest) (h' : BehindSpace text rest') :
    rest = rest' := by
  obtain ⟨x, y, rfl, hx, hy⟩ := h
  obtain ⟨x', y', heq, hx', hy'⟩ := h'
  obtain ⟨-, heq⟩ := append_cons_inj hx hx' heq
  exact (append_cons_inj hy hy' heq).2

/-- A field with no space in it gives a line with none. -/
theorem not_mem_line_of_spaced {f : Field} (h : f.spaced = false) (eol : Eol) :
    space ∉ f.line eol := by
  simp only [Field.spaced, Bool.or_eq_false_iff, List.contains_eq_mem, decide_eq_false_iff_not] at h
  have heol : space ∉ eol.bytes := by cases eol <;> decide
  have hcolon : space ≠ colon := by decide
  simp [Field.line, h.1, h.2, heol, hcolon]

/-- Behind the line of a field with a space in it. -/
theorem BehindSpace.line {f : Field} (h : f.spaced = true) (eol : Eol) (rest : Bytes) :
    BehindSpace (f.line eol ++ rest) rest := by
  have hmem : space ∈ f.text := by
    simp only [Field.spaced, Bool.or_eq_true, List.contains_eq_mem, decide_eq_true_eq] at h
    simpa [Field.text] using h.imp_right Or.inr
  have hlf : lf ∉ f.text := fun h => (f.text_ok lf h).2 rfl
  obtain ⟨x, y, heq, hx⟩ := List.eq_append_cons_of_mem hmem
  obtain ⟨e, he, hend⟩ : ∃ e, eol.bytes = e ++ [lf] ∧ lf ∉ e := by
    cases eol with
    | crlf => exact ⟨[cr], rfl, by decide⟩
    | lf => exact ⟨[], rfl, by decide⟩
  refine ⟨x, y ++ e, by rw [f.line_append, heq, he]; simp, hx, ?_⟩
  rw [heq] at hlf
  simp only [List.mem_append, List.mem_cons, not_or] at hlf ⊢
  exact ⟨hlf.2.2, hend⟩

end Space

/-! ### The fields that are lost -/

section Fields

variable {k : Bytes}

/-- The values of two lists of fields. -/
theorem contents_append (front fields : List Field) (k : Bytes) :
    contents (front ++ fields) k = contents front k ++ contents fields k := by
  simp [contents]

/-- The bytes that the map has under a name. -/
def weight (fields : List Field) (k : Bytes) : ℕ := ((headInfo fields).index k).length

/-- The bytes under a name are those of its values, joined. -/
theorem weight_eq (fields : List Field) (k : Bytes) :
    weight fields k = ((str ";").intercalate (contents fields k)).length := by
  rw [weight, Head.index, headInfo]
  split_ifs with h
  · rw [h]
    rfl
  · rfl

/-- **Fields in front of others do not show in the map exactly when none has a value.** -/
theorem headInfo_append_iff (front fields : List Field) :
    headInfo (front ++ fields) = headInfo fields ↔ ∀ f ∈ front, f.content = [] := by
  constructor
  · intro h f hf
    by_contra hc
    -- the values of the fields in front add to the bytes under their name
    have hle := length_intercalate_append_le (str ";") (contents front f.key)
      (contents fields f.key)
    rw [← contents_append, ← weight_eq, ← weight_eq, weight, weight, h] at hle
    have hmem : f.content ∈ contents front f.key := by
      refine List.mem_filter.2 ⟨List.mem_map_of_mem (List.mem_filter.2 ⟨hf, by simp⟩), ?_⟩
      simpa using hc
    have hlen := (List.sublist_flatten_of_mem hmem).length_le
    have hpos := List.length_pos_iff.2 hc
    omega
  · intro h
    funext k
    have hnone : contents front k = [] := by
      rw [contents, List.filter_eq_nil_iff]
      intro v hv
      obtain ⟨f, hf, rfl⟩ := List.mem_map.1 hv
      simp [h f (List.mem_of_mem_filter hf)]
    rw [headInfo, headInfo, contents_append, hnone, List.nil_append]

end Fields

/-! ### The lines that are read -/

section Lines

variable {k : Bytes}

/-- The values of lines are not empty. -/
theorem ne_nil_of_mem_lineContents {lines : List Bytes} {v : Bytes}
    (h : v ∈ lineContents lines k) : v ≠ [] := by
  simpa using (List.mem_filter.1 h).2

/-- **Lines are gathered by name**, as fields are. -/
theorem foldl_storeLine_apply (lines : List Bytes) (head : Head) (k : Bytes) :
    lines.foldl storeLine head k = (lineContents lines k).foldl joinValue (head k) := by
  rw [lineContents, ← foldl_joinValue_filter, List.foldl_map]
  induction lines generalizing head with
  | nil => rfl
  | cons line lines ih =>
      rw [List.foldl_cons, ih, storeLine]
      by_cases hname : untilAny [colon] line = []
      · simp [hname]
      · rw [if_neg hname, addValue_apply]
        by_cases hk : (untilAny [colon] line).map toLower = k
        · simp [hname, hk]
        · simp [hname, hk, Ne.symm hk]

/-- What a text gives under a name is the values of its lines, joined with `';'`. -/
theorem storeLines_empty (text k : Bytes) :
    storeLines .empty text k = if lineContents (text.splitOn lf) k = [] then none else
      some ((str ";").intercalate (lineContents (text.splitOn lf) k)) := by
  rw [storeLines, foldl_storeLine_apply]
  exact foldl_joinValue_none fun _ => ne_nil_of_mem_lineContents

/-- Values that are not empty are joined to an empty text only if there are none. -/
theorem intercalate_eq_nil_iff {vs : List Bytes} (hvs : ∀ v ∈ vs, v ≠ []) :
    (str ";").intercalate vs = [] ↔ vs = [] := by
  constructor
  · intro h
    cases vs with
    | nil => rfl
    | cons v vs =>
        cases vs with
        | nil => exact absurd (by simpa using h) (hvs v (by simp))
        | cons w vs =>
            rw [List.intercalate_cons_cons] at h
            simp [hvs v (by simp)] at h
  · rintro rfl
    rfl

/-- **When lines give the map of fields**: under every name, the values are joined to the same
text. -/
theorem storeLines_eq_headInfo_iff (text : Bytes) (fields : List Field) :
    storeLines .empty text = headInfo fields ↔
      ∀ k, (str ";").intercalate (lineContents (text.splitOn lf) k) =
        (str ";").intercalate (contents fields k) := by
  rw [funext_iff]
  refine forall_congr' fun k => ?_
  have hlines : (str ";").intercalate (lineContents (text.splitOn lf) k) = [] ↔ _ :=
    intercalate_eq_nil_iff fun _ => ne_nil_of_mem_lineContents
  have hfields : (str ";").intercalate (contents fields k) = [] ↔ _ :=
    intercalate_eq_nil_iff fun _ => ne_nil_of_mem_contents
  rw [storeLines_empty, headInfo]
  split_ifs with h₁ h₂ h₂
  · rw [hlines.2 h₁, hfields.2 h₂]
    simp
  · rw [hlines.2 h₁]
    exact iff_of_false (by simp) fun h => h₂ (hfields.1 h.symm)
  · rw [hfields.2 h₂]
    exact iff_of_false (by simp) fun h => h₁ (hlines.1 h)
  · exact Option.some_inj

end Lines

/-! ### Reading the head -/

/-- What the field loop finds is repeated in the text. -/
theorem repeats_of_headLoop {text rest : Bytes} {fields : List Field}
    (h : headLoop [] [] 0 .empty text = some (rest, headInfo fields)) :
    Repeats fields text := by
  rw [headLoop_eq, Option.map_eq_some_iff] at h
  obtain ⟨r, hr, heq⟩ := h
  obtain ⟨-, hhead⟩ := Prod.mk.inj heq
  exact ⟨r.1, r.2, hr, (storeLines_eq_headInfo_iff r.1 fields).1 hhead⟩

namespace ResponseHead

variable (h : ResponseHead) {body : Bytes} {state : ℕ}

/-- The text behind the code. -/
theorem bareBytes_append (body : Bytes) :
    h.bareBytes ++ body = str "HTTP" ++ (str "/1.1" ++ space :: (h.code ++
      (h.eol.bytes ++ (h.lines ++ (h.eol.bytes ++ body))))) := by
  simp [bareBytes, str]

/-- There is no space in the code. -/
theorem code_ne_space : ∀ c ∈ h.code, c ≠ space :=
  fun _ hc => IsDecimal.ne_of_mem h.code_ok (by decide) hc

/-- With no reason phrase, the status is the same, and the field loop begins behind the line
of the next space, if there is one. -/
theorem httpGetHead_bareBytes_cases (body : Bytes) (state : ℕ) :
    (space ∉ h.eol.bytes ++ (h.lines ++ (h.eol.bytes ++ body)) ∧
        (httpGetHead (h.bareBytes ++ body) .empty state).ok = false) ∨
      ∃ x rest, h.eol.bytes ++ (h.lines ++ (h.eol.bytes ++ body)) = x ++ space :: rest ∧
        space ∉ x ∧ httpGetHead (h.bareBytes ++ body) .empty state =
          match headLoop [] [] 0 .empty (skipLine rest) with
          | some y => ⟨true, y.1, y.2, h.status⟩
          | none => ⟨false, [], .empty, h.status⟩ := by
  have hversion : ∀ c ∈ str "/1.1", c ≠ space := forall_mem_of_all rfl
  rw [h.bareBytes_append]
  by_cases hspace : space ∈ h.eol.bytes ++ (h.lines ++ (h.eol.bytes ++ body))
  · obtain ⟨x, rest, hx, hnot⟩ := List.eq_append_cons_of_mem hspace
    refine Or.inr ⟨x, rest, hx, hnot, ?_⟩
    have hw : ∀ c ∈ h.code ++ x, c ≠ space := by
      intro c hc
      rcases List.mem_append.1 hc with hc | hc
      · exact h.code_ne_space c hc
      · exact fun heq => hnot (heq ▸ hc)
    -- the code is read up to the line end behind it
    have hstop : ∀ c r, x = c :: r → ¬ digitVal c < 10 := by
      rintro c r rfl
      cases heol : h.eol with
      | crlf =>
          rw [heol] at hx
          rw [← (List.cons.inj hx).1]
          decide
      | lf =>
          rw [heol] at hx
          rw [← (List.cons.inj hx).1]
          decide
    have hstatus : toSize (atoi (h.code ++ x)) = h.status := by
      have := h.status_lt
      rw [h.code_ok.atoi_append h.status_lt hstop, toSize]
      omega
    have hne : h.code ++ x ≠ [] := by simp [h.code_ok.ne_nil]
    have hread := httpGetHead_spaces hversion hw hne rest .empty state
    rw [hstatus] at hread
    rw [hx, ← List.append_assoc h.code]
    exact hread
  · refine Or.inl ⟨hspace, httpGetHead_one_space hversion ?_ _ _⟩
    intro c hc
    rcases List.mem_append.1 hc with hc | hc
    · exact h.code_ne_space c hc
    · exact fun heq => hspace (heq ▸ hc)

/-- A head that is read behind a line has the end of this line in the text. -/
theorem lf_mem_of_headLoop {rest : Bytes} {y : Bytes × Head}
    (hloop : headLoop [] [] 0 .empty (skipLine rest) = some y) : lf ∈ rest := by
  by_contra hlf
  have hnil : skipLine rest = [] := by
    have happ := skipLine_append (x := rest) (fun c hc heq => hlf (heq ▸ hc)) []
    rwa [List.append_nil] at happ
  rw [hnil] at hloop
  cases hloop

/-- What is read with no reason phrase is read from the text behind the line of the first
space. -/
theorem same_bareBytes_iff (hf : h.fields ≠ []) (body : Bytes) (state : ℕ) :
    (httpGetHead (h.bareBytes ++ body) .empty state).Same
        (httpGetHead (h.bytes ++ body) .empty state) ↔
      ∃ text, BehindSpace (h.eol.bytes ++ (h.lines ++ (h.eol.bytes ++ body))) text ∧
        Repeats h.fields text := by
  rw [h.httpGetHead_bytes hf, addFields_empty]
  rcases h.httpGetHead_bareBytes_cases body state with ⟨hnone, hok⟩ | ⟨x, rest, heq, hx, hread⟩
  · refine iff_of_false (fun hsame => ?_) ?_
    · rw [HeadResult.Same, hok] at hsame
      exact absurd hsame.1 (by simp)
    · rintro ⟨text, ⟨x, y, heq, -, -⟩, -⟩
      exact hnone (by simp [heq])
  rw [hread, heq]
  constructor
  · intro hsame
    cases hloop : headLoop [] [] 0 .empty (skipLine rest) with
    | none => simp [HeadResult.Same, hloop] at hsame
    | some y =>
        simp only [HeadResult.Same, hloop, true_and] at hsame
        obtain ⟨u, text, rfl, hu⟩ := List.eq_append_cons_of_mem (lf_mem_of_headLoop hloop)
        refine ⟨text, ⟨x, u, rfl, hx, hu⟩, ?_⟩
        rw [skipLine_append fun c hc heq => hu (heq ▸ hc)] at hloop
        have hread : headLoop [] [] 0 .empty text = some (y.1, headInfo _) :=
          hloop.trans (congrArg some (Prod.ext rfl hsame))
        exact repeats_of_headLoop hread
  · rintro ⟨text, ⟨x', y, heq', hx', hy⟩, lines, r, hlines, hstore⟩
    obtain ⟨-, rfl⟩ := append_cons_inj hx hx' heq'
    have hskip : skipLine (y ++ lf :: text) = text :=
      skipLine_append (fun c hc heq => hy (heq ▸ hc)) (lf :: text)
    rw [hskip, headLoop_eq, hlines, Option.map_some,
      (storeLines_eq_headInfo_iff lines h.fields).2 hstore]
    exact ⟨rfl, rfl, rfl⟩

/-- The fields in front of the first one with a space in it are passed over. -/
theorem behindSpace_lines_iff (body text : Bytes) :
    BehindSpace (h.eol.bytes ++ (h.lines ++ (h.eol.bytes ++ body))) text ↔
      BehindSpace ((h.fields.dropWhile (!·.spaced)).flatMap (Field.line h.eol) ++
        (h.eol.bytes ++ body)) text := by
  have hfront : space ∉ h.eol.bytes ++
      (h.fields.takeWhile (!·.spaced)).flatMap (Field.line h.eol) := by
    intro hmem
    rcases List.mem_append.1 hmem with hmem | hmem
    · cases heol : h.eol <;> rw [heol] at hmem <;> exact absurd hmem (by decide)
    · obtain ⟨f, hf, hline⟩ := List.mem_flatMap.1 hmem
      have hspaced := List.mem_takeWhile_imp hf
      exact not_mem_line_of_spaced (by simpa using hspaced) h.eol hline
  have hlines : h.lines = (h.fields.takeWhile (!·.spaced)).flatMap (Field.line h.eol) ++
      (h.fields.dropWhile (!·.spaced)).flatMap (Field.line h.eol) := by
    rw [← List.flatMap_append, List.takeWhile_append_dropWhile, lines]
  rw [hlines, List.append_assoc, ← List.append_assoc h.eol.bytes, BehindSpace.append_iff hfront]

end ResponseHead

/-- A head in which the first field has no value. -/
def blankHead : ResponseHead where
  eol := .crlf
  code := str "204"
  status := 204
  code_ok := ⟨by decide, forall_mem_of_all rfl, by decide⟩
  status_lt := by decide
  reason := str "No Content"
  reason_ok := forall_mem_of_all rfl
  fields := [
    ⟨str "Y", str "  ", by decide, forall_mem_of_all rfl, forall_mem_of_all rfl⟩,
    ⟨str "B", str " c", by decide, forall_mem_of_all rfl, forall_mem_of_all rfl⟩]

end HttpTools
end Scaner
