/-
# Heads as text, and what the parser makes of them

A `ResponseHead` is a head as a server writes it: the status line
`HTTP/1.1 <code> <reason>`, the fields, an empty line, with CRLF or LF at the
end of every line.  Its fields keep the conditions of the format, so that every
value of the type is a head.

`httpGetHead_bytes`: on the text of a head with at least one field, followed by
any bytes, `http_get_head` returns true, with the status, with the fields
gathered by name, and with `begin_` at the first byte behind the head.

`httpGetHead_append`: a head that is parsed stays parsed when bytes follow.  So
no proper prefix of a head is taken for one (`not_ok_of_prefix`), which is what
a receiver that parses everything it has so far relies on.
-/

import Scaner.HttpTools.HeadLines
import Mathlib.Tactic.Common

namespace Scaner
namespace HttpTools

open Bytes

/-- The line ends the parser knows. -/
inductive Eol
  | crlf
  | lf
  deriving DecidableEq

namespace Eol

/-- The bytes of a line end. -/
def bytes : Eol → Bytes
  | crlf => [cr, Bytes.lf]
  | lf => [Bytes.lf]

end Eol

/-- A header field.  The value may have blanks at both ends. -/
structure Field where
  name : Bytes
  value : Bytes
  name_ne : name ≠ []
  name_ok : ∀ c ∈ name, c ≠ colon ∧ c ≠ cr ∧ c ≠ lf
  value_ok : ∀ c ∈ value, c ≠ cr ∧ c ≠ lf

namespace Field

/-- The name as the map has it. -/
def key (f : Field) : Bytes := f.name.map toLower

/-- The value as the map has it. -/
def content (f : Field) : Bytes := trim valueEnds f.value

/-- The line of a field. -/
def line (eol : Eol) (f : Field) : Bytes := f.name ++ colon :: (f.value ++ eol.bytes)

end Field

/-- A head: its status line and its fields. -/
structure ResponseHead where
  eol : Eol
  code : Bytes
  status : ℕ
  code_ok : IsDecimal code status
  status_lt : status < 2 ^ 31
  reason : Bytes
  reason_ok : ∀ c ∈ reason, c ≠ lf
  fields : List Field

namespace ResponseHead

/-- The status line, with its line end. -/
def statusLine (h : ResponseHead) : Bytes :=
  str "HTTP/1.1 " ++ (h.code ++ space :: (h.reason ++ h.eol.bytes))

/-- The lines of the fields. -/
def lines (h : ResponseHead) : Bytes := h.fields.flatMap (Field.line h.eol)

/-- The head as it is sent, up to the empty line. -/
def bytes (h : ResponseHead) : Bytes := h.statusLine ++ (h.lines ++ h.eol.bytes)

end ResponseHead

/-- The fields added to a map, in order. -/
def addFields (fields : List Field) (head : Head) : Head :=
  fields.foldl (fun m f => addValue f.key f.content m) head

/-! ### The lines of the fields -/

namespace Field

/-- The line without its end. -/
def text (f : Field) : Bytes := f.name ++ colon :: f.value

/-- The line of a field is its text and a line end. -/
theorem line_append (f : Field) (eol : Eol) (s : Bytes) :
    f.line eol ++ s = f.text ++ (eol.bytes ++ s) := by
  simp [line, text]

/-- There is no line end in the text of a field. -/
theorem text_ok (f : Field) : ∀ c ∈ f.text, c ≠ cr ∧ c ≠ lf := by
  intro c hc
  rcases List.mem_append.1 hc with hc | hc
  · exact (f.name_ok c hc).2
  · rcases List.mem_cons.1 hc with rfl | hc
    · decide
    · exact f.value_ok c hc

/-- What is stored of a line; the CR in front of an LF is trimmed off. -/
theorem storeLine_text (f : Field) {t : Bytes} (ht : t = [] ∨ t = [cr]) (head : Head) :
    storeLine head (f.text ++ t) = addValue f.key f.content head := by
  have hname : colon ∉ f.name := fun h => (f.name_ok colon h).1 rfl
  have htrim : trim valueEnds (f.value ++ t) = f.content := by
    rcases ht with rfl | rfl
    · rw [List.append_nil, content]
    · rw [trim_append_of_mem (by decide), content]
  have hcut := untilAny_colon hname (f.value ++ t)
  rw [text, List.append_assoc, List.cons_append, storeLine, hcut.1, hcut.2, if_neg f.name_ne,
    List.drop_one, List.tail_cons, htrim]
  rfl

/-- A line in front of a text that is not blank is not where the head ends. -/
theorem splitBlank_line (f : Field) (eol : Eol) {s : Bytes} (hs : NotBlank s) :
    splitBlank (f.line eol ++ s) = (splitBlank s).map fun r => (f.line eol ++ r.1, r.2) := by
  have heol : splitBlank (eol.bytes ++ s) =
      (splitBlank s).map fun r => (eol.bytes ++ r.1, r.2) := by
    cases eol with
    | crlf => exact splitBlank_crlf hs
    | lf => exact splitBlank_lf hs
  rw [f.line_append, splitBlank_pass f.text_ok, heol, Option.map_map]
  simp [Function.comp_def, line_append]

/-- The line in front of an empty one is the last of the head. -/
theorem splitBlank_last (f : Field) (eol : Eol) (body : Bytes) :
    splitBlank (f.line eol ++ (eol.bytes ++ body)) = some (f.text, body) := by
  have heol : splitBlank (eol.bytes ++ (eol.bytes ++ body)) = some ([], body) := by
    cases eol <;> rfl
  rw [f.line_append, splitBlank_pass f.text_ok, heol, Option.map_some, List.append_nil]

/-- The line of a field is stored as the field. -/
theorem storeLines_line (f : Field) (eol : Eol) (head : Head) (s : Bytes) :
    storeLines head (f.line eol ++ s) = storeLines (addValue f.key f.content head) s := by
  have hlf : lf ∉ f.text := fun h => (f.text_ok lf h).2 rfl
  rw [f.line_append]
  cases eol with
  | crlf =>
      have hline : f.text ++ (Eol.crlf.bytes ++ s) = (f.text ++ [cr]) ++ lf :: s := by
        simp [Eol.bytes]
      have hcr : lf ∉ f.text ++ [cr] := by
        simpa [hlf] using (by decide : lf ≠ cr)
      rw [hline, storeLines_append hcr, f.storeLine_text (Or.inr rfl)]
  | lf =>
      have hstore := f.storeLine_text (Or.inl rfl) head
      rw [List.append_nil] at hstore
      rw [← hstore]
      exact storeLines_append hlf head s

end Field

/-- A line with a name in it is no empty line. -/
theorem Field.notBlank_line (eol : Eol) (f : Field) (s : Bytes) : NotBlank (f.line eol ++ s) := by
  obtain ⟨b, x, hx⟩ := List.exists_cons_of_ne_nil f.name_ne
  have hb := f.name_ok b (by simp [hx])
  simp only [Field.line, hx, List.cons_append]
  exact .of_ne hb.2.1 hb.2.2

/-- The text of the fields up to the empty line. -/
theorem splitBlank_fields (eol : Eol) {fields : List Field} (hf : fields ≠ []) (body : Bytes) :
    ∃ text, splitBlank (fields.flatMap (Field.line eol) ++ (eol.bytes ++ body)) =
        some (text, body) ∧ ∀ head, storeLines head text = addFields fields head := by
  induction fields with
  | nil => exact absurd rfl hf
  | cons f fields ih =>
      rw [List.flatMap_cons, List.append_assoc]
      cases fields with
      | nil =>
          have hlf : lf ∉ f.text := fun h => (f.text_ok lf h).2 rfl
          refine ⟨f.text, f.splitBlank_last eol body, fun head => ?_⟩
          have hstore := f.storeLine_text (Or.inl rfl) head
          rw [List.append_nil] at hstore
          rw [storeLines_of_not_mem hlf, hstore]
          rfl
      | cons g fields =>
          have hs : NotBlank ((g :: fields).flatMap (Field.line eol) ++ (eol.bytes ++ body)) := by
            rw [List.flatMap_cons, List.append_assoc]
            exact g.notBlank_line eol _
          obtain ⟨text, hsplit, hstore⟩ := ih (by simp)
          refine ⟨f.line eol ++ text, by rw [f.splitBlank_line eol hs, hsplit]; rfl, fun head => ?_⟩
          rw [f.storeLines_line, hstore]
          rfl

/-- **The field loop gathers the fields**, and ends behind the empty line. -/
theorem headLoop_fields (eol : Eol) {fields : List Field} (hf : fields ≠ []) (body : Bytes)
    {head : Head} :
    headLoop [] [] 0 head (fields.flatMap (Field.line eol) ++ (eol.bytes ++ body)) =
      some (body, addFields fields head) := by
  obtain ⟨text, hsplit, hstore⟩ := splitBlank_fields eol hf body
  rw [headLoop_eq, hsplit, Option.map_some, hstore]

/-! ### The status line -/

/-- The status scan passes over what has no space in it. -/
theorem scanStatus_append {x : Bytes} (hx : ∀ c ∈ x, c ≠ space) (p t : Bytes) :
    scanStatus p (x ++ t) = scanStatus p t := by
  induction x with
  | nil => rfl
  | cons b x ih =>
      rw [List.cons_append, scanStatus, if_neg (hx b (by simp)), ih fun c hc => hx c (by simp [hc])]

/-- What has no newline in it is passed over. -/
theorem skipLine_append {x : Bytes} (hx : ∀ c ∈ x, c ≠ lf) (t : Bytes) :
    skipLine (x ++ t) = skipLine t := by
  induction x with
  | nil => rfl
  | cons b x ih =>
      rw [List.cons_append, skipLine, if_neg (hx b (by simp)), ih fun c hc => hx c (by simp [hc])]

/-- A line ends where its line end does. -/
theorem skipLine_eol (eol : Eol) (t : Bytes) : skipLine (eol.bytes ++ t) = t := by
  cases eol <;> rfl

/-- The status scan finds what lies between the first two spaces. -/
theorem scanStatus_spaces {x w : Bytes} (hx : ∀ c ∈ x, c ≠ space) (hw : ∀ c ∈ w, c ≠ space)
    (rest : Bytes) :
    scanStatus [] (x ++ space :: (w ++ space :: rest)) =
      (space :: rest, w ++ space :: rest, w.length) := by
  have hne : w ++ space :: rest ≠ [] := by simp
  rw [scanStatus_append hx, scanStatus, if_pos rfl, if_pos rfl, scanStatus_append hw, scanStatus,
    if_pos rfl, if_neg hne]
  congr 2
  simp only [List.length_append, List.length_cons]
  omega

/-- The search for `HTTP` stops where it begins. -/
theorem seekHttp_http (s : Bytes) : seekHttp (str "HTTP" ++ s) = str "HTTP" ++ s := by
  have hcons : str "HTTP" ++ s = 72 :: (str "TTP" ++ s) := rfl
  have hstart : startsWith (72 :: (str "TTP" ++ s)) (str "HTTP") = true := rfl
  rw [hcons, seekHttp, if_pos hstart]

/-- **What the parser does with the status**: it is the text between the first two spaces,
wherever the second one is, and the field loop begins behind the line of the second one. -/
theorem httpGetHead_spaces {version w : Bytes} (hversion : ∀ c ∈ version, c ≠ space)
    (hw : ∀ c ∈ w, c ≠ space) (hne : w ≠ []) (rest : Bytes) (head : Head) (state : ℕ) :
    httpGetHead (str "HTTP" ++ (version ++ space :: (w ++ space :: rest))) head state =
      match headLoop [] [] 0 head (skipLine rest) with
      | some x => ⟨true, x.1, x.2, toSize (atoi w)⟩
      | none => ⟨false, [], .empty, toSize (atoi w)⟩ := by
  have hhttp : str "HTTP" ++ (version ++ space :: (w ++ space :: rest)) ≠ [] := by simp [str]
  have hdrop : (str "HTTP" ++ (version ++ space :: (w ++ space :: rest))).drop 4 =
      version ++ space :: (w ++ space :: rest) := rfl
  have htext : (w ++ space :: rest).take w.length = w := by simp
  have hlen : w.length ≠ 0 := by simpa using hne
  have hskip : skipLine (space :: rest) = skipLine rest := by rw [skipLine, if_neg (by decide)]
  unfold httpGetHead
  simp only [seekHttp_http, hhttp, if_false, hdrop, scanStatus_spaces hversion hw, hskip]
  cases headLoop [] [] 0 head (skipLine rest) <;> rw [if_pos ⟨by simp, hlen⟩, htext]

/-- With one space only there is no status. -/
theorem httpGetHead_one_space {version w : Bytes} (hversion : ∀ c ∈ version, c ≠ space)
    (hw : ∀ c ∈ w, c ≠ space) (head : Head) (state : ℕ) :
    (httpGetHead (str "HTTP" ++ (version ++ space :: w)) head state).ok = false := by
  have hhttp : str "HTTP" ++ (version ++ space :: w) ≠ [] := by simp [str]
  have hdrop : (str "HTTP" ++ (version ++ space :: w)).drop 4 = version ++ space :: w := rfl
  have hscan : scanStatus [] (version ++ space :: w) = ([], w, 0) := by
    have hend := scanStatus_append hw w []
    rw [List.append_nil] at hend
    rw [scanStatus_append hversion, scanStatus, if_pos rfl, if_pos rfl, hend]
    rfl
  unfold httpGetHead
  simp [seekHttp_http, hhttp, hdrop, hscan]

/-- A status or a length in decimal digits is read as the number. -/
theorem toSize_atoi {s : Bytes} {n : ℕ} (h : IsDecimal s n) (hn : n < 2 ^ 31) :
    toSize (atoi s) = n := by
  rw [h.atoi_eq hn, toSize]
  omega

namespace ResponseHead

variable (h : ResponseHead)

/-- The status line is followed by the field loop. -/
theorem httpGetHead_statusLine (t : Bytes) (head : Head) (state : ℕ) :
    httpGetHead (h.statusLine ++ t) head state =
      match headLoop [] [] 0 head t with
      | some x => ⟨true, x.1, x.2, h.status⟩
      | none => ⟨false, [], .empty, h.status⟩ := by
  have hline : h.statusLine ++ t = str "HTTP" ++ (str "/1.1" ++ space :: (h.code ++ space ::
      (h.reason ++ (h.eol.bytes ++ t)))) := by
    simp [statusLine, str]
  have hcode : ∀ c ∈ h.code, c ≠ space := fun c hc => IsDecimal.ne_of_mem h.code_ok (by decide) hc
  rw [hline, httpGetHead_spaces (forall_mem_of_all rfl) hcode h.code_ok.ne_nil,
    skipLine_append h.reason_ok, skipLine_eol, toSize_atoi h.code_ok h.status_lt]

/-- **The parser inverts the writer**: on the text of a head with a field, with
any bytes behind it, it returns true with the status and the fields of the
head, and leaves `begin_` at the first byte behind it. -/
theorem httpGetHead_bytes (hf : h.fields ≠ []) (body : Bytes) (head : Head) (state : ℕ) :
    httpGetHead (h.bytes ++ body) head state = ⟨true, body, addFields h.fields head, h.status⟩ := by
  have hb : h.bytes ++ body =
      h.statusLine ++ (h.fields.flatMap (Field.line h.eol) ++ (h.eol.bytes ++ body)) := by
    simp [bytes, lines]
  rw [hb, httpGetHead_statusLine, headLoop_fields h.eol hf]

end ResponseHead

/-! ### More bytes behind a head -/

/-- A pointer of a buffer that grows by `d`; the past-the-end pointer that stands
for none stays one. -/
def grow (d p : Bytes) : Bytes := if p = [] then [] else p ++ d

/-- A pointer that has been set sees what is appended to the buffer. -/
theorem grow_of_ne {d p : Bytes} (h : p ≠ []) : grow d p = p ++ d := if_neg h

/-- A pointer that has not been set stays null. -/
theorem grow_eq_nil_iff {d p : Bytes} : grow d p = [] ↔ p = [] := by
  unfold grow
  split_ifs with h <;> simp [h]

/-- What is found is found with further bytes behind it. -/
theorem seekHttp_append {s : Bytes} (h : seekHttp s ≠ []) (d : Bytes) :
    seekHttp (s ++ d) = seekHttp s ++ d := by
  induction s with
  | nil => exact absurd rfl h
  | cons b s ih =>
      have hlen : (str "HTTP").length ≤ (b :: s).length :=
        (length_le_of_startsWith (startsWith_seekHttp h)).trans (seekHttp_suffix _).length_le
      rw [seekHttp] at h
      rw [List.cons_append, seekHttp, seekHttp, ← List.cons_append,
        startsWith_append_of_length hlen]
      split_ifs at h ⊢ with hb
      · rfl
      · exact ih h

/-- A status that is found is the same with further bytes behind it. -/
theorem scanStatus_grow (d : Bytes) {p s : Bytes} (h : (scanStatus p s).2.2 ≠ 0) :
    scanStatus (grow d p) (s ++ d) =
      ((scanStatus p s).1 ++ d, (scanStatus p s).2.1 ++ d, (scanStatus p s).2.2) := by
  induction s generalizing p with
  | nil => simp [scanStatus] at h
  | cons b s ih =>
      rw [scanStatus] at h
      rw [List.cons_append, scanStatus, scanStatus]
      simp only [grow_eq_nil_iff]
      split_ifs at h ⊢ with hb hp
      · -- the first space is not the last byte, for a second one is found
        have hs : s ≠ [] := by
          rintro rfl
          simp [scanStatus] at h
        have := ih h
        rwa [grow_of_ne hs] at this
      · rw [grow_of_ne hp]
        refine Prod.ext rfl (Prod.ext rfl ?_)
        simp only [List.length_append, List.length_cons]
        omega
      · exact ih h

/-- A line that ends is passed over in the same way with further bytes behind it. -/
theorem skipLine_append_of_ne {s : Bytes} (h : skipLine s ≠ []) (d : Bytes) :
    skipLine (s ++ d) = skipLine s ++ d := by
  induction s with
  | nil => exact absurd rfl h
  | cons b s ih =>
      rw [skipLine] at h
      rw [List.cons_append, skipLine, skipLine]
      split_ifs at h ⊢
      · rfl
      · exact ih h

/-- The status lies within the text. -/
theorem scanStatus_take_le (p s : Bytes) (h : (scanStatus p s).2.2 ≠ 0) :
    (scanStatus p s).2.2 ≤ (scanStatus p s).2.1.length := by
  induction s generalizing p with
  | nil => simp [scanStatus] at h
  | cons b s ih =>
      rw [scanStatus] at h ⊢
      split_ifs at h ⊢
      · exact ih s h
      · exact Nat.sub_le _ _
      · exact ih p h

/-- **A head stays parsed when bytes follow**: same status and fields, and
`begin_` at the same byte. -/
theorem httpGetHead_append {s : Bytes} {head : Head} {state : ℕ}
    (h : (httpGetHead s head state).ok = true) (d : Bytes) :
    httpGetHead (s ++ d) head state =
      { httpGetHead s head state with rest := (httpGetHead s head state).rest ++ d } := by
  unfold httpGetHead at h ⊢
  simp only at h ⊢
  split_ifs at h with h₁ h₂
  cases hl : headLoop [] [] 0 head (skipLine (scanStatus [] ((seekHttp s).drop 4)).1) with
  | none => simp [hl] at h
  | some x =>
      have h4 : 4 ≤ (seekHttp s).length := length_le_of_startsWith (startsWith_seekHttp h₁)
      have hline : skipLine (scanStatus [] ((seekHttp s).drop 4)).1 ≠ [] := by
        intro h0
        simp [h0, headLoop] at hl
      have hloop := headLoop_append d hl
      have hscan := scanStatus_grow d (p := []) h₂.2
      rw [show grow d [] = [] from rfl] at hscan
      have hne : seekHttp s ++ d ≠ [] := by simp [h₁]
      rw [seekHttp_append h₁, if_neg hne, List.drop_append_of_le_length h4, hscan,
        skipLine_append_of_ne hline]
      simp only [hloop, if_neg h₁, if_pos h₂,
        List.take_append_of_le_length (scanStatus_take_le _ _ h₂.2)]
      rw [if_pos ⟨by simp [h₂.1], h₂.2⟩]

namespace ResponseHead

/-- **No proper prefix of a head is taken for one.** -/
theorem not_ok_of_prefix (h : ResponseHead) (hf : h.fields ≠ []) {c : Bytes} (hc : c <+: h.bytes)
    (hlt : c.length < h.bytes.length) (head : Head) (state : ℕ) :
    (httpGetHead c head state).ok = false := by
  rw [← Bool.not_eq_true]
  intro hok
  obtain ⟨d, hd⟩ := hc
  have happ := httpGetHead_append hok d
  have hfull := h.httpGetHead_bytes hf [] head state
  rw [List.append_nil] at hfull
  rw [hd, hfull] at happ
  have hrest := congrArg HeadResult.rest happ
  have hd0 : d = [] := by
    simp only [List.nil_eq, List.append_eq_nil_iff] at hrest
    exact hrest.2
  rw [← hd, hd0] at hlt
  simp at hlt

end ResponseHead

/-! ### The fields under one name -/

/-- What stands under a key after one more value. -/
def joinValue (old : Option Bytes) (value : Bytes) : Option Bytes :=
  if value = [] then old
  else if old.getD [] = [] then some value
  else some (old.getD [] ++ str ";" ++ value)

/-- A value is joined to what stands under its name, and the other names are left. -/
theorem addValue_apply (key value : Bytes) (head : Head) (k : Bytes) :
    addValue key value head k = if k = key then joinValue (head k) value else head k := by
  by_cases h : k = key
  · subst h
    rw [if_pos rfl, addValue, joinValue, Head.index]
    split_ifs <;> simp [Head.set]
  · rw [if_neg h, addValue_of_ne h]

/-- **Fields are gathered by name**: what stands under a key comes from the
fields of that name, in order. -/
theorem addFields_apply (fields : List Field) (head : Head) (k : Bytes) :
    addFields fields head k =
      (fields.filter (·.key = k)).foldl (fun o f => joinValue o f.content) (head k) := by
  induction fields generalizing head with
  | nil => rfl
  | cons f fields ih =>
      rw [addFields, List.foldl_cons]
      change addFields fields _ k = _
      rw [ih, addValue_apply]
      by_cases h : f.key = k
      · simp [h]
      · simp [h, Ne.symm h]

/-- A name that no field has is not in the map. -/
theorem addFields_of_not_mem {fields : List Field} {k : Bytes} (h : ∀ f ∈ fields, f.key ≠ k)
    (head : Head) : addFields fields head k = head k := by
  have : fields.filter (·.key = k) = [] := by
    rw [List.filter_eq_nil_iff]
    simpa using h
  rw [addFields_apply, this]
  rfl

/-- A name that one field has is mapped to the content of that field. -/
theorem addFields_of_filter_eq {fields : List Field} {k : Bytes} {f : Field}
    (h : fields.filter (·.key = k) = [f]) (hf : f.content ≠ []) :
    addFields fields .empty k = some f.content := by
  rw [addFields_apply, h]
  simp [joinValue, hf, Head.empty]

/-- The values of the fields of one name, in order, without the empty ones. -/
def contents (fields : List Field) (k : Bytes) : List Bytes :=
  ((fields.filter (·.key = k)).map Field.content).filter (· ≠ [])

/-- The map of a list of fields: under each name its values, joined with `';'`. -/
def headInfo (fields : List Field) : Head := fun k =>
  if contents fields k = [] then none else some ((str ";").intercalate (contents fields k))

/-- An empty value is not joined. -/
theorem joinValue_nil (o : Option Bytes) : joinValue o [] = o := if_pos rfl

/-- So empty values may be left out. -/
theorem foldl_joinValue_filter (o : Option Bytes) (vs : List Bytes) :
    vs.foldl joinValue o = (vs.filter (· ≠ [])).foldl joinValue o := by
  induction vs generalizing o with
  | nil => rfl
  | cons v vs ih =>
      by_cases hv : v = []
      · subst hv
        rw [List.foldl_cons, joinValue_nil, ih, List.filter_cons_of_neg (by simp)]
      · rw [List.foldl_cons, ih, List.filter_cons_of_pos (by simpa using hv), List.foldl_cons]

/-- Values are joined with `';'` behind the first one. -/
theorem foldl_joinValue_some {v : Bytes} (hv : v ≠ []) {vs : List Bytes}
    (hvs : ∀ w ∈ vs, w ≠ []) :
    vs.foldl joinValue (some v) = some ((str ";").intercalate (v :: vs)) := by
  induction vs generalizing v with
  | nil => simp
  | cons w vs ih =>
      have hjoin : joinValue (some v) w = some (v ++ str ";" ++ w) := by
        simp [joinValue, hvs w (by simp), hv]
      rw [List.foldl_cons, hjoin, ih (by simp [hv]) fun x hx => hvs x (by simp [hx]),
        List.intercalate_cons_cons]
      -- the first two values have become one
      cases vs with
      | nil => simp
      | cons x vs => simp [List.intercalate_cons_cons]

/-- Values gathered under a name that is not in the map are joined with `';'`. -/
theorem foldl_joinValue_none {vs : List Bytes} (hvs : ∀ v ∈ vs, v ≠ []) :
    vs.foldl joinValue none = if vs = [] then none else some ((str ";").intercalate vs) := by
  cases vs with
  | nil => rfl
  | cons v vs =>
      have hv : v ≠ [] := hvs v (by simp)
      have hfirst : joinValue none v = some v := by simp [joinValue, hv]
      rw [List.foldl_cons, hfirst, foldl_joinValue_some hv fun w hw => hvs w (by simp [hw]),
        if_neg (by simp)]

/-- The values of a name are not empty. -/
theorem ne_nil_of_mem_contents {fields : List Field} {k v : Bytes} (h : v ∈ contents fields k) :
    v ≠ [] := by
  simpa using (List.mem_filter.1 h).2

/-- **The map of a list of fields** is what the parser gathers from them. -/
theorem addFields_empty (fields : List Field) : addFields fields .empty = headInfo fields := by
  funext k
  have hfold : addFields fields .empty k = (contents fields k).foldl joinValue none := by
    rw [addFields_apply, contents, ← foldl_joinValue_filter, List.foldl_map]
    rfl
  rw [hfold, headInfo, foldl_joinValue_none fun _ => ne_nil_of_mem_contents]

namespace ResponseHead

/-- **The parser inverts the writer of heads**: on the status line, the fields and the empty
line of a head with a field, and any body behind them, it returns true with the status, with
the map of the fields, and with `begin_` at the body. -/
theorem httpGetHead_serialised (h : ResponseHead) (hf : h.fields ≠ []) (body : Bytes)
    (state : ℕ) :
    httpGetHead (h.bytes ++ body) .empty state = ⟨true, body, headInfo h.fields, h.status⟩ := by
  rw [h.httpGetHead_bytes hf, addFields_empty]

end ResponseHead

/-- A head with LF line ends, a name in two cases, and a field with no value. -/
def viaHead : ResponseHead where
  eol := .lf
  code := str "404"
  status := 404
  code_ok := ⟨by decide, forall_mem_of_all rfl, by decide⟩
  status_lt := by decide
  reason := str "Not Found"
  reason_ok := forall_mem_of_all rfl
  fields := [
    ⟨str "Via", str " a;", by decide, forall_mem_of_all rfl, forall_mem_of_all rfl⟩,
    ⟨str "X", str " ", by decide, forall_mem_of_all rfl, forall_mem_of_all rfl⟩,
    ⟨str "via", str " b:c", by decide, forall_mem_of_all rfl, forall_mem_of_all rfl⟩]

/-- Both values of `Via` are in the map, and `X` is not. -/
theorem httpGetHead_serialised_viaHead :
    viaHead.bytes = str "HTTP/1.1 404 Not Found\nVia: a;\nX: \nvia: b:c\n\n" ∧
      httpGetHead (viaHead.bytes ++ str "x: y") .empty 0 =
        ⟨true, str "x: y", headInfo viaHead.fields, 404⟩ ∧
      headInfo viaHead.fields (str "via") = some (str "a;b:c") ∧
      headInfo viaHead.fields (str "x") = none :=
  ⟨by decide, viaHead.httpGetHead_serialised (by simp [viaHead]) _ _, by decide, by decide⟩

end HttpTools
end Scaner
