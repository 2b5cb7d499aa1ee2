/-
# The characters of a document

`html_parser/utf8.cpp`: the iterator that turns the bytes of a document into code points, with
the errors (`html_parser/error.h`) that it records.  A pointer into the document is the number
of bytes in front of it, so that `_end` is the length of the document; `_parser` stands for the
list of errors that it leads to, which has no limit with the default options, and a tab stop
has eight columns.

`read_char` looks at the bytes behind `_start` (`readBytes`) and changes the iterator by what it
finds (`Utf8Iterator.readChar`).  It takes every form of a code point that has the right number
of continuation bytes: of forms that are longer than they need be only those of two bytes are
refused, and the surrogates are not (`Plain`, `readBytes_form`, `exists_form`).

What an iterator delivers from some place on is `decode` of the bytes there (`readAll_of_stands`).
So what has been encoded is read again, but for the line breaks, which all become a line feed
(`readDocument_encode`), a document is read without an error if it is made of forms that are
taken, and only then (`errors_eq_nil_iff`), and of any other bytes the characters can be written
down and read again (`readDocument_bytes`).  Going back to a mark gives the marked character
again unless it is a carriage return in one of the longer forms in front of a line feed, or
there is none: at the end of the document a bad character is read (`cursor_reset_iff`).
-/

import Scaner.Lib.Utf8

namespace Scaner
namespace Gumbo

open Bytes Utf8

/-- `struct GumboSourcePosition`. -/
structure GumboSourcePosition where
  line : ℕ
  column : ℕ
  offset : ℕ
  deriving DecidableEq

/-- `enum GumboErrorType`, without the two of the tree construction. -/
inductive GumboErrorType
  | utf8Invalid
  | utf8Truncated
  | utf8Null
  | numericCharRefNoDigits
  | numericCharRefWithoutSemicolon
  | numericCharRefInvalid
  | namedCharRefWithoutSemicolon
  | namedCharRefInvalid
  | tagStartsWithQuestion
  | tagEof
  | tagInvalid
  | closeTagEmpty
  | closeTagEof
  | closeTagInvalid
  | scriptEof
  | attrNameEof
  | attrNameInvalid
  | attrDoubleQuoteEof
  | attrSingleQuoteEof
  | attrUnquotedEof
  | attrUnquotedRightBracket
  | attrUnquotedEquals
  | attrAfterEof
  | attrAfterInvalid
  | duplicateAttr
  | solidusEof
  | solidusInvalid
  | dashesOrDoctype
  | commentEof
  | commentInvalid
  | commentBangAfterDoubleDash
  | commentDashAfterDoubleDash
  | commentSpaceAfterDoubleDash
  | commentEndBangEof
  | doctypeEof
  | doctypeInvalid
  | doctypeSpace
  | doctypeRightBracket
  | doctypeSpaceOrRightBracket
  | doctypeEnd
  deriving DecidableEq

/-- `enum GumboTokenizerErrorState`. -/
inductive GumboTokenizerErrorState
  | data
  | charRef
  | rcdata
  | rawtext
  | plaintext
  | script
  | tag
  | selfClosingTag
  | attrName
  | attrValue
  | markupDeclaration
  | comment
  | doctype
  | cdata
  deriving DecidableEq

/-- The union `v` of an error. -/
inductive GumboErrorValue
  | codepoint (codepoint : ℤ)
  | tokenizer (codepoint : ℤ) (state : GumboTokenizerErrorState)
  | text (text : Bytes)
  | duplicateAttr (name : Bytes) (originalIndex newIndex : ℕ)
  | none
  deriving DecidableEq

/-- `struct GumboError`. -/
structure GumboError where
  type : GumboErrorType
  position : GumboSourcePosition
  originalText : ℕ
  v : GumboErrorValue
  deriving DecidableEq

/-- `struct Utf8Iterator`. -/
structure Utf8Iterator where
  start : ℕ
  mark : ℕ
  current : ℤ
  width : ℕ
  pos : GumboSourcePosition
  markPos : GumboSourcePosition
  errors : List GumboError
  deriving DecidableEq

/-- `kUtf8ReplacementChar`. -/
def kUtf8ReplacementChar : ℕ := 0xFFFD

/-- `utf8_is_invalid_code_point`; `c & 0xFFFF` is the rest of `c` modulo `0x10000`. -/
def utf8IsInvalidCodePoint (c : ℤ) : Bool :=
  decide (0x1 ≤ c ∧ c ≤ 0x8) || c == 0xB || decide (0xE ≤ c ∧ c ≤ 0x1F) ||
    decide (0x7F ≤ c ∧ c ≤ 0x9F) || decide (0xFDD0 ≤ c ∧ c ≤ 0xFDEF) ||
    c % 0x10000 == 0xFFFE || c % 0x10000 == 0xFFFF

/-! ### One character -/

/-- What the first byte tells. -/
structure LeadByte where
  width : ℕ
  mask : ℕ
  isBadChar : Bool

/-- The cases of `read_char` for the first byte. -/
def leadByte (c : ℕ) : LeadByte :=
  if c < 0x80 then ⟨1, 0xFF, false⟩
  else if c < 0xC0 then ⟨1, 0, true⟩
  else if c < 0xE0 then ⟨2, 0x1F, decide (c < 0xC2)⟩
  else if c < 0xF0 then ⟨3, 0xF, false⟩
  else if c < 0xF5 then ⟨4, 0x7, false⟩
  else if c < 0xF8 then ⟨5, 0, true⟩
  else if c < 0xFC then ⟨6, 0, true⟩
  else if c < 0xFE then ⟨7, 0, true⟩
  else ⟨1, 0, true⟩

/-- The loop over the continuation bytes. -/
structure TailBytes where
  taken : ℕ
  codePoint : ℕ
  isBadChar : Bool

/-- The loop of `read_char`, with the turns that are left.  `c & ~0x80` is `c & 0x7F` of a
byte. -/
def readTail : ℕ → Bytes → ℕ → TailBytes
  | 0, _, codePoint => ⟨0, codePoint, false⟩
  | _ + 1, [], codePoint => ⟨0, codePoint, true⟩
  | n + 1, c :: s, codePoint =>
      if c < 0x80 ∨ c > 0xBF then ⟨0, codePoint, true⟩
      else
        let r := readTail n s ((codePoint <<< 6) ||| (c.toNat &&& 0x7F))
        ⟨r.taken + 1, r.codePoint, r.isBadChar⟩

/-- What `read_char` finds: whether the document ends inside the character, the bytes of it,
whether it is bad, the code point, and whether a carriage return in front of a line feed is
passed over. -/
structure CharRead where
  truncated : Bool
  width : ℕ
  isBadChar : Bool
  codePoint : ℕ
  skipsCr : Bool

/-- `read_char` behind the loop, on the bytes `s` behind the first one. -/
def finishChar (s : Bytes) (truncated isBadChar : Bool) (tail : TailBytes) : CharRead :=
  let isBadChar := isBadChar || tail.isBadChar || decide (0x10FFFF < tail.codePoint) ||
    utf8IsInvalidCodePoint tail.codePoint
  let codePoint := if isBadChar then kUtf8ReplacementChar else tail.codePoint
  { truncated
    width := tail.taken + 1
    isBadChar
    codePoint := if codePoint = 13 then 10 else codePoint
    skipsCr := decide (codePoint = 13) && s[tail.taken]? == some lf }

/-- `read_char`, as far as it looks at the bytes `c :: s` behind `_start`. -/
def readBytes (c : UInt8) (s : Bytes) : CharRead :=
  let lead := leadByte c.toNat
  let truncated := decide (s.length + 1 < lead.width)
  let width := if truncated then s.length + 1 else lead.width
  finishChar s truncated (lead.isBadChar || truncated)
    (readTail (width - 1) s (c.toNat &&& lead.mask))

/-- What `read_char` finds at the end of the document: whatever byte stands there, none is left
for it. -/
def readEnd : CharRead := ⟨true, 0, true, kUtf8ReplacementChar, false⟩

/-- The bytes that are passed over. -/
def CharRead.size (r : CharRead) : ℕ := r.width + if r.skipsCr then 1 else 0

namespace Utf8Iterator

/-- `add_error`: the bytes under the cursor as one number. -/
def addError (source : Bytes) (iter : Utf8Iterator) (type : GumboErrorType) : Utf8Iterator :=
  let bytes := (source.drop iter.start).take iter.width
  let codePoint := bytes.foldl (fun codePoint b => (codePoint <<< 8) ||| b.toNat) 0
  { iter with errors := iter.errors ++ [⟨type, iter.pos, iter.start, .codepoint codePoint⟩] }

/-- `read_char`, as far as it changes the iterator; there are `left` bytes to the end. -/
def applyRead (source : Bytes) (iter : Utf8Iterator) (left : ℕ) (r : CharRead) : Utf8Iterator :=
  let iter :=
    if r.truncated then addError source { iter with width := left } .utf8Truncated else iter
  let iter := { iter with width := r.width }
  let iter := if r.isBadChar then addError source iter .utf8Invalid else iter
  let iter :=
    if r.skipsCr then
      { iter with
        start := iter.start + 1
        pos := { iter.pos with offset := iter.pos.offset + 1 } }
    else iter
  { iter with current := r.codePoint }

/-- `read_char`.  At the end of the document it is called by `utf8iterator_reset` only.  Behind
the end, where the source has a width below zero, the width is zero. -/
def readChar (source : Bytes) (iter : Utf8Iterator) : Utf8Iterator :=
  match source.drop iter.start with
  | [] => applyRead source iter 0 readEnd
  | c :: s => applyRead source iter (s.length + 1) (readBytes c s)

/-- `update_position`. -/
def updatePosition (iter : Utf8Iterator) : Utf8Iterator :=
  let pos := { iter.pos with offset := iter.pos.offset + iter.width }
  { iter with
    pos :=
      if iter.current = 10 then { pos with line := pos.line + 1, column := 1 }
      else if iter.current = 9 then { pos with column := (pos.column / 8 + 1) * 8 }
      else { pos with column := pos.column + 1 } }

/-- The fields that `utf8iterator_init` sets first.  `_mark` is not one of them. -/
def blank : Utf8Iterator := ⟨0, 0, -1, 0, ⟨1, 1, 0⟩, ⟨1, 1, 0⟩, []⟩

/-- `utf8iterator_init`. -/
def init (source : Bytes) : Utf8Iterator :=
  if source.length ≠ 0 then readChar source blank else { blank with current := -1 }

/-- `utf8iterator_next`. -/
def next (source : Bytes) (iter : Utf8Iterator) : Utf8Iterator :=
  let iter := { iter with start := iter.start + iter.width }
  let iter := updatePosition iter
  if iter.start < source.length then readChar source iter else { iter with current := -1 }

/-- `utf8iterator_mark`. -/
def setMark (iter : Utf8Iterator) : Utf8Iterator :=
  { iter with mark := iter.start, markPos := iter.pos }

/-- `utf8iterator_reset`. -/
def reset (source : Bytes) (iter : Utf8Iterator) : Utf8Iterator :=
  readChar source { iter with start := iter.mark, pos := iter.markPos }

/-- `utf8iterator_maybe_consume_match`: its value, and the iterator behind it.  A prefix has no
zero byte. -/
def maybeConsumeMatch (source : Bytes) (iter : Utf8Iterator) (pre : Bytes)
    (caseSensitive : Bool) : Bool × Utf8Iterator :=
  let text := (source.drop iter.start).take pre.length
  let matched := decide (iter.start + pre.length ≤ source.length) &&
    (if caseSensitive then text == pre else text.map toLower == pre.map toLower)
  if matched then (true, (next source)^[pre.length] iter) else (false, iter)

/-- The code points from the current one to the end, and the iterator there. -/
def readAll (source : Bytes) : ℕ → Utf8Iterator → List ℤ × Utf8Iterator
  | 0, iter => ([], iter)
  | n + 1, iter =>
      if iter.current = -1 then ([], iter)
      else
        let r := readAll source n (next source iter)
        (iter.current :: r.1, r.2)

end Utf8Iterator

/-! ### The forms that are taken -/

/-- The form of `c` with `n` continuation bytes is taken.  A form of two bytes must not be longer
than it need be; longer ones may. -/
structure Plain (n c : ℕ) : Prop where
  le : n ≤ 3
  lt : c < room n
  two : n = 1 → 0x80 ≤ c
  max : c ≤ 0x10FFFF
  valid : utf8IsInvalidCodePoint c = false

variable {n c v : ℕ} {b : UInt8} {s rest : Bytes}

/-- The test of the loop in `read_char`: the byte is no continuation byte. -/
theorem not_isTail_iff : (b < 0x80 ∨ b > 0xBF) ↔ ¬ IsTail b := by
  rw [isTail_iff, gt_iff_lt, UInt8.lt_iff_toNat_lt, UInt8.lt_iff_toNat_lt]
  change b.toNat < 128 ∨ 191 < b.toNat ↔ _
  omega

/-- The shift and the masks of the loop put six more bits behind those that were read. -/
theorem shift_or_tail (hb : IsTail b) :
    (v <<< 6) ||| (b.toNat &&& 0x7F) = v * 64 + (b.toNat - 0x80) := by
  rw [isTail_iff] at hb
  have hbits : b.toNat &&& 0x7F = b.toNat - 0x80 := by
    have := Nat.and_two_pow_sub_one_eq_mod b.toNat 7
    norm_num at this
    omega
  have hlt : b.toNat - 0x80 < 2 ^ 6 := by omega
  rw [hbits, Nat.shiftLeft_eq, Nat.mul_comm, ← Nat.two_pow_add_eq_or_of_lt hlt, Nat.mul_comm]

/-- The loop takes the continuation bytes in front, as many as are wanted. -/
theorem readTail_eq (n : ℕ) (s : Bytes) (v : ℕ) :
    readTail n s v = ⟨((s.take n).takeWhile (IsTail ·)).length,
      tails v ((s.take n).takeWhile (IsTail ·)),
      decide (((s.take n).takeWhile (IsTail ·)).length < n)⟩ := by
  induction n generalizing s v with
  | zero => simp [readTail, tails]
  | succ n ih =>
      cases s with
      | nil => simp [readTail, tails]
      | cons b s =>
          by_cases hb : IsTail b
          · rw [readTail, if_neg (not_isTail_iff.not.2 (not_not.2 hb)), ih, shift_or_tail hb]
            simp [hb, tails_cons]
          · rw [readTail, if_pos (not_isTail_iff.2 hb)]
            simp [hb, tails]

/-- A first byte of a form. -/
structure Leads (n x : ℕ) : Prop where
  le : n ≤ 3
  lt : x < leadRoom n
  two : n = 1 → 2 ≤ x
  four : n = 3 → x ≤ 4

/-- The table of first bytes: a first byte in front of `n` more tells their number and its own
bits. -/
theorem leadByte_of_leads {x : ℕ} (h : Leads n x) :
    (leadByte (leadMark n + x)).width = n + 1 ∧ (leadByte (leadMark n + x)).isBadChar = false ∧
      (leadMark n + x) &&& (leadByte (leadMark n + x)).mask = x := by
  obtain ⟨hn, hx, htwo, hfour⟩ := h
  have hmask (y k : ℕ) : y &&& (2 ^ k - 1) = y % 2 ^ k := Nat.and_two_pow_sub_one_eq_mod y k
  interval_cases n <;> simp only [leadMark, leadRoom] at hx ⊢
  · have hlead : leadByte (0 + x) = ⟨1, 0xFF, false⟩ := if_pos (by omega)
    rw [hlead]
    refine ⟨rfl, rfl, ?_⟩
    have := hmask (0 + x) 8
    norm_num at this ⊢
    omega
  · have hlow := htwo rfl
    have hlead : leadByte (0xC0 + x) = ⟨2, 0x1F, decide (0xC0 + x < 0xC2)⟩ := by
      rw [leadByte, if_neg (by omega), if_neg (by omega), if_pos (by omega)]
    rw [hlead]
    refine ⟨rfl, decide_eq_false (by omega), ?_⟩
    have := hmask (0xC0 + x) 5
    norm_num at this ⊢
    omega
  · have hlead : leadByte (0xE0 + x) = ⟨3, 0xF, false⟩ := by
      rw [leadByte, if_neg (by omega), if_neg (by omega), if_neg (by omega), if_pos (by omega)]
    rw [hlead]
    refine ⟨rfl, rfl, ?_⟩
    have := hmask (0xE0 + x) 4
    norm_num at this ⊢
    omega
  · have hhigh := hfour rfl
    have hlead : leadByte (0xF0 + x) = ⟨4, 0x7, false⟩ := by
      rw [leadByte, if_neg (by omega), if_neg (by omega), if_neg (by omega), if_neg (by omega),
        if_pos (by omega)]
    rw [hlead]
    refine ⟨rfl, rfl, ?_⟩
    have := hmask (0xF0 + x) 3
    norm_num at this ⊢
    omega

/-- The highest bits of a code point fit in the first byte of its form. -/
theorem Plain.leads (h : Plain n c) : Leads n (c / 64 ^ n) := by
  refine ⟨h.le, (Nat.div_lt_iff_lt_mul (by positivity)).2 h.lt, ?_, ?_⟩
  · rintro rfl
    have := h.two rfl
    omega
  · rintro rfl
    have := h.max
    omega

/-- The continuation bytes of a form are read in full. -/
theorem takeWhile_tailBytes (n c : ℕ) (rest : Bytes) :
    ((tailBytes n c ++ rest).take n).takeWhile (IsTail ·) = tailBytes n c := by
  have htake : (tailBytes n c ++ rest).take n = tailBytes n c :=
    List.take_left' (length_tailBytes n c)
  rw [htake, List.takeWhile_eq_self_iff]
  exact fun b hb => decide_eq_true (isTail_tailBytes n c b hb)

/-- **A form that is taken is read as its code point.** -/
theorem readBytes_form (h : Plain n c) (rest : Bytes) :
    readBytes (UInt8.ofNat (leadMark n + c / 64 ^ n)) (tailBytes n c ++ rest) =
      { truncated := false
        width := n + 1
        isBadChar := false
        codePoint := if c = 13 then 10 else c
        skipsCr := decide (c = 13) && rest.head? == some lf } := by
  obtain ⟨hwidth, hbad, hbits⟩ := leadByte_of_leads h.leads
  have hlen : ¬ (tailBytes n c ++ rest).length + 1 < n + 1 := by simp
  have hmax : ¬ 0x10FFFF < c := Nat.not_lt.2 h.max
  have hnext : (tailBytes n c ++ rest)[n]? = rest.head? := by
    rw [List.getElem?_append_right (by simp), length_tailBytes, Nat.sub_self,
      List.head?_eq_getElem?]
  simp only [readBytes, finishChar, toNat_lead h.le h.lt, hwidth, hbad, hbits, hlen, decide_false,
    Bool.false_eq_true, if_false, Nat.add_sub_cancel, readTail_eq, takeWhile_tailBytes,
    length_tailBytes, form_value, Nat.lt_irrefl, hmax, h.valid, Bool.or_self, hnext]

/-- Every first byte that is not bad is one in front of some continuation bytes. -/
theorem exists_leads {x : ℕ} (h : (leadByte x).isBadChar = false) :
    ∃ n y, Leads n y ∧ x = leadMark n + y := by
  unfold leadByte at h
  split_ifs at h with h0 h1 h2 h3 h4
  · exact ⟨0, x, ⟨by omega, h0, by omega, by omega⟩, (Nat.zero_add x).symm⟩
  · have hlow : 0xC2 ≤ x := by simpa using h
    exact ⟨1, x - 0xC0, ⟨by omega, by simp only [leadRoom]; omega, by omega, by omega⟩,
      by simp only [leadMark]; omega⟩
  · exact ⟨2, x - 0xE0, ⟨by omega, by simp only [leadRoom]; omega, by omega, by omega⟩,
      by simp only [leadMark]; omega⟩
  · exact ⟨3, x - 0xF0, ⟨by omega, by simp only [leadRoom]; omega, by omega, by omega⟩,
      by simp only [leadMark]; omega⟩

/-- **What is not bad is a form that is taken.** -/
theorem exists_form (h : (readBytes b s).isBadChar = false) :
    ∃ n c rest, Plain n c ∧ b :: s = form n c ++ rest := by
  simp only [readBytes, finishChar, Bool.or_eq_false_iff, decide_eq_false_iff_not] at h
  obtain ⟨⟨⟨⟨hlead, htruncated⟩, htail⟩, hmax⟩, hvalid⟩ := h
  obtain ⟨n, x, hx, hb⟩ := exists_leads hlead
  obtain ⟨hwidth, -, hbits⟩ := leadByte_of_leads hx
  simp only [hb, hwidth, hbits, readTail_eq] at htruncated htail hmax hvalid
  simp only [htruncated, decide_false, Bool.false_eq_true, if_false, Nat.add_sub_cancel,
    decide_eq_false_iff_not] at htail hmax hvalid
  -- the loop has gone to its end, so all bytes that are wanted are continuation bytes
  have hlen : (s.take n).length = n := List.length_take_of_le (by omega)
  have hall : (s.take n).takeWhile (IsTail ·) = s.take n := by
    refine (List.takeWhile_prefix _).eq_of_length_le ?_
    omega
  rw [hall] at hmax hvalid
  have htails : ∀ b ∈ s.take n, IsTail b := fun b hb' =>
    of_decide_eq_true (List.takeWhile_eq_self_iff.1 hall b hb')
  have hlt := tails_lt (v := x) htails
  have hdiv := tails_div (v := x) htails
  rw [hlen] at hlt hdiv
  refine ⟨n, tails x (s.take n), s.drop n, ⟨hx.le, ?_, ?_, Nat.not_lt.1 hmax, hvalid⟩, ?_⟩
  · exact lt_of_lt_of_le hlt (Nat.mul_le_mul_right _ hx.lt)
  · rintro rfl
    have := hx.two rfl
    omega
  · have hform := eq_form (b := b) (v := x) (s := s.take n) (by rw [hlen, hb]) htails
    rw [hlen] at hform
    rw [← hform, List.cons_append, List.take_append_drop]

/-! ### A whole document -/

/-- Whatever the first byte tells, the loop has run over the bytes behind it. -/
theorem exists_finishChar (b : UInt8) (s : Bytes) :
    ∃ truncated isBadChar n v, readBytes b s = finishChar s truncated isBadChar (readTail n s v) :=
  ⟨_, _, _, _, rfl⟩

/-- The loop takes no more bytes than there are. -/
theorem taken_le (n : ℕ) (s : Bytes) (v : ℕ) : (readTail n s v).taken ≤ s.length := by
  rw [readTail_eq]
  calc ((s.take n).takeWhile (IsTail ·)).length ≤ (s.take n).length :=
        (List.takeWhile_prefix _).length_le
    _ ≤ s.length := by simp

/-- A character has a byte, and no more bytes than there are. -/
theorem size_bounds (b : UInt8) (s : Bytes) :
    1 ≤ (readBytes b s).size ∧ (readBytes b s).size ≤ s.length + 1 := by
  obtain ⟨truncated, isBadChar, n, v, h⟩ := exists_finishChar b s
  have htaken := taken_le n s v
  have hwidth : (readBytes b s).width = (readTail n s v).taken + 1 := by
    rw [h]
    rfl
  rw [CharRead.size, hwidth]
  split_ifs with hskip
  · have hlf : s[(readTail n s v).taken]? = some lf := by
      rw [h] at hskip
      simpa using (Bool.and_eq_true_iff.1 hskip).2
    have := (List.getElem?_eq_some_iff.1 hlf).1
    omega
  · omega

/-- Of a bad character only the replacement character is left. -/
theorem codePoint_of_isBadChar (h : (readBytes b s).isBadChar = true) :
    (readBytes b s).codePoint = kUtf8ReplacementChar := by
  obtain ⟨truncated, isBadChar, n, v, hread⟩ := exists_finishChar b s
  rw [hread] at h ⊢
  simp only [finishChar] at h ⊢
  rw [h, if_pos rfl]
  rfl

/-- A code point that can be delivered. -/
structure Delivered (c : ℕ) : Prop where
  max : c ≤ 0x10FFFF
  valid : utf8IsInvalidCodePoint c = false
  ne_cr : c ≠ 13

/-- Whatever the bytes are, what is read can be delivered. -/
theorem delivered_readBytes (b : UInt8) (s : Bytes) : Delivered (readBytes b s).codePoint := by
  obtain ⟨truncated, isBadChar, n, v, h⟩ := exists_finishChar b s
  rw [h]
  simp only [finishChar]
  generalize (readTail n s v) = tail
  split_ifs with hbad hcr hcr
  · exact absurd hcr (by decide)
  · exact ⟨by decide, by decide, by decide⟩
  · exact ⟨by decide, by decide, by decide⟩
  · simp only [Bool.or_eq_true, not_or, Bool.not_eq_true, decide_eq_false_iff_not] at hbad
    exact ⟨Nat.not_lt.1 hbad.1.2, hbad.2, hcr⟩

/-- What is read from some bytes on, with a bound on the number of characters. -/
def readsFuel : ℕ → Bytes → List CharRead
  | 0, _ => []
  | _ + 1, [] => []
  | n + 1, b :: s => readBytes b s :: readsFuel n ((b :: s).drop (readBytes b s).size)

/-- What is read from some bytes on. -/
def reads (s : Bytes) : List CharRead := readsFuel s.length s

/-- The code points of some bytes. -/
def decode (s : Bytes) : List ℕ := (reads s).map CharRead.codePoint

/-- A turn for each byte is enough. -/
theorem readsFuel_congr {m n : ℕ} (hm : s.length ≤ m) (hn : s.length ≤ n) :
    readsFuel m s = readsFuel n s := by
  induction m generalizing n s with
  | zero =>
      obtain rfl : s = [] := List.length_eq_zero_iff.1 (Nat.le_zero.1 hm)
      cases n <;> rfl
  | succ m ih =>
      cases s with
      | nil => cases n <;> rfl
      | cons b s =>
          obtain ⟨n, rfl⟩ := Nat.exists_eq_add_of_le' (Nat.succ_le_of_lt
            (lt_of_lt_of_le (Nat.succ_pos s.length) hn))
          have hpos := (size_bounds b s).1
          rw [readsFuel, readsFuel]
          congr 1
          apply ih <;> simp only [List.length_drop, List.length_cons] at * <;> omega

/-- The characters of a text: the first one, and those behind it. -/
theorem reads_cons (b : UInt8) (s : Bytes) :
    reads (b :: s) = readBytes b s :: reads ((b :: s).drop (readBytes b s).size) := by
  have hpos := (size_bounds b s).1
  rw [reads, List.length_cons, readsFuel, reads]
  congr 1
  apply readsFuel_congr <;> simp only [List.length_drop, List.length_cons] <;> omega

/-- The same of the code points. -/
theorem decode_cons (b : UInt8) (s : Bytes) :
    decode (b :: s) =
      (readBytes b s).codePoint :: decode ((b :: s).drop (readBytes b s).size) := by
  rw [decode, reads_cons, List.map_cons, ← decode]

/-- What a `read_char` that finds `r` makes of an iterator. -/
structure ReadFrom (iter : Utf8Iterator) (r : CharRead) (iter' : Utf8Iterator) : Prop where
  start : iter'.start = iter.start + if r.skipsCr then 1 else 0
  width : iter'.width = r.width
  current : iter'.current = r.codePoint
  line : iter'.pos.line = iter.pos.line
  column : iter'.pos.column = iter.pos.column
  offset : iter'.pos.offset = iter.pos.offset + if r.skipsCr then 1 else 0
  mark : iter'.mark = iter.mark
  markPos : iter'.markPos = iter.markPos
  errors : iter'.errors = [] ↔ iter.errors = [] ∧ r.isBadChar = false

namespace Utf8Iterator

variable {source : Bytes} {iter : Utf8Iterator} {i : ℕ}

/-- A character that the document cuts off is bad. -/
theorem isBadChar_of_truncated (h : (readBytes b s).truncated = true) :
    (readBytes b s).isBadChar = true := by
  simp only [readBytes, finishChar] at h ⊢
  simp [h]

/-- **What `read_char` does** in front of the bytes `b :: s`. -/
theorem readChar_readFrom (h : source.drop iter.start = b :: s) :
    ReadFrom iter (readBytes b s) (readChar source iter) := by
  have htruncated := isBadChar_of_truncated (b := b) (s := s)
  have hread : readChar source iter = applyRead source iter (s.length + 1) (readBytes b s) := by
    rw [readChar, h]
  rw [hread]
  generalize readBytes b s = r at *
  obtain ⟨truncated, width, isBadChar, codePoint, skipsCr⟩ := r
  cases isBadChar with
  | true => cases truncated <;> cases skipsCr <;> constructor <;> simp [applyRead, addError]
  | false =>
      cases truncated with
      | true => exact absurd (htruncated rfl) Bool.false_ne_true
      | false => cases skipsCr <;> constructor <;> simp [applyRead]

/-- A character that is not bad leaves the errors as they are. -/
theorem readChar_errors (h : source.drop iter.start = b :: s)
    (hgood : (readBytes b s).isBadChar = false) :
    (readChar source iter).errors = iter.errors := by
  have htruncated : (readBytes b s).truncated = false := by
    by_contra htruncated
    rw [Bool.not_eq_false] at htruncated
    rw [isBadChar_of_truncated htruncated] at hgood
    cases hgood
  rw [readChar, h]
  simp only [applyRead, htruncated, hgood, Bool.false_eq_true, if_false]
  split_ifs <;> rfl

/-- The iterator stands in front of the bytes from `i` on. -/
def Stands (source : Bytes) (i : ℕ) (iter : Utf8Iterator) : Prop :=
  match source.drop i with
  | [] => iter.current = -1 ∧ source.length ≤ iter.start
  | b :: s => iter.current = (readBytes b s).codePoint ∧ iter.width = (readBytes b s).width ∧
      iter.start + iter.width = i + (readBytes b s).size

/-- A character that has been read is the one at the place where the reading began. -/
theorem Stands.of_readFrom {iter' : Utf8Iterator} (h : source.drop iter.start = b :: s)
    (hread : ReadFrom iter (readBytes b s) iter') : Stands source iter.start iter' := by
  rw [Stands, h]
  refine ⟨hread.current, hread.width, ?_⟩
  rw [hread.start, hread.width, CharRead.size]
  omega

/-- The iterator behind the bytes of its character, before the next one is read. -/
def advanced (iter : Utf8Iterator) : Utf8Iterator :=
  updatePosition { iter with start := iter.start + iter.width }

/-- The first half of `utf8iterator_next` moves the pointer behind the character. -/
theorem advanced_start (iter : Utf8Iterator) :
    iter.advanced.start = iter.start + iter.width := rfl

/-- The first half of `utf8iterator_next` records no error. -/
theorem advanced_errors (iter : Utf8Iterator) : iter.advanced.errors = iter.errors := rfl

/-- The offset moves with the pointer. -/
theorem advanced_offset (iter : Utf8Iterator) :
    iter.advanced.pos.offset = iter.pos.offset + iter.width := by
  simp only [advanced, updatePosition]
  split_ifs <;> rfl

/-- A line is counted behind a line feed. -/
theorem advanced_line (iter : Utf8Iterator) :
    iter.advanced.pos.line = iter.pos.line + if iter.current = 10 then 1 else 0 := by
  simp only [advanced, updatePosition]
  split_ifs <;> rfl

/-- `utf8iterator_next`, in front of further bytes and at the end. -/
theorem next_cases (source : Bytes) (iter : Utf8Iterator) :
    (∃ b s, source.drop (iter.start + iter.width) = b :: s ∧
      ReadFrom iter.advanced (readBytes b s) (next source iter)) ∨
    (source.length ≤ iter.start + iter.width ∧
      next source iter = { iter.advanced with current := -1 }) := by
  by_cases h : iter.start + iter.width < source.length
  · left
    obtain ⟨b, s, hdrop⟩ := List.exists_cons_of_ne_nil (List.drop_eq_nil_iff.not.2 (by omega) :
      source.drop (iter.start + iter.width) ≠ [])
    refine ⟨b, s, hdrop, ?_⟩
    have hnext : next source iter = readChar source iter.advanced := if_pos h
    rw [hnext]
    exact readChar_readFrom hdrop
  · exact .inr ⟨Nat.not_lt.1 h, if_neg h⟩

/-- From one character to the one behind it. -/
theorem Stands.next (h : Stands source i iter) (hi : source.drop i = b :: s) :
    Stands source (i + (readBytes b s).size) (next source iter) := by
  rw [Stands, hi] at h
  obtain ⟨-, -, hstart⟩ := h
  rw [← hstart]
  obtain ⟨b', s', hdrop, hread⟩ | ⟨hend, hnext⟩ := next_cases source iter
  · exact Stands.of_readFrom hdrop hread
  · rw [Stands, List.drop_eq_nil_iff.2 hend, hnext]
    exact ⟨rfl, hend⟩

/-- The offset that is kept beside the pointer is the right one. -/
theorem offset_next (h : iter.pos.offset = iter.start) :
    (next source iter).pos.offset = (next source iter).start := by
  obtain ⟨b, s, -, hread⟩ | ⟨-, hnext⟩ := next_cases source iter
  · rw [hread.offset, hread.start, advanced_offset, advanced_start, h]
  · rw [hnext]
    exact (advanced_offset iter).trans (by rw [h]; rfl)

/-- The line changes only where a line feed is passed. -/
theorem line_next (source : Bytes) (iter : Utf8Iterator) :
    (next source iter).pos.line = iter.pos.line + if iter.current = 10 then 1 else 0 := by
  obtain ⟨b, s, -, hread⟩ | ⟨-, hnext⟩ := next_cases source iter
  · rw [hread.line, advanced_line]
  · rw [hnext]
    exact advanced_line iter

/-- An error is recorded if the next character is bad. -/
theorem errors_next (source : Bytes) (iter : Utf8Iterator) :
    (next source iter).errors = [] ↔ iter.errors = [] ∧
      ∀ r ∈ (reads (source.drop (iter.start + iter.width))).head?, r.isBadChar = false := by
  obtain ⟨b, s, hdrop, hread⟩ | ⟨hend, hnext⟩ := next_cases source iter
  · rw [hread.errors, advanced_errors, hdrop, reads_cons]
    simp
  · rw [hnext, List.drop_eq_nil_iff.2 hend]
    simp [advanced_errors, reads, readsFuel]

/-- A property of all the elements of a list, said of the first and of the others. -/
theorem head_tail_forall {α : Type*} {p : α → Prop} (l : List α) :
    ((∀ r ∈ l.head?, p r) ∧ ∀ r ∈ l.tail, p r) ↔ ∀ r ∈ l, p r := by
  cases l <;> simp

/-- What is left when all characters have been read. -/
structure AllRead (source : Bytes) (i : ℕ) (iter : Utf8Iterator)
    (r : List ℤ × Utf8Iterator) : Prop where
  codePoints : r.1 = (decode (source.drop i)).map (Nat.cast : ℕ → ℤ)
  start : r.2.start = source.length
  offset : r.2.pos.offset = source.length
  line : r.2.pos.line = iter.pos.line + (decode (source.drop i)).count 10
  errors : r.2.errors = [] ↔
    iter.errors = [] ∧ ∀ r ∈ (reads (source.drop i)).tail, r.isBadChar = false

/-- **An iterator delivers the code points of the bytes in front of which it stands**, and comes
to the end of the document. -/
theorem readAll_of_stands (fuel : ℕ) (h : Stands source i iter)
    (hoffset : iter.pos.offset = iter.start) (hend : i < source.length ∨ iter.start = source.length)
    (hfuel : source.length - i < fuel) : AllRead source i iter (readAll source fuel iter) := by
  induction fuel generalizing i iter with
  | zero => omega
  | succ fuel ih =>
      cases hi : source.drop i with
      | nil =>
          rw [Stands, hi] at h
          have hlen : iter.start = source.length :=
            hend.resolve_left (Nat.not_lt.2 (List.drop_eq_nil_iff.1 hi))
          rw [readAll, if_pos h.1]
          constructor <;> simp [hi, decode, reads, readsFuel, hlen, hoffset]
      | cons b s =>
          have hnext := h.next hi
          have hcurrent : iter.current = (readBytes b s).codePoint ∧
              iter.start + iter.width = i + (readBytes b s).size := by
            rw [Stands, hi] at h
            exact ⟨h.1, h.2.2⟩
          have hleft : s.length + 1 = source.length - i := by
            rw [← List.length_drop, hi, List.length_cons]
          have hsize := size_bounds b s
          have hend' : i + (readBytes b s).size < source.length ∨
              (Utf8Iterator.next source iter).start = source.length := by
            obtain ⟨_, _, hdrop, -⟩ | ⟨hstop, heq⟩ := next_cases source iter
            · have := congrArg List.length hdrop
              simp only [List.length_drop, List.length_cons] at this
              omega
            · right
              rw [heq]
              change iter.start + iter.width = _
              omega
          have hrest := ih hnext (offset_next hoffset) hend' (by omega)
          have hdrop : (b :: s).drop (readBytes b s).size =
              source.drop (i + (readBytes b s).size) := by
            rw [← hi, List.drop_drop]
          have hne : ¬ iter.current = -1 := by
            rw [hcurrent.1]
            omega
          have hread : readAll source (fuel + 1) iter =
              (iter.current :: (readAll source fuel (Utf8Iterator.next source iter)).1,
                (readAll source fuel (Utf8Iterator.next source iter)).2) := if_neg hne
          rw [hread]
          refine ⟨?_, hrest.start, hrest.offset, ?_, ?_⟩
          · rw [hi, decode_cons, hdrop, List.map_cons, hrest.codePoints, hcurrent.1]
          · rw [hrest.line, line_next, hi, decode_cons, hdrop, List.count_cons, hcurrent.1]
            by_cases hlf : (readBytes b s).codePoint = 10
            · simp [hlf]
              omega
            · have hlf' : ¬ ((readBytes b s).codePoint : ℤ) = 10 := by exact_mod_cast hlf
              simp [hlf, hlf']
          · rw [hrest.errors, errors_next, hcurrent.2, hi, reads_cons, hdrop, List.tail_cons,
              and_assoc, head_tail_forall]

/-- All characters of a document. -/
def readDocument (source : Bytes) : List ℤ × Utf8Iterator :=
  readAll source (source.length + 1) (init source)

/-- `utf8iterator_init` reads the first character, if there is one. -/
theorem init_cases (source : Bytes) :
    source = [] ∧ init source = blank ∨
    ∃ b s, source = b :: s ∧ ReadFrom blank (readBytes b s) (init source) := by
  cases source with
  | nil => exact .inl ⟨rfl, rfl⟩
  | cons b s =>
      right
      refine ⟨b, s, rfl, ?_⟩
      have hinit : init (b :: s) = readChar (b :: s) blank := rfl
      rw [hinit]
      exact readChar_readFrom rfl

/-- The iterator begins at the first byte. -/
theorem stands_init (source : Bytes) : Stands source 0 (init source) := by
  obtain ⟨rfl, hinit⟩ | ⟨b, s, rfl, hread⟩ := init_cases source
  · rw [hinit]
    exact ⟨rfl, Nat.zero_le _⟩
  · exact Stands.of_readFrom rfl hread

/-- The offset begins at the pointer. -/
theorem offset_init (source : Bytes) : (init source).pos.offset = (init source).start := by
  obtain ⟨rfl, hinit⟩ | ⟨b, s, rfl, hread⟩ := init_cases source
  · rw [hinit]
    rfl
  · rw [hread.offset, hread.start]
    rfl

/-- The iterator begins in the first line. -/
theorem line_init (source : Bytes) : (init source).pos.line = 1 := by
  obtain ⟨rfl, hinit⟩ | ⟨b, s, rfl, hread⟩ := init_cases source
  · rw [hinit]
    rfl
  · exact hread.line

/-- What the characters of a document are. -/
structure DocumentRead (source : Bytes) (r : List ℤ × Utf8Iterator) : Prop where
  codePoints : r.1 = (decode source).map (Nat.cast : ℕ → ℤ)
  start : r.2.start = source.length
  offset : r.2.pos.offset = source.length
  line : r.2.pos.line = 1 + (decode source).count 10
  errors : r.2.errors = [] ↔ ∀ r ∈ reads source, r.isBadChar = false

/-- Reading from the first call to the end gives all the characters and stops behind the last
byte. -/
theorem documentRead (source : Bytes) : DocumentRead source (readDocument source) := by
  have hend : 0 < source.length ∨ (init source).start = source.length := by
    obtain ⟨rfl, hinit⟩ | ⟨b, s, rfl, -⟩ := init_cases source
    · right
      rw [hinit]
      rfl
    · exact .inl (Nat.succ_pos _)
  have h := readAll_of_stands (source.length + 1) (stands_init source)
    (offset_init source) hend (by omega)
  have hfirst : (init source).errors = [] ↔
      ∀ r ∈ (reads source).head?, r.isBadChar = false := by
    obtain ⟨rfl, hinit⟩ | ⟨b, s, rfl, hread⟩ := init_cases source
    · rw [hinit]
      simp [reads, readsFuel, blank]
    · rw [hread.errors, reads_cons]
      simp [blank]
  refine ⟨h.codePoints, h.start, h.offset, ?_, ?_⟩
  · rw [readDocument, h.line, line_init, List.drop_zero]
  · rw [readDocument, h.errors, hfirst, List.drop_zero, head_tail_forall]

end Utf8Iterator

/-! ### Documents of forms -/

/-- The bytes behind a character: a carriage return takes a line feed with it. -/
def behind (c : ℕ) (rest : Bytes) : Bytes :=
  if c = 13 ∧ rest.head? = some lf then rest.tail else rest

/-- **A form that is taken, in front of further bytes.** -/
theorem reads_form (h : Plain n c) (rest : Bytes) :
    ∃ r : CharRead, r.isBadChar = false ∧ r.codePoint = (if c = 13 then 10 else c) ∧
      reads (form n c ++ rest) = r :: reads (behind c rest) := by
  have hread := readBytes_form h rest
  have hdrop : (form n c ++ rest).drop
      (readBytes (UInt8.ofNat (leadMark n + c / 64 ^ n)) (tailBytes n c ++ rest)).size =
        behind c rest := by
    have hlen (k : ℕ) : (form n c ++ rest).drop (n + 1 + k) = rest.drop k := by
      rw [← List.drop_drop, List.drop_left' (length_form n c)]
    rw [hread, behind]
    by_cases hskip : c = 13 ∧ rest.head? = some lf
    · have htake : (decide (c = 13) && rest.head? == some lf) = true := by simpa using hskip
      rw [if_pos hskip, CharRead.size, htake, if_pos rfl, hlen, List.drop_one]
    · have hkeep : (decide (c = 13) && rest.head? == some lf) = false := by
        simpa [Bool.and_eq_false_iff, imp_iff_not_or] using hskip
      simp [CharRead.size, hkeep, hskip]
  refine ⟨readBytes (UInt8.ofNat (leadMark n + c / 64 ^ n)) (tailBytes n c ++ rest),
    by rw [hread], by rw [hread], ?_⟩
  rw [← hdrop]
  exact reads_cons _ _

/-- Only the form of a line feed begins with its byte. -/
theorem Plain.eq_lf (h : Plain n c) (hlf : (form n c).head? = some lf) : n = 0 ∧ c = 10 := by
  rw [form, List.head?_cons, Option.some_inj] at hlf
  have hbyte := toNat_lead h.le h.lt
  rw [hlf] at hbyte
  have hn := h.le
  interval_cases n <;> simp only [leadMark] at hbyte <;> simp [lf] at hbyte <;> omega

/-- Only a carriage return takes a byte with it. -/
theorem behind_of_ne (h : c ≠ 13) (rest : Bytes) : behind c rest = rest :=
  if_neg fun h' => h h'.1

/-- The bytes of some forms, each given by its continuation bytes and its code point. -/
def bytesOf (forms : List (ℕ × ℕ)) : Bytes := forms.flatMap fun f => form f.1 f.2

/-- Behind a character there are whole forms: what a carriage return takes with it is one. -/
theorem behind_bytesOf {forms : List (ℕ × ℕ)} (h : ∀ f ∈ forms, Plain f.1 f.2) (c : ℕ) :
    behind c (bytesOf forms) = bytesOf forms ∨
      ∃ rest, forms = (0, 10) :: rest ∧ behind c (bytesOf forms) = bytesOf rest := by
  by_cases hskip : c = 13 ∧ (bytesOf forms).head? = some lf
  · right
    rw [behind, if_pos hskip]
    cases forms with
    | nil => exact absurd hskip.2 (by simp [bytesOf])
    | cons f rest =>
        obtain ⟨n, v⟩ := f
        have hhead : (form n v).head? = some lf := by
          rw [← hskip.2]
          rfl
        obtain ⟨rfl, rfl⟩ := (h _ List.mem_cons_self).eq_lf hhead
        exact ⟨rest, rfl, rfl⟩
  · exact .inl (if_neg hskip)

/-- Forms that are taken are read without an error. -/
theorem reads_bytesOf {forms : List (ℕ × ℕ)} (h : ∀ f ∈ forms, Plain f.1 f.2) (c : ℕ) :
    ∀ r ∈ reads (behind c (bytesOf forms)), r.isBadChar = false := by
  induction forms generalizing c with
  | nil =>
      have hnil : behind c [] = [] := if_neg (by simp)
      simp [bytesOf, hnil, reads, readsFuel]
  | cons f forms ih =>
      have hrest := ih fun g hg => h g (List.mem_cons_of_mem f hg)
      obtain hkeep | ⟨rest, hforms, hskip⟩ := behind_bytesOf h c
      · obtain ⟨r, hgood, -, hreads⟩ := reads_form (h f List.mem_cons_self) (bytesOf forms)
        have hbytes : bytesOf (f :: forms) = form f.1 f.2 ++ bytesOf forms := rfl
        rw [hkeep, hbytes, hreads]
        rintro r' (_ | ⟨_, hr'⟩)
        · exact hgood
        · exact hrest f.2 r' hr'
      · -- the line feed has been passed over with the carriage return
        obtain ⟨-, rfl⟩ := List.cons_eq_cons.1 hforms
        have hfirst := hrest 0
        rw [behind_of_ne (by decide)] at hfirst
        rwa [hskip]

/-- What is read without an error consists of forms that are taken. -/
theorem exists_bytesOf (h : ∀ r ∈ reads s, r.isBadChar = false) :
    ∃ forms : List (ℕ × ℕ), (∀ f ∈ forms, Plain f.1 f.2) ∧ s = bytesOf forms := by
  induction hlen : s.length using Nat.strong_induction_on generalizing s with
  | _ len ih =>
      cases s with
      | nil => exact ⟨[], by simp, rfl⟩
      | cons b s =>
          have hgood : (readBytes b s).isBadChar = false :=
            h _ (by rw [reads_cons]; exact List.mem_cons_self)
          obtain ⟨n, c, rest, hplain, hbytes⟩ := exists_form hgood
          rw [hbytes] at h hlen
          obtain ⟨r, -, -, hreads⟩ := reads_form hplain rest
          rw [hreads] at h
          have hshort : (behind c rest).length < len := by
            rw [← hlen, List.length_append, length_form, behind]
            split_ifs
            · rw [List.length_tail]
              omega
            · omega
          obtain ⟨forms, hforms, hrest⟩ :=
            ih _ hshort (fun r' hr' => h r' (List.mem_cons_of_mem r hr')) rfl
          rw [hbytes]
          by_cases hskip : c = 13 ∧ rest.head? = some lf
          · rw [behind, if_pos hskip] at hrest
            refine ⟨(n, c) :: (0, 10) :: forms, ?_, ?_⟩
            · have hlf : Plain 0 10 :=
                ⟨by decide, by decide, by decide, by decide, by decide⟩
              simp only [List.forall_mem_cons]
              exact ⟨hplain, hlf, hforms⟩
            · rw [← List.cons_head?_tail hskip.2, hrest]
              rfl
          · rw [behind, if_neg hskip] at hrest
            refine ⟨(n, c) :: forms, ?_, ?_⟩
            · simp only [List.forall_mem_cons]
              exact ⟨hplain, hforms⟩
            · rw [hrest]
              rfl

/-- **A document is read without an error if it is made of forms that are taken, and only
then.** -/
theorem errors_eq_nil_iff (source : Bytes) :
    (Utf8Iterator.readDocument source).2.errors = [] ↔
      ∃ forms : List (ℕ × ℕ), (∀ f ∈ forms, Plain f.1 f.2) ∧ source = bytesOf forms := by
  rw [(Utf8Iterator.documentRead source).errors]
  constructor
  · exact exists_bytesOf
  · rintro ⟨forms, hforms, rfl⟩
    have h := reads_bytesOf hforms 0
    rwa [behind_of_ne (by decide)] at h

/-! ### Reading what has been encoded -/

/-- The shortest form of a code point that may stand in a document is taken. -/
theorem plain_encode (hmax : c ≤ 0x10FFFF) (hvalid : utf8IsInvalidCodePoint c = false) :
    Plain (tailCount c) c := by
  refine ⟨tailCount_le c, lt_room_tailCount (by omega), fun h => ?_, hmax, hvalid⟩
  unfold tailCount at h
  split_ifs at h <;> omega

/-- A line break is a line feed, whatever it has been. -/
def unifyBreaks : List ℕ → List ℕ
  | [] => []
  | 13 :: 10 :: cs => 10 :: unifyBreaks cs
  | 13 :: cs => 10 :: unifyBreaks cs
  | c :: cs => c :: unifyBreaks cs

/-- A code point in its shortest form is read back, with a carriage return as a line feed. -/
theorem decode_encode_append (h : Plain (tailCount c) c) (rest : Bytes) :
    decode (encode c ++ rest) = (if c = 13 then 10 else c) :: decode (behind c rest) := by
  obtain ⟨r, -, hcode, hreads⟩ := reads_form h rest
  rw [decode, encode, hreads, List.map_cons, hcode, ← decode]

/-- A text in UTF-8 is read back, apart from its line breaks. -/
theorem decode_flatMap_encode {cs : List ℕ} (h : ∀ c ∈ cs, Plain (tailCount c) c) :
    decode (cs.flatMap encode) = unifyBreaks cs := by
  fun_induction unifyBreaks cs with
  | case1 => rfl
  | case2 cs ih =>
      simp only [List.forall_mem_cons] at h
      rw [List.flatMap_cons, decode_encode_append h.1, if_pos rfl, ← ih h.2.2]
      rfl
  | case3 cs hcs ih =>
      simp only [List.forall_mem_cons] at h
      have hkeep : behind 13 (cs.flatMap encode) = cs.flatMap encode := by
        refine if_neg fun hlf => ?_
        cases cs with
        | nil => exact absurd hlf.2 (by simp)
        | cons c cs =>
            have hhead : (encode c).head? = some lf := by
              rw [← hlf.2]
              rfl
            exact hcs cs (by rw [((h.2 c List.mem_cons_self).eq_lf hhead).2])
      rw [List.flatMap_cons, decode_encode_append h.1, if_pos rfl, hkeep, ih h.2]
  | case4 c cs hlf hcr ih =>
      simp only [List.forall_mem_cons] at h
      have hne : c ≠ 13 := fun hc => hcr hc
      rw [List.flatMap_cons, decode_encode_append h.1, if_neg hne, behind_of_ne hne, ih h.2]

/-- Every character of a text is read from a byte and what follows it. -/
theorem exists_of_mem_reads {r : CharRead} (h : r ∈ reads s) : ∃ b t, r = readBytes b t := by
  have hfuel : ∀ n s, r ∈ readsFuel n s → ∃ b t, r = readBytes b t := by
    intro n
    induction n with
    | zero => exact fun s h => absurd h List.not_mem_nil
    | succ n ih =>
        rintro (_ | ⟨b, s⟩) h
        · exact absurd h List.not_mem_nil
        · obtain rfl | h := List.mem_cons.1 h
          · exact ⟨b, s, rfl⟩
          · exact ih _ h
  exact hfuel _ s h

/-- Every code point that is read can be delivered. -/
theorem delivered_of_mem_decode (h : c ∈ decode s) : Delivered c := by
  obtain ⟨r, hr, rfl⟩ := List.mem_map.1 h
  obtain ⟨b, t, rfl⟩ := exists_of_mem_reads hr
  exact delivered_readBytes b t

/-- A character has at least one byte. -/
theorem length_decode_le (s : Bytes) : (decode s).length ≤ s.length := by
  have hfuel : ∀ n s, (readsFuel n s).length ≤ n := by
    intro n
    induction n with
    | zero => exact fun s => Nat.le_refl 0
    | succ n ih =>
        rintro (_ | ⟨b, s⟩)
        · exact Nat.zero_le _
        · exact Nat.succ_le_succ (ih _)
  rw [decode, List.length_map]
  exact hfuel _ s

/-- A text with no carriage returns keeps its line breaks. -/
theorem unifyBreaks_eq_self {cs : List ℕ} (h : ∀ c ∈ cs, c ≠ 13) : unifyBreaks cs = cs := by
  fun_induction unifyBreaks cs with
  | case1 => rfl
  | case2 => exact absurd rfl (h 13 List.mem_cons_self)
  | case3 => exact absurd rfl (h 13 List.mem_cons_self)
  | case4 c cs hlf hcr ih => rw [ih fun x hx => h x (List.mem_cons_of_mem c hx)]

/-- What is read can be written and read again. -/
theorem decode_encode_decode (s : Bytes) : decode ((decode s).flatMap encode) = decode s := by
  have hdelivered : ∀ c ∈ decode s, Delivered c := fun c => delivered_of_mem_decode
  rw [decode_flatMap_encode fun c hc => plain_encode (hdelivered c hc).max (hdelivered c hc).valid,
    unifyBreaks_eq_self fun c hc => (hdelivered c hc).ne_cr]

namespace Utf8Iterator

/-- **What has been encoded is read again**, to its last byte and without an error; of the line
breaks only line feeds are left. -/
theorem readDocument_encode (cs : List ℕ)
    (h : ∀ c ∈ cs, c ≤ 0x10FFFF ∧ utf8IsInvalidCodePoint c = false) :
    (readDocument (cs.flatMap encode)).1 = (unifyBreaks cs).map (Nat.cast : ℕ → ℤ) ∧
      (readDocument (cs.flatMap encode)).2.start = (cs.flatMap encode).length ∧
      (readDocument (cs.flatMap encode)).2.errors = [] := by
  have hplain : ∀ c ∈ cs, Plain (tailCount c) c := fun c hc => plain_encode (h c hc).1 (h c hc).2
  have hread := documentRead (cs.flatMap encode)
  refine ⟨?_, hread.start, ?_⟩
  · rw [hread.codePoints, decode_flatMap_encode hplain]
  · refine (errors_eq_nil_iff _).2 ⟨cs.map fun c => (tailCount c, c), ?_, ?_⟩
    · rintro f hf
      obtain ⟨c, hc, rfl⟩ := List.mem_map.1 hf
      exact hplain c hc
    · rw [bytesOf, List.flatMap_map]
      rfl

/-- Three code points, of which the last two are one line break. -/
theorem readDocument_encode_euro :
    (readDocument ([0x20AC, 13, 10].flatMap encode)).1 = [0x20AC, 10] :=
  (readDocument_encode [0x20AC, 13, 10] (by decide)).1

/-! ### After any number of characters -/

variable {source : Bytes} {iter : Utf8Iterator} {i : ℕ}

/-- The iterator behind `n` calls of `utf8iterator_next`. -/
def reached (source : Bytes) (n : ℕ) : Utf8Iterator := (next source)^[n] (init source)

/-- The number of bytes of the first `n` characters. -/
def place (source : Bytes) (n : ℕ) : ℕ := (((reads source).take n).map CharRead.size).sum

/-- One more call. -/
theorem reached_succ (source : Bytes) (n : ℕ) :
    reached source (n + 1) = next source (reached source n) :=
  Function.iterate_succ_apply' _ _ _

/-- There are no characters in an empty text. -/
theorem reads_nil : reads [] = [] := rfl

/-- The place of the next character. -/
theorem place_succ {r : CharRead} {rs : List CharRead} {n : ℕ}
    (h : (reads source).drop n = r :: rs) : place source (n + 1) = place source n + r.size := by
  have hget : (reads source)[n]? = some r := by
    rw [← List.head?_drop, h]
    rfl
  rw [place, place, List.take_add_one, hget, List.map_append, List.sum_append]
  rfl

/-- What is read behind the first `n` characters is what was to be read there. -/
theorem reads_drop_place (source : Bytes) (n : ℕ) :
    reads (source.drop (place source n)) = (reads source).drop n := by
  induction n with
  | zero => rfl
  | succ n ih =>
      cases hs : source.drop (place source n) with
      | nil =>
          rw [hs, reads_nil, eq_comm, List.drop_eq_nil_iff] at ih
          have hsame : place source (n + 1) = place source n := by
            rw [place, place, List.take_of_length_le ih,
              List.take_of_length_le (Nat.le_succ_of_le ih)]
          rw [hsame, hs, reads_nil, List.drop_eq_nil_of_le (Nat.le_succ_of_le ih)]
      | cons b s =>
          rw [hs, reads_cons] at ih
          rw [place_succ ih.symm, ← List.drop_drop, hs, ← List.tail_drop, ← ih, List.tail_cons]

/-- In front of a character there are bytes, and it is read from them. -/
theorem drop_place_of_lt {n : ℕ} (h : n < (reads source).length) :
    ∃ b s, source.drop (place source n) = b :: s ∧
      (reads source).drop n = readBytes b s :: (reads source).drop (n + 1) := by
  have hreads := reads_drop_place source n
  cases hs : source.drop (place source n) with
  | nil =>
      rw [hs, reads_nil, eq_comm, List.drop_eq_nil_iff] at hreads
      omega
  | cons b s =>
      refine ⟨b, s, rfl, ?_⟩
      rw [hs, reads_cons] at hreads
      rw [← List.tail_drop, ← hreads, List.tail_cons]

/-- The iterator stands in front of the bytes of the character that it has come to. -/
theorem stands_reached {n : ℕ} (h : n ≤ (reads source).length) :
    Stands source (place source n) (reached source n) := by
  induction n with
  | zero => exact stands_init source
  | succ n ih =>
      obtain ⟨b, s, hs, hread⟩ := drop_place_of_lt h
      rw [reached_succ, place_succ hread]
      exact (ih (Nat.le_of_succ_le h)).next hs

/-- Behind the last byte there is only more of the end. -/
theorem Stands.next_of_end (h : Stands source i iter) (hi : source.length ≤ i) :
    ∃ j, source.length ≤ j ∧ Stands source j (Utf8Iterator.next source iter) := by
  rw [Stands, List.drop_eq_nil_iff.2 hi] at h
  obtain ⟨b, s, hdrop, -⟩ | ⟨hend, hnext⟩ := next_cases source iter
  · have hlen := congrArg List.length hdrop
    simp only [List.length_drop, List.length_cons] at hlen
    omega
  · refine ⟨iter.start + iter.width, hend, ?_⟩
    rw [Stands, List.drop_eq_nil_iff.2 hend, hnext]
    exact ⟨rfl, hend⟩

/-- Behind the last character the iterator stays at the end. -/
theorem reached_of_le {n : ℕ} (h : (reads source).length ≤ n) :
    (reached source n).current = -1 ∧ source.length ≤ (reached source n).start := by
  have hstands : ∃ j, source.length ≤ j ∧ Stands source j (reached source n) := by
    induction n, h using Nat.le_induction with
    | base =>
        refine ⟨place source (reads source).length, ?_, stands_reached le_rfl⟩
        have hreads := reads_drop_place source (reads source).length
        rw [List.drop_length] at hreads
        cases hs : source.drop (place source (reads source).length) with
        | nil => exact List.drop_eq_nil_iff.1 hs
        | cons b s =>
            rw [hs, reads_cons] at hreads
            cases hreads
    | succ n _ ih =>
        obtain ⟨j, hj, hstands⟩ := ih
        rw [reached_succ]
        exact hstands.next_of_end hj
  obtain ⟨j, hj, hstands⟩ := hstands
  rwa [Stands, List.drop_eq_nil_iff.2 hj] at hstands

/-- The characters are delivered one behind the other. -/
theorem current_reached (source : Bytes) (n : ℕ) :
    (reached source n).current = ((decode source)[n]?.map (Nat.cast : ℕ → ℤ)).getD (-1) := by
  rw [decode, List.getElem?_map, ← List.head?_drop]
  obtain h | h := Nat.lt_or_ge n (reads source).length
  · obtain ⟨b, s, hs, hread⟩ := drop_place_of_lt h
    have hstands := stands_reached h.le
    rw [Stands, hs] at hstands
    rw [hread, hstands.1]
    rfl
  · rw [List.drop_eq_nil_of_le h, (reached_of_le h).1]
    rfl

/-- **The offset is the pointer**, after any number of calls. -/
theorem offset_reached (source : Bytes) (n : ℕ) :
    (reached source n).pos.offset = (reached source n).start := by
  induction n with
  | zero => exact offset_init source
  | succ n ih =>
      rw [reached_succ]
      exact offset_next ih

/-- The line is one more than the line feeds that have been passed. -/
theorem line_reached (source : Bytes) (n : ℕ) :
    (reached source n).pos.line = 1 + ((decode source).take n).count 10 := by
  induction n with
  | zero => exact line_init source
  | succ n ih =>
      rw [reached_succ, line_next, ih, current_reached, List.take_add_one, List.count_append,
        Nat.add_assoc]
      congr 2
      cases hc : (decode source)[n]? with
      | none => rfl
      | some c =>
          by_cases hlf : c = 10
          · simp [hlf]
          · have hlf' : ¬ (c : ℤ) = 10 := by exact_mod_cast hlf
            simp [hlf, hlf']

/-- **Whatever the bytes are**, the iterator comes to their end, has delivered code points that
may stand in a document, no more of them than there are bytes; after any number of characters
its offset is its place and its line one more than the line feeds passed; and writing the code
points down gives a document with the same code points. -/
theorem readDocument_bytes (source : Bytes) : ∃ cs : List ℕ,
    (readDocument source).1 = cs.map (Nat.cast : ℕ → ℤ) ∧ (∀ c ∈ cs, Delivered c) ∧
      cs.length ≤ source.length ∧
      (readDocument source).2.start = source.length ∧
      (readDocument source).2.pos.offset = source.length ∧
      (readDocument source).2.pos.line = 1 + cs.count 10 ∧
      (∀ n, (reached source n).pos.offset = (reached source n).start ∧
        (reached source n).pos.line = 1 + (cs.take n).count 10) ∧
      (readDocument (cs.flatMap encode)).1 = (readDocument source).1 := by
  have hread := documentRead source
  refine ⟨decode source, hread.codePoints, fun c => delivered_of_mem_decode,
    length_decode_le source, hread.start, hread.offset, hread.line,
    fun n => ⟨offset_reached source n, line_reached source n⟩, ?_⟩
  rw [(documentRead _).codePoints, decode_encode_decode, hread.codePoints]

/-! ### Going back -/

/-- `utf8iterator_next` leaves the mark where it is. -/
theorem mark_next (source : Bytes) (iter : Utf8Iterator) :
    (next source iter).mark = iter.mark ∧ (next source iter).markPos = iter.markPos := by
  obtain ⟨b, s, -, hread⟩ | ⟨-, hnext⟩ := next_cases source iter
  · exact ⟨hread.mark, hread.markPos⟩
  · rw [hnext]
    exact ⟨rfl, rfl⟩

/-- Any number of calls of `utf8iterator_next` leaves the mark where it is. -/
theorem mark_iterate (source : Bytes) (k : ℕ) (iter : Utf8Iterator) :
    ((next source)^[k] iter).mark = iter.mark ∧
      ((next source)^[k] iter).markPos = iter.markPos := by
  induction k generalizing iter with
  | zero => exact ⟨rfl, rfl⟩
  | succ k ih =>
      rw [Function.iterate_succ_apply, (ih _).1, (ih _).2]
      exact mark_next source iter

/-- A reset reads a character at the mark, however far the iterator has gone. -/
theorem reset_iterate (source : Bytes) (k : ℕ) (iter : Utf8Iterator) :
    ∃ there : Utf8Iterator, there.start = iter.start ∧ there.pos = iter.pos ∧
      reset source ((next source)^[k] iter.setMark) = readChar source there := by
  obtain ⟨hmark, hmarkPos⟩ := mark_iterate source k iter.setMark
  exact ⟨_, hmark, hmarkPos, rfl⟩

/-- A carriage return is passed over when the byte at its width less one is a line feed. -/
theorem skipsCr_spec (h : (readBytes b s).skipsCr = true) :
    (readBytes b s).codePoint = 10 ∧ s[(readBytes b s).width - 1]? = some lf := by
  obtain ⟨truncated, isBadChar, n, v, hread⟩ := exists_finishChar b s
  rw [hread] at h ⊢
  obtain ⟨hcr, hlf⟩ := Bool.and_eq_true_iff.1 h
  exact ⟨if_pos (of_decide_eq_true hcr), eq_of_beq hlf⟩

/-- A carriage return in a form of three or four bytes, in front of a line feed. -/
def LongCrLf (s : Bytes) : Prop :=
  ∃ w rest, (w = 2 ∨ w = 3) ∧ s = form w 13 ++ lf :: rest

/-- The forms of a carriage return that are taken: the shortest, and the two longest. -/
theorem plain_cr {w : ℕ} (h : w = 0 ∨ w = 2 ∨ w = 3) : Plain w 13 := by
  rcases h with rfl | rfl | rfl <;> exact ⟨by decide, by decide, by decide, by decide, by decide⟩

/-- A carriage return is passed over in one of its forms only. -/
theorem form_of_skipsCr (h : (readBytes b s).skipsCr = true) :
    (∃ rest, b :: s = 13 :: lf :: rest) ∨ LongCrLf (b :: s) := by
  have hgood : (readBytes b s).isBadChar = false := by
    by_contra hbad
    have hcode := codePoint_of_isBadChar (Bool.not_eq_false _ ▸ hbad)
    rw [(skipsCr_spec h).1] at hcode
    exact absurd hcode (by decide)
  obtain ⟨w, c, rest, hplain, hform⟩ := exists_form hgood
  rw [form, List.cons_append] at hform
  obtain ⟨rfl, rfl⟩ := List.cons.inj hform
  have hskip : (decide (c = 13) && rest.head? == some lf) = true := by
    rw [← h, readBytes_form hplain]
  obtain ⟨hc, hlf⟩ := Bool.and_eq_true_iff.1 hskip
  obtain rfl : c = 13 := of_decide_eq_true hc
  obtain ⟨rest, rfl⟩ := List.head?_eq_some_iff.1 (eq_of_beq hlf)
  have hle := hplain.le
  have htwo := hplain.two
  interval_cases w
  · exact .inl ⟨rest, rfl⟩
  · exact absurd (htwo rfl) (by decide)
  · exact .inr ⟨2, rest, .inl rfl, rfl⟩
  · exact .inr ⟨3, rest, .inr rfl, rfl⟩

/-- A line feed is read as itself. -/
theorem readBytes_lf (rest : Bytes) : readBytes lf rest = ⟨false, 1, false, 10, false⟩ :=
  readBytes_form (n := 0) (c := 10) ⟨by decide, by decide, by decide, by decide, by decide⟩ rest

/-- Where the iterator stands, the character under it can be read once more: a carriage return
has been left behind by one byte only. -/
theorem Stands.reread (h : Stands source i iter) (hi : source.drop i = b :: s)
    (hlong : ¬ LongCrLf (b :: s)) :
    ∃ b s, source.drop iter.start = b :: s ∧ iter.current = (readBytes b s).codePoint ∧
      iter.width = (readBytes b s).width ∧ (readBytes b s).skipsCr = false := by
  rw [Stands, hi] at h
  obtain ⟨hcurrent, hwidth, hstart⟩ := h
  rw [CharRead.size, ← hwidth] at hstart
  cases hskip : (readBytes b s).skipsCr with
  | false =>
      rw [hskip] at hstart
      obtain rfl : iter.start = i := by simpa using hstart
      exact ⟨b, s, hi, hcurrent, hwidth, hskip⟩
  | true =>
      obtain ⟨rest, hrest⟩ := (form_of_skipsCr hskip).resolve_right hlong
      obtain ⟨rfl, rfl⟩ := List.cons.inj hrest
      have hread : readBytes 13 (lf :: rest) = ⟨false, 1, false, 10, true⟩ :=
        readBytes_form (plain_cr (.inl rfl)) (lf :: rest)
      rw [hread] at hcurrent hwidth hstart
      have hplace : iter.start = i + 1 := by
        simp only [if_true] at hstart
        omega
      refine ⟨lf, rest, ?_, ?_, ?_, ?_⟩
      · rw [hplace, ← List.drop_drop, hi]
        rfl
      · rw [readBytes_lf, hcurrent]
      · rw [readBytes_lf, hwidth]
      · rw [readBytes_lf]

/-- The cursor of an iterator: all of it but the mark and the errors. -/
def cursor (iter : Utf8Iterator) : ℕ × ℤ × ℕ × GumboSourcePosition :=
  (iter.start, iter.current, iter.width, iter.pos)

/-- Cursors that are the same stand at the same code point. -/
theorem current_eq_of_cursor_eq {iter' : Utf8Iterator} (h : iter.cursor = iter'.cursor) :
    iter.current = iter'.current :=
  congrArg (fun c => c.2.1) h

/-- Going back to the mark gives the cursor back where the character is read again as it was. -/
theorem Stands.cursor_back (h : Stands source i iter) (hi : source.drop i = b :: s)
    (hlong : ¬ LongCrLf (b :: s)) (k : ℕ) :
    (reset source ((Utf8Iterator.next source)^[k] iter.setMark)).cursor = iter.cursor := by
  obtain ⟨b, s, hdrop, hcurrent, hwidth, hskip⟩ := h.reread hi hlong
  obtain ⟨there, hstart, hpos, heq⟩ := reset_iterate source k iter
  rw [heq]
  have hread : ReadFrom there (readBytes b s) (readChar source there) :=
    readChar_readFrom (by rw [hstart, hdrop])
  have hback : (readChar source there).start = iter.start := by
    rw [hread.start, hskip, hstart]
    rfl
  have hposBack : (readChar source there).pos = iter.pos := by
    have hline := hread.line
    have hcolumn := hread.column
    have hoffset := hread.offset
    rw [hskip] at hoffset
    simp only [hpos] at hline hcolumn hoffset
    cases hp : (readChar source there).pos
    cases hp' : iter.pos
    simp_all
  rw [cursor, cursor, hback, hposBack, hread.current, hread.width, hcurrent, hwidth]

/-- A continuation byte is no character. -/
theorem codePoint_of_tail (s : Bytes) : (readBytes 0x80 s).codePoint = kUtf8ReplacementChar := by
  have hlead : leadByte (0x80 : UInt8).toNat = ⟨1, 0, true⟩ := rfl
  apply codePoint_of_isBadChar
  simp only [readBytes, hlead, finishChar, Bool.true_or]

/-- Going back to a carriage return in a longer form finds a bad byte. -/
theorem Stands.current_back (h : Stands source i iter) (hi : source.drop i = b :: s)
    (hlong : LongCrLf (b :: s)) (k : ℕ) :
    iter.current = 10 ∧
      (reset source ((Utf8Iterator.next source)^[k] iter.setMark)).current =
        kUtf8ReplacementChar := by
  obtain ⟨w, rest, hw, hform⟩ := hlong
  rw [form, List.cons_append] at hform
  obtain ⟨rfl, rfl⟩ := List.cons.inj hform
  have hread := readBytes_form (plain_cr (.inr hw)) (lf :: rest)
  rw [Stands, hi] at h
  simp only [hread] at h
  obtain ⟨hcurrent, hwidth, hstart⟩ := h
  have hplace : iter.start = i + 1 := by
    simp only [CharRead.size, List.head?_cons, beq_self_eq_true, decide_true, Bool.and_self,
      if_true] at hstart hwidth
    omega
  obtain ⟨t, ht⟩ : ∃ t, tailBytes w 13 ++ lf :: rest = 0x80 :: t := by
    rcases hw with rfl | rfl <;> exact ⟨_, rfl⟩
  obtain ⟨there, hthere, -, heq⟩ := reset_iterate source k iter
  have hdrop : source.drop there.start = 0x80 :: t := by
    rw [hthere, hplace, ← List.drop_drop, hi, ht]
    rfl
  refine ⟨hcurrent, ?_⟩
  rw [heq, (readChar_readFrom hdrop).current, codePoint_of_tail]

/-- At the end of the document a bad character is read. -/
theorem current_readChar_end (h : source.length ≤ iter.start) :
    (readChar source iter).current = kUtf8ReplacementChar := by
  rw [readChar, List.drop_eq_nil_iff.2 h]
  rfl

/-- **Going back to the mark** gives the pointer, the character, its width and its position,
wherever the iterator had come to and however far it has gone, exactly if there is a character,
and it is no carriage return of three or four bytes in front of a line feed. -/
theorem cursor_reset_iff (source : Bytes) (n k : ℕ) :
    (reset source ((next source)^[k] (reached source n).setMark)).cursor =
        (reached source n).cursor ↔
      n < (decode source).length ∧ ¬ LongCrLf (source.drop (place source n)) := by
  rw [decode, List.length_map]
  obtain h | h := Nat.lt_or_ge n (reads source).length
  · obtain ⟨b, s, hs, -⟩ := drop_place_of_lt h
    have hstands := stands_reached h.le
    rw [and_iff_right h, hs]
    refine ⟨fun heq hlong => ?_, fun hlong => hstands.cursor_back hs hlong k⟩
    obtain ⟨hcurrent, hback⟩ := hstands.current_back hs hlong k
    have hsame := current_eq_of_cursor_eq heq
    rw [hback, hcurrent] at hsame
    exact absurd hsame (by decide)
  · refine iff_of_false (fun heq => ?_) fun hlt => absurd hlt.1 (Nat.not_lt.2 h)
    obtain ⟨hcurrent, hend⟩ := reached_of_le h
    obtain ⟨there, hthere, -, hreset⟩ := reset_iterate source k (reached source n)
    have hback : (readChar source there).current = kUtf8ReplacementChar :=
      current_readChar_end (hthere ▸ hend)
    rw [hreset] at heq
    have hsame := current_eq_of_cursor_eq heq
    rw [hback, hcurrent] at hsame
    exact absurd hsame (by decide)

-- a carriage return of three bytes: it is a line feed, and going back to it finds a bad byte
example : (init [0xE0, 0x80, 0x8D, 10]).current = 10 ∧
    (reset [0xE0, 0x80, 0x8D, 10] (init [0xE0, 0x80, 0x8D, 10]).setMark).current = 0xFFFD := by
  decide

-- at the end of the document two errors are recorded
example : ((reset [0x61] (reached [0x61] 1).setMark).errors.map GumboError.type) =
    [.utf8Truncated, .utf8Invalid] := by
  decide

end Utf8Iterator

end Gumbo
end Scaner
