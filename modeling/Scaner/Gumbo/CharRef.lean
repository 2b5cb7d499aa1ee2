/-
# Character references

`html_parser/char_ref.cpp`: what stands behind an ampersand.  An `int` has 32 bits and wraps.
The table `kNamedEntities` is a parameter: the functions search a list of names from the front.

Whatever stands there, either nothing is taken of it or at least one code point is
(`leftOver_consumeCharRef`).  Since the digits of a number are multiplied up in an `int`, a number
that is too large by a multiple of `2^32` is a good reference (`consumeCharRef_numeral`).
-/

import Scaner.Gumbo.Input

namespace Scaner
namespace Gumbo

open Bytes Utf8 Utf8Iterator

/-- The code of a character. -/
def ch (x : Char) : ℤ := x.toNat

/-- `kGumboNoChar`. -/
def kGumboNoChar : ℤ := -1

/-- `struct OneOrTwoCodepoints`. -/
structure OneOrTwoCodepoints where
  first : ℤ
  second : ℤ
  deriving DecidableEq

/-- `struct NamedCharRef`, a row of the table in front of its end. -/
structure NamedCharRef where
  name : Bytes
  codepoints : OneOrTwoCodepoints
  name_ne : name ≠ []
  first_ne : codepoints.first ≠ kGumboNoChar

/-- `kCharReplacements`. -/
def kCharReplacements : List (ℤ × ℤ) :=
  [(0x00, 0xfffd), (0x0d, 0x000d), (0x80, 0x20ac), (0x81, 0x0081), (0x82, 0x201A),
    (0x83, 0x0192), (0x84, 0x201E), (0x85, 0x2026), (0x86, 0x2020), (0x87, 0x2021),
    (0x88, 0x02C6), (0x89, 0x2030), (0x8A, 0x0160), (0x8B, 0x2039), (0x8C, 0x0152),
    (0x8D, 0x008D), (0x8E, 0x017D), (0x8F, 0x008F), (0x90, 0x0090), (0x91, 0x2018),
    (0x92, 0x2019), (0x93, 0x201C), (0x94, 0x201D), (0x95, 0x2022), (0x96, 0x2013),
    (0x97, 0x2014), (0x98, 0x02DC), (0x99, 0x2122), (0x9A, 0x0161), (0x9B, 0x203A),
    (0x9C, 0x0153), (0x9D, 0x009D), (0x9E, 0x017E), (0x9F, 0x0178)]

/-- `parse_digit`. -/
def parseDigit (c : ℤ) (allowHex : Bool) : ℤ :=
  if ch '0' ≤ c ∧ c ≤ ch '9' then c - ch '0'
  else if allowHex = true ∧ ch 'a' ≤ c ∧ c ≤ ch 'f' then c - ch 'a' + 10
  else if allowHex = true ∧ ch 'A' ≤ c ∧ c ≤ ch 'F' then c - ch 'A' + 10
  else -1

/-- `gumbo_add_error` and `utf8iterator_fill_error_at_mark`, with which `add_no_digit_error`,
`add_codepoint_error` and `add_named_reference_error` begin. -/
def addErrorAtMark (iter : Utf8Iterator) (type : GumboErrorType) (v : GumboErrorValue) :
    Utf8Iterator :=
  { iter with errors := iter.errors ++ [⟨type, iter.markPos, iter.mark, v⟩] }

/-- `add_no_digit_error`. -/
def addNoDigitError (iter : Utf8Iterator) : Utf8Iterator :=
  addErrorAtMark iter .numericCharRefNoDigits .none

/-- `add_codepoint_error`. -/
def addCodepointError (iter : Utf8Iterator) (type : GumboErrorType) (codepoint : ℤ) :
    Utf8Iterator :=
  addErrorAtMark iter type (.codepoint codepoint)

/-- `add_named_reference_error`. -/
def addNamedReferenceError (iter : Utf8Iterator) (type : GumboErrorType) (text : Bytes) :
    Utf8Iterator :=
  addErrorAtMark iter type (.text text)

/-- `maybe_replace_codepoint`. -/
def maybeReplaceCodepoint (codepoint : ℤ) : ℤ :=
  ((kCharReplacements.find? fun r => r.1 == codepoint).map Prod.snd).getD (-1)

/-- `is_hex ? 16 : 10`. -/
def base (isHex : Bool) : ℤ := if isHex then 16 else 10

/-- The loop over the digits: the code point, and the iterator behind them.  The first argument
bounds the number of turns. -/
def digitLoop (source : Bytes) (isHex : Bool) : ℕ → ℤ → ℤ → Utf8Iterator → ℤ × Utf8Iterator
  | 0, codepoint, _, input => (codepoint, input)
  | n + 1, codepoint, digit, input =>
      let codepoint := (codepoint * base isHex + digit).bmod (2 ^ 32)
      let input := next source input
      let digit := parseDigit input.current isHex
      if digit ≠ -1 then digitLoop source isHex n codepoint digit input else (codepoint, input)

/-- What a function of the character references returns, what it puts out, and the iterator. -/
structure Consumed where
  status : Bool
  output : OneOrTwoCodepoints
  input : Utf8Iterator

/-- `consume_numeric_ref` behind the semicolon. -/
def checkCodepoint (input : Utf8Iterator) (status : Bool) (codepoint : ℤ) : Consumed :=
  let replacement := maybeReplaceCodepoint codepoint
  if replacement ≠ -1 then
    ⟨false, ⟨replacement, kGumboNoChar⟩, addCodepointError input .numericCharRefInvalid codepoint⟩
  else if (0xd800 ≤ codepoint ∧ codepoint ≤ 0xdfff) ∨ 0x10ffff < codepoint then
    ⟨false, ⟨0xfffd, kGumboNoChar⟩, addCodepointError input .numericCharRefInvalid codepoint⟩
  else if utf8IsInvalidCodePoint codepoint = true ∨ codepoint = 0xb then
    ⟨false, ⟨codepoint, kGumboNoChar⟩, addCodepointError input .numericCharRefInvalid codepoint⟩
  else ⟨status, ⟨codepoint, kGumboNoChar⟩, input⟩

/-- `consume_numeric_ref` behind the digits. -/
def finishNumericRef (source : Bytes) (codepoint : ℤ) (input : Utf8Iterator) : Consumed :=
  if input.current ≠ ch ';' then
    checkCodepoint (addCodepointError input .numericCharRefWithoutSemicolon codepoint) false
      codepoint
  else checkCodepoint (next source input) true codepoint

/-- `consume_numeric_ref` from the first digit on. -/
def consumeDigits (source : Bytes) (isHex : Bool) (input : Utf8Iterator) : Consumed :=
  let digit := parseDigit input.current isHex
  if digit = -1 then
    ⟨false, ⟨kGumboNoChar, kGumboNoChar⟩, reset source (addNoDigitError input)⟩
  else
    let r := digitLoop source isHex (source.length + 1) 0 digit input
    finishNumericRef source r.1 r.2

/-- `consume_numeric_ref`. -/
def consumeNumericRef (source : Bytes) (input : Utf8Iterator) : Consumed :=
  let input := next source input
  if input.current = ch 'x' ∨ input.current = ch 'X' then
    consumeDigits source true (next source input)
  else consumeDigits source false input

/-- `find_named_char_ref`. -/
def findNamedCharRef (source : Bytes) (input : Utf8Iterator) :
    List NamedCharRef → Option NamedCharRef × Utf8Iterator
  | [] => (none, input)
  | current :: entities =>
      let r := maybeConsumeMatch source input current.name true
      if r.1 then (some current, r.2) else findNamedCharRef source input entities

/-- `isalnum`, which is not defined above 255. -/
def isAlnum (c : ℤ) : Bool :=
  decide (ch '0' ≤ c ∧ c ≤ ch '9') || decide (ch 'A' ≤ c ∧ c ≤ ch 'Z') ||
    decide (ch 'a' ≤ c ∧ c ≤ ch 'z')

/-- `is_legal_attribute_char_next`. -/
def isLegalAttributeCharNext (input : Utf8Iterator) : Bool :=
  input.current == ch '=' || isAlnum input.current

/-- The loop of `maybe_add_invalid_named_reference`.  The first argument bounds the number of
turns. -/
def skipAlnum (source : Bytes) : ℕ → Utf8Iterator → Utf8Iterator
  | 0, input => input
  | n + 1, input => if isAlnum input.current then skipAlnum source n (next source input) else input

/-- `maybe_add_invalid_named_reference`. -/
def maybeAddInvalidNamedReference (source : Bytes) (input : Utf8Iterator) : Bool × Utf8Iterator :=
  let start := input.start
  let input := skipAlnum source (source.length + 1) input
  if input.current = ch ';' then
    (false, addNamedReferenceError input .namedCharRefInvalid
      ((source.drop start).take (input.start - start)))
  else (true, input)

/-- `consume_named_ref`. -/
def consumeNamedRef (source : Bytes) (entities : List NamedCharRef) (input : Utf8Iterator)
    (isInAttribute : Bool) : Consumed :=
  match findNamedCharRef source input entities with
  | (some charRef, input) =>
      if charRef.name.getLast? = some semicolon then ⟨true, charRef.codepoints, input⟩
      else if isInAttribute && isLegalAttributeCharNext input then
        ⟨true, ⟨kGumboNoChar, kGumboNoChar⟩, reset source input⟩
      else
        ⟨false, charRef.codepoints,
          addNamedReferenceError input .namedCharRefWithoutSemicolon charRef.name⟩
  | (none, input) =>
      let r := maybeAddInvalidNamedReference source input
      ⟨r.1, ⟨kGumboNoChar, kGumboNoChar⟩, reset source r.2⟩

/-- `consume_char_ref`. -/
def consumeCharRef (source : Bytes) (entities : List NamedCharRef) (input : Utf8Iterator)
    (additionalAllowedChar : ℤ) (isInAttribute : Bool) : Consumed :=
  let input := next source input.setMark
  let c := input.current
  if c = additionalAllowedChar then ⟨true, ⟨kGumboNoChar, kGumboNoChar⟩, reset source input⟩
  else if c = 9 ∨ c = 10 ∨ c = 12 ∨ c = ch ' ' ∨ c = ch '<' ∨ c = ch '&' ∨ c = -1 then
    ⟨true, ⟨kGumboNoChar, kGumboNoChar⟩, reset source input⟩
  else if c = ch '#' then consumeNumericRef source input
  else consumeNamedRef source entities input isInAttribute

/-! ### What is left behind a reference -/

variable {source : Bytes} {iter : Utf8Iterator} {cs : List ℕ}

/-- Recording an error does not move the mark. -/
@[simp]
theorem addErrorAtMark_mark (iter : Utf8Iterator) (type : GumboErrorType) (v : GumboErrorValue) :
    (addErrorAtMark iter type v).mark = iter.mark := rfl

/-- Recording an error does not move the cursor. -/
theorem Rest.addErrorAtMark (h : Rest source iter cs) (type : GumboErrorType)
    (v : GumboErrorValue) : Rest source (addErrorAtMark iter type v) cs :=
  h.congr rfl rfl rfl

/-- A digit, as `parse_digit` takes it. -/
def IsDigit (isHex : Bool) (c : ℕ) : Prop := parseDigit c isHex ≠ -1

instance (isHex : Bool) (c : ℕ) : Decidable (IsDigit isHex c) := inferInstanceAs (Decidable (¬ _))

/-- The value of some digits. -/
def refValue (isHex : Bool) (v : ℤ) (ds : List ℕ) : ℤ :=
  ds.foldl (fun v (d : ℕ) => v * base isHex + parseDigit d isHex) v

/-- The end of the document is no digit. -/
theorem parseDigit_neg_one (isHex : Bool) : parseDigit (-1) isHex = -1 := by
  cases isHex <;> decide

/-- The digits in front, for `parse_digit` of the code point under the cursor. -/
theorem parseDigit_front (isHex : Bool) (cs : List ℕ) :
    parseDigit (front cs) isHex ≠ -1 ↔ ∃ c rest, cs = c :: rest ∧ IsDigit isHex c := by
  cases cs with
  | nil => simp [parseDigit_neg_one]
  | cons c cs => simp [IsDigit]

/-- One more digit, before or after an `int` has wrapped. -/
theorem bmod_step (v b d : ℤ) :
    (v.bmod (2 ^ 32) * b + d).bmod (2 ^ 32) = (v * b + d).bmod (2 ^ 32) := by
  rw [← Int.bmod_add_bmod, Int.bmod_mul_bmod, Int.bmod_add_bmod]

/-- The digits are read from the left. -/
theorem refValue_cons (isHex : Bool) (v : ℤ) (d : ℕ) (ds : List ℕ) :
    refValue isHex v (d :: ds) = refValue isHex (v * base isHex + parseDigit d isHex) ds := rfl

/-- It is enough that an `int` has wrapped at the end. -/
theorem refValue_bmod (isHex : Bool) (v : ℤ) (ds : List ℕ) :
    (refValue isHex (v.bmod (2 ^ 32)) ds).bmod (2 ^ 32) =
      (refValue isHex v ds).bmod (2 ^ 32) := by
  induction ds generalizing v with
  | nil => exact Int.bmod_bmod
  | cons d ds ih =>
      rw [refValue_cons, refValue_cons, ← ih, bmod_step, ih]

/-- What the loop over the digits comes to. -/
structure DigitsRead (source : Bytes) (isHex : Bool) (codepoint : ℤ) (iter : Utf8Iterator)
    (cs : List ℕ) (r : ℤ × Utf8Iterator) : Prop where
  value : r.1 = (refValue isHex codepoint (cs.takeWhile (IsDigit isHex ·))).bmod (2 ^ 32)
  input : r.2 = (Utf8Iterator.next source)^[(cs.takeWhile (IsDigit isHex ·)).length] iter

/-- What follows a run of elements with a property. -/
theorem drop_length_takeWhile {α : Type*} (p : α → Bool) (l : List α) :
    l.drop (l.takeWhile p).length = l.dropWhile p := by
  have h : (l.takeWhile p ++ l.dropWhile p).drop (l.takeWhile p).length = l.dropWhile p :=
    List.drop_left
  rwa [List.takeWhile_append_dropWhile] at h

/-- Behind the digits, what follows them is left. -/
theorem DigitsRead.rest {isHex : Bool} {codepoint : ℤ} {r : ℤ × Utf8Iterator}
    (h : DigitsRead source isHex codepoint iter cs r) (hrest : Rest source iter cs) :
    Rest source r.2 (cs.dropWhile (IsDigit isHex ·)) := by
  rw [h.input, ← drop_length_takeWhile]
  exact hrest.iterate _

/-- The loop, which is entered at a digit, reads all the digits there are. -/
theorem digitsRead_digitLoop {isHex : Bool} {c : ℕ} (n : ℕ) (codepoint : ℤ)
    (h : Rest source iter (c :: cs)) (hc : IsDigit isHex c) (hn : cs.length < n) :
    DigitsRead source isHex codepoint iter (c :: cs)
      (digitLoop source isHex n codepoint (parseDigit c isHex) iter) := by
  induction n generalizing codepoint iter c cs with
  | zero => omega
  | succ n ih =>
      have hnext : Rest source (next source iter) cs := h.next
      have hcurrent := hnext.current
      rw [digitLoop]
      by_cases hdigit : parseDigit (front cs) isHex = -1
      · -- the digits are at their end
        have hstop : cs.takeWhile (IsDigit isHex ·) = [] := by
          cases cs with
          | nil => rfl
          | cons d cs =>
              have hd : ¬ IsDigit isHex d := not_not.2 hdigit
              simp [hd]
        simp only [hcurrent, hdigit, ne_eq, not_true_eq_false, if_false]
        constructor
        · simp [hc, hstop, refValue]
        · simp [hc, hstop]
      · obtain ⟨d, rest, rfl, hd⟩ := (parseDigit_front isHex cs).1 hdigit
        simp only [front_cons] at hcurrent hdigit
        simp only [hcurrent, ne_eq, hdigit, not_false_eq_true, if_true]
        have hrest := ih ((codepoint * base isHex + parseDigit c isHex).bmod (2 ^ 32)) hnext hd
          (by simpa using hn)
        have htake := List.takeWhile_cons_of_pos (p := (IsDigit isHex ·)) (a := c)
          (l := d :: rest) (by simpa using hc)
        constructor
        · rw [htake, hrest.value, refValue_bmod, ← refValue_cons]
        · rw [htake, hrest.input, List.length_cons, Function.iterate_succ_apply]

/-- A code point that may not be denoted moves nothing. -/
theorem checkCodepoint_rest (h : Rest source iter cs) (status : Bool) (codepoint : ℤ) :
    Rest source (checkCodepoint iter status codepoint).input cs := by
  simp only [checkCodepoint]
  split_ifs <;> exact h

/-- Behind the digits a semicolon is taken. -/
def behindDigits (cs : List ℕ) : List ℕ := if front cs = ch ';' then cs.tail else cs

/-- Behind the digits, with or without a semicolon. -/
theorem finishNumericRef_rest (h : Rest source iter cs) (codepoint : ℤ) :
    Rest source (finishNumericRef source codepoint iter).input (behindDigits cs) := by
  rw [finishNumericRef, behindDigits, h.current]
  by_cases hsemicolon : front cs = ch ';'
  · rw [if_neg (not_not.2 hsemicolon), if_pos hsemicolon]
    exact checkCodepoint_rest h.next _ _
  · rw [if_pos hsemicolon, if_neg hsemicolon]
    exact checkCodepoint_rest (Rest.addErrorAtMark h _ _) _ _

/-- The rest behind the digits is an end of what was there. -/
theorem behindDigits_suffix (cs : List ℕ) : behindDigits cs <:+ cs := by
  rw [behindDigits]
  split_ifs
  · exact List.tail_suffix cs
  · exact List.suffix_rfl

/-- What is left behind something that may be a reference: all of it, or less than `cs`. -/
structure LeftOver (source : Bytes) (all cs : List ℕ) (r : Consumed) (left : List ℕ) : Prop where
  rest : Rest source r.input left
  back : left = all ∧ r.output.first = kGumboNoChar ∨ left <:+ cs ∧ left.length < cs.length

/-- Back at the mark, all of the text is left. -/
theorem leftOver_reset {all : List ℕ} (iter : Utf8Iterator) (h : Marked source iter.mark all)
    (status : Bool) :
    LeftOver source all cs ⟨status, ⟨kGumboNoChar, kGumboNoChar⟩, reset source iter⟩ all :=
  ⟨h.reset, .inl ⟨rfl, rfl⟩⟩

/-- With no digit the reference is given up; otherwise the digits are taken. -/
theorem leftOver_consumeDigits {all : List ℕ} (isHex : Bool) (h : Rest source iter cs)
    (hmark : Marked source iter.mark all) :
    ∃ rest, LeftOver source all cs (consumeDigits source isHex iter) rest := by
  rw [consumeDigits]
  by_cases hdigit : parseDigit (front cs) isHex = -1
  · simp only [h.current, hdigit, if_true]
    exact ⟨all, leftOver_reset (addNoDigitError iter) hmark false⟩
  · obtain ⟨c, rest, rfl, hc⟩ := (parseDigit_front isHex cs).1 hdigit
    have hlen : rest.length < source.length + 1 := by
      have := h.length_le
      simp only [List.length_cons] at this
      omega
    have hread := digitsRead_digitLoop (source.length + 1) 0 h hc hlen
    rw [front_cons] at hdigit
    simp only [h.current, front_cons, hdigit, if_false]
    have hsuffix : behindDigits ((c :: rest).dropWhile (IsDigit isHex ·)) <:+ rest := by
      refine (behindDigits_suffix _).trans ?_
      rw [List.dropWhile_cons_of_pos (by simpa using hc)]
      exact List.dropWhile_suffix _
    exact ⟨_, finishNumericRef_rest (hread.rest h) _, .inr ⟨hsuffix.trans (List.suffix_cons _ _),
      Nat.lt_succ_of_le hsuffix.length_le⟩⟩

/-- Less than a part is less than the whole. -/
theorem LeftOver.mono {all cs cs' rest : List ℕ} {r : Consumed}
    (h : LeftOver source all cs r rest) (hsuffix : cs <:+ cs') : LeftOver source all cs' r rest :=
  ⟨h.rest, h.back.imp_right fun hback =>
    ⟨hback.1.trans hsuffix, hback.2.trans_le hsuffix.length_le⟩⟩

/-- A numeric reference, of either base. -/
theorem leftOver_consumeNumericRef {all : List ℕ} (h : Rest source iter cs)
    (hmark : Marked source iter.mark all) :
    ∃ rest, LeftOver source all cs (consumeNumericRef source iter) rest := by
  have hmark' : Marked source (next source iter).mark all := by rwa [(mark_next source iter).1]
  simp only [consumeNumericRef]
  split_ifs
  · obtain ⟨rest, hrest⟩ := leftOver_consumeDigits true h.next.next
      (by rwa [(mark_next source _).1])
    exact ⟨rest, hrest.mono ((List.tail_suffix _).trans (List.tail_suffix _))⟩
  · obtain ⟨rest, hrest⟩ := leftOver_consumeDigits false h.next hmark'
    exact ⟨rest, hrest.mono (List.tail_suffix _)⟩

/-- The search finds no name and does not move, or takes the name that it finds. -/
theorem findNamedCharRef_cases (h : Rest source iter cs) (entities : List NamedCharRef) :
    findNamedCharRef source iter entities = (none, iter) ∨
      ∃ charRef ∈ entities, ∃ iter', findNamedCharRef source iter entities = (some charRef, iter') ∧
        iter'.mark = iter.mark ∧ cs ≠ [] ∧ Rest source iter' (cs.drop charRef.name.length) := by
  induction entities with
  | nil => exact .inl rfl
  | cons current entities ih =>
      rw [findNamedCharRef]
      obtain hfalse | ⟨hle, htrue⟩ := match_cases source iter current.name true
      · simp only [hfalse, Bool.false_eq_true, if_false]
        refine ih.imp_right ?_
        rintro ⟨charRef, hmem, rest⟩
        exact ⟨charRef, List.mem_cons_of_mem _ hmem, rest⟩
      · have hpos := List.length_pos_iff.2 current.name_ne
        simp only [htrue, if_true]
        exact .inr ⟨current, List.mem_cons_self, _, rfl, (mark_iterate source _ iter).1,
          h.start_lt (by omega), h.iterate _⟩

/-- Passing over letters and digits does not move the mark. -/
theorem skipAlnum_mark (source : Bytes) (n : ℕ) (iter : Utf8Iterator) :
    (skipAlnum source n iter).mark = iter.mark := by
  induction n generalizing iter with
  | zero => rfl
  | succ n ih =>
      rw [skipAlnum]
      split_ifs
      · rw [ih, (mark_next source iter).1]
      · rfl

/-- An error for a name that is not known does not move the mark. -/
theorem maybeAddInvalidNamedReference_mark (source : Bytes) (iter : Utf8Iterator) :
    (maybeAddInvalidNamedReference source iter).2.mark = iter.mark := by
  simp only [maybeAddInvalidNamedReference]
  split_ifs
  · exact skipAlnum_mark source _ iter
  · exact skipAlnum_mark source _ iter

/-- A named reference: in an attribute, a name that may go on is given up. -/
theorem leftOver_consumeNamedRef {all : List ℕ} (entities : List NamedCharRef)
    (h : Rest source iter cs) (hmark : Marked source iter.mark all) (isInAttribute : Bool) :
    ∃ rest, LeftOver source all cs (consumeNamedRef source entities iter isInAttribute) rest := by
  rw [consumeNamedRef]
  obtain hnone | ⟨charRef, -, iter', hsome, hmark', hcs, hrest⟩ :=
    findNamedCharRef_cases h entities
  · simp only [hnone]
    exact ⟨all, leftOver_reset _ (by rwa [maybeAddInvalidNamedReference_mark]) _⟩
  · have hshort : (cs.drop charRef.name.length).length < cs.length := by
      have hname := List.length_pos_iff.2 charRef.name_ne
      have hpos := List.length_pos_iff.2 hcs
      rw [List.length_drop]
      omega
    simp only [hsome]
    split_ifs
    · exact ⟨_, hrest, .inr ⟨List.drop_suffix _ _, hshort⟩⟩
    · exact ⟨all, leftOver_reset _ (by rwa [hmark']) _⟩
    · exact ⟨_, hrest.congr rfl rfl rfl, .inr ⟨List.drop_suffix _ _, hshort⟩⟩

/-- **Behind an ampersand** either nothing is taken, and the iterator stands in front of it again,
or at least one code point is. -/
theorem leftOver_consumeCharRef (entities : List NamedCharRef)
    (h : Rest source iter (38 :: cs)) (additionalAllowedChar : ℤ) (isInAttribute : Bool) :
    ∃ rest, LeftOver source (38 :: cs) cs
      (consumeCharRef source entities iter additionalAllowedChar isInAttribute) rest := by
  have hnext : Rest source (next source iter.setMark) cs := h.setMark.next
  have hmark : Marked source (next source iter.setMark).mark (38 :: cs) := by
    rw [(mark_next source _).1]
    exact h.marked (by decide)
  simp only [consumeCharRef]
  split_ifs
  · exact ⟨_, leftOver_reset _ hmark true⟩
  · exact ⟨_, leftOver_reset _ hmark true⟩
  · exact leftOver_consumeNumericRef hnext hmark
  · exact leftOver_consumeNamedRef entities hnext hmark isInAttribute

/-! ### Numerals -/

/-- What stands in front of the digits: nothing, or an `x` or an `X`. -/
def baseMarks (isHex : Bool) : List (List ℕ) := if isHex then [[120], [88]] else [[]]

/-- A reference to a number that is given by its digits, with what stands in front of them. -/
def numericRef (mark ds : List ℕ) : List ℕ := 38 :: 35 :: (mark ++ ds ++ [59])

/-- A code point that a reference can stand for. -/
structure Denotable (c : ℕ) : Prop where
  max : c ≤ 0x10FFFF
  replaced : maybeReplaceCodepoint c = -1
  surrogate : ¬ (0xd800 ≤ c ∧ c ≤ 0xdfff)
  valid : utf8IsInvalidCodePoint c = false

/-- A code point that may be denoted is returned as it is, and no error is recorded. -/
theorem checkCodepoint_of_denotable {c : ℕ} (h : Denotable c) (iter : Utf8Iterator)
    (status : Bool) : checkCodepoint iter status c = ⟨status, ⟨c, kGumboNoChar⟩, iter⟩ := by
  obtain ⟨hmax, hreplaced, hsurrogate, hvalid⟩ := h
  have hb : ¬ (c : ℤ) = 0xb := by
    intro hb
    rw [hb] at hvalid
    exact absurd hvalid (by decide)
  have hrange : ¬ ((0xd800 ≤ (c : ℤ) ∧ (c : ℤ) ≤ 0xdfff) ∨ 0x10ffff < (c : ℤ)) := by omega
  simp only [checkCodepoint, hreplaced, ne_eq, not_true_eq_false, if_false, hrange, hvalid,
    Bool.false_eq_true, hb, or_self]

/-- Digits and a semicolon are read as their value, up to a multiple of `2 ^ 32`. -/
theorem consumeDigits_numeral {isHex : Bool} {ds : List ℕ} (cs : List ℕ)
    (hds : ∀ d ∈ ds, IsDigit isHex d) (hne : ds ≠ []) (h : Rest source iter (ds ++ 59 :: cs)) :
    consumeDigits source isHex iter =
      checkCodepoint ((next source)^[ds.length + 1] iter) true
        ((refValue isHex 0 ds).bmod (2 ^ 32)) := by
  obtain ⟨c, rest, rfl⟩ := List.exists_cons_of_ne_nil hne
  have hc : IsDigit isHex c := hds c List.mem_cons_self
  have hlen : (rest ++ 59 :: cs).length < source.length + 1 := by
    have := h.length_le
    simp only [List.length_append, List.length_cons] at this ⊢
    omega
  have hread := digitsRead_digitLoop (source.length + 1) 0
    (show Rest source iter (c :: (rest ++ 59 :: cs)) from h) hc hlen
  have hstop : ¬ IsDigit isHex 59 := by cases isHex <;> decide
  have hall : ∀ d ∈ c :: rest, decide (IsDigit isHex d) = true := fun d hd =>
    decide_eq_true (hds d hd)
  obtain ⟨hvalue, hinput⟩ := hread
  rw [← List.cons_append, List.takeWhile_append_of_pos hall,
    List.takeWhile_cons_of_neg (by simpa using hstop), List.append_nil] at hvalue hinput
  have hrest := h.iterate (c :: rest).length
  rw [List.drop_left, ← hinput] at hrest
  have hdigit : ¬ parseDigit c isHex = -1 := hc
  have hsemicolon : front (59 :: cs) = ch ';' := rfl
  simp only [consumeDigits, h.current, List.cons_append, front_cons, hdigit, if_false]
  rw [finishNumericRef, hrest.current, hsemicolon, if_neg (not_not.2 rfl), hvalue, hinput,
    Function.iterate_succ_apply']

/-- A digit is no `x`. -/
theorem ne_x_of_isDigit {isHex : Bool} {d : ℕ} (h : IsDigit isHex d) :
    ¬ ((d : ℤ) = ch 'x' ∨ (d : ℤ) = ch 'X') := by
  rintro (hd | hd) <;> rw [IsDigit, hd] at h <;> cases isHex <;> exact h (by decide)

/-- **A number with a semicolon, as a reference**: the iterator goes on behind the semicolon, and
the value of the digits, wrapped, is checked. -/
theorem consumeCharRef_numericRef {isHex : Bool} {mark ds : List ℕ}
    (hmark : mark ∈ baseMarks isHex) (hds : ∀ d ∈ ds, IsDigit isHex d) (hne : ds ≠ [])
    (entities : List NamedCharRef) {additionalAllowedChar : ℤ}
    (hadditional : additionalAllowedChar ≠ 35) (isInAttribute : Bool)
    (h : Rest source iter (numericRef mark ds ++ cs)) :
    consumeCharRef source entities iter additionalAllowedChar isInAttribute =
      checkCodepoint ((next source)^[(numericRef mark ds).length] iter.setMark) true
        ((refValue isHex 0 ds).bmod (2 ^ 32)) := by
  have hnext : Rest source (next source iter.setMark) (35 :: (mark ++ ds ++ [59]) ++ cs) :=
    h.setMark.next
  have hcurrent : (next source iter.setMark).current = 35 := hnext.current
  have hhash : consumeCharRef source entities iter additionalAllowedChar isInAttribute =
      consumeNumericRef source (next source iter.setMark) := by
    simp only [consumeCharRef, hcurrent]
    rw [if_neg (Ne.symm hadditional), if_neg (by decide), if_pos (by decide)]
  have hdigits : Rest source (next source (next source iter.setMark)) (mark ++ ds ++ [59] ++ cs) :=
    hnext.next
  rw [hhash, consumeNumericRef]
  cases isHex with
  | true =>
      obtain ⟨x, rfl, hx⟩ : ∃ x : ℕ, mark = [x] ∧ ((x : ℤ) = ch 'x' ∨ (x : ℤ) = ch 'X') := by
        simp only [baseMarks, if_true, List.mem_cons, List.not_mem_nil, or_false] at hmark
        rcases hmark with rfl | rfl
        · exact ⟨120, rfl, .inl rfl⟩
        · exact ⟨88, rfl, .inr rfl⟩
      have hcur : (next source (next source iter.setMark)).current = x := hdigits.current
      have hlen : (numericRef [x] ds).length = ds.length + 1 + 3 := by simp [numericRef]
      have heq := consumeDigits_numeral cs hds hne (by simpa using hdigits.next)
      simp only [hcur]
      rw [if_pos hx, heq, hlen, Function.iterate_add_apply]
      rfl
  | false =>
      obtain rfl : mark = [] := by simpa [baseMarks] using hmark
      obtain ⟨d, rest, rfl⟩ := List.exists_cons_of_ne_nil hne
      have hcur : (next source (next source iter.setMark)).current = d := hdigits.current
      have hlen : (numericRef [] (d :: rest)).length = (d :: rest).length + 1 + 2 := by
        simp [numericRef]
      have heq := consumeDigits_numeral cs hds hne (by simpa using hdigits)
      simp only [hcur]
      rw [if_neg (ne_x_of_isDigit (hds d List.mem_cons_self)), heq, hlen,
        Function.iterate_add_apply]
      rfl

/-- The text of a reference is read without an error. -/
theorem good_of_mem_numericRef {isHex : Bool} {mark ds : List ℕ} (hmark : mark ∈ baseMarks isHex)
    (hds : ∀ d ∈ ds, IsDigit isHex d) :
    ∀ c ∈ numericRef mark ds, c ≠ kUtf8ReplacementChar := by
  have hdigit : ¬ IsDigit isHex kUtf8ReplacementChar := by cases isHex <;> decide
  have hmarks : ∀ mark ∈ baseMarks isHex, kUtf8ReplacementChar ∉ mark := by
    cases isHex <;> decide
  rintro c hc rfl
  simp only [numericRef, List.mem_cons, List.mem_append, List.not_mem_nil, or_false] at hc
  rcases hc with hc | hc | (hc | hc) | hc
  · exact absurd hc (by decide)
  · exact absurd hc (by decide)
  · exact hmarks mark hmark hc
  · exact hdigit (hds _ hc)
  · exact absurd hc (by decide)

/-- A code point is left of a value that has wrapped any number of times. -/
theorem bmod_of_le {c : ℕ} (h : c ≤ 0x10FFFF) (k : ℕ) :
    ((c : ℤ) + k * 2 ^ 32).bmod (2 ^ 32) = (c : ℤ) := by
  have hsum : (c : ℤ) + k * 2 ^ 32 = c + k * ((2 ^ 32 : ℕ) : ℤ) := by push_cast; rfl
  rw [hsum, Int.add_mul_bmod_self_right]
  apply Int.bmod_eq_of_le_mul_two <;> norm_num <;> omega

/-- **A code point by its number**, in any decimal or hexadecimal digits.  Since the digits are
multiplied up in an `int`, every number that is larger by a multiple of `2^32` stands for the same
code point.  The iterator has gone on behind the semicolon, and no error is recorded, unless the
character there is read as the replacement character. -/
theorem consumeCharRef_numeral {source : Bytes} {iter : Utf8Iterator} {rest : List ℕ}
    (entities : List NamedCharRef) (isHex isInAttribute : Bool) (mark ds : List ℕ)
    (hmark : mark ∈ baseMarks isHex) (hds : ∀ d ∈ ds, IsDigit isHex d) (c k : ℕ)
    (hc : Denotable c)
    (hvalue : refValue isHex 0 ds = c + k * 2 ^ 32)
    {additionalAllowedChar : ℤ} (hadditional : additionalAllowedChar ≠ 35)
    (h : Rest source iter (numericRef mark ds ++ rest)) :
    ∃ iter', consumeCharRef source entities iter additionalAllowedChar isInAttribute =
        ⟨true, ⟨c, kGumboNoChar⟩, iter'⟩ ∧
      iter' = (next source)^[(numericRef mark ds).length] iter.setMark ∧
      Rest source iter' rest ∧
      (rest.head? ≠ some kUtf8ReplacementChar → iter'.errors = iter.errors) := by
  have hne : ds ≠ [] := by
    rintro rfl
    have hzero : c = 0 := by
      simp only [refValue, List.foldl_nil] at hvalue
      omega
    exact absurd hc.replaced (by rw [hzero]; decide)
  have heq := consumeCharRef_numericRef hmark hds hne entities hadditional isInAttribute h
  have hrest := h.setMark.iterate (numericRef mark ds).length
  rw [List.drop_left] at hrest
  refine ⟨_, ?_, rfl, hrest, fun hgood => ?_⟩
  · rw [heq, hvalue, bmod_of_le hc.max, checkCodepoint_of_denotable hc]
  · -- the ampersand has been read before, and the last character read is the one behind
    refine h.setMark.iterate_errors fun x hx => ?_
    have hlen : (numericRef mark ds).length = (numericRef mark ds).tail.length + 1 := rfl
    have hdrop : (numericRef mark ds ++ rest).drop 1 = (numericRef mark ds).tail ++ rest := rfl
    rw [hdrop, hlen, List.take_length_add_append] at hx
    rcases List.mem_append.1 hx with hx | hx
    · exact good_of_mem_numericRef hmark hds x (List.mem_of_mem_tail hx)
    · rintro rfl
      cases rest with
      | nil => exact absurd hx List.not_mem_nil
      | cons y rest =>
          obtain rfl : kUtf8ReplacementChar = y := by simpa using hx
          exact hgood rfl

/-- `&#X010000004A;` is the letter J. -/
theorem consumeCharRef_numeral_J :
    let source := str "&#X010000004A;b"
    ∃ iter', consumeCharRef source [] (init source) 32 false =
        ⟨true, ⟨74, kGumboNoChar⟩, iter'⟩ ∧
      iter'.start = 14 ∧ Rest source iter' [98] ∧ iter'.errors = [] := by
  have hread : Rest (str "&#X010000004A;b") (init (str "&#X010000004A;b"))
      (numericRef [88] [48, 49, 48, 48, 48, 48, 48, 48, 52, 65] ++ [98]) := rest_init _
  obtain ⟨iter', heq, hiter, hrest, herrors⟩ := consumeCharRef_numeral [] true false [88]
    [48, 49, 48, 48, 48, 48, 48, 48, 52, 65] (by decide) (by decide) 74 1
    ⟨by decide, by decide, by decide, by decide⟩ (by decide) (by decide : (32 : ℤ) ≠ 35) hread
  refine ⟨iter', heq, ?_, hrest, (herrors (by decide)).trans (by decide)⟩
  rw [hiter]
  decide

end Gumbo
end Scaner
