/-
# What holds in each state of the tokenizer

For each state there is a rule for the temporary buffer (`tempRule`) and one for the tag that is
being read (`TagPhase`).  `LoopInv` says that the rules hold, that the code points `cs` are left,
and that going back to the mark would give the temporary buffer again.  One turn of the loop of
`gumbo_lex` either keeps it and comes nearer to the end (`Goes`), or returns a token (`Ends`); in
the first case `turns` gets smaller, in the second case `budget` does, unless the document is at its
end.
-/

import Scaner.Gumbo.Handlers

namespace Scaner
namespace Gumbo

open Bytes Utf8 LuaStack Utf8Iterator

/-! ### The rules -/

/-- The temporary buffer: any, empty, `<`, `</`, or `</` and a name. -/
inductive TempRule
  | any
  | empty
  | lt
  | ltSlash
  | endName
  deriving DecidableEq

namespace TempRule

/-- The buffer keeps the rule. -/
def Holds : TempRule → Bytes → Prop
  | .any, _ => True
  | .empty, s => s = []
  | .lt, s => s = str "<"
  | .ltSlash, s => s = str "</"
  | .endName, s => 2 ≤ s.length

/-- The buffer may have to be emitted. -/
def flushes : TempRule → Bool
  | .any | .empty => false
  | .lt | .ltSlash | .endName => true

/-- A buffer that may have to be emitted is not empty. -/
theorem Holds.ne_nil {rule : TempRule} {s : Bytes} (h : rule.Holds s)
    (hrule : rule.flushes = true) : s ≠ [] := by
  rintro rfl
  cases rule <;> simp [Holds, flushes, str] at h hrule

end TempRule

/-- What is known of the tag that is being read. -/
inductive TagPhase
  | none
  | name
  | endName
  | attr
  | afterAttr
  | value
  | charRef
  deriving DecidableEq

namespace GumboTokenizerEnum

/-- The rule for the temporary buffer. -/
def tempRule : GumboTokenizerEnum → TempRule
  | .tagOpen | .rcdataLt | .rawtextLt | .scriptLt | .scriptEscapedLt => .lt
  | .endTagOpen | .rcdataEndTagOpen | .rawtextEndTagOpen | .scriptEndTagOpen
  | .scriptEscapedEndTagOpen => .ltSlash
  | .rcdataEndTagName | .rawtextEndTagName | .scriptEndTagName
  | .scriptEscapedEndTagName => .endName
  | .markupDeclaration | .doctype | .beforeDoctypeName | .afterDoctypeName
  | .afterDoctypePublicKeyword | .beforeDoctypePublicId | .afterDoctypePublicId
  | .betweenDoctypePublicSystemId | .afterDoctypeSystemKeyword | .beforeDoctypeSystemId => .empty
  | _ => .any

/-- The phase of a tag. -/
def tagPhase : GumboTokenizerEnum → TagPhase
  | .tagName => .name
  | .rcdataEndTagName | .rawtextEndTagName | .scriptEndTagName
  | .scriptEscapedEndTagName => .endName
  | .beforeAttrName | .attrName | .selfClosingStartTag => .attr
  | .afterAttrName => .afterAttr
  | .beforeAttrValue | .attrValueDoubleQuoted | .attrValueSingleQuoted | .attrValueUnquoted
  | .afterAttrValueQuoted => .value
  | .charRefInAttrValue => .charRef
  | _ => .none

/-- A state that is entered on an ampersand. -/
def isCharRef : GumboTokenizerEnum → Bool
  | .charRefInData | .charRefInRcdata | .charRefInAttrValue => true
  | _ => false

/-- The states in the order in which they follow each other without a code point being taken. -/
def rank : GumboTokenizerEnum → ℕ
  | .charRefInData | .charRefInRcdata | .charRefInAttrValue => 0
  | .attrValueDoubleQuoted | .attrValueSingleQuoted | .attrValueUnquoted
  | .scriptDoubleEscaped | .scriptEscapedStart | .scriptEscapedStartDash
  | .scriptDoubleEscapedStart | .scriptEscapedDash | .scriptEscapedDashDash
  | .scriptDoubleEscapedDash | .scriptDoubleEscapedDashDash
  | .tagName | .beforeAttrName | .attrName | .afterAttrName | .cdata | .markupDeclaration
  | .beforeDoctypeName | .afterDoctypePublicId => 2
  | .beforeAttrValue | .scriptDoubleEscapedLt | .scriptDoubleEscapedEnd | .selfClosingStartTag
  | .afterAttrValueQuoted | .doctype => 3
  | _ => 1

/-- The tokens that a state may still return at the end of the document. -/
def extra : GumboTokenizerEnum → ℕ
  | .markupDeclaration | .bogusComment | .commentStart | .commentStartDash | .comment
  | .commentEndDash | .commentEnd | .commentEndBang | .doctype | .beforeDoctypeName | .doctypeName
  | .afterDoctypeName | .afterDoctypePublicKeyword | .beforeDoctypePublicId
  | .doctypePublicIdDoubleQuoted | .doctypePublicIdSingleQuoted | .afterDoctypePublicId
  | .betweenDoctypePublicSystemId | .afterDoctypeSystemKeyword | .beforeDoctypeSystemId
  | .doctypeSystemIdDoubleQuoted | .doctypeSystemIdSingleQuoted | .afterDoctypeSystemId
  | .bogusDoctype => 1
  | _ => 0

/-- A state in which the tokenizer can wait for the next call. -/
def rests (s : GumboTokenizerEnum) : Bool :=
  s.tempRule = .any && s.tagPhase = .none && !s.isCharRef

/-- There are four ranks. -/
theorem rank_lt (s : GumboTokenizerEnum) : s.rank < 4 := by cases s <;> decide

/-- At the end of the document a state has at most one token left to return. -/
theorem extra_le (s : GumboTokenizerEnum) : s.extra ≤ 1 := by cases s <;> decide

/-- A state in which the buffer may have to be emitted owes no token of its own. -/
theorem extra_of_flushes {s : GumboTokenizerEnum} (h : s.tempRule.flushes = true) :
    s.extra = 0 := by
  cases s <;> first | rfl | exact absurd h (by decide)

end GumboTokenizerEnum

/-- The names of the attributes of a tag: none twice, and none with a zero in it. -/
structure NamesOk (names : List Bytes) : Prop where
  nodup : names.Nodup
  zero : ∀ name ∈ names, 0 ∉ name

namespace GumboTagState

/-- A tag is being read. -/
def Open (g : GumboTagState) : Prop :=
  ∃ attributes, g.attributes = some attributes ∧ NamesOk (attributes.map GumboAttribute.name)

/-- There is an attribute for the value. -/
def HasAttr (g : GumboTagState) : Prop := g.attributes ≠ some []

/-- The tag keeps the rules of its phase. -/
def Ok (g : GumboTagState) : TagPhase → Prop
  | .none => g.attributes = none
  | .name => g.Open
  | .endName => g.Open ∧ g.isStartTag = false
  | .attr => g.Open ∧ 0 ∉ g.buffer
  | .afterAttr => g.Open ∧ 0 ∉ g.buffer ∧ g.HasAttr
  | .value => g.Open ∧ g.HasAttr
  | .charRef => g.Open ∧ g.HasAttr ∧
      (GumboTokenizerState.allowedChar g.attrValueState).2.2 = true

end GumboTagState

/-- The rules for the temporary buffer, in front of `cs`. -/
structure TempInv (source : Bytes) (t : GumboTokenizerState) (cs : List ℕ) : Prop where
  holds : t.state.tempRule.Holds t.temporaryBuffer
  marked : t.state.tempRule.flushes = true →
    Marked source t.input.mark (t.temporaryBuffer.map UInt8.toNat ++ cs)
  script : t.state = .scriptEscapedLt → t.scriptDataBuffer = []

/-- What holds at the beginning of each turn, when `cs` is left. -/
structure LoopInv (source : Bytes) (t : GumboTokenizerState) (cs : List ℕ) : Prop where
  rest : Rest source t.input cs
  emit : t.temporaryBufferEmit = none
  buffered : t.bufferedEmitChar = kGumboNoChar
  reconsume : t.reconsumeCurrentInput = false
  sound : t.sound = true
  temp : TempInv source t cs
  tag : t.tagState.Ok t.state.tagPhase
  ampersand : t.state.isCharRef = true → cs.head? = some 38

namespace GumboTokenizerState

/-- The bytes that may have to be emitted. -/
def held (t : GumboTokenizerState) : ℕ :=
  if t.state.tempRule.flushes then t.temporaryBuffer.length else 0

/-- A bound on the turns of the loop, when `n` code points are left. -/
def turns (t : GumboTokenizerState) (n : ℕ) : ℕ := 4 * n + t.state.rank

/-- A bound on the tokens in front of that for the end, when `n` code points are left. -/
def budget (t : GumboTokenizerState) (n : ℕ) : ℕ := 2 * (n + t.held) + t.state.extra

/-- A bound on the tokens between two calls. -/
def pending (t : GumboTokenizerState) (n : ℕ) : ℕ :=
  2 * n + t.state.extra + (if t.bufferedEmitChar = kGumboNoChar then 0 else 1) +
    (t.temporaryBufferEmit.map fun k => t.temporaryBuffer.length - k).getD 0

end GumboTokenizerState

/-- What holds between two calls of `gumbo_lex`: nothing is left to emit but a second code point of
a reference, or the rest of the temporary buffer. -/
structure Between (source : Bytes) (t : GumboTokenizerState) (cs : List ℕ) : Prop where
  rests : t.state.rests = true
  reconsume : t.reconsumeCurrentInput = false
  sound : t.sound = true
  tag : t.tagState.attributes = none
  rest : t.temporaryBufferEmit = none ∧ Rest source t.input cs ∨
    t.bufferedEmitChar = kGumboNoChar ∧ ∃ k, t.temporaryBufferEmit = some k ∧
      Rest source t.input ((t.temporaryBuffer.drop k).map UInt8.toNat ++ cs)

/-- A token that may be returned, with the last start tag: no attribute twice. -/
def GumboTokenValue.Ok (v : GumboTokenValue) (lastTag : GumboTag) : Prop :=
  ∀ tag attributes isSelfClosing, v = .startTag tag attributes isSelfClosing →
    (attributes.map GumboAttribute.name).Nodup ∧ lastTag = tag

/-- A turn that goes on. -/
def Goes (source : Bytes) (t : GumboTokenizerState) (cs : List ℕ) (t' : GumboTokenizerState) :
    Prop :=
  ∃ cs', LoopInv source (t'.advance source).endTurn cs' ∧ t'.turns cs'.length < t.turns cs.length ∧
    t'.budget cs'.length ≤ t.budget cs.length

/-- A turn that returns. -/
def Ends (source : Bytes) (t : GumboTokenizerState) (cs : List ℕ) (t' : GumboTokenizerState)
    (output : Option GumboToken) : Prop :=
  ∃ cs' token, output = some token ∧ Between source t'.endTurn cs' ∧
    token.v.Ok t'.tagState.lastStartTag ∧
    (token.v = .eof ∧ cs = [] ∧ Rest source t'.input [] ∨
      token.v ≠ .eof ∧ t'.pending cs'.length < t.budget cs.length)

/-- What a state function has to come to. -/
def Good (source : Bytes) (t : GumboTokenizerState) (cs : List ℕ) : Handled → Prop
  | .nextChar t' => Goes source t cs t'
  | .done _ t' output => Ends source t cs t' output

/-! ### The steps of a turn -/

namespace GumboTokenizerState

variable {source : Bytes} {t t' : GumboTokenizerState} {cs : List ℕ} {c : ℕ}

/-- An assertion that holds changes nothing. -/
theorem assert_of_true {b : Bool} (h : b = true) : t.assert b = t := by
  rw [assert, h, Bool.and_true]

/-- Between two emissions the buffer may be cleared: the assertion in the way holds. -/
theorem clearTemporaryBuffer_of_none (h : t.temporaryBufferEmit = none) :
    t.clearTemporaryBuffer = { t with
      input := t.input.setMark, temporaryBuffer := [], scriptDataBuffer := [] } := by
  rw [clearTemporaryBuffer, assert_of_true (by rw [h]; rfl)]

/-- Nothing has been moved, and nothing is waiting to be emitted. -/
@[mk_iff]
structure Like (t t' : GumboTokenizerState) : Prop where
  start : t'.input.start = t.input.start
  width : t'.input.width = t.input.width
  current : t'.input.current = t.input.current
  emit : t'.temporaryBufferEmit = t.temporaryBufferEmit
  buffered : t'.bufferedEmitChar = t.bufferedEmitChar
  sound : t'.sound = t.sound

/-! What the functions of the tokenizer change besides is not seen by `Like`. -/

/-- A state agrees with itself. -/
@[simp]
theorem like_refl (t : GumboTokenizerState) : Like t t := ⟨rfl, rfl, rfl, rfl, rfl, rfl⟩

/-- Another state of the machine is nothing that `Like` looks at. -/
@[simp]
theorem like_setState (s : GumboTokenizerEnum) : Like t (t'.setState s) ↔ Like t t' := by
  rw [like_iff, like_iff]
  rfl

/-- An error is added to the list of the input, which moves nothing. -/
@[simp]
theorem like_addParseError (type : GumboErrorType) :
    Like t (t'.addParseError type) ↔ Like t t' := by
  rw [like_iff, like_iff]
  rfl

/-- Whether the code point is looked at again is not what `Like` looks at. -/
@[simp]
theorem like_reconsume : Like t t'.reconsume ↔ Like t t' := by
  rw [like_iff, like_iff]
  rfl

/-- A flag of the document type. -/
@[simp]
theorem like_forceQuirks (b : Bool) : Like t (t'.forceQuirks b) ↔ Like t t' := by
  rw [like_iff, like_iff]
  rfl

/-- A code point at the end of the temporary buffer. -/
@[simp]
theorem like_appendCharToTemporaryBuffer (x : ℤ) :
    Like t (t'.appendCharToTemporaryBuffer x) ↔ Like t t' := by
  rw [like_iff, like_iff]
  rfl

/-- A code point at the end of the script data buffer. -/
@[simp]
theorem like_appendCharToScriptDataBuffer (x : ℤ) :
    Like t (t'.appendCharToScriptDataBuffer x) ↔ Like t t' := by
  rw [like_iff, like_iff]
  rfl

/-- The place where a token begins. -/
@[simp]
theorem like_resetTokenStartPoint : Like t t'.resetTokenStartPoint ↔ Like t t' := by
  rw [like_iff, like_iff]
  rfl

/-- The place where the buffer of the tag begins. -/
@[simp]
theorem like_resetTagBufferStartPoint : Like t t'.resetTagBufferStartPoint ↔ Like t t' := by
  rw [like_iff, like_iff]
  rfl

/-- The name of a tag is taken from its buffer. -/
@[simp]
theorem like_finishTagName : Like t t'.finishTagName ↔ Like t t' := by
  rw [like_iff, like_iff]
  rfl

/-- A tag that is given up. -/
@[simp]
theorem like_abandonCurrentTag : Like t t'.abandonCurrentTag ↔ Like t t' := by
  rw [like_iff, like_iff]
  rfl

/-- Any other tag that is being read. -/
@[simp]
theorem like_with_tagState (g : GumboTagState) :
    Like t { t' with tagState := g } ↔ Like t t' := by
  rw [like_iff, like_iff]

/-- Any other script data buffer. -/
@[simp]
theorem like_with_scriptDataBuffer (bytes : Bytes) :
    Like t { t' with scriptDataBuffer := bytes } ↔ Like t t' := by
  rw [like_iff, like_iff]

/-- Any other tag that is being read, with errors in its attributes recorded. -/
@[simp]
theorem like_with_errors (g : GumboTagState) (errors : List GumboError) :
    Like t { t' with tagState := g, input := { t'.input with errors := errors } } ↔
      Like t t' := by
  rw [like_iff, like_iff]

/-- The temporary buffer is cleared, and may have been kept in the document type. -/
@[simp]
theorem like_with_docTypeState (d : GumboTokenDocType) :
    Like t { t' with
      input := t'.input.setMark, temporaryBuffer := [], scriptDataBuffer := [],
      docTypeState := d } ↔ Like t t' := by
  rw [like_iff, like_iff]
  rfl

/-- The same code points are left. -/
theorem Like.rest (h : Like t t') (hrest : Rest source t.input cs) : Rest source t'.input cs :=
  hrest.congr h.start h.width h.current

/-- Only a buffer that may have to be emitted holds bytes back. -/
theorem held_of_not_flushes (h : t.state.tempRule.flushes = false) : t.held = 0 := by
  rw [held, h]
  rfl

/-- Where nothing has to be emitted, the rule of the state is all there is to keep. -/
theorem TempInv.of_not_flushes (hflush : t.state.tempRule.flushes = false)
    (h : t.state.tempRule.Holds t.temporaryBuffer) : TempInv source t cs :=
  ⟨h, fun hf => absurd (hflush.symm.trans hf) Bool.false_ne_true, fun hs => by
    rw [hs] at hflush
    exact absurd hflush (by decide)⟩

/-- Only the iterator goes on. -/
theorem advance_eq (t : GumboTokenizerState) (source : Bytes) :
    t.advance source = { t with input := (t.advance source).input } := by
  rw [advance]
  split_ifs <;> rfl

/-- The cursor goes on without the mark. -/
theorem advance_mark (t : GumboTokenizerState) (source : Bytes) :
    (t.advance source).input.mark = t.input.mark := by
  rw [advance]
  split_ifs
  · rfl
  · exact (mark_next source t.input).1

/-- The end of a turn takes one code point, if it is not to be looked at again. -/
theorem advance_rest (h : Rest source t.input cs) :
    Rest source (t.advance source).input (if t.reconsumeCurrentInput then cs else cs.tail) := by
  rw [advance]
  split_ifs
  · exact h
  · exact h.next

/-- The next turn begins. -/
theorem loopInv_advance {cs' : List ℕ} (h : LoopInv source t cs) (hlike : Like t t')
    (hcs' : cs' = if t'.reconsumeCurrentInput then cs else cs.tail) (htemp : TempInv source t' cs')
    (htag : t'.tagState.Ok t'.state.tagPhase)
    (hamp : t'.state.isCharRef = true → cs'.head? = some 38) :
    LoopInv source (t'.advance source).endTurn cs' := by
  have hrest := advance_rest (hlike.rest h.rest)
  have hmark := advance_mark t' source
  rw [← hcs'] at hrest
  rw [advance_eq]
  exact ⟨hrest, hlike.emit.trans h.emit, hlike.buffered.trans h.buffered, rfl,
    hlike.sound.trans h.sound,
    ⟨htemp.holds, fun hf => hmark.symm ▸ htemp.marked hf, htemp.script⟩, htag, hamp⟩

/-- The code point under the cursor is taken. -/
theorem goes_on (h : LoopInv source t (c :: cs)) (hlike : Like t t')
    (hre : t'.reconsumeCurrentInput = false) (hflush : t'.state.tempRule.flushes = false)
    (hamp : t'.state.isCharRef = false) (htemp : t'.state.tempRule.Holds t'.temporaryBuffer)
    (htag : t'.tagState.Ok t'.state.tagPhase) : Goes source t (c :: cs) t' := by
  refine ⟨cs, loopInv_advance h hlike (by rw [hre]; rfl) (TempInv.of_not_flushes hflush htemp) htag
    fun ha => absurd (hamp.symm.trans ha) Bool.false_ne_true, ?_, ?_⟩
  · have := t'.state.rank_lt
    simp only [turns, List.length_cons]
    omega
  · have := t'.state.extra_le
    simp only [budget, held_of_not_flushes hflush, List.length_cons]
    omega

/-- The code point under the cursor goes into a buffer that may have to be emitted. -/
theorem goes_held (h : LoopInv source t (c :: cs)) (hlike : Like t t')
    (hre : t'.reconsumeCurrentInput = false) (hflush : t'.state.tempRule.flushes = true)
    (hamp : t'.state.isCharRef = false) (htemp : TempInv source t' cs)
    (htag : t'.tagState.Ok t'.state.tagPhase) (hheld : t'.held ≤ t.held + 1) :
    Goes source t (c :: cs) t' := by
  refine ⟨cs, loopInv_advance h hlike (by rw [hre]; rfl) htemp htag
    fun ha => absurd (hamp.symm.trans ha) Bool.false_ne_true, ?_, ?_⟩
  · have := t'.state.rank_lt
    simp only [turns, List.length_cons]
    omega
  · simp only [budget, GumboTokenizerEnum.extra_of_flushes hflush, List.length_cons]
    omega

/-- The state is lower than the one before. -/
def falls (s s' : GumboTokenizerEnum) : Bool := s'.rank < s.rank && s'.extra ≤ s.extra

/-- A turn to a lower state takes a turn away and adds no token. -/
theorem falls_measures {n : ℕ} (h : falls t.state t'.state = true)
    (hflush : t'.state.tempRule.flushes = false) :
    t'.turns n < t.turns n ∧ t'.budget n ≤ t.budget n := by
  rw [falls, Bool.and_eq_true, decide_eq_true_eq, decide_eq_true_eq] at h
  simp only [turns, budget, held_of_not_flushes hflush]
  omega

/-- The code point is looked at again, in a lower state. -/
theorem goes_again (h : LoopInv source t cs) (hlike : Like t t')
    (hre : t'.reconsumeCurrentInput = true) (hflush : t'.state.tempRule.flushes = false)
    (hamp : t'.state.isCharRef = true → cs.head? = some 38) (hfalls : falls t.state t'.state = true)
    (htemp : t'.state.tempRule.Holds t'.temporaryBuffer)
    (htag : t'.tagState.Ok t'.state.tagPhase) : Goes source t cs t' :=
  ⟨cs, loopInv_advance h hlike (by rw [hre]; rfl) (TempInv.of_not_flushes hflush htemp) htag hamp,
    falls_measures hfalls hflush⟩

/-- At the end of the document a lower state follows. -/
theorem goes_end (h : LoopInv source t []) (hlike : Like t t')
    (hflush : t'.state.tempRule.flushes = false) (hamp : t'.state.isCharRef = false)
    (hfalls : falls t.state t'.state = true) (htemp : t'.state.tempRule.Holds t'.temporaryBuffer)
    (htag : t'.tagState.Ok t'.state.tagPhase) : Goes source t [] t' :=
  ⟨[], loopInv_advance h hlike (by split_ifs <;> rfl) (TempInv.of_not_flushes hflush htemp) htag
    fun ha => absurd (hamp.symm.trans ha) Bool.false_ne_true, falls_measures hfalls hflush⟩

/-! ### The end of a turn -/

/-- Between two calls: any buffer, no tag that is being read, and no reference. -/
theorem rests_iff {s : GumboTokenizerEnum} : s.rests = true ↔
    s.tempRule = .any ∧ s.tagPhase = .none ∧ s.isCharRef = false := by
  simp [GumboTokenizerEnum.rests, and_assoc]

/-- Between two calls nothing is held back. -/
theorem held_of_rests (h : t.state.rests = true) : t.held = 0 :=
  held_of_not_flushes (by rw [(rests_iff.1 h).1]; rfl)

/-- Behind a token the tokenizer is ready for the next call. -/
theorem between_finishToken (hrests : t.state.rests = true) (hsound : t.sound = true)
    (htag : t.tagState.attributes = none) (hemit : t.temporaryBufferEmit = none)
    (hrest : Rest source t.input cs) (v : GumboTokenValue) :
    Between source (t.finishToken source v).1.endTurn
      (if t.reconsumeCurrentInput then cs else cs.tail) := by
  have hadvance := advance_rest hrest
  rw [finishToken, advance_eq]
  exact ⟨hrests, rfl, hsound, htag, .inl ⟨hemit, hadvance⟩⟩

/-- A token other than a tag leaves the tag state. -/
theorem tagState_finishToken (t : GumboTokenizerState) (source : Bytes) (v : GumboTokenValue) :
    (t.finishToken source v).1.tagState = t.tagState := by
  rw [finishToken, advance_eq]
  rfl

/-- The tokens that are still to come are counted in the same way behind a token. -/
theorem pending_finishToken (t : GumboTokenizerState) (source : Bytes) (v : GumboTokenValue)
    (n : ℕ) : (t.finishToken source v).1.pending n = t.pending n := by
  rw [finishToken, advance_eq]
  rfl

/-- With nothing being emitted, each code point left gives at most two tokens. -/
theorem pending_of_none (hemit : t.temporaryBufferEmit = none)
    (hbuffered : t.bufferedEmitChar = kGumboNoChar) (n : ℕ) :
    t.pending n = 2 * n + t.state.extra := by
  simp only [pending, hemit, hbuffered, if_true, Option.map_none, Option.getD_none, Nat.add_zero]

/-- A token is emitted: the state that follows, and what is left. -/
theorem ends_finishToken {n : ℕ} {v : GumboTokenValue} (h : LoopInv source t cs) (hlike : Like t t')
    (hrests : t'.state.rests = true) (htag : t'.tagState.attributes = none)
    (hv : v.Ok t'.tagState.lastStartTag)
    (hn : n = (if t'.reconsumeCurrentInput then cs else cs.tail).length)
    (hbudget : v = .eof ∧ cs = [] ∨ v ≠ .eof ∧ 2 * n + t'.state.extra < t.budget cs.length) :
    Ends source t cs (t'.finishToken source v).1 (some (t'.finishToken source v).2) := by
  have hemit := hlike.emit.trans h.emit
  refine ⟨_, _, rfl, between_finishToken hrests (hlike.sound.trans h.sound) htag hemit
    (hlike.rest h.rest) v, by rwa [tagState_finishToken], hbudget.imp ?_ ?_⟩
  · rintro ⟨heof, rfl⟩
    have hrest := advance_rest (hlike.rest h.rest)
    rw [List.tail_nil, ite_self] at hrest
    exact ⟨heof, rfl, hrest⟩
  · rintro ⟨hne, hlt⟩
    refine ⟨hne, ?_⟩
    rwa [← hn, pending_finishToken, pending_of_none hemit (hlike.buffered.trans h.buffered)]

/-- A token is emitted, and the code point under the cursor is taken. -/
theorem ends_on {v : GumboTokenValue} (h : LoopInv source t (c :: cs)) (hlike : Like t t')
    (hre : t'.reconsumeCurrentInput = false) (hrests : t'.state.rests = true)
    (htag : t'.tagState.attributes = none) (hv : v.Ok t'.tagState.lastStartTag) (hne : v ≠ .eof) :
    Ends source t (c :: cs) (t'.finishToken source v).1 (some (t'.finishToken source v).2) := by
  refine ends_finishToken (n := cs.length) h hlike hrests htag hv (by rw [hre]; rfl)
    (.inr ⟨hne, ?_⟩)
  have := t'.state.extra_le
  simp only [budget, List.length_cons]
  omega

/-- A last token at the end of the document, in front of that for the end. -/
theorem ends_last {v : GumboTokenValue} (h : LoopInv source t []) (hlike : Like t t')
    (hrests : t'.state.rests = true) (htag : t'.tagState.attributes = none)
    (hv : v.Ok t'.tagState.lastStartTag) (hne : v ≠ .eof)
    (hextra : t'.state.extra < t.state.extra) :
    Ends source t [] (t'.finishToken source v).1 (some (t'.finishToken source v).2) := by
  refine ends_finishToken (n := 0) h hlike hrests htag hv (by split_ifs <;> rfl) (.inr ⟨hne, ?_⟩)
  simp only [budget, List.length_nil]
  omega

/-- The token for a code point is no start tag. -/
theorem charToken_ne_startTag (x : ℤ) (tag : GumboTag) (attributes : List GumboAttribute)
    (isSelfClosing : Bool) : charToken x ≠ .startTag tag attributes isSelfClosing := by
  rw [charToken]
  split_ifs <;> simp

/-- There is nothing to check in the token for a code point. -/
theorem charToken_ok {lastTag : GumboTag} (x : ℤ) : (charToken x).Ok lastTag :=
  fun tag attributes isSelfClosing h =>
  absurd h (charToken_ne_startTag x tag attributes isSelfClosing)

/-- The token for the end is the one for `-1`. -/
theorem charToken_eq_eof_iff {x : ℤ} : charToken x = .eof ↔ x = -1 := by
  rw [charToken]
  split_ifs with h1 h2 h3
  · refine iff_of_false (by simp) ?_
    rintro rfl
    exact absurd h1 (by decide)
  · simp [h2]
  · simp [h3]
  · simp [h3]

/-- A code point of the document is not the end. -/
theorem charToken_natCast_ne_eof (x : ℕ) : charToken x ≠ .eof := fun h => by
  have := charToken_eq_eof_iff.1 h
  omega

/-- The token for the end of the document. -/
theorem ends_eof (h : LoopInv source t []) (hlike : Like t t') (hrests : t'.state.rests = true)
    (htag : t'.tagState.attributes = none) :
    Ends source t [] (t'.emitChar source (-1)).1 (some (t'.emitChar source (-1)).2) :=
  ends_finishToken (n := 0) h hlike hrests htag (charToken_ok _) (by split_ifs <;> rfl)
    (.inl ⟨rfl, rfl⟩)

/-- A code point is emitted, in place of the one under the cursor. -/
theorem ends_char {x : ℤ} (h : LoopInv source t (c :: cs)) (hlike : Like t t')
    (hre : t'.reconsumeCurrentInput = false) (hrests : t'.state.rests = true)
    (htag : t'.tagState.attributes = none) (hx : x ≠ -1) :
    Ends source t (c :: cs) (t'.emitChar source x).1 (some (t'.emitChar source x).2) :=
  ends_on h hlike hre hrests htag (charToken_ok x) fun he => hx (charToken_eq_eof_iff.1 he)

/-- While the buffer is being emitted, what is left of it is to come. -/
theorem pending_of_emit {k n : ℕ} (hstate : t'.state = t.state)
    (hbuffered : t'.bufferedEmitChar = kGumboNoChar) (hemit : t'.temporaryBufferEmit = some k)
    (htemp : t'.temporaryBuffer = t.temporaryBuffer) :
    t'.pending n = 2 * n + t.state.extra + (t.temporaryBuffer.length - k) := by
  simp only [pending, hstate, hbuffered, hemit, htemp, if_true, Option.map_some, Option.getD_some,
    Nat.add_zero]

/-- The next byte of the buffer that is being emitted becomes a token. -/
theorem maybeEmit_of_cons {k : ℕ} {b : UInt8} {bytes : Bytes} (hk : t.temporaryBufferEmit = some k)
    (hbytes : t.temporaryBuffer.drop k = b :: bytes) (hcurrent : t.input.current = b.toNat) :
    t.maybeEmitFromTemporaryBuffer source =
      let e := { t with reconsumeCurrentInput := false }.emitChar source b.toNat
      ({ e.1 with
        temporaryBufferEmit := some (k + 1)
        reconsumeCurrentInput := t.reconsumeCurrentInput }, some e.2) := by
  have hmore : (t.temporaryBufferEmit.bind fun k =>
      (t.temporaryBuffer.drop k).head?.map (k, ·)) = some (k, b) := by
    rw [hk, Option.bind_some, hbytes]
    rfl
  rw [maybeEmitFromTemporaryBuffer, hmore]
  dsimp only
  rw [assert_of_true (by rw [hcurrent]; exact beq_self_eq_true _)]

/-- **The temporary buffer is emitted**, from its first byte on. -/
theorem ends_flush (cs' : List ℕ) (h : LoopInv source t cs) (hlike : Like t t')
    (hrests : t'.state.rests = true) (htag : t'.tagState.attributes = none)
    (hmarked : Marked source t'.input.mark (t'.temporaryBuffer.map UInt8.toNat ++ cs'))
    (hne : t'.temporaryBuffer ≠ [])
    (hbudget : 2 * cs'.length + t'.temporaryBuffer.length ≤ t.budget cs.length)
    (hextra : t'.state.extra = 0) :
    Ends source t cs (t'.emitTemporaryBuffer source).1 (t'.emitTemporaryBuffer source).2 := by
  obtain ⟨b, s, hbuffer⟩ := List.exists_cons_of_ne_nil hne
  have hback : Rest source (reset source t'.input) (b.toNat :: (s.map UInt8.toNat ++ cs')) := by
    have := hmarked.reset
    rwa [hbuffer] at this
  have hemitted : t'.emitTemporaryBuffer source = _ :=
    maybeEmit_of_cons
      (t := { t' with input := reset source t'.input, temporaryBufferEmit := some 0 }) rfl hbuffer
      hback.current
  rw [hemitted]
  refine ⟨cs', _, rfl, ⟨hrests, rfl, hlike.sound.trans h.sound, htag, .inr
    ⟨hlike.buffered.trans h.buffered, 1, rfl, ?_⟩⟩, charToken_ok _,
    .inr ⟨charToken_natCast_ne_eof _, ?_⟩⟩
  · have hrest := hback.next
    change Rest source (next source (reset source t'.input))
      ((t'.temporaryBuffer.drop 1).map UInt8.toNat ++ cs')
    rwa [hbuffer]
  · have hlen : t'.temporaryBuffer.length = s.length + 1 := by rw [hbuffer, List.length_cons]
    refine lt_of_eq_of_lt
      (pending_of_emit (t := t') (k := 1) rfl (hlike.buffered.trans h.buffered) rfl rfl) ?_
    omega

/-- The tokenizer can wait, and `left` is left. -/
structure Waits (source : Bytes) (t : GumboTokenizerState) (left : List ℕ) : Prop where
  rests : t.state.rests = true
  extra : t.state.extra = 0
  sound : t.sound = true
  tag : t.tagState.attributes = none
  emit : t.temporaryBufferEmit = none
  buffered : t.bufferedEmitChar = kGumboNoChar
  rest : Rest source t.input left

/-- A token is emitted where the iterator has come to. -/
theorem ends_waits (left : List ℕ) {v : GumboTokenValue} (h : Waits source t' left)
    (hv : v.Ok t'.tagState.lastStartTag) (hne : v ≠ .eof) (hbudget :
      2 * (if t'.reconsumeCurrentInput then left else left.tail).length < t.budget cs.length) :
    Ends source t cs (t'.finishToken source v).1 (some (t'.finishToken source v).2) := by
  refine ⟨_, _, rfl, between_finishToken h.rests h.sound h.tag h.emit h.rest v,
    by rwa [tagState_finishToken],
    .inr ⟨hne, ?_⟩⟩
  rwa [pending_finishToken, pending_of_none h.emit h.buffered, h.extra]

/-- The code points of a reference are emitted, the second one by the next call. -/
theorem ends_codepoints (left : List ℕ) {x y : ℤ} (h : Waits source t' left)
    (hre : t'.reconsumeCurrentInput = true) (hx : x ≠ -1)
    (hbudget : 2 * left.length + 1 < t.budget cs.length) :
    Ends source t cs { (t'.emitChar source x).1 with bufferedEmitChar := y }
      (some (t'.emitChar source x).2) := by
  have hstay : t'.advance source = t' := by rw [advance, if_pos hre]
  have hemitted : (t'.emitChar source x).1 = t'.resetTokenStartPoint := by
    rw [emitChar, finishToken, hstay]
  rw [hemitted]
  refine ⟨left, _, rfl, ⟨h.rests, rfl, h.sound, h.tag, .inl ⟨h.emit, h.rest⟩⟩, charToken_ok x,
    .inr ⟨fun he => hx (charToken_eq_eof_iff.1 he), ?_⟩⟩
  have hone : (if y = kGumboNoChar then 0 else 1) ≤ 1 := by split_ifs <;> omega
  simp only [pending, resetTokenStartPoint, h.emit, h.extra, Option.map_none, Option.getD_none]
  omega

/-- **A character reference is emitted**, or the ampersand that is none. -/
theorem good_emitConsumed {s : GumboTokenizerEnum} {r : Consumed} {left : List ℕ}
    (h : LoopInv source t (38 :: cs)) (hr : LeftOver source (38 :: cs) cs r left)
    (htag : t.tagState.attributes = none) (hs : s.rests = true) (hextra : s.extra = 0) :
    Good source t (38 :: cs) ((t.setState s).emitConsumed source r) := by
  obtain ⟨hrest, hback⟩ := hr
  have hbudget : 2 * (cs.length + 1) ≤ t.budget (38 :: cs).length := by
    simp only [budget, List.length_cons]
    omega
  rw [emitConsumed]
  by_cases hfirst : r.output.first = kGumboNoChar
  · rw [if_neg (not_not.2 hfirst)]
    refine ends_waits left ⟨hs, hextra, h.sound, htag, h.emit, h.buffered, hrest⟩
      (charToken_ok (ch '&')) (charToken_natCast_ne_eof 38) ?_
    change 2 * (if t.reconsumeCurrentInput then left else left.tail).length < _
    rw [h.reconsume, if_neg Bool.false_ne_true]
    have hlen : left.tail.length ≤ cs.length := by
      obtain ⟨rfl, -⟩ | ⟨-, hlt⟩ := hback
      · rfl
      · rw [List.length_tail]
        omega
    omega
  · rw [if_pos hfirst]
    refine ends_codepoints left ⟨hs, hextra, h.sound, htag, h.emit, h.buffered, hrest⟩
      rfl hfirst ?_
    have hlt : left.length < cs.length := by
      obtain ⟨-, hnone⟩ | ⟨-, hlt⟩ := hback
      · exact absurd hnone hfirst
      · exact hlt
    omega

/-! ### Code points in the buffers -/

/-- A code point is written to a buffer in UTF-8. -/
theorem codepointBytes_natCast (c : ℕ) : codepointBytes c = encode c := by
  rw [codepointBytes, if_neg (by omega), Int.toNat_natCast]

/-- An ASCII character is written as one byte. -/
theorem codepointBytes_of_lt (hc : c < 0x80) : codepointBytes c = [UInt8.ofNat c] := by
  rw [codepointBytes_natCast, encode_of_lt hc]

/-- An ASCII character is read back from the byte that is written for it. -/
theorem map_codepointBytes_of_lt (hc : c < 0x80) : (codepointBytes c).map UInt8.toNat = [c] := by
  rw [codepointBytes_of_lt hc, List.map_singleton, UInt8.toNat_ofNat', Nat.mod_eq_of_lt (by omega)]

/-- The bytes of a code point that is not zero have no zero among them. -/
theorem zero_not_mem_encode (hpos : 0 < c) (hmax : c ≤ 0x10FFFF) : 0 ∉ encode c := by
  rw [encode, form, List.mem_cons, not_or]
  constructor
  · have hlead := toNat_lead (tailCount_le c) (lt_room_tailCount (c := c) (by omega))
    have hne : leadMark (tailCount c) + c / 64 ^ tailCount c ≠ 0 := by
      unfold tailCount
      split_ifs
      · simpa [leadMark] using hpos.ne'
      · simp [leadMark]
      · simp [leadMark]
      · simp [leadMark]
    intro h0
    rw [← h0] at hlead
    exact hne hlead.symm
  · intro hmem
    have htail := isTail_tailBytes _ _ _ hmem
    rw [isTail_iff] at htail
    exact absurd htail.1 (by decide)

/-- The same of what is written to a buffer. -/
theorem zero_not_mem_codepointBytes {x : ℤ} (hpos : 0 < x) (hmax : x ≤ 0x10FFFF) :
    0 ∉ codepointBytes x := by
  rw [codepointBytes, if_neg (by omega)]
  exact zero_not_mem_encode (by omega) (by omega)

/-- A letter in lower case is a code point other than zero too. -/
theorem ensureLowercase_bounds {x : ℤ} (hpos : 0 < x) (hmax : x ≤ 0x10FFFF) :
    0 < ensureLowercase x ∧ ensureLowercase x ≤ 0x10FFFF := by
  have hZ : ch 'Z' = 90 := rfl
  have hA : ch 'A' = 65 := rfl
  rw [ensureLowercase, hZ, hA]
  split_ifs <;> omega

/-- `is_alpha`: the two ranges of letters. -/
theorem isAlpha_iff {x : ℤ} : isAlpha x = true ↔ 65 ≤ x ∧ x ≤ 90 ∨ 97 ≤ x ∧ x ≤ 122 := by
  rw [isAlpha, Bool.or_eq_true, decide_eq_true_eq, decide_eq_true_eq]
  exact Iff.rfl

/-- A letter stays one in lower case. -/
theorem isAlpha_ensureLowercase {x : ℤ} (h : isAlpha x = true) :
    isAlpha (ensureLowercase x) = true := by
  have hZ : ch 'Z' = 90 := rfl
  have hA : ch 'A' = 65 := rfl
  rw [isAlpha_iff] at h ⊢
  rw [ensureLowercase, hZ, hA]
  split_ifs <;> omega

/-! ### The tag that is being read -/

/-- A code point for the name of a tag or of an attribute goes to the end of the buffer. -/
theorem appendCharToTagBuffer_spec (t : GumboTokenizerState) (x : ℤ) (b : Bool) :
    ∃ startPos originalText, t.appendCharToTagBuffer x b = { t with
      tagState := { t.tagState with
        buffer := t.tagState.buffer ++ codepointBytes x, startPos, originalText } } := by
  simp only [appendCharToTagBuffer]
  split_ifs
  · exact ⟨_, _, rfl⟩
  · exact ⟨_, _, rfl⟩

/-- A tag begins with a letter in its buffer and no attributes. -/
theorem startNewTag_spec (isStartTag : Bool) (halpha : isAlpha t.input.current = true)
    (hnone : t.tagState.attributes = none) :
    ∃ g, t.startNewTag isStartTag = { t with tagState := g } ∧
      g.attributes = some [] ∧ g.isStartTag = isStartTag ∧
      g.lastStartTag = t.tagState.lastStartTag ∧
      g.buffer = codepointBytes (ensureLowercase t.input.current) := by
  simp only [startNewTag]
  rw [assert_of_true halpha, assert_of_true (isAlpha_ensureLowercase halpha)]
  rw [assert_of_true (by simp [initializeTagBuffer, resetTagBufferStartPoint, hnone])]
  exact ⟨_, rfl, rfl, rfl, rfl, rfl⟩

/-- A tag begins with no names. -/
theorem namesOk_nil : NamesOk [] := ⟨List.nodup_nil, by simp⟩

/-- A new name is added to the names. -/
theorem namesOk_append {names : List Bytes} {name : Bytes} (h : NamesOk names)
    (hzero : 0 ∉ name) (hnew : name ∉ names) : NamesOk (names ++ [name]) := by
  refine ⟨List.nodup_append.2 ⟨h.nodup, List.nodup_singleton name, ?_⟩, ?_⟩
  · intro a ha b hb
    obtain rfl := List.mem_singleton.1 hb
    rintro rfl
    exact hnew ha
  · intro n hn
    obtain hn | hn := List.mem_append.1 hn
    · exact h.zero n hn
    · rwa [List.mem_singleton.1 hn]

/-- `strcmp` finds an attribute by its name, which has no zero in it. -/
theorem sameName_of_eq {attr : GumboAttribute} (h : 0 ∉ attr.name) :
    sameName attr.name attr = true := by
  rw [sameName, cString_eq_self_iff.2 h]
  simp

/-- **The name of an attribute**: it is new, or the attribute is dropped. -/
theorem finishAttributeName_spec (source : Bytes) (hopen : t.tagState.Open)
    (hzero : 0 ∉ t.tagState.buffer) :
    ∃ g errors, t.finishAttributeName source =
        { t with tagState := g, input := { t.input with errors } } ∧
      g.Open ∧ g.HasAttr ∧ g.buffer = [] ∧ g.isStartTag = t.tagState.isStartTag := by
  obtain ⟨attributes, hattributes, hnames⟩ := hopen
  simp only [finishAttributeName]
  rw [assert_of_true (by simp [hattributes])]
  simp only [hattributes, Option.getD_some]
  cases hfind : attributes.findIdx? (sameName t.tagState.buffer) with
  | some i =>
      refine ⟨_, _, rfl, ⟨attributes, rfl, hnames⟩, ?_, rfl, rfl⟩
      intro hnil
      have hempty : attributes = [] := Option.some.inj hnil
      rw [hempty] at hfind
      cases hfind
  | none =>
      have hnew : t.tagState.buffer ∉ attributes.map GumboAttribute.name := by
        intro hmem
        obtain ⟨attr, hattr, hname⟩ := List.mem_map.1 hmem
        have hne := List.findIdx?_eq_none_iff.1 hfind attr hattr
        rw [← hname, sameName_of_eq (hname ▸ hzero)] at hne
        cases hne
      refine ⟨_, t.input.errors, rfl, ⟨_, rfl, ?_⟩, ?_, rfl, rfl⟩
      · rw [List.map_append, List.map_singleton]
        exact namesOk_append hnames hzero hnew
      · intro hnil
        exact absurd (Option.some.inj hnil) (by simp)

/-- What a change of one element does not touch is the same in the whole list. -/
theorem map_modify_eq {α β : Type*} (l : List α) (i : ℕ) (f : α → α) (g : α → β)
    (h : ∀ a, g (f a) = g a) : (l.modify i f).map g = l.map g := by
  induction l generalizing i with
  | nil => cases i <;> rfl
  | cons a l ih =>
      cases i with
      | zero => simp [h]
      | succ i => simp [ih]

/-- **The value of an attribute** goes to the last one, unless that was dropped. -/
theorem finishAttributeValue_spec (source : Bytes) (hopen : t.tagState.Open)
    (hattr : t.tagState.HasAttr) :
    ∃ g, t.finishAttributeValue source = { t with tagState := g } ∧ g.Open ∧ g.buffer = [] ∧
      g.isStartTag = t.tagState.isStartTag := by
  obtain ⟨attributes, hattributes, hnames⟩ := hopen
  rw [finishAttributeValue]
  split_ifs
  · exact ⟨_, rfl, ⟨attributes, hattributes, hnames⟩, rfl, rfl⟩
  · have hne : attributes ≠ [] := fun hnil => hattr (hnil ▸ hattributes)
    simp only [hattributes, Option.getD_some]
    rw [assert_of_true (by simpa using hne)]
    refine ⟨_, rfl, ⟨_, rfl, ?_⟩, rfl, rfl⟩
    rwa [map_modify_eq _ _ (t.withValue source) GumboAttribute.name fun _ => rfl]

/-- A start tag that is returned has the names of its attributes apart. -/
theorem startTag_ok {tag : GumboTag} {attributes : List GumboAttribute} {isSelfClosing : Bool}
    (h : NamesOk (attributes.map GumboAttribute.name)) :
    (GumboTokenValue.startTag tag attributes isSelfClosing).Ok tag := by
  rintro tag' attributes' isSelfClosing' heq
  cases heq
  exact ⟨h.nodup, rfl⟩

/-- **A tag is emitted.** -/
theorem ends_tag (h : LoopInv source t (c :: cs)) (hlike : Like t t')
    (hre : t'.reconsumeCurrentInput = false) (hstate : t'.state = .data)
    (hopen : t'.tagState.Open) :
    Ends source t (c :: cs) (t'.emitCurrentTag source).1
      (some (t'.emitCurrentTag source).2) := by
  obtain ⟨attributes, hattributes, hnames⟩ := hopen
  have hrests : t'.state.rests = true := by
    rw [hstate]
    rfl
  simp only [emitCurrentTag]
  split_ifs
  · rw [hattributes]
    exact ends_on h ⟨hlike.start, hlike.width, hlike.current, hlike.emit, hlike.buffered,
      hlike.sound⟩ hre hrests rfl (startTag_ok hnames) (by simp)
  · exact ends_on h ⟨hlike.start, hlike.width, hlike.current, hlike.emit, hlike.buffered,
      hlike.sound⟩ hre hrests rfl (fun _ _ _ heq => by cases heq) (by simp)

end GumboTokenizerState

end Gumbo
end Scaner
