/-
# Text that nothing gets out of

Behind the start tag of a `title`, a `textarea`, a `style` or a `script` and a few more, the tree
construction puts the tokenizer into a state in which a `<` begins nothing but the end tag of the
same name.  Whatever the document goes on with, the tokens that follow are text up to this end tag
or the end of the document: no start tag, no comment and no document type comes from in between
(`gumboParse_rawText`).
-/

import Scaner.Gumbo.Tokens

namespace Scaner
namespace Gumbo

open Bytes Utf8 Utf8Iterator GumboTokenizerState

/-- A token of text. -/
def GumboTokenValue.isText : GumboTokenValue → Bool
  | .whitespace _ | .character _ | .null => true
  | _ => false

/-- The token for a code point is text, or the end. -/
theorem isText_charToken (x : ℤ) : (charToken x).isText = true ∨ charToken x = .eof := by
  rw [charToken]
  split_ifs
  · exact .inl rfl
  · exact .inl rfl
  · exact .inr rfl
  · exact .inl rfl

/-! ### What is kept until a token comes -/

section Confined

variable {σ : Type*} (source : Bytes) (entities : List NamedCharRef)
  (I : GumboTokenizerState → Prop) (Q : GumboTokenValue → Prop)

/-- A turn keeps `I`, or gives text and keeps `I`, or gives a token of `Q`. -/
def Stays : Handled → Prop
  | .nextChar t => I (t.advance source).endTurn
  | .done _ t output => ∀ token, output = some token →
      token.v.isText = true ∧ I t.endTurn ∨ Q token.v

/-- `I` is a matter of the state, the tag and the place in the document, and every turn keeps it
until there is a token of `Q`. -/
structure Confines : Prop where
  congr : ∀ t t' : GumboTokenizerState, I t → t'.state = t.state → t'.tagState = t.tagState →
    (t'.input = t.input ∨ t'.input = next source t.input) → I t'
  turn : ∀ t cs, LoopInv source t cs → I t →
    Stays source I Q (t.dispatch source entities t.input.current)
  eof : Q .eof

variable {source entities I Q} {t : GumboTokenizerState} {cs : List ℕ}

/-- **A call of `gumbo_lex`** returns text and stays, or returns a token of `Q`: by induction on
its turns. -/
theorem lexLoop_stays (h : Confines source entities I Q) {n : ℕ} {r : Lexed}
    (hinv : LoopInv source t cs) (hI : I t) (hr : lexLoop source entities n t = some r) :
    ∀ token, r.output = some token → token.v.isText = true ∧ I r.t ∨ Q token.v := by
  induction n generalizing t cs with
  | zero => cases hr
  | succ n ih =>
      have hgood := good_dispatch entities hinv
      have hstays := h.turn t cs hinv hI
      rw [lexLoop, assert_of_true (t := t) (by rw [hinv.emit]; rfl),
        assert_of_true (by rw [hinv.buffered]; rfl)] at hr
      cases hd : t.dispatch source entities t.input.current with
      | done success t' output =>
          rw [hd] at hr hstays
          cases hr
          exact hstays
      | nextChar t' =>
          rw [hd] at hr hgood hstays
          obtain ⟨cs', hinv', -, -⟩ := hgood
          exact ih hinv' hstays hr

/-- A code point is returned as text, or the document is at its end. -/
theorem charToken_stays (h : Confines source entities I Q) {t' : GumboTokenizerState} (x : ℤ)
    (hI : I t') : (charToken x).isText = true ∧ I t' ∨ Q (charToken x) := by
  obtain htext | heof := isText_charToken x
  · exact .inl ⟨htext, hI⟩
  · exact .inr (heof ▸ h.eof)

/-- The iterator stays, or goes on by one code point. -/
theorem input_advance (t : GumboTokenizerState) (source : Bytes) :
    (t.advance source).input = t.input ∨ (t.advance source).input = next source t.input := by
  rw [advance]
  split_ifs
  · exact .inl rfl
  · exact .inr rfl

/-- What a character leaves. -/
theorem Confines.emitChar (h : Confines source entities I Q) (hI : I t) (x : ℤ)
    (t' : GumboTokenizerState) (hstate : t'.state = (t.emitChar source x).1.state)
    (htag : t'.tagState = (t.emitChar source x).1.tagState)
    (hinput : t'.input = (t.emitChar source x).1.input) : I t' := by
  rw [GumboTokenizerState.emitChar, finishToken, advance_eq] at hstate htag hinput
  exact h.congr t t' hI hstate htag ((input_advance t source).imp hinput.trans hinput.trans)

/-- **A call keeps `I`**, or gives a token of `Q`. -/
theorem gumboLex_stays (h : Confines source entities I Q) {n : ℕ} {r : Lexed}
    (hbetween : Between source t cs) (hI : I t) (hr : gumboLex source entities n t = some r) :
    ∀ token, r.output = some token → token.v.isText = true ∧ I r.t ∨ Q token.v := by
  rw [gumboLex] at hr
  by_cases hbuffered : t.bufferedEmitChar = kGumboNoChar
  · rw [if_neg (not_not.2 hbuffered)] at hr
    cases hbytes : t.temporaryBufferEmit.bind fun k =>
        (t.temporaryBuffer.drop k).head?.map (k, ·) with
    | some kb =>
        rw [maybeEmitFromTemporaryBuffer, hbytes] at hr
        cases hr
        rintro token ⟨⟩
        have hI' : I { t.assert ((kb.2.toNat : ℤ) == t.input.current) with
            reconsumeCurrentInput := false } := h.congr t _ hI rfl rfl (.inl rfl)
        exact charToken_stays h _ (h.emitChar hI' kb.2.toNat _ rfl rfl rfl)
    | none =>
        rw [maybeEmitFromTemporaryBuffer, hbytes] at hr
        have hnil : ∀ k, t.temporaryBufferEmit = some k → t.temporaryBuffer.drop k = [] := by
          intro k hk
          rw [hk, Option.bind_some, Option.map_eq_none_iff, List.head?_eq_none_iff] at hbytes
          exact hbytes
        have hinv := loopInv_of_between (between_flushed hbetween hnil) rfl hbuffered
        exact lexLoop_stays h hinv (h.congr t _ hI rfl rfl (.inl rfl)) hr
  · rw [if_pos hbuffered] at hr
    cases hr
    rintro token ⟨⟩
    have hI' : I t.reconsume := h.congr t _ hI rfl rfl (.inl rfl)
    exact charToken_stays h _ (h.emitChar hI' t.bufferedEmitChar _ rfl rfl rfl)

/-- A token that opens no element leaves the state as it is. -/
theorem setLexerState_of_isText {v : GumboTokenValue} (h : v.isText = true) (opened : Bool) :
    setLexerState t v opened = t := by
  cases v <;> first | rfl | cases h

/-- **A run keeps to text** until there is a token of `Q`. -/
theorem gumboParse_confined (h : Confines source entities I Q) {tree : TreeConstruction σ} {n : ℕ}
    {parser parser' : σ} {tokens : List Processed} {t' : GumboTokenizerState}
    (hbetween : Between source t cs) (hI : I t)
    (hparse : gumboParse source entities tree n parser t = some (tokens, parser', t')) :
    ∃ text last rest, tokens = text ++ last :: rest ∧
      (∀ x ∈ text, x.token.v.isText = true) ∧ Q last.token.v := by
  induction n generalizing parser t cs tokens with
  | zero => cases hparse
  | succ n ih =>
      obtain ⟨success, t₁, token, cs₁, hlex, hstep, hbetween₁, -, hnext⟩ :=
        gumboParse_succ entities tree n parser hbetween
      rw [hstep] at hparse
      have hstays := gumboLex_stays (t := { t with
        isCurrentNodeForeign := tree.isCurrentNodeForeign parser }) h
        ⟨hbetween.rests, hbetween.reconsume, hbetween.sound, hbetween.tag, hbetween.rest⟩
        (h.congr t _ hI rfl rfl (.inl rfl)) hlex token rfl
      obtain ⟨heof, -⟩ | ⟨hne, -⟩ := hnext
      · rw [if_pos heof] at hparse
        cases hparse
        exact ⟨[], _, [], rfl, List.forall_mem_nil _, heof ▸ h.eof⟩
      · rw [if_neg hne] at hparse
        obtain ⟨⟨rest, parser₂, t₂⟩, hrest, heq⟩ := Option.map_eq_some_iff.1 hparse
        cases heq
        obtain ⟨htext, hI₁⟩ | hQ := hstays
        · rw [setLexerState_of_isText htext] at hbetween₁ hrest
          obtain ⟨text, last, rest', rfl, hall, hQ⟩ := ih hbetween₁ hI₁ hrest
          exact ⟨_ :: text, last, rest', rfl, List.forall_mem_cons.2 ⟨htext, hall⟩, hQ⟩
        · exact ⟨[], _, rest, rfl, List.forall_mem_nil _, hQ⟩

end Confined

/-! ### The states of such a text -/

/-- A state of text in which `<` begins nothing but an end tag. -/
def GumboTokenizerEnum.isRaw : GumboTokenizerEnum → Bool
  | .rcdata | .charRefInRcdata | .rcdataLt | .rcdataEndTagOpen | .rcdataEndTagName
  | .rawtext | .rawtextLt | .rawtextEndTagOpen | .rawtextEndTagName
  | .script | .scriptLt | .scriptEndTagOpen | .scriptEndTagName | .scriptEscapedStart
  | .scriptEscapedStartDash | .scriptEscaped | .scriptEscapedDash | .scriptEscapedDashDash
  | .scriptEscapedLt | .scriptEscapedEndTagOpen | .scriptEscapedEndTagName
  | .scriptDoubleEscapedStart | .scriptDoubleEscaped | .scriptDoubleEscapedDash
  | .scriptDoubleEscapedDashDash | .scriptDoubleEscapedLt | .scriptDoubleEscapedEnd => true
  | _ => false

/-- A state behind the name of a tag. -/
def GumboTokenizerEnum.isAttr : GumboTokenizerEnum → Bool
  | .beforeAttrName | .attrName | .afterAttrName | .beforeAttrValue | .attrValueDoubleQuoted
  | .attrValueSingleQuoted | .attrValueUnquoted | .charRefInAttrValue | .afterAttrValueQuoted
  | .selfClosingStartTag => true
  | _ => false

/-- An end tag with the name of the last start tag is being read. -/
structure GumboTagState.Closing (tag : GumboTag) (g : GumboTagState) : Prop where
  last : g.lastStartTag = tag
  isEnd : g.isStartTag = false
  name : g.tag = tag

/-- The last start tag is `tag`, and the tokenizer is in the text behind it, in an end tag of the
same name, or at the end of the document. -/
def Inert (source : Bytes) (tag : GumboTag) (t : GumboTokenizerState) : Prop :=
  t.state.isRaw = true ∧ t.tagState.lastStartTag = tag ∨
    t.state.isAttr = true ∧ t.tagState.Closing tag ∨
    t.state = .data ∧ Rest source t.input []

/-- The end tag, or the end of the document. -/
def Closes (tag : GumboTag) (v : GumboTokenValue) : Prop := v = .endTag tag ∨ v = .eof

variable {source : Bytes} {tag : GumboTag} {t x : GumboTokenizerState} {c : ℤ}

/-- `Inert` is a matter of the state, the tag and the place in the document. -/
theorem inert_congr (t t' : GumboTokenizerState) (h : Inert source tag t)
    (hstate : t'.state = t.state) (htag : t'.tagState = t.tagState)
    (hinput : t'.input = t.input ∨ t'.input = next source t.input) : Inert source tag t' := by
  obtain ⟨hraw, hlast⟩ | ⟨hattr, hclosing⟩ | ⟨hdata, hrest⟩ := h
  · exact .inl ⟨hstate ▸ hraw, htag ▸ hlast⟩
  · exact .inr (.inl ⟨hstate ▸ hattr, htag ▸ hclosing⟩)
  · refine .inr (.inr ⟨hstate.trans hdata, ?_⟩)
    obtain hinput | hinput := hinput
    · rwa [hinput]
    · rw [hinput]
      exact hrest.next

/-- A turn that goes on. -/
theorem stays_next (h : Inert source tag x) :
    Stays source (Inert source tag) (Closes tag) (.nextChar x) := by
  have hinput := input_advance x source
  rw [Stays, advance_eq]
  exact inert_congr x _ h rfl rfl hinput

/-- A turn that goes on in the text. -/
theorem stays_raw (hlast : x.tagState.lastStartTag = tag) (hraw : x.state.isRaw = true) :
    Stays source (Inert source tag) (Closes tag) (.nextChar x) :=
  stays_next (.inl ⟨hraw, hlast⟩)

/-- A turn that goes on in the end tag. -/
theorem stays_attr (h : x.tagState.Closing tag) (hattr : x.state.isAttr = true) :
    Stays source (Inert source tag) (Closes tag) (.nextChar x) :=
  stays_next (.inr (.inl ⟨hattr, h⟩))

/-- A turn that goes on at the end of the document. -/
theorem stays_data (hstate : x.state = .data) (hrest : Rest source x.input []) :
    Stays source (Inert source tag) (Closes tag) (.nextChar x) :=
  stays_next (.inr (.inr ⟨hstate, hrest⟩))

/-- A character. -/
theorem stays_emitChar (b : Bool) (y : ℤ) (hlast : x.tagState.lastStartTag = tag)
    (hraw : x.state.isRaw = true) :
    Stays source (Inert source tag) (Closes tag) (returns b (x.emitChar source y)) := by
  rintro token ⟨⟩
  obtain htext | heof := isText_charToken y
  · refine .inl ⟨htext, inert_congr x _ (.inl ⟨hraw, hlast⟩) ?_ ?_ ?_⟩
    · rw [emitChar, finishToken, advance_eq]
      rfl
    · exact tagState_finishToken x source (charToken y)
    · exact input_advance x source
  · exact .inr (.inr heof)

/-- What a byte of the temporary buffer leaves. -/
theorem maybeEmit_some {token : GumboToken}
    (h : (x.maybeEmitFromTemporaryBuffer source).2 = some token) :
    (∃ y : ℤ, token.v = charToken y) ∧
      (x.maybeEmitFromTemporaryBuffer source).1.state = x.state ∧
      (x.maybeEmitFromTemporaryBuffer source).1.tagState = x.tagState := by
  rw [maybeEmitFromTemporaryBuffer] at h ⊢
  cases hbytes : x.temporaryBufferEmit.bind fun k =>
      (x.temporaryBuffer.drop k).head?.map (k, ·) with
  | none =>
      rw [hbytes] at h
      cases h
  | some kb =>
      rw [hbytes] at h
      cases h
      exact ⟨⟨kb.2.toNat, rfl⟩, rfl, rfl⟩

/-- The temporary buffer. -/
theorem stays_flush (hlast : x.tagState.lastStartTag = tag) (hraw : x.state.isRaw = true) :
    Stays source (Inert source tag) (Closes tag) (x.flush source) := by
  intro token htoken
  obtain ⟨⟨y, hy⟩, hstate, htag⟩ := maybeEmit_some htoken
  obtain htext | heof := isText_charToken y
  · exact .inl ⟨hy ▸ htext, .inl ⟨(congrArg GumboTokenizerEnum.isRaw hstate).trans hraw,
      (congrArg GumboTagState.lastStartTag htag).trans hlast⟩⟩
  · exact .inr (.inr (hy.trans heof))

/-- The end tag. -/
theorem stays_emitCurrentTag (b : Bool) (h : x.tagState.Closing tag) :
    Stays source (Inert source tag) (Closes tag) (returns b (x.emitCurrentTag source)) := by
  rintro token ⟨⟩
  right
  left
  simp only [emitCurrentTag, h.isEnd, ← h.name]
  rfl

/-- A code point of the text is returned as it is. -/
theorem stays_emitCurrentChar (hlast : x.tagState.lastStartTag = tag)
    (hraw : x.state.isRaw = true) :
    Stays source (Inert source tag) (Closes tag) (x.emitCurrentChar source) :=
  stays_emitChar _ _ hlast hraw

/-- A zero in the text is returned as U+FFFD. -/
theorem stays_emitReplacementChar (hlast : x.tagState.lastStartTag = tag)
    (hraw : x.state.isRaw = true) :
    Stays source (Inert source tag) (Closes tag) (x.emitReplacementChar source) :=
  stays_emitChar (x := x.addParseError _) _ _ hlast hraw

/-! ### Text, and the beginning of an end tag -/

section States

variable (hlast : t.tagState.lastStartTag = tag)

include hlast

/-- `handle_rawtext_state` and `handle_script_state`, and a part of `handle_rcdata_state`. -/
theorem stays_text {lt : GumboTokenizerEnum} (hraw : t.state.isRaw = true)
    (hlt : lt.isRaw = true) :
    Stays source (Inert source tag) (Closes tag) (t.handleTextState source c lt) := by
  rw [handleTextState]
  split_ifs
  · exact stays_raw hlast hlt
  · exact stays_emitReplacementChar hlast hraw
  · exact stays_emitChar _ _ hlast hraw
  · exact stays_emitCurrentChar hlast hraw

/-- In the text of a title or a text area. -/
theorem stays_rcdata (hraw : t.state.isRaw = true) :
    Stays source (Inert source tag) (Closes tag) (t.handleRcdataState source c) := by
  rw [handleRcdataState]
  split_ifs
  · exact stays_raw hlast rfl
  · exact stays_text hlast hraw rfl

/-- A reference in such a text is part of it. -/
theorem stays_charRefInRcdata (entities : List NamedCharRef) :
    Stays source (Inert source tag) (Closes tag)
      (t.handleCharRefInRcdataState source entities) := by
  simp only [handleCharRefInRcdataState, emitCharRef, emitConsumed]
  generalize consumeCharRef _ _ _ _ _ = r
  split_ifs
  · rintro token ⟨⟩
    obtain htext | heof := isText_charToken r.output.first
    · exact .inl ⟨htext, .inl ⟨rfl, hlast⟩⟩
    · exact .inr (.inr heof)
  · exact stays_emitChar (x := { t.setState .rcdata with input := r.input }) _ _ hlast rfl

/-- `handle_rcdata_lt_state` and `handle_rawtext_lt_state`. -/
theorem stays_lt {endTag text : GumboTokenizerEnum} (hend : endTag.isRaw = true)
    (htext : text.isRaw = true) :
    Stays source (Inert source tag) (Closes tag) (t.handleLtState source c endTag text) := by
  simp only [handleLtState]
  split_ifs
  · exact stays_raw hlast hend
  · exact stays_flush hlast htext

/-- `handle_rcdata_end_tag_open_state`, and those of raw text, script and escaped script. -/
theorem stays_textEndTagOpen {endTagName text : GumboTokenizerEnum}
    (hname : endTagName.isRaw = true) (htext : text.isRaw = true) :
    Stays source (Inert source tag) (Closes tag)
      (t.handleTextEndTagOpenState source c endTagName text) := by
  simp only [handleTextEndTagOpenState]
  split_ifs
  · exact stays_raw hlast hname
  · exact stays_flush hlast htext

/-- `handle_rcdata_end_tag_name_state`, and those of raw text, script and escaped script: a tag of
another name is text. -/
theorem stays_textEndTagName {text : GumboTokenizerEnum} (hend : t.tagState.isStartTag = false)
    (hraw : t.state.isRaw = true) (htext : text.isRaw = true) :
    Stays source (Inert source tag) (Closes tag) (t.handleTextEndTagNameState source c text) := by
  have hname (happ : t.isAppropriateEndTag = true) : gumboTagEnum t.tagState.buffer = tag := by
    rw [isAppropriateEndTag, Bool.and_eq_true, beq_iff_eq] at happ
    exact happ.2.symm.trans hlast
  simp only [handleTextEndTagNameState]
  split_ifs with h1 h2 h3 h4
  · obtain ⟨startPos, originalText, hpush⟩ :=
      appendCharToTagBuffer_spec (t.assert (2 ≤ t.temporaryBuffer.length)) (ensureLowercase c) true
    rw [hpush]
    exact stays_raw hlast hraw
  · exact stays_attr ⟨hlast, hend, hname h2.1⟩ rfl
  · exact stays_attr ⟨hlast, hend, hname h3.1⟩ rfl
  · exact stays_emitCurrentTag _ ⟨hlast, hend, hname h4.1⟩
  · exact stays_flush hlast htext

/-! ### Script -/

/-- Behind `<` in a script. -/
theorem stays_scriptLt :
    Stays source (Inert source tag) (Closes tag) (t.handleScriptLtState source c) := by
  simp only [handleScriptLtState]
  split_ifs
  · exact stays_raw hlast rfl
  · exact stays_flush hlast rfl
  · exact stays_flush hlast rfl

/-- `handle_script_escaped_start_state` and `handle_script_escaped_start_dash_state`. -/
theorem stays_scriptEscapedStart {dash : GumboTokenizerEnum} (hdash : dash.isRaw = true) :
    Stays source (Inert source tag) (Closes tag) (t.handleScriptEscapedStart source c dash) := by
  rw [handleScriptEscapedStart]
  split_ifs
  · exact stays_emitCurrentChar hlast hdash
  · exact stays_raw hlast rfl

/-- In the escaped part of a script, behind `<!--`. -/
theorem stays_scriptEscaped (hraw : t.state.isRaw = true) :
    Stays source (Inert source tag) (Closes tag) (t.handleScriptEscapedState source c) := by
  rw [handleScriptEscapedState]
  split_ifs
  · exact stays_emitCurrentChar hlast rfl
  · exact stays_raw hlast rfl
  · exact stays_emitReplacementChar hlast hraw
  · exact stays_emitChar _ _ hlast hraw
  · exact stays_emitCurrentChar hlast hraw

/-- Behind `<` in the escaped part: an end tag, or the escape within the escape. -/
theorem stays_scriptEscapedLt :
    Stays source (Inert source tag) (Closes tag) (t.handleScriptEscapedLtState source c) := by
  simp only [handleScriptEscapedLtState]
  split_ifs
  · exact stays_raw hlast rfl
  · exact stays_flush hlast rfl
  · exact stays_flush hlast rfl

/-- `handle_script_double_escaped_start_state` and `handle_script_double_escaped_end_state`. -/
theorem stays_scriptDoubleEscapedName {same other : GumboTokenizerEnum}
    (hraw : t.state.isRaw = true) (hsame : same.isRaw = true) (hother : other.isRaw = true) :
    Stays source (Inert source tag) (Closes tag)
      (t.handleScriptDoubleEscapedName source c same other) := by
  rw [handleScriptDoubleEscapedName]
  split_ifs
  · exact stays_emitCurrentChar hlast hsame
  · exact stays_emitCurrentChar hlast hother
  · exact stays_emitCurrentChar hlast hraw
  · exact stays_raw hlast hother

/-- Behind `<` in the escape within the escape. -/
theorem stays_scriptDoubleEscapedLt :
    Stays source (Inert source tag) (Closes tag) (t.handleScriptDoubleEscapedLtState source c) := by
  rw [handleScriptDoubleEscapedLtState]
  split_ifs
  · exact stays_emitCurrentChar hlast rfl
  · exact stays_raw hlast rfl

variable (hrest : c = -1 → Rest source t.input [])

include hrest

/-- Behind one dash in the escaped part of a script. -/
theorem stays_scriptEscapedDash :
    Stays source (Inert source tag) (Closes tag) (t.handleScriptEscapedDashState source c) := by
  rw [handleScriptEscapedDashState]
  split_ifs with h1 h2 h3 h4
  · exact stays_emitCurrentChar hlast rfl
  · exact stays_raw hlast rfl
  · exact stays_emitReplacementChar hlast rfl
  · exact stays_data rfl (hrest h4)
  · exact stays_emitCurrentChar hlast rfl

/-- Behind two dashes in the escaped part of a script, where `>` ends it. -/
theorem stays_scriptEscapedDashDash (hraw : t.state.isRaw = true) :
    Stays source (Inert source tag) (Closes tag)
      (t.handleScriptEscapedDashDashState source c) := by
  rw [handleScriptEscapedDashDashState]
  split_ifs with h1 h2 h3 h4 h5
  · exact stays_emitCurrentChar hlast hraw
  · exact stays_raw hlast rfl
  · exact stays_emitCurrentChar hlast rfl
  · exact stays_emitReplacementChar hlast rfl
  · exact stays_data rfl (hrest h5)
  · exact stays_emitCurrentChar hlast rfl

/-- In the escape within the escape. -/
theorem stays_scriptDoubleEscaped (hraw : t.state.isRaw = true) :
    Stays source (Inert source tag) (Closes tag) (t.handleScriptDoubleEscapedState source c) := by
  rw [handleScriptDoubleEscapedState]
  split_ifs with h1 h2 h3 h4
  · exact stays_emitCurrentChar hlast rfl
  · exact stays_emitCurrentChar hlast rfl
  · exact stays_emitReplacementChar hlast hraw
  · exact stays_data rfl (hrest h4)
  · exact stays_emitCurrentChar hlast hraw

/-- Behind one dash in the escape within the escape. -/
theorem stays_scriptDoubleEscapedDash :
    Stays source (Inert source tag) (Closes tag)
      (t.handleScriptDoubleEscapedDashState source c) := by
  rw [handleScriptDoubleEscapedDashState]
  split_ifs with h1 h2 h3 h4
  · exact stays_emitCurrentChar hlast rfl
  · exact stays_emitCurrentChar hlast rfl
  · exact stays_emitReplacementChar hlast rfl
  · exact stays_data rfl (hrest h4)
  · exact stays_emitCurrentChar hlast rfl

/-- Behind two dashes in the escape within the escape. -/
theorem stays_scriptDoubleEscapedDashDash (hraw : t.state.isRaw = true) :
    Stays source (Inert source tag) (Closes tag)
      (t.handleScriptDoubleEscapedDashDashState source c) := by
  rw [handleScriptDoubleEscapedDashDashState]
  split_ifs with h1 h2 h3 h4 h5
  · exact stays_emitCurrentChar hlast hraw
  · exact stays_emitCurrentChar hlast rfl
  · exact stays_emitCurrentChar hlast rfl
  · exact stays_emitReplacementChar hlast rfl
  · exact stays_data rfl (hrest h5)
  · exact stays_emitCurrentChar hlast rfl

end States

/-! ### The attributes of the end tag -/

/-- An end tag may have attributes: the end of a name leaves the tag. -/
theorem GumboTagState.Closing.finishAttributeName (h : t.tagState.Closing tag) (source : Bytes) :
    (t.finishAttributeName source).tagState.Closing tag := by
  simp only [GumboTokenizerState.finishAttributeName]
  split
  · exact ⟨h.last, h.isEnd, h.name⟩
  · exact ⟨h.last, h.isEnd, h.name⟩

/-- The end of a value leaves the tag as well. -/
theorem GumboTagState.Closing.finishAttributeValue (h : t.tagState.Closing tag) (source : Bytes) :
    (t.finishAttributeValue source).tagState.Closing tag := by
  rw [GumboTokenizerState.finishAttributeValue]
  split_ifs
  · exact ⟨h.last, h.isEnd, h.name⟩
  · exact ⟨h.last, h.isEnd, h.name⟩

/-- A code point in the buffer of an end tag changes neither its name nor the state. -/
theorem GumboTagState.Closing.appendCharToTagBuffer (h : t.tagState.Closing tag) (y : ℤ)
    (b : Bool) : (t.appendCharToTagBuffer y b).tagState.Closing tag ∧
      (t.appendCharToTagBuffer y b).state = t.state := by
  obtain ⟨startPos, originalText, hpush⟩ := appendCharToTagBuffer_spec t y b
  rw [hpush]
  exact ⟨⟨h.last, h.isEnd, h.name⟩, rfl⟩

section Attributes

variable (h : t.tagState.Closing tag) (hattr : t.state.isAttr = true)
  (hrest : c = -1 → Rest source t.input [])

include h

/-- A code point into the buffer of the tag. -/
theorem stays_push (y : ℤ) (b : Bool) (hattr : t.state.isAttr = true) :
    Stays source (Inert source tag) (Closes tag) (.nextChar (t.appendCharToTagBuffer y b)) := by
  obtain ⟨hclosing, hstate⟩ := h.appendCharToTagBuffer y b
  exact stays_attr hclosing (hstate ▸ hattr)

include hrest

/-- Behind `/` in the end tag. -/
theorem stays_selfClosingStartTag :
    Stays source (Inert source tag) (Closes tag) (t.handleSelfClosingStartTagState source c) := by
  rw [handleSelfClosingStartTagState]
  split_ifs with h1 h2
  · exact stays_emitCurrentTag _ ⟨h.last, h.isEnd, h.name⟩
  · exact stays_data rfl (hrest h2)
  · exact stays_attr h rfl

/-- Behind the value of an attribute of the end tag. -/
theorem stays_afterAttrValueQuoted :
    Stays source (Inert source tag) (Closes tag) (t.handleAfterAttrValueQuotedState source c) := by
  have hclosing := h.finishAttributeValue source
  have hinput : (t.finishAttributeValue source).input = t.input := by
    rw [finishAttributeValue]
    split_ifs <;> rfl
  simp only [handleAfterAttrValueQuotedState]
  split_ifs with h1 h2 h3 h4
  · exact stays_attr hclosing rfl
  · exact stays_attr hclosing rfl
  · exact stays_emitCurrentTag _ hclosing
  · refine stays_data rfl ?_
    have hend := hrest h4
    rw [← hinput] at hend
    exact hend
  · exact stays_attr hclosing rfl

include hattr

/-- Between the attributes of the end tag. -/
theorem stays_beforeAttrName :
    Stays source (Inert source tag) (Closes tag) (t.handleBeforeAttrNameState source c) := by
  rw [handleBeforeAttrNameState]
  split_ifs with h1 h2 h3 h4 h5 h6
  · exact stays_attr h hattr
  · exact stays_attr h rfl
  · exact stays_emitCurrentTag _ h
  · exact stays_attr h rfl
  · exact stays_data rfl (hrest h5)
  · exact stays_push (t := (t.addParseError _).setState .attrName) h _ _ rfl
  · exact stays_push (t := t.setState .attrName) h _ _ rfl

/-- In the name of an attribute of the end tag. -/
theorem stays_attrName :
    Stays source (Inert source tag) (Closes tag) (t.handleAttrNameState source c) := by
  have hclosing := h.finishAttributeName source
  rw [handleAttrNameState]
  split_ifs with h1 h2 h3 h4 h5 h6 h7
  · exact stays_attr hclosing rfl
  · exact stays_attr hclosing rfl
  · exact stays_attr hclosing rfl
  · exact stays_emitCurrentTag _ hclosing
  · exact stays_push (t := t.addParseError _) h _ _ hattr
  · exact stays_data rfl (hrest h6)
  · exact stays_push (t := t.addParseError _) h _ _ hattr
  · exact stays_push h _ _ hattr

/-- Behind the name of an attribute of the end tag. -/
theorem stays_afterAttrName :
    Stays source (Inert source tag) (Closes tag) (t.handleAfterAttrNameState source c) := by
  rw [handleAfterAttrNameState]
  split_ifs with h1 h2 h3 h4 h5 h6 h7
  · exact stays_attr h hattr
  · exact stays_attr h rfl
  · exact stays_attr h rfl
  · exact stays_emitCurrentTag _ h
  · exact stays_attr h rfl
  · exact stays_data rfl (hrest h6)
  · exact stays_push (t := (t.addParseError _).setState .attrName) h _ _ rfl
  · exact stays_push (t := t.setState .attrName) h _ _ rfl

/-- In front of the value of an attribute of the end tag. -/
theorem stays_beforeAttrValue :
    Stays source (Inert source tag) (Closes tag) (t.handleBeforeAttrValueState source c) := by
  rw [handleBeforeAttrValueState]
  split_ifs with h1 h2 h3 h4 h5 h6 h7 h8
  · exact stays_attr h hattr
  · exact stays_attr ⟨h.last, h.isEnd, h.name⟩ rfl
  · exact stays_attr h rfl
  · exact stays_attr ⟨h.last, h.isEnd, h.name⟩ rfl
  · exact stays_push (t := (t.addParseError _).setState .attrValueUnquoted) h _ _ rfl
  · exact stays_data rfl (hrest h6)
  · exact stays_emitCurrentTag _ h
  · exact stays_push (t := (t.addParseError _).setState .attrValueUnquoted) h _ _ rfl
  · exact stays_push (t := t.setState .attrValueUnquoted) h _ _ rfl

/-- `handle_attr_value_double_quoted_state` and `handle_attr_value_single_quoted_state`. -/
theorem stays_attrValueQuoted (quote : ℤ) (eof : GumboErrorType) :
    Stays source (Inert source tag) (Closes tag) (t.handleAttrValueQuoted c quote eof) := by
  rw [handleAttrValueQuoted]
  split_ifs with h1 h2 h3 h4
  · exact stays_attr h rfl
  · exact stays_attr ⟨h.last, h.isEnd, h.name⟩ rfl
  · exact stays_push (t := t.addParseError _) h _ _ hattr
  · exact stays_data rfl (hrest h4)
  · exact stays_push h _ _ hattr

/-- In a value with no quotes. -/
theorem stays_attrValueUnquoted :
    Stays source (Inert source tag) (Closes tag) (t.handleAttrValueUnquotedState source c) := by
  rw [handleAttrValueUnquotedState]
  split_ifs with h1 h2 h3 h4 h5 h6
  · refine stays_attr (GumboTagState.Closing.finishAttributeValue
      (t := t.setState .beforeAttrName) h source) ?_
    rw [finishAttributeValue]
    split_ifs <;> rfl
  · exact stays_attr ⟨h.last, h.isEnd, h.name⟩ rfl
  · exact stays_emitCurrentTag _ (GumboTagState.Closing.finishAttributeValue
      (t := t.setState .data) h source)
  · exact stays_push (t := t.addParseError _) h _ _ hattr
  · exact stays_data rfl (hrest h5)
  · exact stays_push (t := t.addParseError _) h _ _ hattr
  · exact stays_push h _ _ hattr

end Attributes

/-- A reference in the value of an attribute. -/
theorem stays_charRefInAttrValue (entities : List NamedCharRef) (h : t.tagState.Closing tag)
    (hallowed : (allowedChar t.tagState.attrValueState).2.2 = true) :
    Stays source (Inert source tag) (Closes tag)
      (t.handleCharRefInAttrValueState source entities) := by
  have hattr : t.tagState.attrValueState.isAttr = true := by
    generalize t.tagState.attrValueState = s at hallowed
    cases s <;> first | rfl | exact absurd hallowed (by decide)
  simp only [handleCharRefInAttrValueState]
  rw [assert_of_true hallowed]
  generalize consumeCharRef _ _ _ _ _ = r
  refine stays_attr ?_ hattr
  change GumboTagState.Closing tag (t.appendConsumed r _).tagState
  simp only [appendConsumed]
  have hpush {x : GumboTokenizerState} (hx : x.tagState.Closing tag) (y : ℤ) (b : Bool) :
      GumboTagState.Closing tag (x.appendCharToTagBuffer y b).tagState :=
    (hx.appendCharToTagBuffer y b).1
  split_ifs
  · refine hpush (hpush ?_ _ _) _ _
    exact h
  · refine hpush ?_ _ _
    exact h
  · refine hpush ?_ _ _
    exact h

/-! ### All states -/

/-- At the end of the document nothing is left. -/
theorem rest_nil_of_eof {cs : List ℕ} (hinv : LoopInv source t cs) (h : t.input.current = -1) :
    Rest source t.input [] := by
  have hcs : cs = [] := front_eq_neg_one_iff.1 (hinv.rest.current ▸ h)
  exact hcs ▸ hinv.rest

/-- In the text. -/
theorem stays_of_isRaw (entities : List NamedCharRef) {cs : List ℕ} (hinv : LoopInv source t cs)
    (hraw : t.state.isRaw = true) (hlast : t.tagState.lastStartTag = tag) :
    Stays source (Inert source tag) (Closes tag)
      (t.dispatch source entities t.input.current) := by
  have hrest := rest_nil_of_eof hinv
  rw [dispatch]
  cases hs : t.state with
  | rcdata => exact stays_rcdata hlast hraw
  | charRefInRcdata => exact stays_charRefInRcdata hlast entities
  | rawtext | script => exact stays_text hlast hraw rfl
  | rcdataLt | rawtextLt => exact stays_lt hlast rfl rfl
  | rcdataEndTagOpen | rawtextEndTagOpen | scriptEndTagOpen | scriptEscapedEndTagOpen =>
      exact stays_textEndTagOpen hlast rfl rfl
  | rcdataEndTagName | rawtextEndTagName | scriptEndTagName | scriptEscapedEndTagName =>
      exact stays_textEndTagName hlast (LoopInv.tag_of hinv hs).2 hraw rfl
  | scriptLt => exact stays_scriptLt hlast
  | scriptEscapedStart | scriptEscapedStartDash => exact stays_scriptEscapedStart hlast rfl
  | scriptEscaped => exact stays_scriptEscaped hlast hraw
  | scriptEscapedDash => exact stays_scriptEscapedDash hlast hrest
  | scriptEscapedDashDash => exact stays_scriptEscapedDashDash hlast hrest hraw
  | scriptEscapedLt => exact stays_scriptEscapedLt hlast
  | scriptDoubleEscapedStart | scriptDoubleEscapedEnd =>
      exact stays_scriptDoubleEscapedName hlast hraw rfl rfl
  | scriptDoubleEscaped => exact stays_scriptDoubleEscaped hlast hrest hraw
  | scriptDoubleEscapedDash => exact stays_scriptDoubleEscapedDash hlast hrest
  | scriptDoubleEscapedDashDash => exact stays_scriptDoubleEscapedDashDash hlast hrest hraw
  | scriptDoubleEscapedLt => exact stays_scriptDoubleEscapedLt hlast
  | _ =>
      rw [hs] at hraw
      cases hraw

/-- In the end tag. -/
theorem stays_of_isAttr (entities : List NamedCharRef) {cs : List ℕ} (hinv : LoopInv source t cs)
    (hattr : t.state.isAttr = true) (h : t.tagState.Closing tag) :
    Stays source (Inert source tag) (Closes tag)
      (t.dispatch source entities t.input.current) := by
  have hrest := rest_nil_of_eof hinv
  rw [dispatch]
  cases hs : t.state with
  | beforeAttrName => exact stays_beforeAttrName h hattr hrest
  | attrName => exact stays_attrName h hattr hrest
  | afterAttrName => exact stays_afterAttrName h hattr hrest
  | beforeAttrValue => exact stays_beforeAttrValue h hattr hrest
  | attrValueDoubleQuoted | attrValueSingleQuoted =>
      exact stays_attrValueQuoted h hattr hrest _ _
  | attrValueUnquoted => exact stays_attrValueUnquoted h hattr hrest
  | charRefInAttrValue =>
      exact stays_charRefInAttrValue entities h (LoopInv.tag_of hinv hs).2.2
  | afterAttrValueQuoted => exact stays_afterAttrValueQuoted h hrest
  | selfClosingStartTag => exact stays_selfClosingStartTag h hrest
  | _ =>
      rw [hs] at hattr
      cases hattr

/-- **A turn does not get out of the text.** -/
theorem confines_inert (source : Bytes) (entities : List NamedCharRef) (tag : GumboTag) :
    Confines source entities (Inert source tag) (Closes tag) where
  congr := inert_congr
  turn t cs hinv h := by
    obtain ⟨hraw, hlast⟩ | ⟨hattr, hclosing⟩ | ⟨hdata, hrest⟩ := h
    · exact stays_of_isRaw entities hinv hraw hlast
    · exact stays_of_isAttr entities hinv hattr hclosing
    · rw [hrest.current, dispatch, hdata]
      rintro token ⟨⟩
      exact .inr (.inr (charToken_eq_eof_iff.2 hrest.current))
  eof := .inr rfl

/-- Behind the start tag of `plaintext` there is no way out at all. -/
theorem confines_plaintext (source : Bytes) (entities : List NamedCharRef) :
    Confines source entities (fun t => t.state = .plaintext) (· = .eof) where
  congr _ _ h hstate _ _ := hstate.trans h
  turn t cs hinv h := by
    have hemit (b : Bool) (y : ℤ) (x : GumboTokenizerState) (hx : x.state = .plaintext) :
        Stays source (fun t => t.state = .plaintext) (· = .eof)
          (returns b (x.emitChar source y)) := by
      rintro token ⟨⟩
      refine (isText_charToken y).imp (fun htext => ⟨htext, ?_⟩) id
      change (x.emitChar source y).1.state = .plaintext
      rw [emitChar, finishToken, advance_eq]
      exact hx
    rw [dispatch, h]
    change Stays _ _ _ (handlePlaintextState _ _ _)
    rw [handlePlaintextState]
    split_ifs
    · exact hemit _ _ _ h
    · exact hemit _ _ _ h
    · exact hemit _ _ _ h
  eof := rfl

/-! ### Runs -/

/-- The text behind the start tag of an element that has been opened. -/
theorem lexerState_cases {tag : GumboTag} {s : GumboTokenizerEnum} (h : lexerState tag = some s) :
    s.isRaw = true ∧ tag ≠ .plaintext ∨ s = .plaintext ∧ tag = .plaintext := by
  unfold lexerState at h
  split at h <;> cases h <;> first | exact .inl ⟨rfl, nofun⟩ | exact .inr ⟨rfl, rfl⟩

section Runs

variable {σ : Type*} {entities : List NamedCharRef} {tree : TreeConstruction σ}

/-- What follows the start tag of an element that has been opened. -/
theorem gumboParse_behind {n : ℕ} {parser parser' : σ} {tokens : List Processed}
    {t' : GumboTokenizerState} {cs : List ℕ} {s : GumboTokenizerEnum}
    (h : Between source (t.setState s) cs) (hs : lexerState tag = some s)
    (hlast : t.tagState.lastStartTag = tag)
    (hparse : gumboParse source entities tree n parser (t.setState s) =
      some (tokens, parser', t')) :
    ∃ text last rest, tokens = text ++ last :: rest ∧ (∀ y ∈ text, y.token.v.isText = true) ∧
      (last.token.v = .endTag tag ∧ tag ≠ .plaintext ∨ last.token.v = .eof) := by
  obtain ⟨hraw, hne⟩ | ⟨rfl, rfl⟩ := lexerState_cases hs
  · obtain ⟨text, last, rest, htokens, htext, hQ⟩ := gumboParse_confined
      (confines_inert source entities tag) h (.inl ⟨hraw, hlast⟩) hparse
    exact ⟨text, last, rest, htokens, htext, hQ.imp (fun hend => ⟨hend, hne⟩) id⟩
  · obtain ⟨text, last, rest, htokens, htext, hQ⟩ := gumboParse_confined
      (confines_plaintext source entities) h rfl hparse
    exact ⟨text, last, rest, htokens, htext, .inr hQ⟩

/-- Behind a tag that opens an element of text there is only text, up to the end tag of its name
or the end: from any state between two calls. -/
theorem gumboParse_rawText_of_between {n : ℕ} {parser parser' : σ} {pre post : List Processed}
    {x : Processed} {t' : GumboTokenizerState} {cs : List ℕ} {attributes : List GumboAttribute}
    {isSelfClosing : Bool} {s : GumboTokenizerEnum} (h : Between source t cs)
    (hparse : gumboParse source entities tree n parser t = some (pre ++ x :: post, parser', t'))
    (hopened : x.opened = true) (hv : x.token.v = .startTag tag attributes isSelfClosing)
    (hs : lexerState tag = some s) :
    ∃ text last rest, post = text ++ last :: rest ∧ (∀ y ∈ text, y.token.v.isText = true) ∧
      (last.token.v = .endTag tag ∧ tag ≠ .plaintext ∨ last.token.v = .eof) := by
  induction n generalizing parser t cs pre with
  | zero => cases hparse
  | succ n ih =>
      obtain ⟨-, t₁, token, cs₁, -, hstep, hbetween, hok, hnext⟩ :=
        gumboParse_succ entities tree n parser h
      rw [hstep] at hparse
      obtain ⟨heof, -⟩ | ⟨hne, -⟩ := hnext
      · -- the token for the end is the only one, and no start tag
        rw [if_pos heof] at hparse
        obtain ⟨hsingle, -⟩ := Prod.mk.inj (Option.some.inj hparse)
        have hx : x ∈ [Processed.mk token (tree.handleToken parser token).2] := by
          rw [hsingle]
          exact List.mem_append_right _ List.mem_cons_self
        rw [List.mem_singleton.1 hx, heof] at hv
        cases hv
      · rw [if_neg hne] at hparse
        obtain ⟨⟨rest, parser₂, t₂⟩, hrest, heq⟩ := Option.map_eq_some_iff.1 hparse
        obtain ⟨hcons, hleft⟩ := Prod.mk.inj heq
        cases pre with
        | nil =>
            obtain ⟨rfl, rfl⟩ := List.cons.inj hcons
            have hset : setLexerState t₁ token.v (tree.handleToken parser token).2 =
                t₁.setState s := by
              change token.v = _ at hv
              change (tree.handleToken parser token).2 = true at hopened
              rw [hv, hopened, setLexerState, hs]
              rfl
            rw [hset] at hbetween hrest hok
            exact gumboParse_behind hbetween hs (hok _ _ _ hv).2 hrest
        | cons y pre =>
            obtain ⟨-, rfl⟩ := List.cons.inj hcons
            obtain ⟨rfl, rfl⟩ := Prod.mk.inj hleft
            exact ih hbetween hrest

/-- **No markup out of text.**  Behind the start tag of an element with a state of its own, once
the tree construction has opened the element, all tokens are text up to the end tag of the same
name or the end of the document; behind that of `plaintext`, up to the end of the document. -/
theorem gumboParse_rawText {n : ℕ} {parser parser' : σ} {pre post : List Processed}
    {x : Processed} {t' : GumboTokenizerState} {attributes : List GumboAttribute}
    {isSelfClosing : Bool}
    (hparse : gumboParse source entities tree n parser (.init source) =
      some (pre ++ x :: post, parser', t'))
    (hopened : x.opened = true) (hv : x.token.v = .startTag tag attributes isSelfClosing)
    (htag : (lexerState tag).isSome = true) :
    ∃ text last rest, post = text ++ last :: rest ∧ (∀ y ∈ text, y.token.v.isText = true) ∧
      (last.token.v = .endTag tag ∧ tag ≠ .plaintext ∨ last.token.v = .eof) := by
  obtain ⟨s, hs⟩ := Option.isSome_iff_exists.1 htag
  exact gumboParse_rawText_of_between (between_init source) hparse hopened hv hs

/-- A tree construction that opens an element for each start tag of `script`. -/
def TreeConstruction.scripts : TreeConstruction Unit where
  isCurrentNodeForeign _ := false
  handleToken _ token :=
    ((), match token.v with
      | .startTag .script _ _ => true
      | _ => false)

/-- A tag in a script, and one behind it. -/
def inScript : Bytes := str "<script><b></script><b>"

/-- The tag in the script is text. -/
theorem gumboParse_rawText_inScript :
    ∃ x post t', gumboParse inScript [] .scripts 7 () (.init inScript) = some (x :: post, (), t') ∧
      x.token.v = .startTag .script [] false ∧ post.length = 6 ∧
      ∃ text last rest, post = text ++ last :: rest ∧ (∀ y ∈ text, y.token.v.isText = true) ∧
        (last.token.v = .endTag .script ∧ GumboTag.script ≠ .plaintext ∨ last.token.v = .eof) := by
  have hrun : (gumboParse inScript [] .scripts 7 () (.init inScript)).map
      (fun r => r.1.map fun x => (x.token.v, x.opened)) =
        some [(.startTag .script [] false, true), (.character 60, false), (.character 98, false),
          (.character 62, false), (.endTag .script, false), (.startTag .b [] false, false),
          (.eof, false)] := by
    decide +kernel
  obtain ⟨⟨tokens, parser, t'⟩, hparse, htokens⟩ := Option.map_eq_some_iff.1 hrun
  obtain ⟨x, post, rfl, hx, hpost⟩ := List.map_eq_cons_iff.1 htokens
  obtain ⟨hv, hopened⟩ := Prod.mk.inj hx
  have hsplit : gumboParse inScript [] .scripts 7 () (.init inScript) =
      some ([] ++ x :: post, (), t') := hparse
  refine ⟨x, post, t', hparse, hv, ?_, gumboParse_rawText hsplit hopened hv rfl⟩
  rw [← List.length_map, hpost]
  rfl

end Runs

end Gumbo
end Scaner
