/-
# A call of `gumbo_lex`

The states at the end of the document, and with them a turn of the loop in any state
(`good_dispatch_cons`, `good_dispatch_nil`).  As every turn that goes on lowers `turns`, the loop
returns, with a token, and no assertion of the tokenizer fails (`gumboLex_returned`).
-/

import Scaner.Gumbo.Markup

namespace Scaner
namespace Gumbo
namespace GumboTokenizerState

open Bytes Utf8 LuaStack Utf8Iterator

variable {source : Bytes} {entities : List NamedCharRef} {t t' : GumboTokenizerState}
  {cs : List ℕ} {c : ℕ} {s : GumboTokenizerEnum}

/-! ### The end of the document -/

/-- A lower state follows, and a tag is given up. -/
theorem goes_rests_nil {x : GumboTokenizerState} (h : LoopInv source t []) (hlike : Like t x)
    (hrests : x.state.rests = true) (hfalls : falls t.state x.state = true)
    (hnone : x.tagState.attributes = none) : Goes source t [] x := by
  obtain ⟨hrule, hphase, hamp⟩ := rests_iff.1 hrests
  refine goes_end h hlike ?_ hamp hfalls ?_ ?_
  · rw [hrule]
    rfl
  · rw [hrule]
    trivial
  · rw [hphase]
    exact hnone

/-- The temporary buffer is emitted at the end. -/
theorem good_flush_nil {x : GumboTokenizerState} (h : LoopInv source t [])
    (hflush : t.state.tempRule.flushes = true) (hlike : Like t x) (hrests : x.state.rests = true)
    (hextra : x.state.extra = 0) (hnone : x.tagState.attributes = none)
    (hmark : x.input.mark = t.input.mark) (htemp : x.temporaryBuffer = t.temporaryBuffer) :
    Good source t [] (x.flush source) :=
  ends_flush_same h hflush hlike hrests hextra hnone hmark htemp

/-- The document ends behind `<`: the character is emitted as text. -/
theorem good_lt_nil {endTag text : GumboTokenizerEnum} (h : LoopInv source t [])
    (hrule : t.state.tempRule = .lt) (hnone : t.tagState.attributes = none)
    (hrests : text.rests = true) (hextra : text.extra = 0) :
    Good source t [] (t.handleLtState source (-1) endTag text) := by
  simp only [handleLtState]
  rw [assert_of_true (equals_of_lt h hrule).1]
  exact good_flush_nil h (by rw [hrule]; rfl) (by simp) hrests hextra hnone rfl rfl

/-- The document ends behind `</`. -/
theorem good_textEndTagOpen_nil {endTagName text : GumboTokenizerEnum} (h : LoopInv source t [])
    (hrule : t.state.tempRule = .ltSlash) (hnone : t.tagState.attributes = none)
    (hrests : text.rests = true) (hextra : text.extra = 0) :
    Good source t [] (t.handleTextEndTagOpenState source (-1) endTagName text) := by
  simp only [handleTextEndTagOpenState]
  rw [assert_of_true (equals_of_ltSlash h hrule).1]
  exact good_flush_nil h (by rw [hrule]; rfl) (by simp) hrests hextra hnone rfl rfl

/-- The document ends in the name of an end tag: `</` and the name are emitted as text. -/
theorem good_textEndTagName_nil {text : GumboTokenizerEnum} (h : LoopInv source t [])
    (hrule : t.state.tempRule = .endName) (hphase : t.state.tagPhase = .endName)
    (hrests : text.rests = true) (hextra : text.extra = 0) :
    Good source t [] (t.handleTextEndTagNameState source (-1) text) := by
  have hlen : 2 ≤ t.temporaryBuffer.length := by
    have := h.temp.holds
    rwa [hrule] at this
  have htag := h.tag
  rw [hphase] at htag
  obtain ⟨-, hend⟩ := htag
  simp only [handleTextEndTagNameState]
  rw [assert_of_true (decide_eq_true hlen), if_neg (by decide), assert_of_true (by rw [hend]; rfl)]
  rw [if_neg (fun hspace => absurd hspace.2 (by decide)),
    if_neg (fun hslash => absurd hslash.2 (by decide)),
    if_neg (fun hgt => absurd hgt.2 (by decide))]
  exact good_flush_nil h (by rw [hrule]; rfl) (by simp) hrests hextra rfl rfl rfl

/-- A comment is emitted at the end. -/
theorem good_commentEof_nil (h : LoopInv source t []) (hextra : t.state.extra = 1)
    (hnone : t.tagState.attributes = none) (type : GumboErrorType) :
    Good source t [] (t.commentEof source type) := by
  rw [commentEof, emitComment,
    clearTemporaryBuffer_of_none (t := (t.addParseError type).setState .data) h.emit]
  refine ends_last h (by simp) rfl hnone (fun _ _ _ heq => by cases heq) (by simp) ?_
  rw [hextra]
  exact Nat.zero_lt_one

/-- A document type is emitted at the end. -/
theorem good_emitDoctype_nil {x : GumboTokenizerState} (b : Bool) (h : LoopInv source t [])
    (hextra : t.state.extra = 1) (hlike : Like t x) (hstate : x.state = .data)
    (hnone : x.tagState.attributes = none) :
    Good source t [] (returns b (x.emitDoctype source)) := by
  refine ends_emitDoctype (ends_last h hlike ?_ hnone (docType_ok _) (by simp) ?_)
  · rw [hstate]
    rfl
  · rw [hstate, hextra]
    exact Nat.zero_lt_one

/-- The document ends in an identifier: the document type is returned with an error. -/
theorem good_doctypeIdQuoted_nil {finishId : GumboTokenizerState → GumboTokenizerState}
    {after : GumboTokenizerEnum} (h : LoopInv source t []) (hextra : t.state.extra = 1)
    (hnone : t.tagState.attributes = none) (hfinish : FinishesId finishId) {quote : ℤ}
    (hquote : quote ≠ -1) (eof : GumboErrorType) :
    Good source t [] (t.handleDoctypeIdQuoted source (-1) quote after finishId eof) := by
  obtain ⟨d, hd⟩ := hfinish (((t.addParseError eof).setState .data).forceQuirks true) h.emit
  rw [handleDoctypeIdQuoted, if_neg hquote.symm, if_neg (by decide), if_neg (by decide),
    if_pos rfl, hd]
  exact good_emitDoctype_nil _ h hextra (by simp) rfl hnone

/-- The end of the document is returned as a token. -/
theorem good_emitCurrentChar_nil {x : GumboTokenizerState} (h : LoopInv source t [])
    (hlike : Like t x) (hrests : x.state.rests = true) (hnone : x.tagState.attributes = none) :
    Good source t [] (x.emitCurrentChar source) := by
  have hcurrent : x.input.current = -1 := (hlike.rest h.rest).current
  rw [emitCurrentChar, hcurrent]
  exact ends_eof h hlike hrests hnone

/-- The document ends behind `<`, in text. -/
theorem good_tagOpen_nil (h : LoopInv source t []) (hs : t.state = .tagOpen) :
    Good source t [] (t.handleTagOpenState source (-1)) := by
  have hnone : t.tagState.attributes = none := LoopInv.tag_of h hs
  simp only [handleTagOpenState]
  rw [assert_of_true (equals_of_lt h (hs ▸ rfl)).1]
  exact ends_flush_same h (hs ▸ rfl) (by simp) rfl rfl hnone rfl rfl

/-- The document ends behind `</`, in text. -/
theorem good_endTagOpen_nil (h : LoopInv source t []) (hs : t.state = .endTagOpen) :
    Good source t [] (t.handleEndTagOpenState source (-1)) := by
  have hnone : t.tagState.attributes = none := LoopInv.tag_of h hs
  simp only [handleEndTagOpenState]
  rw [assert_of_true (equals_of_ltSlash h (hs ▸ rfl)).1]
  exact good_flush_nil h (hs ▸ rfl) (by simp) rfl rfl hnone rfl rfl

/-- The document ends behind `<` in a script. -/
theorem good_scriptLt_nil (h : LoopInv source t []) (hs : t.state = .scriptLt) :
    Good source t [] (t.handleScriptLtState source (-1)) := by
  have hnone : t.tagState.attributes = none := LoopInv.tag_of h hs
  simp only [handleScriptLtState]
  rw [assert_of_true (equals_of_lt h (hs ▸ rfl)).1]
  exact good_flush_nil h (hs ▸ rfl) (by simp) rfl rfl hnone rfl rfl

/-- The document ends behind `<` in the escaped part of a script. -/
theorem good_scriptEscapedLt_nil (h : LoopInv source t []) (hs : t.state = .scriptEscapedLt) :
    Good source t [] (t.handleScriptEscapedLtState source (-1)) := by
  have hnone : t.tagState.attributes = none := LoopInv.tag_of h hs
  simp only [handleScriptEscapedLtState]
  rw [assert_of_true (equals_of_lt h (hs ▸ rfl)).1,
    assert_of_true (by rw [h.temp.script hs]; rfl)]
  exact good_flush_nil h (hs ▸ rfl) (by simp) rfl rfl hnone rfl rfl

/-- The document ends behind the value of an attribute: the tag is given up. -/
theorem good_afterAttrValueQuoted_nil (h : LoopInv source t [])
    (hs : t.state = .afterAttrValueQuoted) :
    Good source t [] (t.handleAfterAttrValueQuotedState source (-1)) := by
  obtain ⟨hopen, hattr⟩ : t.tagState.Ok .value := LoopInv.tag_of h hs
  obtain ⟨g, hfinish, -⟩ := finishAttributeValue_spec source hopen hattr
  simp only [handleAfterAttrValueQuotedState, hfinish]
  exact goes_rests_nil h (by simp) rfl (by rw [hs]; rfl) rfl

/-- The document ends behind the keyword of a document type. -/
theorem good_doctype_nil (h : LoopInv source t []) (hs : t.state = .doctype) :
    Good source t [] (t.handleDoctypeState source (-1)) := by
  have hnone : t.tagState.attributes = none := LoopInv.tag_of h hs
  have hempty : t.temporaryBuffer = [] := LoopInv.temp_of h hs
  simp only [handleDoctypeState]
  rw [assert_of_true (by rw [hempty]; rfl)]
  exact good_emitDoctype_nil _ h (hs ▸ rfl) (by simp) rfl hnone

/-- The document ends in the name of a document type. -/
theorem good_doctypeName_nil (h : LoopInv source t []) (hs : t.state = .doctypeName) :
    Good source t [] (t.handleDoctypeNameState source (-1)) := by
  have hnone : t.tagState.attributes = none := LoopInv.tag_of h hs
  change Good source t [] (returns false ((((t.addParseError .doctypeEof).setState
    .data).forceQuirks true).finishDoctypeName.emitDoctype source))
  rw [finishDoctypeName_of_none
    (t := ((t.addParseError .doctypeEof).setState .data).forceQuirks true) h.emit]
  exact good_emitDoctype_nil _ h (hs ▸ rfl) (by simp) rfl hnone

/-- **A turn in front of a code point.** -/
theorem good_dispatch_cons (entities : List NamedCharRef) (h : LoopInv source t (c :: cs)) :
    Good source t (c :: cs) (t.dispatch source entities c) := by
  rw [dispatch]
  cases hs : t.state with
  | data => exact good_data h hs
  | charRefInData | charRefInRcdata =>
      exact good_charRef entities _ h (hs ▸ rfl) (LoopInv.tag_of h hs) rfl rfl
  | rcdata => exact good_rcdata h hs
  | rawtext | script => exact good_text h (LoopInv.tag_of h hs) (hs ▸ rfl) rfl rfl rfl
  | plaintext => exact good_plaintext h hs
  | tagOpen => exact good_tagOpen h hs
  | endTagOpen => exact good_endTagOpen h hs
  | tagName => exact good_tagName h hs
  | rcdataLt | rawtextLt => exact good_lt h (hs ▸ rfl) (LoopInv.tag_of h hs) rfl rfl rfl rfl rfl
  | rcdataEndTagOpen | rawtextEndTagOpen | scriptEndTagOpen | scriptEscapedEndTagOpen =>
      exact good_textEndTagOpen h (hs ▸ rfl) (LoopInv.tag_of h hs) rfl rfl rfl rfl rfl
  | rcdataEndTagName | rawtextEndTagName | scriptEndTagName | scriptEscapedEndTagName =>
      exact good_textEndTagName h (hs ▸ rfl) (hs ▸ rfl) (hs ▸ rfl) rfl rfl
  | scriptLt => exact good_scriptLt h hs
  | scriptEscapedStart | scriptEscapedStartDash =>
      exact good_scriptEscapedStart h (LoopInv.tag_of h hs) (by rw [hs]; rfl) rfl
  | scriptEscaped => exact good_scriptEscaped h hs
  | scriptEscapedDash => exact good_scriptEscapedDash h hs
  | scriptEscapedDashDash => exact good_scriptEscapedDashDash h hs
  | scriptEscapedLt => exact good_scriptEscapedLt h hs
  | scriptDoubleEscapedStart | scriptDoubleEscapedEnd =>
      exact good_scriptDoubleEscapedName h (LoopInv.tag_of h hs) (hs ▸ rfl) rfl rfl
        (by rw [hs]; rfl)
  | scriptDoubleEscaped => exact good_scriptDoubleEscaped h hs
  | scriptDoubleEscapedDash => exact good_scriptDoubleEscapedDash h hs
  | scriptDoubleEscapedDashDash => exact good_scriptDoubleEscapedDashDash h hs
  | scriptDoubleEscapedLt => exact good_scriptDoubleEscapedLt h hs
  | beforeAttrName => exact good_beforeAttrName h hs
  | attrName => exact good_attrName h hs
  | afterAttrName => exact good_afterAttrName h hs
  | beforeAttrValue => exact good_beforeAttrValue h hs
  | attrValueDoubleQuoted | attrValueSingleQuoted =>
      exact good_attrValueQuoted h (hs ▸ rfl) (hs ▸ rfl) (hs ▸ rfl) (by rw [hs]; rfl)
        (by rw [hs]; rfl) _ _
  | attrValueUnquoted => exact good_attrValueUnquoted h hs
  | charRefInAttrValue => exact good_charRefInAttrValue entities h hs
  | afterAttrValueQuoted => exact good_afterAttrValueQuoted h hs
  | selfClosingStartTag => exact good_selfClosingStartTag h hs
  | bogusComment => exact good_bogusComment h hs
  | markupDeclaration => exact good_markupDeclaration h hs
  | commentStart => exact good_commentStart h hs
  | commentStartDash => exact good_commentStartDash h hs
  | comment => exact good_comment h hs
  | commentEndDash => exact good_commentEndDash h hs
  | commentEnd => exact good_commentEnd h hs
  | commentEndBang => exact good_commentEndBang h hs
  | doctype => exact good_doctype h hs
  | beforeDoctypeName => exact good_beforeDoctypeName h hs
  | doctypeName => exact good_doctypeName h hs
  | afterDoctypeName => exact good_afterDoctypeName h hs
  | afterDoctypePublicKeyword => exact good_afterDoctypePublicKeyword h hs
  | beforeDoctypePublicId => exact good_beforeDoctypePublicId h hs
  | doctypePublicIdDoubleQuoted | doctypePublicIdSingleQuoted =>
      exact good_doctypeIdQuoted h (hs ▸ rfl) finishesId_public rfl (by trivial) rfl rfl _ _
  | afterDoctypePublicId => exact good_afterDoctypePublicId h hs
  | betweenDoctypePublicSystemId => exact good_betweenDoctypePublicSystemId h hs
  | afterDoctypeSystemKeyword => exact good_afterDoctypeSystemKeyword h hs
  | beforeDoctypeSystemId => exact good_beforeDoctypeSystemId h hs
  | doctypeSystemIdDoubleQuoted | doctypeSystemIdSingleQuoted =>
      exact good_doctypeIdQuoted h (hs ▸ rfl) finishesId_system rfl (by trivial) rfl rfl _ _
  | afterDoctypeSystemId => exact good_afterDoctypeSystemId h hs
  | bogusDoctype => exact good_bogusDoctype h hs
  | cdata => exact good_cdata h hs

/-- **A turn at the end of the document.** -/
theorem good_dispatch_nil (entities : List NamedCharRef) (h : LoopInv source t []) :
    Good source t [] (t.dispatch source entities (-1)) := by
  rw [dispatch]
  cases hs : t.state with
  | data => exact good_emitCurrentChar_nil h (like_refl t) (hs ▸ rfl) (LoopInv.tag_of h hs)
  | charRefInData | charRefInRcdata | charRefInAttrValue =>
      exact absurd (h.ampersand (hs ▸ rfl)) nofun
  | rcdata | rawtext | script | plaintext =>
      exact good_emitEof h (like_refl t) (hs ▸ rfl) (LoopInv.tag_of h hs)
  | tagOpen => exact good_tagOpen_nil h hs
  | endTagOpen => exact good_endTagOpen_nil h hs
  | tagName | beforeAttrName | attrName | afterAttrName | beforeAttrValue | attrValueDoubleQuoted
  | attrValueSingleQuoted | attrValueUnquoted | selfClosingStartTag =>
      exact goes_rests_nil h (by simp) rfl (by rw [hs]; rfl) rfl
  | rcdataLt | rawtextLt => exact good_lt_nil h (hs ▸ rfl) (LoopInv.tag_of h hs) rfl rfl
  | rcdataEndTagOpen | rawtextEndTagOpen | scriptEndTagOpen | scriptEscapedEndTagOpen =>
      exact good_textEndTagOpen_nil h (hs ▸ rfl) (LoopInv.tag_of h hs) rfl rfl
  | rcdataEndTagName | rawtextEndTagName | scriptEndTagName | scriptEscapedEndTagName =>
      exact good_textEndTagName_nil h (hs ▸ rfl) (hs ▸ rfl) rfl rfl
  | scriptLt => exact good_scriptLt_nil h hs
  | scriptEscapedStart | scriptEscapedStartDash | scriptEscapedDash | scriptEscapedDashDash
  | scriptDoubleEscapedStart | scriptDoubleEscaped | scriptDoubleEscapedDash
  | scriptDoubleEscapedDashDash | scriptDoubleEscapedLt | scriptDoubleEscapedEnd
  | afterDoctypePublicId | cdata =>
      exact goes_rests_nil h (by simp) rfl (by rw [hs]; rfl) (LoopInv.tag_of h hs)
  | scriptEscaped =>
      exact good_emitEof h (by simp) (hs ▸ rfl) (LoopInv.tag_of h hs)
  | scriptEscapedLt => exact good_scriptEscapedLt_nil h hs
  | afterAttrValueQuoted => exact good_afterAttrValueQuoted_nil h hs
  | bogusComment => exact good_bogusComment h hs
  | markupDeclaration => exact good_markupDeclaration h hs
  | commentStart | commentStartDash | comment | commentEndDash | commentEnd | commentEndBang =>
      exact good_commentEof_nil h (hs ▸ rfl) (LoopInv.tag_of h hs) _
  | doctype => exact good_doctype_nil h hs
  | beforeDoctypeName | afterDoctypeName | afterDoctypePublicKeyword | beforeDoctypePublicId
  | betweenDoctypePublicSystemId | afterDoctypeSystemKeyword | beforeDoctypeSystemId
  | afterDoctypeSystemId | bogusDoctype =>
      exact good_emitDoctype_nil _ h (hs ▸ rfl) (by simp) rfl (LoopInv.tag_of h hs)
  | doctypeName => exact good_doctypeName_nil h hs
  | doctypePublicIdDoubleQuoted | doctypePublicIdSingleQuoted =>
      exact good_doctypeIdQuoted_nil h (hs ▸ rfl)
        (LoopInv.tag_of h hs) finishesId_public (by decide) _
  | doctypeSystemIdDoubleQuoted | doctypeSystemIdSingleQuoted =>
      exact good_doctypeIdQuoted_nil h (hs ▸ rfl)
        (LoopInv.tag_of h hs) finishesId_system (by decide) _

/-! ### The loop -/

/-- **A turn of the loop, in any state and in front of anything**, keeps the rules or returns a
token. -/
theorem good_dispatch (entities : List NamedCharRef) (h : LoopInv source t cs) :
    Good source t cs (t.dispatch source entities t.input.current) := by
  rw [h.rest.current]
  cases cs with
  | nil => exact good_dispatch_nil entities h
  | cons c cs => exact good_dispatch_cons entities h

/-- What a call comes to: a token, and fewer than `n` tokens in front of that for the end. -/
def Returned (source : Bytes) (n : ℕ) (r : Lexed) : Prop :=
  ∃ cs token, r.output = some token ∧ Between source r.t cs ∧
    token.v.Ok r.t.tagState.lastStartTag ∧
    (token.v = .eof ∧ Rest source r.t.input [] ∨
      token.v ≠ .eof ∧ r.t.pending cs.length < n)

/-- A call that leaves so few tokens leaves no more than a larger number. -/
theorem Returned.mono {n m : ℕ} {r : Lexed} (h : Returned source n r) (hnm : n ≤ m) :
    Returned source m r := by
  obtain ⟨cs, token, hout, hbetween, hok, hbudget⟩ := h
  exact ⟨cs, token, hout, hbetween, hok, hbudget.imp id fun hlt => ⟨hlt.1, hlt.2.trans_le hnm⟩⟩

/-- The end of a turn does not change the turns that are left. -/
theorem turns_endTurn (t : GumboTokenizerState) (source : Bytes) (n : ℕ) :
    (t.advance source).endTurn.turns n = t.turns n := by
  rw [advance_eq]
  rfl

/-- The end of a turn does not change the tokens that are left. -/
theorem budget_endTurn (t : GumboTokenizerState) (source : Bytes) (n : ℕ) :
    (t.advance source).endTurn.budget n = t.budget n := by
  rw [advance_eq]
  rfl

/-- **The loop returns**, with as many turns as `turns` allows. -/
theorem lexLoop_returned (entities : List NamedCharRef) (n : ℕ) (h : LoopInv source t cs)
    (hn : t.turns cs.length < n) :
    ∃ r, lexLoop source entities n t = some r ∧ Returned source (t.budget cs.length) r := by
  induction n generalizing t cs with
  | zero => exact absurd hn (Nat.not_lt_zero _)
  | succ n ih =>
      have hgood := good_dispatch entities h
      rw [lexLoop, assert_of_true (t := t) (by rw [h.emit]; rfl),
        assert_of_true (by rw [h.buffered]; rfl)]
      cases hd : t.dispatch source entities t.input.current with
      | done success t' output =>
          rw [hd] at hgood
          obtain ⟨cs', token, hout, hbetween, hok, hbudget⟩ := hgood
          exact ⟨_, rfl, cs', token, hout, hbetween, hok,
            hbudget.imp (fun he => ⟨he.1, he.2.2⟩) id⟩
      | nextChar t' =>
          rw [hd] at hgood
          obtain ⟨cs', hinv, hturns, hbudget⟩ := hgood
          obtain ⟨r, hr, hreturned⟩ := ih hinv (by rw [turns_endTurn]; omega)
          exact ⟨r, hr, hreturned.mono (by rwa [budget_endTurn])⟩

/-! ### The call -/

/-- Between two calls, with nothing left to emit. -/
theorem loopInv_of_between (h : Between source t cs) (hemit : t.temporaryBufferEmit = none)
    (hbuffered : t.bufferedEmitChar = kGumboNoChar) : LoopInv source t cs := by
  obtain ⟨hrule, hphase, hamp⟩ := rests_iff.1 h.rests
  have hrest : Rest source t.input cs := by
    obtain ⟨-, hrest⟩ | ⟨-, k, hk, -⟩ := h.rest
    · exact hrest
    · rw [hemit] at hk
      cases hk
  have htemp : TempInv source t cs := TempInv.of_not_flushes (by rw [hrule]; rfl) (by
    rw [hrule]
    trivial)
  have htag : t.tagState.Ok t.state.tagPhase := by
    rw [hphase]
    exact h.tag
  exact ⟨hrest, hemit, hbuffered, h.reconsume, h.sound, htemp, htag,
    fun ha => absurd (hamp.symm.trans ha) Bool.false_ne_true⟩

/-- Between two calls nothing is held back, and the tokens to come are those of what is left. -/
theorem budget_of_rests (h : t.state.rests = true) (n : ℕ) :
    t.budget n = 2 * n + t.state.extra := by
  rw [budget, held_of_rests h, Nat.add_zero]

/-- There may be a buffer to emit as well. -/
theorem budget_le_pending (h : t.state.rests = true) (n : ℕ) : t.budget n ≤ t.pending n := by
  rw [budget_of_rests h, pending]
  omega

/-- The loop takes fewer than four turns for each byte of the document, and four for its end. -/
theorem turns_lt (h : Rest source t.input cs) : t.turns cs.length < 4 * source.length + 4 := by
  have hlen := h.length_le
  have hrank := t.state.rank_lt
  rw [turns]
  omega

/-- The second code point of a reference. -/
theorem returned_buffered (h : Between source t cs)
    (hbuffered : t.bufferedEmitChar ≠ kGumboNoChar) :
    let e := t.reconsume.emitChar source t.bufferedEmitChar
    Returned source (t.pending cs.length)
      ⟨true, { e.1.endTurn with bufferedEmitChar := kGumboNoChar }, some e.2⟩ := by
  obtain ⟨hemit, hrest⟩ | ⟨hno, -⟩ := h.rest
  · have hbetween := between_finishToken (t := t.reconsume) h.rests h.sound h.tag hemit hrest
      (charToken t.bufferedEmitChar)
    refine ⟨cs, _, rfl, ⟨hbetween.rests, rfl, hbetween.sound, hbetween.tag, ?_⟩, charToken_ok _,
      .inr ⟨fun he => hbuffered (charToken_eq_eof_iff.1 he), ?_⟩⟩
    · exact .inl ⟨hemit, hrest⟩
    · change GumboTokenizerState.pending { t with bufferedEmitChar := kGumboNoChar } _ < _
      simp only [pending, if_true, if_neg hbuffered, hemit]
      omega
  · exact absurd hno hbuffered

/-- A byte of the temporary buffer. -/
theorem returned_temporaryBuffer {k : ℕ} {b : UInt8} {bytes : Bytes} (h : Between source t cs)
    (hk : t.temporaryBufferEmit = some k) (hbytes : t.temporaryBuffer.drop k = b :: bytes) :
    ∃ t' token, t.maybeEmitFromTemporaryBuffer source = (t', some token) ∧
      Returned source (t.pending cs.length) ⟨true, t', some token⟩ := by
  obtain ⟨hnone, -⟩ | ⟨hbuffered, k', hk', hrest⟩ := h.rest
  · rw [hk] at hnone
    cases hnone
  · obtain rfl : k = k' := Option.some.inj (hk.symm.trans hk')
    rw [hbytes, List.map_cons, List.cons_append] at hrest
    have hdrop : t.temporaryBuffer.drop (k + 1) = bytes := by
      rw [← List.tail_drop, hbytes, List.tail_cons]
    have hlen : k < t.temporaryBuffer.length := by
      by_contra hle
      rw [List.drop_eq_nil_of_le (Nat.not_lt.1 hle)] at hbytes
      cases hbytes
    refine ⟨_, _, maybeEmit_of_cons hk hbytes hrest.current, cs, _, rfl,
      ⟨h.rests, h.reconsume, h.sound, h.tag, .inr ⟨hbuffered, k + 1, rfl, ?_⟩⟩,
      charToken_ok b.toNat, .inr ⟨charToken_natCast_ne_eof _, ?_⟩⟩
    · change Rest source (next source t.input)
        ((t.temporaryBuffer.drop (k + 1)).map UInt8.toNat ++ cs)
      rw [hdrop]
      exact hrest.next
    · rw [pending_of_emit (t := t) (k := k) rfl hbuffered hk rfl]
      refine lt_of_eq_of_lt (pending_of_emit (t := t) (k := k + 1) rfl hbuffered rfl rfl) ?_
      omega

/-- A buffer that has been emitted to its end is done with. -/
theorem maybeEmit_of_nil (h : ∀ k, t.temporaryBufferEmit = some k → t.temporaryBuffer.drop k = []) :
    t.maybeEmitFromTemporaryBuffer source = ({ t with temporaryBufferEmit := none }, none) := by
  rw [maybeEmitFromTemporaryBuffer]
  cases hk : t.temporaryBufferEmit with
  | none => rfl
  | some k =>
      rw [Option.bind_some, h k hk]
      rfl

/-- The temporary buffer has been emitted to its end. -/
theorem between_flushed (h : Between source t cs)
    (hnil : ∀ k, t.temporaryBufferEmit = some k → t.temporaryBuffer.drop k = []) :
    Between source { t with temporaryBufferEmit := none } cs := by
  refine ⟨h.rests, h.reconsume, h.sound, h.tag, .inl ⟨rfl, ?_⟩⟩
  obtain ⟨-, hrest⟩ | ⟨-, k, hk, hrest⟩ := h.rest
  · exact hrest
  · rwa [hnil k hk] at hrest

/-- **Every call of `gumbo_lex` returns a token**, and keeps what holds between two calls. -/
theorem gumboLex_returned (entities : List NamedCharRef) (h : Between source t cs) :
    ∃ r, gumboLex source entities (4 * source.length + 4) t = some r ∧
      Returned source (t.pending cs.length) r := by
  rw [gumboLex]
  by_cases hbuffered : t.bufferedEmitChar = kGumboNoChar
  · rw [if_neg (not_not.2 hbuffered)]
    by_cases hmore : ∃ k b bytes, t.temporaryBufferEmit = some k ∧
        t.temporaryBuffer.drop k = b :: bytes
    · obtain ⟨k, b, bytes, hk, hbytes⟩ := hmore
      obtain ⟨t', token, hemitted, hreturned⟩ := returned_temporaryBuffer h hk hbytes
      rw [hemitted]
      exact ⟨_, rfl, hreturned⟩
    · have hnil : ∀ k, t.temporaryBufferEmit = some k → t.temporaryBuffer.drop k = [] := by
        intro k hk
        cases hbytes : t.temporaryBuffer.drop k with
        | nil => rfl
        | cons b bytes => exact absurd ⟨k, b, bytes, hk, hbytes⟩ hmore
      have hinv := loopInv_of_between (between_flushed h hnil) rfl hbuffered
      rw [maybeEmit_of_nil hnil]
      obtain ⟨r, hr, hreturned⟩ := lexLoop_returned entities _ hinv (turns_lt hinv.rest)
      exact ⟨r, hr, hreturned.mono (budget_le_pending h.rests _)⟩
  · rw [if_pos hbuffered]
    exact ⟨_, rfl, returned_buffered h hbuffered⟩

end GumboTokenizerState

end Gumbo
end Scaner
