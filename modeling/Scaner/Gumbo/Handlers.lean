/-
# The states of the tokenizer

The functions of `dispatch_table` in `html_parser/tokenizer.cpp`, and `gumbo_lex`.  The cases of a
`switch` stand in the order of the source; states that differ in a constant only are one function
of these constants.
-/

import Scaner.Gumbo.Tokenizer

namespace Scaner
namespace Gumbo

open Bytes Utf8 Utf8Iterator

/-- The code of a quotation mark. -/
def quotation : ℤ := 34

/-- The code of an apostrophe. -/
def apostrophe : ℤ := 39

/-- The code of a grave accent. -/
def grave : ℤ := 96

/-- The cases of a tab, a line feed, a form feed and a space. -/
def isSpaceChar (c : ℤ) : Bool := c == 9 || c == 10 || c == 12 || c == ch ' '

/-- `kScriptTag`. -/
def kScriptTag : Bytes := str "script"

namespace GumboTokenizerState

variable (source : Bytes) (entities : List NamedCharRef) (t : GumboTokenizerState) (c : ℤ)

/-! ### Text -/

/-- The case of `<` in a state with text. -/
def lessThan (lt : GumboTokenizerEnum) : Handled :=
  .nextChar ((t.setState lt).clearTemporaryBuffer.appendCharToTemporaryBuffer (ch '<'))

/-- `handle_data_state`. -/
def handleDataState : Handled :=
  if c = ch '&' then .nextChar (t.setState .charRefInData).reconsume
  else if c = ch '<' then t.lessThan .tagOpen
  else if c = 0 then returns false ((t.addParseError .utf8Null).emitChar source c)
  else t.emitCurrentChar source

/-- `handle_char_ref_in_data_state`. -/
def handleCharRefInDataState : Handled :=
  (t.setState .data).emitCharRef source entities (ch ' ')

/-- `handle_rawtext_state` and `handle_script_state`. -/
def handleTextState (lt : GumboTokenizerEnum) : Handled :=
  if c = ch '<' then t.lessThan lt
  else if c = 0 then t.emitReplacementChar source
  else if c = -1 then t.emitEof source
  else t.emitCurrentChar source

/-- `handle_rcdata_state`. -/
def handleRcdataState : Handled :=
  if c = ch '&' then .nextChar (t.setState .charRefInRcdata).reconsume
  else t.handleTextState source c .rcdataLt

/-- `handle_char_ref_in_rcdata_state`. -/
def handleCharRefInRcdataState : Handled :=
  (t.setState .rcdata).emitCharRef source entities (ch ' ')

/-- `handle_rawtext_state`. -/
def handleRawtextState : Handled := t.handleTextState source c .rawtextLt

/-- `handle_script_state`. -/
def handleScriptState : Handled := t.handleTextState source c .scriptLt

/-- `handle_plaintext_state`. -/
def handlePlaintextState : Handled :=
  if c = 0 then t.emitReplacementChar source
  else if c = -1 then t.emitEof source
  else t.emitCurrentChar source

/-! ### The beginning of a tag -/

/-- `handle_tag_open_state`. -/
def handleTagOpenState : Handled :=
  let t := t.assert (t.temporaryBufferEquals "<")
  if c = ch '!' then .nextChar (t.setState .markupDeclaration).clearTemporaryBuffer
  else if c = ch '/' then
    .nextChar ((t.setState .endTagOpen).appendCharToTemporaryBuffer (ch '/'))
  else if c = ch '?' then
    .nextChar (((t.setState .bogusComment).clearTemporaryBuffer.appendCharToTemporaryBuffer
      (ch '?')).addParseError .tagStartsWithQuestion)
  else if isAlpha c then .nextChar ((t.setState .tagName).startNewTag true)
  else
    let r := ((t.addParseError .tagInvalid).setState .data).emitTemporaryBuffer source
    .done false r.1 r.2

/-- `handle_end_tag_open_state`. -/
def handleEndTagOpenState : Handled :=
  let t := t.assert (t.temporaryBufferEquals "</")
  if c = ch '>' then .nextChar ((t.addParseError .closeTagEmpty).setState .data)
  else if c = -1 then ((t.addParseError .closeTagEof).setState .data).flush source
  else if isAlpha c then .nextChar ((t.setState .tagName).startNewTag false)
  else
    .nextChar (((t.addParseError .closeTagInvalid).setState
      .bogusComment).clearTemporaryBuffer.appendCharToTemporaryBuffer c)

/-- `handle_tag_name_state`. -/
def handleTagNameState : Handled :=
  if isSpaceChar c then .nextChar (t.finishTagName.setState .beforeAttrName)
  else if c = ch '/' then .nextChar (t.finishTagName.setState .selfClosingStartTag)
  else if c = ch '>' then returns true ((t.finishTagName.setState .data).emitCurrentTag source)
  else if c = 0 then
    .nextChar ((t.addParseError .utf8Null).appendCharToTagBuffer kUtf8ReplacementChar true)
  else if c = -1 then
    .nextChar ((t.addParseError .tagEof).abandonCurrentTag.setState .data)
  else .nextChar (t.appendCharToTagBuffer (ensureLowercase c) true)

/-- `handle_rcdata_lt_state` and `handle_rawtext_lt_state`. -/
def handleLtState (endTag text : GumboTokenizerEnum) : Handled :=
  let t := t.assert (t.temporaryBufferEquals "<")
  if c = ch '/' then
    .nextChar ((t.setState endTag).appendCharToTemporaryBuffer (ch '/'))
  else (t.setState text).reconsume.flush source

/-- `handle_rcdata_end_tag_open_state`, and those of raw text, script and escaped script. -/
def handleTextEndTagOpenState (endTagName text : GumboTokenizerEnum) : Handled :=
  let t := t.assert (t.temporaryBufferEquals "</")
  if isAlpha c then
    .nextChar (((t.setState endTagName).startNewTag false).appendCharToTemporaryBuffer c)
  else (t.setState text).flush source

/-- `handle_rcdata_end_tag_name_state`, and those of raw text, script and escaped script. -/
def handleTextEndTagNameState (text : GumboTokenizerEnum) : Handled :=
  let t := t.assert (2 ≤ t.temporaryBuffer.length)
  if isAlpha c then
    .nextChar ((t.appendCharToTagBuffer (ensureLowercase c) true).appendCharToTemporaryBuffer c)
  else
    let t := t.assert (!t.tagState.isStartTag)
    if t.isAppropriateEndTag ∧ isSpaceChar c then
      .nextChar (t.finishTagName.setState .beforeAttrName)
    else if t.isAppropriateEndTag ∧ c = ch '/' then
      .nextChar (t.finishTagName.setState .selfClosingStartTag)
    else if t.isAppropriateEndTag ∧ c = ch '>' then
      returns true ((t.finishTagName.setState .data).emitCurrentTag source)
    else (t.setState text).abandonCurrentTag.flush source

/-- `handle_rcdata_lt_state`. -/
def handleRcdataLtState : Handled := t.handleLtState source c .rcdataEndTagOpen .rcdata

/-- `handle_rcdata_end_tag_open_state`. -/
def handleRcdataEndTagOpenState : Handled :=
  t.handleTextEndTagOpenState source c .rcdataEndTagName .rcdata

/-- `handle_rcdata_end_tag_name_state`. -/
def handleRcdataEndTagNameState : Handled := t.handleTextEndTagNameState source c .rcdata

/-- `handle_rawtext_lt_state`. -/
def handleRawtextLtState : Handled := t.handleLtState source c .rawtextEndTagOpen .rawtext

/-- `handle_rawtext_end_tag_open_state`. -/
def handleRawtextEndTagOpenState : Handled :=
  t.handleTextEndTagOpenState source c .rawtextEndTagName .rawtext

/-- `handle_rawtext_end_tag_name_state`. -/
def handleRawtextEndTagNameState : Handled := t.handleTextEndTagNameState source c .rawtext

/-! ### Script -/

/-- `handle_script_lt_state`. -/
def handleScriptLtState : Handled :=
  let t := t.assert (t.temporaryBufferEquals "<")
  if c = ch '/' then
    .nextChar ((t.setState .scriptEndTagOpen).appendCharToTemporaryBuffer (ch '/'))
  else if c = ch '!' then
    ((t.setState .scriptEscapedStart).appendCharToTemporaryBuffer (ch '!')).flush source
  else (t.setState .script).reconsume.flush source

/-- `handle_script_end_tag_open_state`. -/
def handleScriptEndTagOpenState : Handled :=
  t.handleTextEndTagOpenState source c .scriptEndTagName .script

/-- `handle_script_end_tag_name_state`. -/
def handleScriptEndTagNameState : Handled := t.handleTextEndTagNameState source c .script

/-- `handle_script_escaped_start_state` and `handle_script_escaped_start_dash_state`. -/
def handleScriptEscapedStart (dash : GumboTokenizerEnum) : Handled :=
  if c = ch '-' then (t.setState dash).emitCurrentChar source
  else .nextChar (t.setState .script).reconsume

/-- `handle_script_escaped_start_state`. -/
def handleScriptEscapedStartState : Handled :=
  t.handleScriptEscapedStart source c .scriptEscapedStartDash

/-- `handle_script_escaped_start_dash_state`. -/
def handleScriptEscapedStartDashState : Handled :=
  t.handleScriptEscapedStart source c .scriptEscapedDashDash

/-- The case of `<` in an escaped script. -/
def escapedLessThan : Handled :=
  .nextChar ((t.setState .scriptEscapedLt).clearTemporaryBuffer.appendCharToTemporaryBuffer c)

/-- `handle_script_escaped_state`. -/
def handleScriptEscapedState : Handled :=
  if c = ch '-' then (t.setState .scriptEscapedDash).emitCurrentChar source
  else if c = ch '<' then t.escapedLessThan c
  else if c = 0 then t.emitReplacementChar source
  else if c = -1 then (t.addParseError .scriptEof).emitEof source
  else t.emitCurrentChar source

/-- `handle_script_escaped_dash_state`. -/
def handleScriptEscapedDashState : Handled :=
  if c = ch '-' then (t.setState .scriptEscapedDashDash).emitCurrentChar source
  else if c = ch '<' then t.escapedLessThan c
  else if c = 0 then (t.setState .scriptEscaped).emitReplacementChar source
  else if c = -1 then .nextChar ((t.addParseError .scriptEof).setState .data)
  else (t.setState .scriptEscaped).emitCurrentChar source

/-- `handle_script_escaped_dash_dash_state`. -/
def handleScriptEscapedDashDashState : Handled :=
  if c = ch '-' then t.emitCurrentChar source
  else if c = ch '<' then t.escapedLessThan c
  else if c = ch '>' then (t.setState .script).emitCurrentChar source
  else if c = 0 then (t.setState .scriptEscaped).emitReplacementChar source
  else if c = -1 then .nextChar ((t.addParseError .scriptEof).setState .data)
  else (t.setState .scriptEscaped).emitCurrentChar source

/-- `handle_script_escaped_lt_state`. -/
def handleScriptEscapedLtState : Handled :=
  let t := (t.assert (t.temporaryBufferEquals "<")).assert t.scriptDataBuffer.isEmpty
  if c = ch '/' then
    .nextChar ((t.setState .scriptEscapedEndTagOpen).appendCharToTemporaryBuffer c)
  else if isAlpha c then
    (((t.setState .scriptDoubleEscapedStart).appendCharToTemporaryBuffer
      c).appendCharToScriptDataBuffer (ensureLowercase c)).flush source
  else (t.setState .scriptEscaped).flush source

/-- `handle_script_escaped_end_tag_open_state`. -/
def handleScriptEscapedEndTagOpenState : Handled :=
  t.handleTextEndTagOpenState source c .scriptEscapedEndTagName .scriptEscaped

/-- `handle_script_escaped_end_tag_name_state`. -/
def handleScriptEscapedEndTagNameState : Handled :=
  t.handleTextEndTagNameState source c .scriptEscaped

/-- `handle_script_double_escaped_start_state` and `handle_script_double_escaped_end_state`: the
state behind the name of a script tag, and that behind another name. -/
def handleScriptDoubleEscapedName (same other : GumboTokenizerEnum) : Handled :=
  if isSpaceChar c ∨ c = ch '/' ∨ c = ch '>' then
    (t.setState (if kScriptTag = t.scriptDataBuffer then same else other)).emitCurrentChar source
  else if isAlpha c then
    (t.appendCharToScriptDataBuffer (ensureLowercase c)).emitCurrentChar source
  else .nextChar (t.setState other).reconsume

/-- `handle_script_double_escaped_start_state`. -/
def handleScriptDoubleEscapedStartState : Handled :=
  t.handleScriptDoubleEscapedName source c .scriptDoubleEscaped .scriptEscaped

/-- `handle_script_double_escaped_state`. -/
def handleScriptDoubleEscapedState : Handled :=
  if c = ch '-' then (t.setState .scriptDoubleEscapedDash).emitCurrentChar source
  else if c = ch '<' then (t.setState .scriptDoubleEscapedLt).emitCurrentChar source
  else if c = 0 then t.emitReplacementChar source
  else if c = -1 then .nextChar ((t.addParseError .scriptEof).setState .data)
  else t.emitCurrentChar source

/-- `handle_script_double_escaped_dash_state`. -/
def handleScriptDoubleEscapedDashState : Handled :=
  if c = ch '-' then (t.setState .scriptDoubleEscapedDashDash).emitCurrentChar source
  else if c = ch '<' then (t.setState .scriptDoubleEscapedLt).emitCurrentChar source
  else if c = 0 then (t.setState .scriptDoubleEscaped).emitReplacementChar source
  else if c = -1 then .nextChar ((t.addParseError .scriptEof).setState .data)
  else (t.setState .scriptDoubleEscaped).emitCurrentChar source

/-- `handle_script_double_escaped_dash_dash_state`. -/
def handleScriptDoubleEscapedDashDashState : Handled :=
  if c = ch '-' then t.emitCurrentChar source
  else if c = ch '<' then (t.setState .scriptDoubleEscapedLt).emitCurrentChar source
  else if c = ch '>' then (t.setState .script).emitCurrentChar source
  else if c = 0 then (t.setState .scriptDoubleEscaped).emitReplacementChar source
  else if c = -1 then .nextChar ((t.addParseError .scriptEof).setState .data)
  else (t.setState .scriptDoubleEscaped).emitCurrentChar source

/-- `handle_script_double_escaped_lt_state`. -/
def handleScriptDoubleEscapedLtState : Handled :=
  if c = ch '/' then
    { t.setState .scriptDoubleEscapedEnd with scriptDataBuffer := [] }.emitCurrentChar source
  else .nextChar (t.setState .scriptDoubleEscaped).reconsume

/-- `handle_script_double_escaped_end_state`. -/
def handleScriptDoubleEscapedEndState : Handled :=
  t.handleScriptDoubleEscapedName source c .scriptEscaped .scriptDoubleEscaped

/-! ### Attributes -/

/-- `handle_before_attr_name_state`.  The replacement of a zero goes into the temporary buffer. -/
def handleBeforeAttrNameState : Handled :=
  if isSpaceChar c then .nextChar t
  else if c = ch '/' then .nextChar (t.setState .selfClosingStartTag)
  else if c = ch '>' then returns true ((t.setState .data).emitCurrentTag source)
  else if c = 0 then
    .nextChar (((t.addParseError .utf8Null).setState .attrName).appendCharToTemporaryBuffer 0xfffd)
  else if c = -1 then
    .nextChar ((t.addParseError .attrNameEof).setState .data).abandonCurrentTag
  else if c = quotation ∨ c = apostrophe ∨ c = ch '<' ∨ c = ch '=' then
    .nextChar (((t.addParseError .attrNameInvalid).setState .attrName).appendCharToTagBuffer
      (ensureLowercase c) true)
  else .nextChar ((t.setState .attrName).appendCharToTagBuffer (ensureLowercase c) true)

/-- `handle_attr_name_state`. -/
def handleAttrNameState : Handled :=
  if isSpaceChar c then .nextChar ((t.finishAttributeName source).setState .afterAttrName)
  else if c = ch '/' then
    .nextChar ((t.finishAttributeName source).setState .selfClosingStartTag)
  else if c = ch '=' then .nextChar ((t.finishAttributeName source).setState .beforeAttrValue)
  else if c = ch '>' then
    returns true (((t.finishAttributeName source).setState .data).emitCurrentTag source)
  else if c = 0 then
    .nextChar ((t.addParseError .utf8Null).appendCharToTagBuffer kUtf8ReplacementChar true)
  else if c = -1 then
    .nextChar ((t.setState .data).abandonCurrentTag.addParseError .attrNameEof)
  else if c = quotation ∨ c = apostrophe ∨ c = ch '<' then
    .nextChar ((t.addParseError .attrNameInvalid).appendCharToTagBuffer (ensureLowercase c) true)
  else .nextChar (t.appendCharToTagBuffer (ensureLowercase c) true)

/-- `handle_after_attr_name_state`. -/
def handleAfterAttrNameState : Handled :=
  if isSpaceChar c then .nextChar t
  else if c = ch '/' then .nextChar (t.setState .selfClosingStartTag)
  else if c = ch '=' then .nextChar (t.setState .beforeAttrValue)
  else if c = ch '>' then returns true ((t.setState .data).emitCurrentTag source)
  else if c = 0 then
    .nextChar (((t.addParseError .utf8Null).setState .attrName).appendCharToTemporaryBuffer 0xfffd)
  else if c = -1 then
    .nextChar ((t.addParseError .attrNameEof).setState .data).abandonCurrentTag
  else if c = quotation ∨ c = apostrophe ∨ c = ch '<' then
    .nextChar (((t.addParseError .attrNameInvalid).setState .attrName).appendCharToTagBuffer
      (ensureLowercase c) true)
  else .nextChar ((t.setState .attrName).appendCharToTagBuffer (ensureLowercase c) true)

/-- `handle_before_attr_value_state`. -/
def handleBeforeAttrValueState : Handled :=
  if isSpaceChar c then .nextChar t
  else if c = quotation then
    .nextChar (t.setState .attrValueDoubleQuoted).resetTagBufferStartPoint
  else if c = ch '&' then .nextChar (t.setState .attrValueUnquoted).reconsume
  else if c = apostrophe then
    .nextChar (t.setState .attrValueSingleQuoted).resetTagBufferStartPoint
  else if c = 0 then
    .nextChar (((t.addParseError .utf8Null).setState .attrValueUnquoted).appendCharToTagBuffer
      kUtf8ReplacementChar true)
  else if c = -1 then
    .nextChar ((t.addParseError .attrUnquotedEof).setState .data).abandonCurrentTag.reconsume
  else if c = ch '>' then
    returns false (((t.addParseError .attrUnquotedRightBracket).setState .data).emitCurrentTag
      source)
  else if c = ch '<' ∨ c = ch '=' ∨ c = grave then
    .nextChar (((t.addParseError .attrUnquotedEquals).setState
      .attrValueUnquoted).appendCharToTagBuffer c true)
  else .nextChar ((t.setState .attrValueUnquoted).appendCharToTagBuffer c true)

/-- The case of `&` in a value: the state is kept for the way back. -/
def ampersandInValue : Handled :=
  .nextChar ({ t with tagState := { t.tagState with attrValueState := t.state } }.setState
    .charRefInAttrValue).reconsume

/-- `handle_attr_value_double_quoted_state` and `handle_attr_value_single_quoted_state`. -/
def handleAttrValueQuoted (quote : ℤ) (eof : GumboErrorType) : Handled :=
  if c = quote then .nextChar (t.setState .afterAttrValueQuoted)
  else if c = ch '&' then t.ampersandInValue
  else if c = 0 then
    .nextChar ((t.addParseError .utf8Null).appendCharToTagBuffer kUtf8ReplacementChar false)
  else if c = -1 then
    .nextChar ((t.addParseError eof).setState .data).abandonCurrentTag.reconsume
  else .nextChar (t.appendCharToTagBuffer c false)

/-- `handle_attr_value_double_quoted_state`. -/
def handleAttrValueDoubleQuotedState : Handled :=
  t.handleAttrValueQuoted c quotation .attrDoubleQuoteEof

/-- `handle_attr_value_single_quoted_state`. -/
def handleAttrValueSingleQuotedState : Handled :=
  t.handleAttrValueQuoted c apostrophe .attrSingleQuoteEof

/-- `handle_attr_value_unquoted_state`. -/
def handleAttrValueUnquotedState : Handled :=
  if isSpaceChar c then .nextChar ((t.setState .beforeAttrName).finishAttributeValue source)
  else if c = ch '&' then t.ampersandInValue
  else if c = ch '>' then
    returns true (((t.setState .data).finishAttributeValue source).emitCurrentTag source)
  else if c = 0 then
    .nextChar ((t.addParseError .utf8Null).appendCharToTagBuffer kUtf8ReplacementChar true)
  else if c = -1 then
    .nextChar ((t.addParseError .attrUnquotedEof).setState .data).reconsume.abandonCurrentTag
  else if c = ch '<' ∨ c = ch '=' ∨ c = quotation ∨ c = apostrophe ∨ c = grave then
    .nextChar ((t.addParseError .attrUnquotedEquals).appendCharToTagBuffer c true)
  else .nextChar (t.appendCharToTagBuffer c true)

/-- The character that may stand behind an ampersand in a value, whether the value is unquoted, and
whether the state is one of a value. -/
def allowedChar : GumboTokenizerEnum → ℤ × Bool × Bool
  | .attrValueDoubleQuoted => (quotation, false, true)
  | .attrValueSingleQuoted => (apostrophe, false, true)
  | .attrValueUnquoted => (ch '>', true, true)
  | _ => (ch ' ', false, false)

/-- `handle_char_ref_in_attr_value_state` behind `consume_char_ref`. -/
def appendConsumed (r : Consumed) (isUnquoted : Bool) : GumboTokenizerState :=
  let t := { t with input := r.input }
  if r.output.first ≠ kGumboNoChar then
    let t := t.reconsume.appendCharToTagBuffer r.output.first isUnquoted
    if r.output.second ≠ kGumboNoChar then t.appendCharToTagBuffer r.output.second isUnquoted
    else t
  else t.appendCharToTagBuffer (ch '&') isUnquoted

/-- `handle_char_ref_in_attr_value_state`. -/
def handleCharRefInAttrValueState : Handled :=
  let state := t.tagState.attrValueState
  let t := t.assert (allowedChar state).2.2
  let r := consumeCharRef source entities t.input (allowedChar state).1 true
  .nextChar ((t.appendConsumed r (allowedChar state).2.1).setState state)

/-- `handle_after_attr_value_quoted_state`. -/
def handleAfterAttrValueQuotedState : Handled :=
  let t := t.finishAttributeValue source
  if isSpaceChar c then .nextChar (t.setState .beforeAttrName)
  else if c = ch '/' then .nextChar (t.setState .selfClosingStartTag)
  else if c = ch '>' then returns true ((t.setState .data).emitCurrentTag source)
  else if c = -1 then
    .nextChar ((t.addParseError .attrAfterEof).setState .data).abandonCurrentTag.reconsume
  else .nextChar ((t.addParseError .attrAfterInvalid).setState .beforeAttrName).reconsume

/-- `handle_self_closing_start_tag_state`. -/
def handleSelfClosingStartTagState : Handled :=
  if c = ch '>' then
    returns true ({ t.setState .data with
      tagState := { t.tagState with isSelfClosing := true } }.emitCurrentTag source)
  else if c = -1 then
    .nextChar ((t.addParseError .solidusEof).setState .data).abandonCurrentTag
  else .nextChar ((t.addParseError .solidusInvalid).setState .beforeAttrName).reconsume

/-! ### Comments -/

/-- The loop of `handle_bogus_comment_state`.  The first argument bounds the number of turns. -/
def bogusCommentLoop (source : Bytes) : ℕ → GumboTokenizerState → GumboTokenizerState
  | 0, t => t
  | n + 1, t =>
      let c := t.input.current
      if c ≠ ch '>' ∧ c ≠ -1 then
        let t := t.appendCharToTemporaryBuffer (if c = 0 then 0xFFFD else c)
        bogusCommentLoop source n { t with input := next source t.input }
      else t

/-- `handle_bogus_comment_state`. -/
def handleBogusCommentState : Handled :=
  returns true (((bogusCommentLoop source (source.length + 1) t).setState .data).emitComment source)

/-- `handle_markup_declaration_state`. -/
def handleMarkupDeclarationState : Handled :=
  let dashes := maybeConsumeMatch source t.input (str "--") true
  let doctype := maybeConsumeMatch source t.input (str "DOCTYPE") false
  let cdata := maybeConsumeMatch source t.input (str "[CDATA[") true
  if dashes.1 then
    .nextChar ({ t with input := dashes.2 }.setState .commentStart).reconsume
  else if doctype.1 then
    let t := ({ t with input := doctype.2 }.setState .doctype).reconsume
    .nextChar { t with docTypeState := { t.docTypeState with
      name := some [], publicIdentifier := some [], systemIdentifier := some [] } }
  else if t.isCurrentNodeForeign && cdata.1 then
    .nextChar ({ t with input := cdata.2 }.setState .cdata).reconsume
  else
    .nextChar ((t.addParseError .dashesOrDoctype).setState
      .bogusComment).reconsume.clearTemporaryBuffer

/-- Characters into the temporary buffer, on the way back into a comment. -/
def backToComment (cs : List ℤ) : Handled :=
  .nextChar (cs.foldl appendCharToTemporaryBuffer (t.setState .comment))

/-- The end of the document inside a comment. -/
def commentEof (type : GumboErrorType) : Handled :=
  returns false (((t.addParseError type).setState .data).emitComment source)

/-- `handle_comment_start_state`. -/
def handleCommentStartState : Handled :=
  if c = ch '-' then .nextChar (t.setState .commentStartDash)
  else if c = 0 then (t.addParseError .utf8Null).backToComment [kUtf8ReplacementChar]
  else if c = ch '>' then t.commentEof source .commentInvalid
  else if c = -1 then t.commentEof source .commentEof
  else t.backToComment [c]

/-- `handle_comment_start_dash_state`. -/
def handleCommentStartDashState : Handled :=
  if c = ch '-' then .nextChar (t.setState .commentEnd)
  else if c = 0 then (t.addParseError .utf8Null).backToComment [ch '-', kUtf8ReplacementChar]
  else if c = ch '>' then t.commentEof source .commentInvalid
  else if c = -1 then t.commentEof source .commentEof
  else t.backToComment [ch '-', c]

/-- `handle_comment_state`. -/
def handleCommentState : Handled :=
  if c = ch '-' then .nextChar (t.setState .commentEndDash)
  else if c = 0 then
    .nextChar ((t.addParseError .utf8Null).appendCharToTemporaryBuffer kUtf8ReplacementChar)
  else if c = -1 then t.commentEof source .commentEof
  else .nextChar (t.appendCharToTemporaryBuffer c)

/-- `handle_comment_end_dash_state`. -/
def handleCommentEndDashState : Handled :=
  if c = ch '-' then .nextChar (t.setState .commentEnd)
  else if c = 0 then (t.addParseError .utf8Null).backToComment [ch '-', kUtf8ReplacementChar]
  else if c = -1 then t.commentEof source .commentEof
  else t.backToComment [ch '-', c]

/-- `handle_comment_end_state`. -/
def handleCommentEndState : Handled :=
  if c = ch '>' then returns true ((t.setState .data).emitComment source)
  else if c = 0 then
    (t.addParseError .utf8Null).backToComment [ch '-', ch '-', kUtf8ReplacementChar]
  else if c = ch '!' then
    .nextChar ((t.addParseError .commentBangAfterDoubleDash).setState .commentEndBang)
  else if c = ch '-' then
    .nextChar ((t.addParseError .commentDashAfterDoubleDash).appendCharToTemporaryBuffer (ch '-'))
  else if c = -1 then t.commentEof source .utf8Null
  else (t.addParseError .commentInvalid).backToComment [ch '-', ch '-', c]

/-- `handle_comment_end_bang_state`. -/
def handleCommentEndBangState : Handled :=
  if c = ch '-' then
    .nextChar ([ch '-', ch '-', ch '!'].foldl appendCharToTemporaryBuffer
      (t.setState .commentEndDash))
  else if c = ch '>' then returns true ((t.setState .data).emitComment source)
  else if c = 0 then
    (t.addParseError .utf8Null).backToComment [ch '-', ch '-', ch '!', kUtf8ReplacementChar]
  else if c = -1 then t.commentEof source .commentEndBangEof
  else t.backToComment [ch '-', ch '-', ch '!', c]

/-! ### Document types -/

/-- An error, and the document type with quirks as the token. -/
def doctypeError (type : GumboErrorType) (state : GumboTokenizerEnum) : Handled :=
  returns false ((((t.addParseError type).setState state).forceQuirks true).emitDoctype source)

/-- An error, and on to the end of the document type. -/
def toBogusDoctype (type : GumboErrorType) : Handled :=
  .nextChar (((t.addParseError type).setState .bogusDoctype).forceQuirks true)

/-- `handle_doctype_state`. -/
def handleDoctypeState : Handled :=
  let t := t.assert t.temporaryBuffer.isEmpty
  if isSpaceChar c then .nextChar (t.setState .beforeDoctypeName)
  else if c = -1 then t.doctypeError source .doctypeEof .data
  else
    .nextChar (((t.addParseError .doctypeSpace).setState .beforeDoctypeName).reconsume.forceQuirks
      true)

/-- `handle_before_doctype_name_state`. -/
def handleBeforeDoctypeNameState : Handled :=
  if isSpaceChar c then .nextChar t
  else if c = 0 then
    .nextChar ((((t.addParseError .utf8Null).setState .doctypeName).forceQuirks
      true).appendCharToTemporaryBuffer kUtf8ReplacementChar)
  else if c = ch '>' then t.doctypeError source .doctypeRightBracket .data
  else if c = -1 then t.doctypeError source .doctypeEof .data
  else
    .nextChar (((t.setState .doctypeName).forceQuirks false).appendCharToTemporaryBuffer
      (ensureLowercase c))

/-- `handle_doctype_name_state`. -/
def handleDoctypeNameState : Handled :=
  if isSpaceChar c then .nextChar (t.setState .afterDoctypeName).finishDoctypeName
  else if c = ch '>' then
    returns true ((t.setState .data).finishDoctypeName.emitDoctype source)
  else if c = 0 then
    .nextChar ((t.addParseError .utf8Null).appendCharToTemporaryBuffer kUtf8ReplacementChar)
  else if c = -1 then
    returns false ((((t.addParseError .doctypeEof).setState .data).forceQuirks
      true).finishDoctypeName.emitDoctype source)
  else
    .nextChar (((t.setState .doctypeName).forceQuirks false).appendCharToTemporaryBuffer
      (ensureLowercase c))

/-- `handle_after_doctype_name_state`. -/
def handleAfterDoctypeNameState : Handled :=
  let pub := maybeConsumeMatch source t.input (str "PUBLIC") false
  let sys := maybeConsumeMatch source t.input (str "SYSTEM") false
  if isSpaceChar c then .nextChar t
  else if c = ch '>' then returns true ((t.setState .data).emitDoctype source)
  else if c = -1 then t.doctypeError source .doctypeEof .data
  else if pub.1 then
    .nextChar ({ t with input := pub.2 }.setState .afterDoctypePublicKeyword).reconsume
  else if sys.1 then
    .nextChar ({ t with input := sys.2 }.setState .afterDoctypeSystemKeyword).reconsume
  else t.toBogusDoctype .doctypeSpaceOrRightBracket

/-- The assertion in front of an identifier, and its state. -/
def beginId (state : GumboTokenizerEnum) : GumboTokenizerState :=
  (t.assert (t.temporaryBufferEquals "")).setState state

/-- `handle_after_doctype_public_keyword_state`. -/
def handleAfterDoctypePublicKeywordState : Handled :=
  if isSpaceChar c then .nextChar (t.setState .beforeDoctypePublicId)
  else if c = quotation then
    .nextChar ((t.addParseError .doctypeInvalid).beginId .doctypePublicIdDoubleQuoted)
  else if c = apostrophe then
    .nextChar ((t.addParseError .doctypeInvalid).beginId .doctypePublicIdSingleQuoted)
  else if c = ch '>' then t.doctypeError source .doctypeRightBracket .data
  else if c = -1 then t.doctypeError source .doctypeEof .data
  else t.doctypeError source .doctypeInvalid .bogusDoctype

/-- `handle_before_doctype_public_id_state`. -/
def handleBeforeDoctypePublicIdState : Handled :=
  if isSpaceChar c then .nextChar t
  else if c = quotation then .nextChar (t.beginId .doctypePublicIdDoubleQuoted)
  else if c = apostrophe then .nextChar (t.beginId .doctypePublicIdSingleQuoted)
  else if c = ch '>' then t.doctypeError source .doctypeEnd .data
  else if c = -1 then t.doctypeError source .doctypeEof .data
  else t.doctypeError source .doctypeInvalid .bogusDoctype

/-- `handle_doctype_public_id_double_quoted_state`, and the three states like it: the quotation
mark, the state behind it, where the identifier goes, and the error at the end of the document. -/
def handleDoctypeIdQuoted (quote : ℤ) (after : GumboTokenizerEnum)
    (finishId : GumboTokenizerState → GumboTokenizerState) (eof : GumboErrorType) : Handled :=
  if c = quote then .nextChar (finishId (t.setState after))
  else if c = 0 then
    .nextChar ((t.addParseError .utf8Null).appendCharToTemporaryBuffer kUtf8ReplacementChar)
  else if c = ch '>' then
    returns false ((finishId (((t.addParseError .doctypeEnd).setState .data).forceQuirks
      true)).emitDoctype source)
  else if c = -1 then
    returns false ((finishId (((t.addParseError eof).setState .data).forceQuirks
      true)).emitDoctype source)
  else .nextChar (t.appendCharToTemporaryBuffer c)

/-- `handle_doctype_public_id_double_quoted_state`. -/
def handleDoctypePublicIdDoubleQuotedState : Handled :=
  t.handleDoctypeIdQuoted source c quotation .afterDoctypePublicId finishDoctypePublicId .doctypeEof

/-- `handle_doctype_public_id_single_quoted_state`. -/
def handleDoctypePublicIdSingleQuotedState : Handled :=
  t.handleDoctypeIdQuoted source c apostrophe .afterDoctypePublicId finishDoctypePublicId
    .doctypeEof

/-- `handle_after_doctype_public_id_state`.  At the end of the document no token is emitted. -/
def handleAfterDoctypePublicIdState : Handled :=
  if isSpaceChar c then .nextChar (t.setState .betweenDoctypePublicSystemId)
  else if c = ch '>' then returns true ((t.setState .data).emitDoctype source)
  else if c = quotation then
    .nextChar ((t.addParseError .doctypeInvalid).beginId .doctypeSystemIdDoubleQuoted)
  else if c = apostrophe then
    .nextChar ((t.addParseError .doctypeInvalid).beginId .doctypeSystemIdSingleQuoted)
  else if c = -1 then
    .nextChar (((t.addParseError .doctypeEof).setState .data).reconsume.forceQuirks true)
  else t.toBogusDoctype .doctypeInvalid

/-- `handle_between_doctype_public_system_id_state`. -/
def handleBetweenDoctypePublicSystemIdState : Handled :=
  if isSpaceChar c then .nextChar t
  else if c = ch '>' then returns true ((t.setState .data).emitDoctype source)
  else if c = quotation then .nextChar (t.beginId .doctypeSystemIdDoubleQuoted)
  else if c = apostrophe then .nextChar (t.beginId .doctypeSystemIdSingleQuoted)
  else if c = -1 then t.doctypeError source .doctypeEof .data
  else t.doctypeError source .doctypeInvalid .bogusDoctype

/-- `handle_after_doctype_system_keyword_state`. -/
def handleAfterDoctypeSystemKeywordState : Handled :=
  if isSpaceChar c then .nextChar (t.setState .beforeDoctypeSystemId)
  else if c = quotation then
    .nextChar ((t.addParseError .doctypeInvalid).beginId .doctypeSystemIdDoubleQuoted)
  else if c = apostrophe then
    .nextChar ((t.addParseError .doctypeInvalid).beginId .doctypeSystemIdSingleQuoted)
  else if c = ch '>' then t.doctypeError source .doctypeEnd .data
  else if c = -1 then t.doctypeError source .doctypeEof .data
  else t.toBogusDoctype .doctypeInvalid

/-- `handle_before_doctype_system_id_state`. -/
def handleBeforeDoctypeSystemIdState : Handled :=
  if isSpaceChar c then .nextChar t
  else if c = quotation then .nextChar (t.beginId .doctypeSystemIdDoubleQuoted)
  else if c = apostrophe then .nextChar (t.beginId .doctypeSystemIdSingleQuoted)
  else if c = ch '>' then t.doctypeError source .doctypeEnd .data
  else if c = -1 then t.doctypeError source .doctypeEof .data
  else t.toBogusDoctype .doctypeInvalid

/-- `handle_doctype_system_id_double_quoted_state`. -/
def handleDoctypeSystemIdDoubleQuotedState : Handled :=
  t.handleDoctypeIdQuoted source c quotation .afterDoctypeSystemId finishDoctypeSystemId .doctypeEof

/-- `handle_doctype_system_id_single_quoted_state`.  The error at the end of the document is
another one. -/
def handleDoctypeSystemIdSingleQuotedState : Handled :=
  t.handleDoctypeIdQuoted source c apostrophe .afterDoctypeSystemId finishDoctypeSystemId
    .doctypeInvalid

/-- `handle_after_doctype_system_id_state`. -/
def handleAfterDoctypeSystemIdState : Handled :=
  if isSpaceChar c then .nextChar t
  else if c = ch '>' then returns true ((t.setState .data).emitDoctype source)
  else if c = -1 then t.doctypeError source .doctypeEof .data
  else .nextChar ((t.addParseError .doctypeInvalid).setState .bogusDoctype)

/-- `handle_bogus_doctype_state`. -/
def handleBogusDoctypeState : Handled :=
  if c = ch '>' ∨ c = -1 then returns false ((t.setState .data).emitDoctype source)
  else .nextChar t

/-- `handle_cdata_state`. -/
def handleCdataState : Handled :=
  let close := maybeConsumeMatch source t.input (str "]]>") true
  if c = -1 then .nextChar (t.reconsume.resetTokenStartPoint.setState .data)
  else if close.1 then
    .nextChar ({ t with input := close.2 }.reconsume.resetTokenStartPoint.setState .data)
  else t.emitCurrentChar source

/-! ### `gumbo_lex` -/

/-- `dispatch_table`. -/
def dispatch : Handled :=
  match t.state with
  | .data => t.handleDataState source c
  | .charRefInData => t.handleCharRefInDataState source entities
  | .rcdata => t.handleRcdataState source c
  | .charRefInRcdata => t.handleCharRefInRcdataState source entities
  | .rawtext => t.handleRawtextState source c
  | .script => t.handleScriptState source c
  | .plaintext => t.handlePlaintextState source c
  | .tagOpen => t.handleTagOpenState source c
  | .endTagOpen => t.handleEndTagOpenState source c
  | .tagName => t.handleTagNameState source c
  | .rcdataLt => t.handleRcdataLtState source c
  | .rcdataEndTagOpen => t.handleRcdataEndTagOpenState source c
  | .rcdataEndTagName => t.handleRcdataEndTagNameState source c
  | .rawtextLt => t.handleRawtextLtState source c
  | .rawtextEndTagOpen => t.handleRawtextEndTagOpenState source c
  | .rawtextEndTagName => t.handleRawtextEndTagNameState source c
  | .scriptLt => t.handleScriptLtState source c
  | .scriptEndTagOpen => t.handleScriptEndTagOpenState source c
  | .scriptEndTagName => t.handleScriptEndTagNameState source c
  | .scriptEscapedStart => t.handleScriptEscapedStartState source c
  | .scriptEscapedStartDash => t.handleScriptEscapedStartDashState source c
  | .scriptEscaped => t.handleScriptEscapedState source c
  | .scriptEscapedDash => t.handleScriptEscapedDashState source c
  | .scriptEscapedDashDash => t.handleScriptEscapedDashDashState source c
  | .scriptEscapedLt => t.handleScriptEscapedLtState source c
  | .scriptEscapedEndTagOpen => t.handleScriptEscapedEndTagOpenState source c
  | .scriptEscapedEndTagName => t.handleScriptEscapedEndTagNameState source c
  | .scriptDoubleEscapedStart => t.handleScriptDoubleEscapedStartState source c
  | .scriptDoubleEscaped => t.handleScriptDoubleEscapedState source c
  | .scriptDoubleEscapedDash => t.handleScriptDoubleEscapedDashState source c
  | .scriptDoubleEscapedDashDash => t.handleScriptDoubleEscapedDashDashState source c
  | .scriptDoubleEscapedLt => t.handleScriptDoubleEscapedLtState source c
  | .scriptDoubleEscapedEnd => t.handleScriptDoubleEscapedEndState source c
  | .beforeAttrName => t.handleBeforeAttrNameState source c
  | .attrName => t.handleAttrNameState source c
  | .afterAttrName => t.handleAfterAttrNameState source c
  | .beforeAttrValue => t.handleBeforeAttrValueState source c
  | .attrValueDoubleQuoted => t.handleAttrValueDoubleQuotedState c
  | .attrValueSingleQuoted => t.handleAttrValueSingleQuotedState c
  | .attrValueUnquoted => t.handleAttrValueUnquotedState source c
  | .charRefInAttrValue => t.handleCharRefInAttrValueState source entities
  | .afterAttrValueQuoted => t.handleAfterAttrValueQuotedState source c
  | .selfClosingStartTag => t.handleSelfClosingStartTagState source c
  | .bogusComment => t.handleBogusCommentState source
  | .markupDeclaration => t.handleMarkupDeclarationState source
  | .commentStart => t.handleCommentStartState source c
  | .commentStartDash => t.handleCommentStartDashState source c
  | .comment => t.handleCommentState source c
  | .commentEndDash => t.handleCommentEndDashState source c
  | .commentEnd => t.handleCommentEndState source c
  | .commentEndBang => t.handleCommentEndBangState source c
  | .doctype => t.handleDoctypeState source c
  | .beforeDoctypeName => t.handleBeforeDoctypeNameState source c
  | .doctypeName => t.handleDoctypeNameState source c
  | .afterDoctypeName => t.handleAfterDoctypeNameState source c
  | .afterDoctypePublicKeyword => t.handleAfterDoctypePublicKeywordState source c
  | .beforeDoctypePublicId => t.handleBeforeDoctypePublicIdState source c
  | .doctypePublicIdDoubleQuoted => t.handleDoctypePublicIdDoubleQuotedState source c
  | .doctypePublicIdSingleQuoted => t.handleDoctypePublicIdSingleQuotedState source c
  | .afterDoctypePublicId => t.handleAfterDoctypePublicIdState source c
  | .betweenDoctypePublicSystemId => t.handleBetweenDoctypePublicSystemIdState source c
  | .afterDoctypeSystemKeyword => t.handleAfterDoctypeSystemKeywordState source c
  | .beforeDoctypeSystemId => t.handleBeforeDoctypeSystemIdState source c
  | .doctypeSystemIdDoubleQuoted => t.handleDoctypeSystemIdDoubleQuotedState source c
  | .doctypeSystemIdSingleQuoted => t.handleDoctypeSystemIdSingleQuotedState source c
  | .afterDoctypeSystemId => t.handleAfterDoctypeSystemIdState source c
  | .bogusDoctype => t.handleBogusDoctypeState source c
  | .cdata => t.handleCdataState source c

/-- What `gumbo_lex` returns, the tokenizer, and the token if one has been filled in. -/
structure Lexed where
  success : Bool
  t : GumboTokenizerState
  output : Option GumboToken

/-- The end of a turn: `_reconsume_current_input` is taken back. -/
def endTurn (t : GumboTokenizerState) : GumboTokenizerState :=
  { t with reconsumeCurrentInput := false }

/-- The loop of `gumbo_lex`, with a bound on the number of turns. -/
def lexLoop (source : Bytes) (entities : List NamedCharRef) :
    ℕ → GumboTokenizerState → Option Lexed
  | 0, _ => none
  | n + 1, t =>
      let t := (t.assert t.temporaryBufferEmit.isNone).assert (t.bufferedEmitChar == kGumboNoChar)
      match t.dispatch source entities t.input.current with
      | .done success t output => some ⟨success, t.endTurn, output⟩
      | .nextChar t => lexLoop source entities n (t.advance source).endTurn

/-- `gumbo_lex`, with a bound on the number of turns of its loop. -/
def gumboLex (source : Bytes) (entities : List NamedCharRef) (n : ℕ) (t : GumboTokenizerState) :
    Option Lexed :=
  if t.bufferedEmitChar ≠ kGumboNoChar then
    let e := t.reconsume.emitChar source t.bufferedEmitChar
    some ⟨true, { e.1.endTurn with bufferedEmitChar := kGumboNoChar }, some e.2⟩
  else
    match t.maybeEmitFromTemporaryBuffer source with
    | (t, some token) => some ⟨true, t, some token⟩
    | (t, none) => lexLoop source entities n t

end GumboTokenizerState

end Gumbo
end Scaner
