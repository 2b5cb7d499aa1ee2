/-
# The tokenizer

The state of `html_parser/tokenizer.cpp` and the functions with which its states are written.

A `GumboStringBuffer` is the bytes that it holds, a pointer into the document the number of bytes
in front of it, and a pointer into the temporary buffer the number of bytes of the buffer in front
of it.  `sound` remembers whether all assertions so far have held and no element behind a vector's
end has been used.  Two kinds of assertions are left out: the three of `emit_current_tag` on the
original text of a tag, and those that a buffer or a vector has memory (`emit_temporary_buffer`,
`finish_attribute_name`), which the bytes and the list do not show.  Deallocations are left out as
well.  After `mark_tag_state_as_empty`, which the source has in debug builds only, there are no
attributes (`none`).
-/

import Scaner.Gumbo.CharRef
import Scaner.Gumbo.Tag

namespace Scaner
namespace Gumbo

open Bytes Utf8 LuaStack Utf8Iterator

/-- `enum GumboTokenizerEnum`. -/
inductive GumboTokenizerEnum
  | data | charRefInData | rcdata | charRefInRcdata | rawtext | script | plaintext
  | tagOpen | endTagOpen | tagName
  | rcdataLt | rcdataEndTagOpen | rcdataEndTagName
  | rawtextLt | rawtextEndTagOpen | rawtextEndTagName
  | scriptLt | scriptEndTagOpen | scriptEndTagName
  | scriptEscapedStart | scriptEscapedStartDash | scriptEscaped | scriptEscapedDash
  | scriptEscapedDashDash | scriptEscapedLt | scriptEscapedEndTagOpen | scriptEscapedEndTagName
  | scriptDoubleEscapedStart | scriptDoubleEscaped | scriptDoubleEscapedDash
  | scriptDoubleEscapedDashDash | scriptDoubleEscapedLt | scriptDoubleEscapedEnd
  | beforeAttrName | attrName | afterAttrName | beforeAttrValue
  | attrValueDoubleQuoted | attrValueSingleQuoted | attrValueUnquoted
  | charRefInAttrValue | afterAttrValueQuoted | selfClosingStartTag
  | bogusComment | markupDeclaration
  | commentStart | commentStartDash | comment | commentEndDash | commentEnd | commentEndBang
  | doctype | beforeDoctypeName | doctypeName | afterDoctypeName
  | afterDoctypePublicKeyword | beforeDoctypePublicId
  | doctypePublicIdDoubleQuoted | doctypePublicIdSingleQuoted | afterDoctypePublicId
  | betweenDoctypePublicSystemId | afterDoctypeSystemKeyword | beforeDoctypeSystemId
  | doctypeSystemIdDoubleQuoted | doctypeSystemIdSingleQuoted | afterDoctypeSystemId
  | bogusDoctype | cdata
  deriving DecidableEq

/-- `struct GumboStringPiece` in the document. -/
structure GumboStringPiece where
  data : ℕ
  length : ℕ
  deriving DecidableEq

/-- `struct GumboAttribute`.  Of an attribute without a value `value_start` and `value_end` are not
set. -/
structure GumboAttribute where
  name : Bytes
  originalName : GumboStringPiece
  value : Bytes
  originalValue : GumboStringPiece
  nameStart : GumboSourcePosition
  nameEnd : GumboSourcePosition
  valueStart : Option GumboSourcePosition
  valueEnd : Option GumboSourcePosition
  deriving DecidableEq

/-- `struct GumboTokenDocType`, where a text that is `NULL` is `none`. -/
structure GumboTokenDocType where
  name : Option Bytes
  publicIdentifier : Option Bytes
  systemIdentifier : Option Bytes
  forceQuirks : Bool
  hasPublicIdentifier : Bool
  hasSystemIdentifier : Bool
  deriving DecidableEq

/-- The type of a token and the union `v`. -/
inductive GumboTokenValue
  | docType (docType : GumboTokenDocType)
  | startTag (tag : GumboTag) (attributes : List GumboAttribute) (isSelfClosing : Bool)
  | endTag (tag : GumboTag)
  | comment (text : Bytes)
  | whitespace (c : ℤ)
  | character (c : ℤ)
  | null
  | eof
  deriving DecidableEq

/-- `struct GumboToken`. -/
structure GumboToken where
  v : GumboTokenValue
  position : GumboSourcePosition
  originalText : GumboStringPiece
  deriving DecidableEq

/-- `struct GumboTagState`. -/
structure GumboTagState where
  buffer : Bytes
  originalText : ℕ
  tag : GumboTag
  startPos : GumboSourcePosition
  attributes : Option (List GumboAttribute)
  dropNextAttrValue : Bool
  attrValueState : GumboTokenizerEnum
  lastStartTag : GumboTag
  isStartTag : Bool
  isSelfClosing : Bool

/-- `struct GumboTokenizerState`. -/
structure GumboTokenizerState where
  state : GumboTokenizerEnum
  reconsumeCurrentInput : Bool
  isCurrentNodeForeign : Bool
  bufferedEmitChar : ℤ
  temporaryBuffer : Bytes
  temporaryBufferEmit : Option ℕ
  scriptDataBuffer : Bytes
  tokenStart : ℕ
  tokenStartPos : GumboSourcePosition
  tagState : GumboTagState
  docTypeState : GumboTokenDocType
  input : Utf8Iterator
  sound : Bool

/-- What a state function comes to: `NEXT_CHAR`, or `RETURN_SUCCESS` or `RETURN_ERROR` with the
token, if one has been filled in. -/
inductive Handled
  | nextChar (t : GumboTokenizerState)
  | done (success : Bool) (t : GumboTokenizerState) (output : Option GumboToken)

/-- `gumbo_string_buffer_append_codepoint`, as the bytes that are appended.  A code point below
zero goes into one byte. -/
def codepointBytes (c : ℤ) : Bytes :=
  if c < 0 then [UInt8.ofNat (c % 256).toNat] else encode c.toNat

/-- The state of the tokenizer that an error names. -/
def errorState : GumboTokenizerEnum → GumboTokenizerErrorState
  | .data => .data
  | .charRefInData | .charRefInRcdata | .charRefInAttrValue => .charRef
  | .rcdata | .rcdataLt | .rcdataEndTagOpen | .rcdataEndTagName => .rcdata
  | .rawtext | .rawtextLt | .rawtextEndTagOpen | .rawtextEndTagName => .rawtext
  | .plaintext => .plaintext
  | .script | .scriptLt | .scriptEndTagOpen | .scriptEndTagName | .scriptEscapedStart
  | .scriptEscapedStartDash | .scriptEscaped | .scriptEscapedDash | .scriptEscapedDashDash
  | .scriptEscapedLt | .scriptEscapedEndTagOpen | .scriptEscapedEndTagName
  | .scriptDoubleEscapedStart | .scriptDoubleEscaped | .scriptDoubleEscapedDash
  | .scriptDoubleEscapedDashDash | .scriptDoubleEscapedLt | .scriptDoubleEscapedEnd => .script
  | .tagOpen | .endTagOpen | .tagName | .beforeAttrName => .tag
  | .selfClosingStartTag => .selfClosingTag
  | .attrName | .afterAttrName | .beforeAttrValue => .attrName
  | .attrValueDoubleQuoted | .attrValueSingleQuoted | .attrValueUnquoted
  | .afterAttrValueQuoted => .attrValue
  | .bogusComment | .commentStart | .commentStartDash | .comment | .commentEndDash | .commentEnd
  | .commentEndBang => .comment
  | .markupDeclaration | .doctype | .beforeDoctypeName | .doctypeName | .afterDoctypeName
  | .afterDoctypePublicKeyword | .beforeDoctypePublicId | .doctypePublicIdDoubleQuoted
  | .doctypePublicIdSingleQuoted | .afterDoctypePublicId | .betweenDoctypePublicSystemId
  | .afterDoctypeSystemKeyword | .beforeDoctypeSystemId | .doctypeSystemIdDoubleQuoted
  | .doctypeSystemIdSingleQuoted | .afterDoctypeSystemId | .bogusDoctype => .doctype
  | .cdata => .cdata

/-- `is_alpha`. -/
def isAlpha (c : ℤ) : Bool :=
  decide (ch 'A' ≤ c ∧ c ≤ ch 'Z') || decide (ch 'a' ≤ c ∧ c ≤ ch 'z')

/-- `ensure_lowercase`. -/
def ensureLowercase (c : ℤ) : ℤ := if ch 'A' ≤ c ∧ c ≤ ch 'Z' then c + 0x20 else c

/-- `get_char_token_type`, with the token of the type. -/
def charToken (c : ℤ) : GumboTokenValue :=
  if c = 9 ∨ c = 10 ∨ c = 13 ∨ c = 12 ∨ c = ch ' ' then .whitespace c
  else if c = 0 then .null
  else if c = -1 then .eof
  else .character c

/-- The document type of `doc_type_state_init`. -/
def noDocType : GumboTokenDocType := ⟨none, none, none, false, false, false⟩

namespace GumboTokenizerState

/-- An assertion. -/
def assert (t : GumboTokenizerState) (b : Bool) : GumboTokenizerState :=
  { t with sound := t.sound && b }

/-- `gumbo_tokenizer_set_state`. -/
def setState (t : GumboTokenizerState) (state : GumboTokenizerEnum) : GumboTokenizerState :=
  { t with state }

/-- `tokenizer->_reconsume_current_input = true`. -/
def reconsume (t : GumboTokenizerState) : GumboTokenizerState :=
  { t with reconsumeCurrentInput := true }

/-- `tokenizer->_doc_type_state.force_quirks = b`. -/
def forceQuirks (t : GumboTokenizerState) (b : Bool) : GumboTokenizerState :=
  { t with docTypeState := { t.docTypeState with forceQuirks := b } }

/-- `add_parse_error`. -/
def addParseError (t : GumboTokenizerState) (type : GumboErrorType) : GumboTokenizerState :=
  let error : GumboError :=
    ⟨type, t.input.pos, t.input.start, .tokenizer t.input.current (errorState t.state)⟩
  { t with input := { t.input with errors := t.input.errors ++ [error] } }

/-- `clear_temporary_buffer`. -/
def clearTemporaryBuffer (t : GumboTokenizerState) : GumboTokenizerState :=
  { t.assert t.temporaryBufferEmit.isNone with
    input := t.input.setMark
    temporaryBuffer := []
    scriptDataBuffer := [] }

/-- `append_char_to_temporary_buffer`. -/
def appendCharToTemporaryBuffer (t : GumboTokenizerState) (codepoint : ℤ) : GumboTokenizerState :=
  { t with temporaryBuffer := t.temporaryBuffer ++ codepointBytes codepoint }

/-- `gumbo_string_buffer_append_codepoint` on the script data buffer. -/
def appendCharToScriptDataBuffer (t : GumboTokenizerState) (codepoint : ℤ) :
    GumboTokenizerState :=
  { t with scriptDataBuffer := t.scriptDataBuffer ++ codepointBytes codepoint }

/-- `temporary_buffer_equals`. -/
def temporaryBufferEquals (t : GumboTokenizerState) (text : String) : Bool :=
  t.temporaryBuffer == str text

/-- `doc_type_state_init`. -/
def docTypeStateInit (t : GumboTokenizerState) : GumboTokenizerState :=
  { t with docTypeState := noDocType }

/-- `reset_token_start_point`. -/
def resetTokenStartPoint (t : GumboTokenizerState) : GumboTokenizerState :=
  { t with tokenStart := t.input.start, tokenStartPos := t.input.pos }

/-- `reset_tag_buffer_start_point`. -/
def resetTagBufferStartPoint (t : GumboTokenizerState) : GumboTokenizerState :=
  { t with
    tagState := { t.tagState with startPos := t.input.pos, originalText := t.input.start } }

/-- `finish_doctype_public_id`. -/
def finishDoctypePublicId (t : GumboTokenizerState) : GumboTokenizerState :=
  { t.clearTemporaryBuffer with
    docTypeState := { t.docTypeState with
      publicIdentifier := some t.temporaryBuffer, hasPublicIdentifier := true } }

/-- `finish_doctype_system_id`. -/
def finishDoctypeSystemId (t : GumboTokenizerState) : GumboTokenizerState :=
  { t.clearTemporaryBuffer with
    docTypeState := { t.docTypeState with
      systemIdentifier := some t.temporaryBuffer, hasSystemIdentifier := true } }

/-- `finish_temporary_buffer` to the name of the document type. -/
def finishDoctypeName (t : GumboTokenizerState) : GumboTokenizerState :=
  { t.clearTemporaryBuffer with
    docTypeState := { t.docTypeState with name := some t.temporaryBuffer } }

/-- `append_char_to_tag_buffer`. -/
def appendCharToTagBuffer (t : GumboTokenizerState) (codepoint : ℤ)
    (reinitilizePositionOnFirst : Bool) : GumboTokenizerState :=
  let t :=
    if t.tagState.buffer.length = 0 ∧ reinitilizePositionOnFirst = true then
      t.resetTagBufferStartPoint
    else t
  { t with
    tagState := { t.tagState with buffer := t.tagState.buffer ++ codepointBytes codepoint } }

/-- `initialize_tag_buffer`, and `reinitialize_tag_buffer`. -/
def initializeTagBuffer (t : GumboTokenizerState) : GumboTokenizerState :=
  { t with tagState := { t.tagState with buffer := [] } }.resetTagBufferStartPoint

/-- `start_new_tag`. -/
def startNewTag (t : GumboTokenizerState) (isStartTag : Bool) : GumboTokenizerState :=
  let c := ensureLowercase t.input.current
  let t := ((t.assert (isAlpha t.input.current)).assert (isAlpha c)).initializeTagBuffer
  let t := { t with tagState := { t.tagState with buffer := codepointBytes c } }
  let t := t.assert t.tagState.attributes.isNone
  { t with
    tagState := { t.tagState with
      attributes := some []
      dropNextAttrValue := false
      isStartTag
      isSelfClosing := false } }

/-- `copy_over_original_tag_text`, as the text.  Of an empty text the byte in front of it is looked
at, and the length of one behind a carriage return wraps. -/
def originalTagText (t : GumboTokenizerState) (source : Bytes) : GumboStringPiece :=
  let data := t.tagState.originalText
  let length := t.input.start - data
  ⟨data, if source[data + length - 1]? = some cr then (length + (2 ^ 32 - 1)) % 2 ^ 32
    else length⟩

/-- `finish_tag_name`. -/
def finishTagName (t : GumboTokenizerState) : GumboTokenizerState :=
  { t with
    tagState := { t.tagState with tag := gumboTagEnum t.tagState.buffer } }.initializeTagBuffer

/-- `add_duplicate_attr_error`. -/
def addDuplicateAttrError (t : GumboTokenizerState) (originalIndex newIndex : ℕ) :
    GumboTokenizerState :=
  let error : GumboError :=
    ⟨.duplicateAttr, t.tagState.startPos, t.tagState.originalText,
      .duplicateAttr t.tagState.buffer originalIndex newIndex⟩
  { t with input := { t.input with errors := t.input.errors ++ [error] } }.initializeTagBuffer

/-- The test of `finish_attribute_name` for an attribute with the name in the buffer. -/
def sameName (buffer : Bytes) (attr : GumboAttribute) : Bool :=
  (cString attr.name).length == buffer.length && attr.name.take buffer.length == buffer

/-- The attribute that `finish_attribute_name` makes. -/
def newAttribute (t : GumboTokenizerState) (source : Bytes) : GumboAttribute :=
  { name := t.tagState.buffer
    originalName := t.originalTagText source
    value := []
    originalValue := t.originalTagText source
    nameStart := t.tagState.startPos
    nameEnd := t.input.pos
    valueStart := none
    valueEnd := none }

/-- `finish_attribute_name`. -/
def finishAttributeName (t : GumboTokenizerState) (source : Bytes) : GumboTokenizerState :=
  let t := { t with tagState := { t.tagState with dropNextAttrValue := false } }
  let t := t.assert t.tagState.attributes.isSome
  let attributes := t.tagState.attributes.getD []
  match attributes.findIdx? (sameName t.tagState.buffer) with
  | some i =>
      let t := t.addDuplicateAttrError i attributes.length
      { t with tagState := { t.tagState with dropNextAttrValue := true } }
  | none =>
      { t with
        tagState := { t.tagState with
          attributes := some (attributes ++ [t.newAttribute source]) } }.initializeTagBuffer

/-- The attribute with the value that `finish_attribute_value` gives it. -/
def withValue (t : GumboTokenizerState) (source : Bytes) (attr : GumboAttribute) :
    GumboAttribute :=
  { attr with
    value := t.tagState.buffer
    originalValue := t.originalTagText source
    valueStart := some t.tagState.startPos
    valueEnd := some t.input.pos }

/-- `finish_attribute_value`. -/
def finishAttributeValue (t : GumboTokenizerState) (source : Bytes) : GumboTokenizerState :=
  if t.tagState.dropNextAttrValue then
    { t with tagState := { t.tagState with dropNextAttrValue := false } }.initializeTagBuffer
  else
    let attributes := t.tagState.attributes.getD []
    let t := t.assert (!attributes.isEmpty)
    { t with
      tagState := { t.tagState with
        attributes := some (attributes.modify (attributes.length - 1) (t.withValue source)) }
      }.initializeTagBuffer

/-- `is_appropriate_end_tag`. -/
def isAppropriateEndTag (t : GumboTokenizerState) : Bool :=
  t.tagState.lastStartTag != .last && t.tagState.lastStartTag == gumboTagEnum t.tagState.buffer

/-- `abandon_current_tag`. -/
def abandonCurrentTag (t : GumboTokenizerState) : GumboTokenizerState :=
  { t with tagState := { t.tagState with attributes := none, buffer := [] } }

/-- `utf8iterator_next`, unless the current character is to be read again. -/
def advance (t : GumboTokenizerState) (source : Bytes) : GumboTokenizerState :=
  if t.reconsumeCurrentInput then t else { t with input := next source t.input }

/-- `finish_token`, with the token of the value. -/
def finishToken (t : GumboTokenizerState) (source : Bytes) (v : GumboTokenValue) :
    GumboTokenizerState × GumboToken :=
  let t' := (t.advance source).resetTokenStartPoint
  let length := t'.tokenStart - t.tokenStart
  let length :=
    if 0 < length ∧ source[t.tokenStart + length - 1]? = some cr then length - 1 else length
  (t', ⟨v, t.tokenStartPos, ⟨t.tokenStart, length⟩⟩)

/-- `emit_char`. -/
def emitChar (t : GumboTokenizerState) (source : Bytes) (c : ℤ) :
    GumboTokenizerState × GumboToken :=
  t.finishToken source (charToken c)

/-- `emit_doctype`. -/
def emitDoctype (t : GumboTokenizerState) (source : Bytes) : GumboTokenizerState × GumboToken :=
  let r := t.finishToken source (.docType t.docTypeState)
  (r.1.docTypeStateInit, r.2)

/-- `emit_current_tag`. -/
def emitCurrentTag (t : GumboTokenizerState) (source : Bytes) :
    GumboTokenizerState × GumboToken :=
  let tagState := { t.tagState with attributes := none, buffer := [] }
  if t.tagState.isStartTag then
    { t with tagState := { tagState with lastStartTag := t.tagState.tag } }.finishToken source
      (.startTag t.tagState.tag (t.tagState.attributes.getD []) t.tagState.isSelfClosing)
  else { t with tagState }.finishToken source (.endTag t.tagState.tag)

/-- `emit_comment`. -/
def emitComment (t : GumboTokenizerState) (source : Bytes) : GumboTokenizerState × GumboToken :=
  t.clearTemporaryBuffer.finishToken source (.comment t.temporaryBuffer)

/-- The return from a state with a token. -/
def returns (success : Bool) (r : GumboTokenizerState × GumboToken) : Handled :=
  .done success r.1 (some r.2)

/-- `emit_current_char`. -/
def emitCurrentChar (t : GumboTokenizerState) (source : Bytes) : Handled :=
  returns true (t.emitChar source t.input.current)

/-- `emit_replacement_char`. -/
def emitReplacementChar (t : GumboTokenizerState) (source : Bytes) : Handled :=
  returns false ((t.addParseError .utf8Null).emitChar source kUtf8ReplacementChar)

/-- `emit_eof`. -/
def emitEof (t : GumboTokenizerState) (source : Bytes) : Handled :=
  returns true (t.emitChar source (-1))

/-- `emit_char_ref` behind `consume_char_ref`. -/
def emitConsumed (t : GumboTokenizerState) (source : Bytes) (r : Consumed) : Handled :=
  let t := { t with input := r.input }
  if r.output.first ≠ kGumboNoChar then
    let e := t.reconsume.emitChar source r.output.first
    returns r.status ({ e.1 with bufferedEmitChar := r.output.second }, e.2)
  else returns r.status (t.emitChar source (ch '&'))

/-- `emit_char_ref`.  The third argument of the source is not used there. -/
def emitCharRef (t : GumboTokenizerState) (source : Bytes) (entities : List NamedCharRef)
    (additionalAllowedChar : ℤ) : Handled :=
  t.emitConsumed source (consumeCharRef source entities t.input additionalAllowedChar false)

/-- `maybe_emit_from_temporary_buffer`. -/
def maybeEmitFromTemporaryBuffer (t : GumboTokenizerState) (source : Bytes) :
    GumboTokenizerState × Option GumboToken :=
  match t.temporaryBufferEmit.bind fun k => (t.temporaryBuffer.drop k).head?.map (k, ·) with
  | none => ({ t with temporaryBufferEmit := none }, none)
  | some (k, c) =>
      let t := t.assert ((c.toNat : ℤ) == t.input.current)
      let e := { t with reconsumeCurrentInput := false }.emitChar source c.toNat
      ({ e.1 with
        temporaryBufferEmit := some (k + 1)
        reconsumeCurrentInput := t.reconsumeCurrentInput }, some e.2)

/-- `emit_temporary_buffer`. -/
def emitTemporaryBuffer (t : GumboTokenizerState) (source : Bytes) :
    GumboTokenizerState × Option GumboToken :=
  { t with
    input := reset source t.input
    temporaryBufferEmit := some 0 }.maybeEmitFromTemporaryBuffer source

/-- `return emit_temporary_buffer(parser, output)`. -/
def flush (t : GumboTokenizerState) (source : Bytes) : Handled :=
  let r := t.emitTemporaryBuffer source
  .done r.2.isSome r.1 r.2

/-- `gumbo_tokenizer_state_init`.  The fields of the tag state are not set there, but for the last
start tag. -/
def init (source : Bytes) : GumboTokenizerState :=
  { state := .data
    reconsumeCurrentInput := false
    isCurrentNodeForeign := false
    bufferedEmitChar := kGumboNoChar
    temporaryBuffer := []
    temporaryBufferEmit := none
    scriptDataBuffer := []
    tokenStart := 0
    tokenStartPos := (Utf8Iterator.init source).pos
    tagState := ⟨[], 0, .last, ⟨0, 0, 0⟩, none, false, .data, .last, false, false⟩
    docTypeState := noDocType
    input := Utf8Iterator.init source
    sound := true }

end GumboTokenizerState

end Gumbo
end Scaner
