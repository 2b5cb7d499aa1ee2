/-
# Every state keeps the rules

For each function of `dispatch_table` that a turn in it is good (`Good`): in front of a code point,
and at the end of the document.
-/

import Scaner.Gumbo.Turns

namespace Scaner
namespace Gumbo
namespace GumboTokenizerState

open Bytes Utf8 LuaStack Utf8Iterator

variable {source : Bytes} {entities : List NamedCharRef} {t t' : GumboTokenizerState}
  {cs : List ℕ} {c : ℕ} {s : GumboTokenizerEnum}

/-- In a given state, the rule for the tag is that of the state. -/
theorem LoopInv.tag_of (h : LoopInv source t cs) (hs : t.state = s) :
    t.tagState.Ok s.tagPhase := hs ▸ h.tag

/-- In a given state, the rule for the temporary buffer is that of the state. -/
theorem LoopInv.temp_of (h : LoopInv source t cs) (hs : t.state = s) :
    s.tempRule.Holds t.temporaryBuffer := hs ▸ h.temp.holds

/-- A code point that is left is not the end of the document. -/
theorem natCast_ne_eof (c : ℕ) : (c : ℤ) = -1 ↔ False := iff_false_intro (by omega)

/-- An ampersand is left. -/
theorem head_of_ampersand (h : (c : ℤ) = ch '&') : (c :: cs).head? = some 38 := by
  have hc : (c : ℤ) = 38 := h
  rw [List.head?_cons, Option.some.injEq]
  omega

/-! ### Text -/

/-- The code point under the cursor is emitted. -/
theorem good_emitCurrentChar (h : LoopInv source t (c :: cs)) (hlike : Like t t')
    (hre : t'.reconsumeCurrentInput = false) (hrests : t'.state.rests = true)
    (htag : t'.tagState.attributes = none) :
    Good source t (c :: cs) (t'.emitCurrentChar source) := by
  have hcurrent : t'.input.current = c := (hlike.rest h.rest).current
  rw [emitCurrentChar, hcurrent]
  exact ends_char h hlike hre hrests htag (by omega)

/-- A zero is replaced. -/
theorem good_emitReplacementChar (h : LoopInv source t (c :: cs)) (hlike : Like t t')
    (hre : t'.reconsumeCurrentInput = false) (hrests : t'.state.rests = true)
    (htag : t'.tagState.attributes = none) :
    Good source t (c :: cs) (t'.emitReplacementChar source) :=
  ends_char h ((like_addParseError _).2 hlike) hre hrests htag (by decide)

/-- The end of the document in a state with text. -/
theorem good_emitEof (h : LoopInv source t []) (hlike : Like t t') (hrests : t'.state.rests = true)
    (htag : t'.tagState.attributes = none) : Good source t [] (t'.emitEof source) :=
  ends_eof h hlike hrests htag

/-- A `<` in a state with text: the temporary buffer is begun. -/
theorem good_lessThan (h : LoopInv source t (c :: cs)) (hc : (c : ℤ) = ch '<')
    (htag : t.tagState.attributes = none) (hs : s.tempRule = .lt) (hphase : s.tagPhase = .none)
    (hamp : s.isCharRef = false) :
    Good source t (c :: cs)
      (.nextChar ((t.setState s).clearTemporaryBuffer.appendCharToTemporaryBuffer c)) := by
  obtain rfl : c = 60 := by
    have : (c : ℤ) = 60 := hc
    omega
  have hclear := clearTemporaryBuffer_of_none (t := t.setState s) h.emit
  rw [hclear]
  have htemp : TempInv source (appendCharToTemporaryBuffer { t.setState s with
      input := t.input.setMark, temporaryBuffer := [], scriptDataBuffer := [] } (60 : ℕ)) cs := by
    refine ⟨?_, fun _ => ?_, fun _ => rfl⟩
    · change s.tempRule.Holds (codepointBytes (60 : ℕ))
      rw [hs]
      exact (by decide : codepointBytes (60 : ℕ) = str "<")
    · exact h.rest.marked (by decide)
  refine goes_held h (by simp) h.reconsume ?_ hamp htemp ?_ ?_
  · change s.tempRule.flushes = true
    rw [hs]
    rfl
  · change GumboTagState.Ok _ s.tagPhase
    rw [hphase]
    exact htag
  · rw [held]
    split_ifs
    · exact Nat.le_add_left 1 _
    · exact Nat.zero_le _

/-- An ampersand in a state with text. -/
theorem good_ampersand (h : LoopInv source t (c :: cs)) (hc : (c : ℤ) = ch '&')
    (htag : t.tagState.attributes = none) (hs : s.tempRule = .any) (hphase : s.tagPhase = .none)
    (hfalls : falls t.state s = true) :
    Good source t (c :: cs) (.nextChar (t.setState s).reconsume) := by
  refine goes_again h (by simp) rfl ?_ (fun _ => head_of_ampersand hc) hfalls ?_ ?_
  · change s.tempRule.flushes = false
    rw [hs]
    rfl
  · change s.tempRule.Holds _
    rw [hs]
    trivial
  · change GumboTagState.Ok _ s.tagPhase
    rw [hphase]
    exact htag

/-- In text. -/
theorem good_data (h : LoopInv source t (c :: cs)) (hs : t.state = .data) :
    Good source t (c :: cs) (t.handleDataState source c) := by
  have hnone : t.tagState.attributes = none := LoopInv.tag_of h hs
  have hrests : t.state.rests = true := hs ▸ rfl
  rw [handleDataState]
  split_ifs with h1 h2 h3
  · exact good_ampersand h h1 hnone rfl rfl (by rw [hs]; rfl)
  · have hgood := good_lessThan (s := .tagOpen) h h2 hnone rfl rfl rfl
    rwa [h2] at hgood
  · rw [h3]
    exact ends_char h (by simp) h.reconsume hrests hnone (by decide)
  · exact good_emitCurrentChar h (like_refl t) h.reconsume hrests hnone

/-- `handle_rawtext_state` and `handle_script_state`, and a part of `handle_rcdata_state`. -/
theorem good_text {lt : GumboTokenizerEnum} (h : LoopInv source t (c :: cs))
    (hnone : t.tagState.attributes = none) (hrests : t.state.rests = true)
    (hlt : lt.tempRule = .lt) (hphase : lt.tagPhase = .none) (hamp : lt.isCharRef = false) :
    Good source t (c :: cs) (t.handleTextState source c lt) := by
  simp only [handleTextState, natCast_ne_eof, if_false]
  split_ifs with h1 h2
  · have hgood := good_lessThan h h1 hnone hlt hphase hamp
    rwa [h1] at hgood
  · exact good_emitReplacementChar h (like_refl t) h.reconsume hrests hnone
  · exact good_emitCurrentChar h (like_refl t) h.reconsume hrests hnone

/-- In text in which references count and tags do not. -/
theorem good_rcdata (h : LoopInv source t (c :: cs)) (hs : t.state = .rcdata) :
    Good source t (c :: cs) (t.handleRcdataState source c) := by
  have hnone : t.tagState.attributes = none := LoopInv.tag_of h hs
  rw [handleRcdataState]
  split_ifs with h1
  · exact good_ampersand h h1 hnone rfl rfl (by rw [hs]; rfl)
  · exact good_text h hnone (hs ▸ rfl) rfl rfl rfl

/-- In text in which nothing counts. -/
theorem good_plaintext (h : LoopInv source t (c :: cs)) (hs : t.state = .plaintext) :
    Good source t (c :: cs) (t.handlePlaintextState source c) := by
  have hnone : t.tagState.attributes = none := LoopInv.tag_of h hs
  have hrests : t.state.rests = true := hs ▸ rfl
  simp only [handlePlaintextState, natCast_ne_eof, if_false]
  split_ifs
  · exact good_emitReplacementChar h (like_refl t) h.reconsume hrests hnone
  · exact good_emitCurrentChar h (like_refl t) h.reconsume hrests hnone

/-- A reference in a state with text. -/
theorem good_charRef (entities : List NamedCharRef) (x : ℤ) (h : LoopInv source t (c :: cs))
    (hamp : t.state.isCharRef = true) (hnone : t.tagState.attributes = none)
    (hs : s.rests = true) (hextra : s.extra = 0) :
    Good source t (c :: cs) ((t.setState s).emitCharRef source entities x) := by
  obtain rfl : c = 38 := by simpa using h.ampersand hamp
  obtain ⟨left, hleft⟩ := leftOver_consumeCharRef entities h.rest x false
  exact good_emitConsumed h hleft hnone hs hextra

/-! ### The temporary buffer -/

/-- The temporary buffer is emitted as it is. -/
theorem ends_flush_same (h : LoopInv source t cs) (hflush : t.state.tempRule.flushes = true)
    (hlike : Like t t') (hrests : t'.state.rests = true) (hextra : t'.state.extra = 0)
    (htag : t'.tagState.attributes = none) (hmark : t'.input.mark = t.input.mark)
    (htemp : t'.temporaryBuffer = t.temporaryBuffer) :
    Ends source t cs (t'.emitTemporaryBuffer source).1 (t'.emitTemporaryBuffer source).2 := by
  refine ends_flush cs h hlike hrests htag ?_ ?_ ?_ hextra
  · rw [hmark, htemp]
    exact h.temp.marked hflush
  · rw [htemp]
    exact h.temp.holds.ne_nil hflush
  · rw [htemp, budget, held, if_pos hflush]
    omega

/-- The code point under the cursor goes into the temporary buffer, which is emitted. -/
theorem ends_flush_with (h : LoopInv source t (c :: cs)) (hflush : t.state.tempRule.flushes = true)
    (hlike : Like t t') (hrests : t'.state.rests = true) (hextra : t'.state.extra = 0)
    (htag : t'.tagState.attributes = none) (hmark : t'.input.mark = t.input.mark) (hc : c < 0x80)
    (htemp : t'.temporaryBuffer = t.temporaryBuffer ++ codepointBytes c) :
    Ends source t (c :: cs) (t'.emitTemporaryBuffer source).1
      (t'.emitTemporaryBuffer source).2 := by
  have hne := h.temp.holds.ne_nil hflush
  refine ends_flush cs h hlike hrests htag ?_ ?_ ?_ hextra
  · rw [hmark, htemp, List.map_append, map_codepointBytes_of_lt hc, List.append_assoc]
    exact h.temp.marked hflush
  · rw [htemp]
    exact List.append_ne_nil_of_left_ne_nil hne _
  · rw [htemp, codepointBytes_of_lt hc, budget, held, if_pos hflush, List.length_append,
      List.length_singleton, List.length_cons]
    omega

/-- The code point under the cursor goes into the temporary buffer. -/
theorem goes_append (h : LoopInv source t (c :: cs)) (hflush : t.state.tempRule.flushes = true)
    (hlike : Like t t') (hre : t'.reconsumeCurrentInput = false)
    (hmark : t'.input.mark = t.input.mark) (hc : c < 0x80)
    (htemp : t'.temporaryBuffer = t.temporaryBuffer ++ codepointBytes c)
    (hflush' : t'.state.tempRule.flushes = true) (hamp : t'.state.isCharRef = false)
    (hholds : t'.state.tempRule.Holds t'.temporaryBuffer) (hscript : t'.state ≠ .scriptEscapedLt)
    (htag : t'.tagState.Ok t'.state.tagPhase) : Goes source t (c :: cs) t' := by
  refine goes_held h hlike hre hflush' hamp ⟨hholds, fun _ => ?_, fun he => absurd he hscript⟩ htag
    ?_
  · rw [hmark, htemp, List.map_append, map_codepointBytes_of_lt hc, List.append_assoc]
    exact h.temp.marked hflush
  · rw [held, held, if_pos hflush, if_pos hflush', htemp, codepointBytes_of_lt hc,
      List.length_append, List.length_singleton]

/-- Letters are ASCII characters. -/
theorem lt_of_isAlpha (h : isAlpha c = true) : c < 0x80 := by
  rw [isAlpha_iff] at h
  omega

/-- Behind `<` the temporary buffer is what the assertion asks for. -/
theorem equals_of_lt (h : LoopInv source t cs) (hs : t.state.tempRule = .lt) :
    t.temporaryBufferEquals "<" = true ∧ t.temporaryBuffer = str "<" := by
  have hholds := h.temp.holds
  rw [hs] at hholds
  have htemp : t.temporaryBuffer = str "<" := hholds
  exact ⟨by rw [temporaryBufferEquals, htemp]; exact beq_self_eq_true _, htemp⟩

/-- Behind `</` the temporary buffer is what the assertion asks for. -/
theorem equals_of_ltSlash (h : LoopInv source t cs) (hs : t.state.tempRule = .ltSlash) :
    t.temporaryBufferEquals "</" = true ∧ t.temporaryBuffer = str "</" := by
  have hholds := h.temp.holds
  rw [hs] at hholds
  have htemp : t.temporaryBuffer = str "</" := hholds
  exact ⟨by rw [temporaryBufferEquals, htemp]; exact beq_self_eq_true _, htemp⟩

/-- A `/` behind the `<`. -/
theorem good_solidus (h : LoopInv source t (c :: cs)) (hrule : t.state.tempRule = .lt)
    (hnone : t.tagState.attributes = none) (hc : (c : ℤ) = ch '/') (hs : s.tempRule = .ltSlash)
    (hphase : s.tagPhase = .none) (hamp : s.isCharRef = false) :
    Good source t (c :: cs) (.nextChar ((t.setState s).appendCharToTemporaryBuffer c)) := by
  obtain rfl : c = 47 := by
    have : (c : ℤ) = 47 := hc
    omega
  have hflush : s.tempRule.flushes = true := by
    rw [hs]
    rfl
  refine goes_append h (by rw [hrule]; rfl) (by simp) h.reconsume rfl
    (by decide) rfl hflush hamp ?_ ?_ ?_
  · change s.tempRule.Holds (t.temporaryBuffer ++ codepointBytes (47 : ℕ))
    rw [hs, (equals_of_lt h hrule).2]
    exact (by decide : str "<" ++ codepointBytes (47 : ℕ) = str "</")
  · intro he
    change s = .scriptEscapedLt at he
    rw [he] at hs
    exact absurd hs (by decide)
  · change GumboTagState.Ok _ s.tagPhase
    rw [hphase]
    exact hnone

/-- `handle_rcdata_lt_state` and `handle_rawtext_lt_state`. -/
theorem good_lt {endTag text : GumboTokenizerEnum} (h : LoopInv source t (c :: cs))
    (hrule : t.state.tempRule = .lt) (hnone : t.tagState.attributes = none)
    (hend : endTag.tempRule = .ltSlash) (hphase : endTag.tagPhase = .none)
    (hamp : endTag.isCharRef = false) (hrests : text.rests = true) (hextra : text.extra = 0) :
    Good source t (c :: cs) (t.handleLtState source c endTag text) := by
  simp only [handleLtState]
  rw [assert_of_true (equals_of_lt h hrule).1]
  split_ifs with h1
  · have hgood := good_solidus h hrule hnone h1 hend hphase hamp
    rwa [h1] at hgood
  · exact ends_flush_same h (by rw [hrule]; rfl) (by simp) hrests hextra hnone rfl rfl

/-- A tag with no attributes yet is being read. -/
theorem open_of_nil {g : GumboTagState} (h : g.attributes = some []) : g.Open :=
  ⟨[], h, namesOk_nil⟩

/-- `handle_rcdata_end_tag_open_state`, and those of raw text, script and escaped script. -/
theorem good_textEndTagOpen {endTagName text : GumboTokenizerEnum}
    (h : LoopInv source t (c :: cs)) (hrule : t.state.tempRule = .ltSlash)
    (hnone : t.tagState.attributes = none) (hname : endTagName.tempRule = .endName)
    (hphase : endTagName.tagPhase = .endName) (hamp : endTagName.isCharRef = false)
    (hrests : text.rests = true) (hextra : text.extra = 0) :
    Good source t (c :: cs) (t.handleTextEndTagOpenState source c endTagName text) := by
  have hflush : t.state.tempRule.flushes = true := by
    rw [hrule]
    rfl
  simp only [handleTextEndTagOpenState]
  rw [assert_of_true (equals_of_ltSlash h hrule).1]
  split_ifs with h1
  · have hcurrent : (t.setState endTagName).input.current = c := h.rest.current
    obtain ⟨g, hstart, hattributes, hend, -, -⟩ :=
      startNewTag_spec (t := t.setState endTagName) false (by rwa [hcurrent]) hnone
    rw [hstart]
    refine goes_append h hflush (by simp) h.reconsume rfl (lt_of_isAlpha h1) rfl ?_ hamp ?_ ?_ ?_
    · change endTagName.tempRule.flushes = true
      rw [hname]
      rfl
    · change endTagName.tempRule.Holds (t.temporaryBuffer ++ codepointBytes c)
      rw [hname, (equals_of_ltSlash h hrule).2]
      change 2 ≤ (str "</" ++ codepointBytes c).length
      rw [List.length_append]
      exact Nat.le_add_right 2 _
    · intro he
      change endTagName = .scriptEscapedLt at he
      rw [he] at hname
      exact absurd hname (by decide)
    · change GumboTagState.Ok g endTagName.tagPhase
      rw [hphase]
      exact ⟨open_of_nil hattributes, hend⟩
  · exact ends_flush_same h hflush (by simp) hrests hextra hnone rfl rfl

/-- `handle_rcdata_end_tag_name_state`, and those of raw text, script and escaped script. -/
theorem good_textEndTagName {text : GumboTokenizerEnum} (h : LoopInv source t (c :: cs))
    (hrule : t.state.tempRule = .endName) (hphase : t.state.tagPhase = .endName)
    (hamp : t.state.isCharRef = false) (hrests : text.rests = true) (hextra : text.extra = 0) :
    Good source t (c :: cs) (t.handleTextEndTagNameState source c text) := by
  have hflush : t.state.tempRule.flushes = true := by
    rw [hrule]
    rfl
  have hlen : 2 ≤ t.temporaryBuffer.length := by
    have := h.temp.holds
    rwa [hrule] at this
  have htag := h.tag
  rw [hphase] at htag
  obtain ⟨hopen, hend⟩ := htag
  simp only [handleTextEndTagNameState]
  rw [assert_of_true (decide_eq_true hlen)]
  split_ifs with h1 h2 h3 h4
  · obtain ⟨startPos, originalText, hpush⟩ :=
      appendCharToTagBuffer_spec t (ensureLowercase c) true
    rw [hpush]
    refine goes_append h hflush (by simp) h.reconsume rfl (lt_of_isAlpha h1)
      rfl hflush hamp ?_ ?_ ?_
    · change t.state.tempRule.Holds (t.temporaryBuffer ++ codepointBytes c)
      rw [hrule]
      exact hlen.trans (by simp)
    · intro he
      change t.state = .scriptEscapedLt at he
      rw [he] at hrule
      exact absurd hrule (by decide)
    · change GumboTagState.Ok _ t.state.tagPhase
      rw [hphase]
      exact ⟨hopen, hend⟩
  all_goals rw [assert_of_true (by rw [hend]; rfl)]
  · exact goes_on h (by simp) h.reconsume rfl rfl trivial ⟨hopen, List.not_mem_nil⟩
  · exact goes_on h (by simp) h.reconsume rfl rfl trivial ⟨hopen, List.not_mem_nil⟩
  · exact ends_tag h (by simp) h.reconsume rfl hopen
  · exact ends_flush_same h hflush (by simp) hrests hextra rfl rfl rfl

/-! ### The beginning of a tag -/

/-- The temporary buffer is begun anew. -/
theorem goes_clear {x : GumboTokenizerState} (h : LoopInv source t (c :: cs)) (hlike : Like t x)
    (hre : x.reconsumeCurrentInput = false) (hrule : x.state.tempRule = .any)
    (hamp : x.state.isCharRef = false) (htag : x.tagState.Ok x.state.tagPhase) (y : ℤ) :
    Goes source t (c :: cs) (x.clearTemporaryBuffer.appendCharToTemporaryBuffer y) := by
  rw [clearTemporaryBuffer_of_none (hlike.emit.trans h.emit)]
  refine goes_on h ⟨hlike.start, hlike.width, hlike.current, hlike.emit, hlike.buffered,
    hlike.sound⟩ hre ?_ hamp ?_ htag
  · change x.state.tempRule.flushes = false
    rw [hrule]
    rfl
  · change x.state.tempRule.Holds _
    rw [hrule]
    trivial

/-- A tag is begun in the state for its name. -/
theorem good_startNewTag (h : LoopInv source t (c :: cs)) (hc : isAlpha c = true)
    (hnone : t.tagState.attributes = none) (isStartTag : Bool) :
    Good source t (c :: cs) (.nextChar ((t.setState .tagName).startNewTag isStartTag)) := by
  have hcurrent : (t.setState .tagName).input.current = c := h.rest.current
  obtain ⟨g, hstart, hattributes, -, -, -⟩ :=
    startNewTag_spec (t := t.setState .tagName) isStartTag (by rwa [hcurrent]) hnone
  rw [hstart]
  exact goes_on h (by simp) h.reconsume rfl rfl trivial (open_of_nil hattributes)

/-- Behind `<`: a tag, a comment, or text after all. -/
theorem good_tagOpen (h : LoopInv source t (c :: cs)) (hs : t.state = .tagOpen) :
    Good source t (c :: cs) (t.handleTagOpenState source c) := by
  have hnone : t.tagState.attributes = none := LoopInv.tag_of h hs
  have hrule : t.state.tempRule = .lt := hs ▸ rfl
  simp only [handleTagOpenState]
  rw [assert_of_true (equals_of_lt h hrule).1]
  split_ifs with h1 h2 h3 h4
  · rw [clearTemporaryBuffer_of_none (t := t.setState .markupDeclaration) h.emit]
    exact goes_on h (by simp) h.reconsume rfl rfl rfl hnone
  · have hgood := good_solidus (s := .endTagOpen) h hrule hnone h2 rfl rfl rfl
    rwa [h2] at hgood
  · rw [clearTemporaryBuffer_of_none (t := t.setState .bogusComment) h.emit]
    exact goes_on h (by simp) h.reconsume rfl rfl trivial hnone
  · exact good_startNewTag h h4 hnone true
  · exact ends_flush_same h (by rw [hrule]; rfl) (by simp) rfl rfl hnone rfl rfl

/-- Behind `</`: a name, a bogus comment, or text after all. -/
theorem good_endTagOpen (h : LoopInv source t (c :: cs)) (hs : t.state = .endTagOpen) :
    Good source t (c :: cs) (t.handleEndTagOpenState source c) := by
  have hnone : t.tagState.attributes = none := LoopInv.tag_of h hs
  have hrule : t.state.tempRule = .ltSlash := hs ▸ rfl
  simp only [handleEndTagOpenState, natCast_ne_eof, if_false]
  rw [assert_of_true (equals_of_ltSlash h hrule).1]
  split_ifs with h1 h2
  · exact goes_on h (by simp) h.reconsume rfl rfl trivial hnone
  · exact good_startNewTag h h2 hnone false
  · exact goes_clear (x := (t.addParseError _).setState .bogusComment) h
      (by simp) h.reconsume rfl rfl hnone c

/-- A code point goes into the buffer of the tag. -/
theorem goes_push {x : GumboTokenizerState} (h : LoopInv source t (c :: cs)) (hlike : Like t x)
    (hre : x.reconsumeCurrentInput = false) (hrule : x.state.tempRule = .any)
    (hamp : x.state.isCharRef = false) (y : ℤ) (b : Bool)
    (htag : ∀ startPos originalText, GumboTagState.Ok { x.tagState with
      buffer := x.tagState.buffer ++ codepointBytes y, startPos, originalText } x.state.tagPhase) :
    Goes source t (c :: cs) (x.appendCharToTagBuffer y b) := by
  obtain ⟨startPos, originalText, hpush⟩ := appendCharToTagBuffer_spec x y b
  rw [hpush]
  refine goes_on h ⟨hlike.start, hlike.width, hlike.current, hlike.emit, hlike.buffered,
    hlike.sound⟩ hre ?_ hamp ?_ (htag startPos originalText)
  · change x.state.tempRule.flushes = false
    rw [hrule]
    rfl
  · change x.state.tempRule.Holds _
    rw [hrule]
    trivial

/-- In the name of a tag. -/
theorem good_tagName (h : LoopInv source t (c :: cs)) (hs : t.state = .tagName) :
    Good source t (c :: cs) (t.handleTagNameState source c) := by
  have hopen : t.tagState.Open := LoopInv.tag_of h hs
  have hphase : t.state.tagPhase = .name := hs ▸ rfl
  have hrule : t.state.tempRule = .any := hs ▸ rfl
  have hamp : t.state.isCharRef = false := hs ▸ rfl
  simp only [handleTagNameState, natCast_ne_eof, if_false]
  split_ifs with h1 h2 h3 h4
  · exact goes_on h (by simp) h.reconsume rfl rfl trivial ⟨hopen, List.not_mem_nil⟩
  · exact goes_on h (by simp) h.reconsume rfl rfl trivial ⟨hopen, List.not_mem_nil⟩
  · exact ends_tag h (by simp) h.reconsume rfl hopen
  · refine goes_push (x := t.addParseError _) h (by simp) h.reconsume hrule hamp _ _ fun _ _ => ?_
    change GumboTagState.Ok _ t.state.tagPhase
    rw [hphase]
    exact hopen
  · refine goes_push h (like_refl t) h.reconsume hrule hamp _ _ fun _ _ => ?_
    rw [hphase]
    exact hopen

/-! ### Script -/

/-- Another state follows, and the code point is looked at again. -/
theorem good_again (h : LoopInv source t (c :: cs)) (hnone : t.tagState.attributes = none)
    (hrests : s.rests = true) (hfalls : falls t.state s = true) :
    Good source t (c :: cs) (.nextChar (t.setState s).reconsume) := by
  obtain ⟨hrule, hphase, hamp⟩ := rests_iff.1 hrests
  refine goes_again h (by simp) rfl ?_ ?_ hfalls ?_ ?_
  · change s.tempRule.flushes = false
    rw [hrule]
    rfl
  · exact fun ha => absurd (hamp.symm.trans ha) Bool.false_ne_true
  · change s.tempRule.Holds _
    rw [hrule]
    trivial
  · change GumboTagState.Ok _ s.tagPhase
    rw [hphase]
    exact hnone

/-- Behind `<` in a script. -/
theorem good_scriptLt (h : LoopInv source t (c :: cs)) (hs : t.state = .scriptLt) :
    Good source t (c :: cs) (t.handleScriptLtState source c) := by
  have hnone : t.tagState.attributes = none := LoopInv.tag_of h hs
  have hrule : t.state.tempRule = .lt := hs ▸ rfl
  have hflush : t.state.tempRule.flushes = true := hs ▸ rfl
  simp only [handleScriptLtState]
  rw [assert_of_true (equals_of_lt h hrule).1]
  split_ifs with h1 h2
  · have hgood := good_solidus (s := .scriptEndTagOpen) h hrule hnone h1 rfl rfl rfl
    rwa [h1] at hgood
  · have hc : c = 33 := by
      have : (c : ℤ) = 33 := h2
      omega
    refine ends_flush_with h hflush (by simp) rfl rfl hnone rfl (by omega) ?_
    rw [h2]
    rfl
  · exact ends_flush_same h hflush (by simp) rfl rfl hnone rfl rfl

/-- `handle_script_escaped_start_state` and `handle_script_escaped_start_dash_state`. -/
theorem good_scriptEscapedStart {dash : GumboTokenizerEnum} (h : LoopInv source t (c :: cs))
    (hnone : t.tagState.attributes = none) (hfalls : falls t.state .script = true)
    (hdash : dash.rests = true) :
    Good source t (c :: cs) (t.handleScriptEscapedStart source c dash) := by
  rw [handleScriptEscapedStart]
  split_ifs
  · exact good_emitCurrentChar h (by simp) h.reconsume hdash hnone
  · exact good_again h hnone rfl hfalls

/-- A `<` in an escaped script. -/
theorem good_escapedLessThan (h : LoopInv source t (c :: cs)) (hc : (c : ℤ) = ch '<')
    (hnone : t.tagState.attributes = none) : Good source t (c :: cs) (t.escapedLessThan c) :=
  good_lessThan (s := .scriptEscapedLt) h hc hnone rfl rfl rfl

/-- In the escaped part of a script. -/
theorem good_scriptEscaped (h : LoopInv source t (c :: cs)) (hs : t.state = .scriptEscaped) :
    Good source t (c :: cs) (t.handleScriptEscapedState source c) := by
  have hnone : t.tagState.attributes = none := LoopInv.tag_of h hs
  have hrests : t.state.rests = true := hs ▸ rfl
  simp only [handleScriptEscapedState, natCast_ne_eof, if_false]
  split_ifs with h1 h2 h3
  · exact good_emitCurrentChar h (by simp) h.reconsume rfl hnone
  · exact good_escapedLessThan h h2 hnone
  · exact good_emitReplacementChar h (like_refl t) h.reconsume hrests hnone
  · exact good_emitCurrentChar h (like_refl t) h.reconsume hrests hnone

/-- Behind one dash in the escaped part of a script. -/
theorem good_scriptEscapedDash (h : LoopInv source t (c :: cs))
    (hs : t.state = .scriptEscapedDash) :
    Good source t (c :: cs) (t.handleScriptEscapedDashState source c) := by
  have hnone : t.tagState.attributes = none := LoopInv.tag_of h hs
  simp only [handleScriptEscapedDashState, natCast_ne_eof, if_false]
  split_ifs with h1 h2 h3
  · exact good_emitCurrentChar h (by simp) h.reconsume rfl hnone
  · exact good_escapedLessThan h h2 hnone
  · exact good_emitReplacementChar h (by simp) h.reconsume rfl hnone
  · exact good_emitCurrentChar h (by simp) h.reconsume rfl hnone

/-- Behind two dashes in the escaped part of a script, where `>` ends it. -/
theorem good_scriptEscapedDashDash (h : LoopInv source t (c :: cs))
    (hs : t.state = .scriptEscapedDashDash) :
    Good source t (c :: cs) (t.handleScriptEscapedDashDashState source c) := by
  have hnone : t.tagState.attributes = none := LoopInv.tag_of h hs
  simp only [handleScriptEscapedDashDashState, natCast_ne_eof, if_false]
  split_ifs with h1 h2 h3 h4
  · exact good_emitCurrentChar h (like_refl t) h.reconsume (hs ▸ rfl) hnone
  · exact good_escapedLessThan h h2 hnone
  · exact good_emitCurrentChar h (by simp) h.reconsume rfl hnone
  · exact good_emitReplacementChar h (by simp) h.reconsume rfl hnone
  · exact good_emitCurrentChar h (by simp) h.reconsume rfl hnone

/-- Behind `<` in the escaped part of a script. -/
theorem good_scriptEscapedLt (h : LoopInv source t (c :: cs)) (hs : t.state = .scriptEscapedLt) :
    Good source t (c :: cs) (t.handleScriptEscapedLtState source c) := by
  have hnone : t.tagState.attributes = none := LoopInv.tag_of h hs
  have hrule : t.state.tempRule = .lt := hs ▸ rfl
  have hflush : t.state.tempRule.flushes = true := hs ▸ rfl
  simp only [handleScriptEscapedLtState]
  rw [assert_of_true (equals_of_lt h hrule).1, assert_of_true (by rw [h.temp.script hs]; rfl)]
  split_ifs with h1 h2
  · exact good_solidus (s := .scriptEscapedEndTagOpen) h hrule hnone h1 rfl rfl rfl
  · exact ends_flush_with h hflush (by simp) rfl rfl hnone rfl (lt_of_isAlpha h2) rfl
  · exact ends_flush_same h hflush (by simp) rfl rfl hnone rfl rfl

/-- `handle_script_double_escaped_start_state` and `handle_script_double_escaped_end_state`. -/
theorem good_scriptDoubleEscapedName {same other : GumboTokenizerEnum}
    (h : LoopInv source t (c :: cs)) (hnone : t.tagState.attributes = none)
    (hrests : t.state.rests = true) (hsame : same.rests = true) (hother : other.rests = true)
    (hfalls : falls t.state other = true) :
    Good source t (c :: cs) (t.handleScriptDoubleEscapedName source c same other) := by
  have hnext : (if kScriptTag = t.scriptDataBuffer then same else other).rests = true := by
    split_ifs
    · exact hsame
    · exact hother
  rw [handleScriptDoubleEscapedName]
  split_ifs
  · exact good_emitCurrentChar h (by simp) h.reconsume hsame hnone
  · exact good_emitCurrentChar h (by simp) h.reconsume hother hnone
  · exact good_emitCurrentChar h (by simp) h.reconsume hrests hnone
  · exact good_again h hnone hother hfalls

/-- In the escape within the escape. -/
theorem good_scriptDoubleEscaped (h : LoopInv source t (c :: cs))
    (hs : t.state = .scriptDoubleEscaped) :
    Good source t (c :: cs) (t.handleScriptDoubleEscapedState source c) := by
  have hnone : t.tagState.attributes = none := LoopInv.tag_of h hs
  have hrests : t.state.rests = true := hs ▸ rfl
  simp only [handleScriptDoubleEscapedState, natCast_ne_eof, if_false]
  split_ifs
  · exact good_emitCurrentChar h (by simp) h.reconsume rfl hnone
  · exact good_emitCurrentChar h (by simp) h.reconsume rfl hnone
  · exact good_emitReplacementChar h (like_refl t) h.reconsume hrests hnone
  · exact good_emitCurrentChar h (like_refl t) h.reconsume hrests hnone

/-- Behind one dash in the escape within the escape. -/
theorem good_scriptDoubleEscapedDash (h : LoopInv source t (c :: cs))
    (hs : t.state = .scriptDoubleEscapedDash) :
    Good source t (c :: cs) (t.handleScriptDoubleEscapedDashState source c) := by
  have hnone : t.tagState.attributes = none := LoopInv.tag_of h hs
  simp only [handleScriptDoubleEscapedDashState, natCast_ne_eof, if_false]
  split_ifs
  · exact good_emitCurrentChar h (by simp) h.reconsume rfl hnone
  · exact good_emitCurrentChar h (by simp) h.reconsume rfl hnone
  · exact good_emitReplacementChar h (by simp) h.reconsume rfl hnone
  · exact good_emitCurrentChar h (by simp) h.reconsume rfl hnone

/-- Behind two dashes in the escape within the escape. -/
theorem good_scriptDoubleEscapedDashDash (h : LoopInv source t (c :: cs))
    (hs : t.state = .scriptDoubleEscapedDashDash) :
    Good source t (c :: cs) (t.handleScriptDoubleEscapedDashDashState source c) := by
  have hnone : t.tagState.attributes = none := LoopInv.tag_of h hs
  simp only [handleScriptDoubleEscapedDashDashState, natCast_ne_eof, if_false]
  split_ifs
  · exact good_emitCurrentChar h (like_refl t) h.reconsume (hs ▸ rfl) hnone
  · exact good_emitCurrentChar h (by simp) h.reconsume rfl hnone
  · exact good_emitCurrentChar h (by simp) h.reconsume rfl hnone
  · exact good_emitReplacementChar h (by simp) h.reconsume rfl hnone
  · exact good_emitCurrentChar h (by simp) h.reconsume rfl hnone

/-- Behind `<` in the escape within the escape. -/
theorem good_scriptDoubleEscapedLt (h : LoopInv source t (c :: cs))
    (hs : t.state = .scriptDoubleEscapedLt) :
    Good source t (c :: cs) (t.handleScriptDoubleEscapedLtState source c) := by
  have hnone : t.tagState.attributes = none := LoopInv.tag_of h hs
  rw [handleScriptDoubleEscapedLtState]
  split_ifs
  · exact good_emitCurrentChar h (by simp) h.reconsume rfl hnone
  · exact good_again h hnone rfl (by rw [hs]; rfl)

end GumboTokenizerState
end Gumbo
end Scaner
