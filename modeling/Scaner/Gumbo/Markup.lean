/-
# Attributes, comments and document types keep the rules

The rest of `dispatch_table`, in front of a code point.  The names of the attributes of a tag stay
apart, since `finish_attribute_name` compares with all of them; the loop of
`handle_bogus_comment_state` reads at most the rest of the document.
-/

import Scaner.Gumbo.States

namespace Scaner
namespace Gumbo
namespace GumboTokenizerState

open Bytes Utf8 LuaStack Utf8Iterator

variable {source : Bytes} {entities : List NamedCharRef} {t t' : GumboTokenizerState}
  {cs : List ℕ} {c : ℕ} {s : GumboTokenizerEnum}

/-! ### Attributes -/

/-- What is delivered is a code point. -/
theorem bounds_of_cons (h : LoopInv source t (c :: cs)) (h0 : ¬(c : ℤ) = 0) :
    (0 : ℤ) < c ∧ (c : ℤ) ≤ 0x10FFFF := by
  have hmax := (h.rest.delivered List.mem_cons_self).max
  omega

/-- A code point of the name of an attribute. -/
theorem goes_attrName {x : GumboTokenizerState} {y : ℤ} (h : LoopInv source t (c :: cs))
    (hlike : Like t x) (hre : x.reconsumeCurrentInput = false) (hstate : x.state = .attrName)
    (hopen : x.tagState.Open) (hzero : 0 ∉ x.tagState.buffer) (hpos : 0 < y) (hmax : y ≤ 0x10FFFF) :
    Goes source t (c :: cs) (x.appendCharToTagBuffer y true) := by
  refine goes_push h hlike hre (by rw [hstate]; rfl) (by rw [hstate]; rfl) _ _ fun _ _ => ?_
  rw [hstate]
  refine ⟨hopen, fun hmem => ?_⟩
  obtain hmem | hmem := List.mem_append.1 hmem
  · exact hzero hmem
  · exact zero_not_mem_codepointBytes hpos hmax hmem

/-- Between attributes: blanks are passed over, the tag ends, or a name begins. -/
theorem good_beforeAttrName (h : LoopInv source t (c :: cs)) (hs : t.state = .beforeAttrName) :
    Good source t (c :: cs) (t.handleBeforeAttrNameState source c) := by
  obtain ⟨hopen, hzero⟩ : t.tagState.Ok .attr := LoopInv.tag_of h hs
  simp only [handleBeforeAttrNameState, natCast_ne_eof, if_false]
  split_ifs with h1 h2 h3 h4 h5
  · exact goes_on h (like_refl t) h.reconsume (hs ▸ rfl) (hs ▸ rfl) h.temp.holds h.tag
  · exact goes_on h (by simp) h.reconsume rfl rfl trivial ⟨hopen, hzero⟩
  · exact ends_tag h (by simp) h.reconsume rfl hopen
  · exact goes_on h (by simp) h.reconsume rfl rfl trivial ⟨hopen, hzero⟩
  all_goals obtain ⟨hpos, hmax⟩ := bounds_of_cons h h4
  all_goals obtain ⟨hpos', hmax'⟩ := ensureLowercase_bounds hpos hmax
  · exact goes_attrName (x := (t.addParseError _).setState .attrName) h
      (by simp) h.reconsume rfl hopen hzero hpos' hmax'
  · exact goes_attrName (x := t.setState .attrName) h (by simp) h.reconsume
      rfl hopen hzero hpos' hmax'

/-- In a name: it ends and is compared with those before it, or goes on in lower case. -/
theorem good_attrName (h : LoopInv source t (c :: cs)) (hs : t.state = .attrName) :
    Good source t (c :: cs) (t.handleAttrNameState source c) := by
  obtain ⟨hopen, hzero⟩ : t.tagState.Ok .attr := LoopInv.tag_of h hs
  obtain ⟨g, errors, hfinish, hopen', hattr, hbuffer, -⟩ :=
    finishAttributeName_spec source hopen hzero
  have hempty : 0 ∉ g.buffer := by
    rw [hbuffer]
    exact List.not_mem_nil
  simp only [handleAttrNameState, natCast_ne_eof, if_false, hfinish]
  split_ifs with h1 h2 h3 h4 h5 h6
  · exact goes_on h (by simp) h.reconsume rfl rfl trivial ⟨hopen', hempty, hattr⟩
  · exact goes_on h (by simp) h.reconsume rfl rfl trivial ⟨hopen', hempty⟩
  · exact goes_on h (by simp) h.reconsume rfl rfl trivial ⟨hopen', hattr⟩
  · exact ends_tag h (by simp) h.reconsume rfl hopen'
  · exact goes_attrName (x := t.addParseError _) h (by simp) h.reconsume hs
      hopen hzero (by decide) (by decide)
  all_goals obtain ⟨hpos, hmax⟩ := bounds_of_cons h h5
  all_goals obtain ⟨hpos', hmax'⟩ := ensureLowercase_bounds hpos hmax
  · exact goes_attrName (x := t.addParseError _) h (by simp) h.reconsume hs hopen hzero hpos' hmax'
  · exact goes_attrName h (like_refl t) h.reconsume hs hopen hzero hpos' hmax'

/-- Behind a name: its value, the end of the tag, or the next name. -/
theorem good_afterAttrName (h : LoopInv source t (c :: cs)) (hs : t.state = .afterAttrName) :
    Good source t (c :: cs) (t.handleAfterAttrNameState source c) := by
  obtain ⟨hopen, hzero, hattr⟩ : t.tagState.Ok .afterAttr := LoopInv.tag_of h hs
  simp only [handleAfterAttrNameState, natCast_ne_eof, if_false]
  split_ifs with h1 h2 h3 h4 h5 h6
  · exact goes_on h (like_refl t) h.reconsume (hs ▸ rfl) (hs ▸ rfl) h.temp.holds h.tag
  · exact goes_on h (by simp) h.reconsume rfl rfl trivial ⟨hopen, hzero⟩
  · exact goes_on h (by simp) h.reconsume rfl rfl trivial ⟨hopen, hattr⟩
  · exact ends_tag h (by simp) h.reconsume rfl hopen
  · exact goes_on h (by simp) h.reconsume rfl rfl trivial ⟨hopen, hzero⟩
  all_goals obtain ⟨hpos, hmax⟩ := bounds_of_cons h h5
  all_goals obtain ⟨hpos', hmax'⟩ := ensureLowercase_bounds hpos hmax
  · exact goes_attrName (x := (t.addParseError _).setState .attrName) h
      (by simp) h.reconsume rfl hopen hzero hpos' hmax'
  · exact goes_attrName (x := t.setState .attrName) h (by simp) h.reconsume
      rfl hopen hzero hpos' hmax'

/-- A code point of the value of an attribute. -/
theorem goes_value {x : GumboTokenizerState} (h : LoopInv source t (c :: cs)) (hlike : Like t x)
    (hre : x.reconsumeCurrentInput = false) (hrule : x.state.tempRule = .any)
    (hphase : x.state.tagPhase = .value) (hamp : x.state.isCharRef = false)
    (hopen : x.tagState.Open) (hattr : x.tagState.HasAttr) (y : ℤ) (b : Bool) :
    Goes source t (c :: cs) (x.appendCharToTagBuffer y b) := by
  refine goes_push h hlike hre hrule hamp y b fun _ _ => ?_
  rw [hphase]
  exact ⟨hopen, hattr⟩

/-- Behind `=`: a quote, an ampersand, or the first code point of the value. -/
theorem good_beforeAttrValue (h : LoopInv source t (c :: cs)) (hs : t.state = .beforeAttrValue) :
    Good source t (c :: cs) (t.handleBeforeAttrValueState source c) := by
  obtain ⟨hopen, hattr⟩ : t.tagState.Ok .value := LoopInv.tag_of h hs
  simp only [handleBeforeAttrValueState, natCast_ne_eof, if_false]
  split_ifs
  · exact goes_on h (like_refl t) h.reconsume (hs ▸ rfl) (hs ▸ rfl) h.temp.holds h.tag
  · exact goes_on h (by simp) h.reconsume rfl rfl trivial ⟨hopen, hattr⟩
  · exact goes_again h (by simp) rfl rfl nofun (by rw [hs]; rfl) trivial ⟨hopen, hattr⟩
  · exact goes_on h (by simp) h.reconsume rfl rfl trivial ⟨hopen, hattr⟩
  · exact goes_value (x := (t.addParseError _).setState _) h (by simp)
      h.reconsume rfl rfl rfl hopen hattr _ _
  · exact ends_tag h (by simp) h.reconsume rfl hopen
  · exact goes_value (x := (t.addParseError _).setState _) h (by simp)
      h.reconsume rfl rfl rfl hopen hattr _ _
  · exact goes_value (x := t.setState .attrValueUnquoted) h (by simp)
      h.reconsume rfl rfl rfl hopen hattr _ _

/-- An ampersand in a value. -/
theorem good_ampersandInValue (h : LoopInv source t (c :: cs)) (hc : (c : ℤ) = ch '&')
    (hphase : t.state.tagPhase = .value) (hallowed : (allowedChar t.state).2.2 = true)
    (hfalls : falls t.state .charRefInAttrValue = true) :
    Good source t (c :: cs) t.ampersandInValue := by
  have htag := h.tag
  rw [hphase] at htag
  exact goes_again h (by simp) rfl rfl (fun _ => head_of_ampersand hc) hfalls
    trivial ⟨htag.1, htag.2, hallowed⟩

/-- `handle_attr_value_double_quoted_state` and `handle_attr_value_single_quoted_state`. -/
theorem good_attrValueQuoted (h : LoopInv source t (c :: cs)) (hrule : t.state.tempRule = .any)
    (hphase : t.state.tagPhase = .value) (hamp : t.state.isCharRef = false)
    (hallowed : (allowedChar t.state).2.2 = true)
    (hfalls : falls t.state .charRefInAttrValue = true) (quote : ℤ) (eof : GumboErrorType) :
    Good source t (c :: cs) (t.handleAttrValueQuoted c quote eof) := by
  have htag := h.tag
  rw [hphase] at htag
  obtain ⟨hopen, hattr⟩ := htag
  simp only [handleAttrValueQuoted, natCast_ne_eof, if_false]
  split_ifs with h1 h2
  · exact goes_on h (by simp) h.reconsume rfl rfl trivial ⟨hopen, hattr⟩
  · exact good_ampersandInValue h h2 hphase hallowed hfalls
  · exact goes_value (x := t.addParseError _) h (by simp) h.reconsume hrule
      hphase hamp hopen hattr _ _
  · exact goes_value h (like_refl t) h.reconsume hrule hphase hamp hopen hattr _ _

/-- A value with no quotes ends at a blank or at the end of the tag. -/
theorem good_attrValueUnquoted (h : LoopInv source t (c :: cs))
    (hs : t.state = .attrValueUnquoted) :
    Good source t (c :: cs) (t.handleAttrValueUnquotedState source c) := by
  obtain ⟨hopen, hattr⟩ : t.tagState.Ok .value := LoopInv.tag_of h hs
  have hrule : t.state.tempRule = .any := hs ▸ rfl
  have hphase : t.state.tagPhase = .value := hs ▸ rfl
  have hamp : t.state.isCharRef = false := hs ▸ rfl
  have hzero {g : GumboTagState} (hg : g.buffer = []) : 0 ∉ g.buffer := hg ▸ List.not_mem_nil
  simp only [handleAttrValueUnquotedState, natCast_ne_eof, if_false]
  split_ifs with h1 h2
  · obtain ⟨g, hfinish, hopen', hbuffer, -⟩ :=
      finishAttributeValue_spec (t := t.setState .beforeAttrName) source hopen hattr
    rw [hfinish]
    exact goes_on h (by simp) h.reconsume rfl rfl trivial ⟨hopen', hzero hbuffer⟩
  · exact good_ampersandInValue h h2 hphase (by rw [hs]; rfl) (by rw [hs]; rfl)
  · obtain ⟨g, hfinish, hopen', -, -⟩ :=
      finishAttributeValue_spec (t := t.setState .data) source hopen hattr
    rw [hfinish]
    exact ends_tag h (by simp) h.reconsume rfl hopen'
  · exact goes_value (x := t.addParseError _) h (by simp) h.reconsume hrule
      hphase hamp hopen hattr _ _
  · exact goes_value (x := t.addParseError _) h (by simp) h.reconsume hrule
      hphase hamp hopen hattr _ _
  · exact goes_value h (like_refl t) h.reconsume hrule hphase hamp hopen hattr _ _

/-- The iterator has come nearer to the end. -/
theorem goes_moved {left : List ℕ} (h : LoopInv source t cs) (hrest : Rest source t'.input left)
    (hemit : t'.temporaryBufferEmit = t.temporaryBufferEmit)
    (hbuffered : t'.bufferedEmitChar = t.bufferedEmitChar) (hsound : t'.sound = t.sound)
    (hlen : (if t'.reconsumeCurrentInput then left else left.tail).length < cs.length)
    (hflush : t'.state.tempRule.flushes = false) (hamp : t'.state.isCharRef = false)
    (htemp : t'.state.tempRule.Holds t'.temporaryBuffer)
    (htag : t'.tagState.Ok t'.state.tagPhase) : Goes source t cs t' := by
  have hrank := t'.state.rank_lt
  have hextra := t'.state.extra_le
  have hadvance := advance_rest hrest
  refine ⟨if t'.reconsumeCurrentInput then left else left.tail, ?_, ?_, ?_⟩
  · rw [advance_eq]
    exact ⟨hadvance, hemit.trans h.emit, hbuffered.trans h.buffered, rfl, hsound.trans h.sound,
      TempInv.of_not_flushes (t := { t' with input := _, reconsumeCurrentInput := false }) hflush
        htemp, htag, fun ha => absurd (hamp.symm.trans ha) Bool.false_ne_true⟩
  · simp only [turns]
    omega
  · simp only [budget, held_of_not_flushes hflush]
    omega

/-- What is put in the buffer of the tag does not change its attributes. -/
theorem appendCharToTagBuffer_attributes (t : GumboTokenizerState) (x : ℤ) (b : Bool) :
    ∃ g, t.appendCharToTagBuffer x b = { t with tagState := g } ∧
      g.attributes = t.tagState.attributes := by
  obtain ⟨startPos, originalText, hpush⟩ := appendCharToTagBuffer_spec t x b
  exact ⟨_, hpush, rfl⟩

/-- A reference in a value: only the buffer of the tag changes, and the code point behind the
reference is looked at again. -/
theorem appendConsumed_spec (t : GumboTokenizerState) (r : Consumed) (b : Bool) :
    ∃ g, t.appendConsumed r b = { t with
        input := r.input
        reconsumeCurrentInput := t.reconsumeCurrentInput || r.output.first != kGumboNoChar
        tagState := g } ∧ g.attributes = t.tagState.attributes := by
  simp only [appendConsumed]
  by_cases h1 : r.output.first = kGumboNoChar
  · obtain ⟨g, hpush, hg⟩ :=
      appendCharToTagBuffer_attributes { t with input := r.input } (ch '&') b
    rw [if_neg (not_not.2 h1), hpush, h1, bne_self_eq_false, Bool.or_false]
    exact ⟨g, rfl, hg⟩
  · have hne : (r.output.first != kGumboNoChar) = true := bne_iff_ne.2 h1
    obtain ⟨g, hpush, hg⟩ :=
      appendCharToTagBuffer_attributes { t with input := r.input }.reconsume r.output.first b
    rw [if_pos h1, hpush, hne, Bool.or_true]
    split_ifs
    · obtain ⟨g', hpush', hg'⟩ := appendCharToTagBuffer_attributes
        { t with input := r.input, reconsumeCurrentInput := true, tagState := g } r.output.second b
      exact ⟨g', hpush', hg'.trans hg⟩
    · exact ⟨g, rfl, hg⟩

/-- A reference in a value: one code point, two, or the ampersand itself; then the value goes on. -/
theorem good_charRefInAttrValue (entities : List NamedCharRef) (h : LoopInv source t (c :: cs))
    (hs : t.state = .charRefInAttrValue) :
    Good source t (c :: cs) (t.handleCharRefInAttrValueState source entities) := by
  obtain ⟨hopen, hattr, hallowed⟩ : t.tagState.Ok .charRef := LoopInv.tag_of h hs
  obtain rfl : c = 38 := by simpa using h.ampersand (hs ▸ rfl)
  simp only [handleCharRefInAttrValueState]
  rw [assert_of_true hallowed]
  obtain ⟨left, hrest, hback⟩ := leftOver_consumeCharRef entities h.rest
    (allowedChar t.tagState.attrValueState).1 true
  generalize consumeCharRef _ _ _ _ _ = r at hrest hback
  obtain ⟨g, happend, hg⟩ := appendConsumed_spec t r (allowedChar t.tagState.attrValueState).2.1
  rw [happend]
  generalize t.tagState.attrValueState = s at hallowed
  have hvalue : s.tempRule = .any ∧ s.tagPhase = .value ∧ s.isCharRef = false := by
    cases s <;> first | exact ⟨rfl, rfl, rfl⟩ | exact absurd hallowed (by decide)
  obtain ⟨hrule, hphase, hamp⟩ := hvalue
  refine goes_moved h hrest rfl rfl rfl ?_ ?_ hamp ?_ ?_
  · change (if (t.reconsumeCurrentInput || r.output.first != kGumboNoChar) = true then left
      else left.tail).length < cs.length + 1
    obtain ⟨rfl, hnone⟩ | ⟨-, hlt⟩ := hback
    · rw [h.reconsume, hnone]
      exact Nat.lt_succ_self _
    · split_ifs
      · omega
      · rw [List.length_tail]
        omega
  · change s.tempRule.flushes = false
    rw [hrule]
    rfl
  · change s.tempRule.Holds _
    rw [hrule]
    trivial
  · change g.Ok s.tagPhase
    rw [hphase]
    refine ⟨?_, ?_⟩
    · rw [GumboTagState.Open, hg]
      exact hopen
    · rw [GumboTagState.HasAttr, hg]
      exact hattr

/-- Behind the closing quote another attribute or the end of the tag is expected. -/
theorem good_afterAttrValueQuoted (h : LoopInv source t (c :: cs))
    (hs : t.state = .afterAttrValueQuoted) :
    Good source t (c :: cs) (t.handleAfterAttrValueQuotedState source c) := by
  obtain ⟨hopen, hattr⟩ : t.tagState.Ok .value := LoopInv.tag_of h hs
  obtain ⟨g, hfinish, hopen', hbuffer, -⟩ := finishAttributeValue_spec source hopen hattr
  have hzero : 0 ∉ g.buffer := hbuffer ▸ List.not_mem_nil
  simp only [handleAfterAttrValueQuotedState, natCast_ne_eof, if_false, hfinish]
  split_ifs
  · exact goes_on h (by simp) h.reconsume rfl rfl trivial ⟨hopen', hzero⟩
  · exact goes_on h (by simp) h.reconsume rfl rfl trivial ⟨hopen', hzero⟩
  · exact ends_tag h (by simp) h.reconsume rfl hopen'
  · exact goes_again h (by simp) rfl rfl nofun (by rw [hs]; rfl) trivial ⟨hopen', hzero⟩

/-- Behind `/`: the tag ends, or the slash is passed over as an error. -/
theorem good_selfClosingStartTag (h : LoopInv source t (c :: cs))
    (hs : t.state = .selfClosingStartTag) :
    Good source t (c :: cs) (t.handleSelfClosingStartTagState source c) := by
  obtain ⟨hopen, hzero⟩ : t.tagState.Ok .attr := LoopInv.tag_of h hs
  simp only [handleSelfClosingStartTagState, natCast_ne_eof, if_false]
  split_ifs
  · exact ends_tag h (by simp) h.reconsume rfl hopen
  · exact goes_again h (by simp) rfl rfl nofun (by rw [hs]; rfl) trivial ⟨hopen, hzero⟩

/-! ### Comments -/

/-- **The loop of a bogus comment** stops in front of a `>` or at the end. -/
theorem bogusCommentLoop_spec (n : ℕ) (t : GumboTokenizerState) (cs : List ℕ)
    (hrest : Rest source t.input cs) (hn : cs.length < n) :
    ∃ input buffer left, bogusCommentLoop source n t = { t with input, temporaryBuffer := buffer } ∧
      Rest source input left ∧ left.length ≤ cs.length := by
  induction n generalizing t cs with
  | zero => exact absurd hn (Nat.not_lt_zero _)
  | succ n ih =>
      by_cases hgo : t.input.current ≠ ch '>' ∧ t.input.current ≠ -1
      · have hne : cs ≠ [] := by
          rintro rfl
          exact hgo.2 hrest.current
        have hlen := List.length_pos_iff.2 hne
        obtain ⟨input, buffer, left, hloop, hleft, hle⟩ := ih
          { t with
            input := next source t.input
            temporaryBuffer := t.temporaryBuffer ++
              codepointBytes (if t.input.current = 0 then 0xFFFD else t.input.current) }
          cs.tail hrest.next (by rw [List.length_tail]; omega)
        refine ⟨input, buffer, left, ?_, hleft, ?_⟩
        · rw [bogusCommentLoop]
          dsimp only
          rw [if_pos hgo]
          exact hloop
        · rw [List.length_tail] at hle
          omega
      · refine ⟨t.input, t.temporaryBuffer, cs, ?_, hrest, le_rfl⟩
        rw [bogusCommentLoop]
        exact if_neg hgo

/-- A bogus comment is read to `>` in one turn. -/
theorem good_bogusComment (h : LoopInv source t cs) (hs : t.state = .bogusComment) :
    Good source t cs (t.handleBogusCommentState source) := by
  have hnone : t.tagState.attributes = none := LoopInv.tag_of h hs
  obtain ⟨input, buffer, left, hloop, hrest, hle⟩ :=
    bogusCommentLoop_spec _ t cs h.rest (Nat.lt_succ_of_le h.rest.length_le)
  rw [handleBogusCommentState, hloop, emitComment,
    clearTemporaryBuffer_of_none (t := setState { t with input, temporaryBuffer := buffer } .data)
      h.emit]
  refine ends_waits left ⟨rfl, rfl, h.sound, hnone, h.emit, h.buffered, hrest.setMark⟩
    (fun _ _ _ heq => by cases heq) (by simp) ?_
  change 2 * (if t.reconsumeCurrentInput then left else left.tail).length < _
  have hextra : t.state.extra = 1 := hs ▸ rfl
  rw [h.reconsume, if_neg Bool.false_ne_true, List.length_tail, budget, hextra]
  omega

/-- A state of a comment in which the code point is taken. -/
theorem goes_rests {x : GumboTokenizerState} (h : LoopInv source t (c :: cs)) (hlike : Like t x)
    (hre : x.reconsumeCurrentInput = false) (hrests : x.state.rests = true)
    (hnone : x.tagState.attributes = none) : Goes source t (c :: cs) x := by
  obtain ⟨hrule, hphase, hamp⟩ := rests_iff.1 hrests
  refine goes_on h hlike hre ?_ hamp ?_ ?_
  · rw [hrule]
    rfl
  · rw [hrule]
    trivial
  · rw [hphase]
    exact hnone

/-- Several code points at the end of the temporary buffer. -/
theorem foldl_appendCharToTemporaryBuffer (xs : List ℤ) (t : GumboTokenizerState) :
    ∃ buffer, xs.foldl appendCharToTemporaryBuffer t = { t with temporaryBuffer := buffer } := by
  induction xs generalizing t with
  | nil => exact ⟨t.temporaryBuffer, rfl⟩
  | cons x xs ih =>
      obtain ⟨buffer, h⟩ := ih (t.appendCharToTemporaryBuffer x)
      exact ⟨buffer, h⟩

/-- Dashes that do not end the comment belong to it. -/
theorem good_backToComment {x : GumboTokenizerState} (h : LoopInv source t (c :: cs))
    (hlike : Like t x) (hre : x.reconsumeCurrentInput = false)
    (hnone : x.tagState.attributes = none) (xs : List ℤ) :
    Good source t (c :: cs) (x.backToComment xs) := by
  obtain ⟨buffer, hfold⟩ := foldl_appendCharToTemporaryBuffer xs (x.setState .comment)
  rw [backToComment, hfold]
  exact goes_rests h ⟨hlike.start, hlike.width, hlike.current, hlike.emit, hlike.buffered,
    hlike.sound⟩ hre rfl hnone

/-- A comment is emitted. -/
theorem good_emitComment {x : GumboTokenizerState} (b : Bool) (h : LoopInv source t (c :: cs))
    (hlike : Like t x) (hre : x.reconsumeCurrentInput = false) (hstate : x.state = .data)
    (hnone : x.tagState.attributes = none) :
    Good source t (c :: cs) (returns b (x.emitComment source)) := by
  rw [emitComment, clearTemporaryBuffer_of_none (hlike.emit.trans h.emit)]
  refine ends_on h ⟨hlike.start, hlike.width, hlike.current, hlike.emit, hlike.buffered,
    hlike.sound⟩ hre ?_ hnone (fun _ _ _ heq => by cases heq) (by simp)
  change x.state.rests = true
  rw [hstate]
  rfl

/-- In front of a comment. -/
theorem good_commentStart (h : LoopInv source t (c :: cs)) (hs : t.state = .commentStart) :
    Good source t (c :: cs) (t.handleCommentStartState source c) := by
  have hnone : t.tagState.attributes = none := LoopInv.tag_of h hs
  simp only [handleCommentStartState, natCast_ne_eof, if_false]
  split_ifs
  · exact goes_rests h (by simp) h.reconsume rfl hnone
  · exact good_backToComment (x := t.addParseError _) h (by simp) h.reconsume hnone _
  · exact good_emitComment _ h (by simp) h.reconsume rfl hnone
  · exact good_backToComment h (like_refl t) h.reconsume hnone _

/-- A comment that begins with one dash. -/
theorem good_commentStartDash (h : LoopInv source t (c :: cs)) (hs : t.state = .commentStartDash) :
    Good source t (c :: cs) (t.handleCommentStartDashState source c) := by
  have hnone : t.tagState.attributes = none := LoopInv.tag_of h hs
  simp only [handleCommentStartDashState, natCast_ne_eof, if_false]
  split_ifs
  · exact goes_rests h (by simp) h.reconsume rfl hnone
  · exact good_backToComment (x := t.addParseError _) h (by simp) h.reconsume hnone _
  · exact good_emitComment _ h (by simp) h.reconsume rfl hnone
  · exact good_backToComment h (like_refl t) h.reconsume hnone _

/-- In a comment only a dash leads elsewhere. -/
theorem good_comment (h : LoopInv source t (c :: cs)) (hs : t.state = .comment) :
    Good source t (c :: cs) (t.handleCommentState source c) := by
  have hnone : t.tagState.attributes = none := LoopInv.tag_of h hs
  have hrests : t.state.rests = true := hs ▸ rfl
  simp only [handleCommentState, natCast_ne_eof, if_false]
  split_ifs
  · exact goes_rests h (by simp) h.reconsume rfl hnone
  · exact goes_rests h (by simp) h.reconsume hrests hnone
  · exact goes_rests h (by simp) h.reconsume hrests hnone

/-- One dash in a comment. -/
theorem good_commentEndDash (h : LoopInv source t (c :: cs)) (hs : t.state = .commentEndDash) :
    Good source t (c :: cs) (t.handleCommentEndDashState source c) := by
  have hnone : t.tagState.attributes = none := LoopInv.tag_of h hs
  simp only [handleCommentEndDashState, natCast_ne_eof, if_false]
  split_ifs
  · exact goes_rests h (by simp) h.reconsume rfl hnone
  · exact good_backToComment (x := t.addParseError _) h (by simp) h.reconsume hnone _
  · exact good_backToComment h (like_refl t) h.reconsume hnone _

/-- Two dashes: the comment ends, or goes on with an error. -/
theorem good_commentEnd (h : LoopInv source t (c :: cs)) (hs : t.state = .commentEnd) :
    Good source t (c :: cs) (t.handleCommentEndState source c) := by
  have hnone : t.tagState.attributes = none := LoopInv.tag_of h hs
  simp only [handleCommentEndState, natCast_ne_eof, if_false]
  split_ifs
  · exact good_emitComment _ h (by simp) h.reconsume rfl hnone
  · exact good_backToComment (x := t.addParseError _) h (by simp) h.reconsume hnone _
  · exact goes_rests h (by simp) h.reconsume rfl hnone
  · exact goes_rests h (by simp) h.reconsume (hs ▸ rfl) hnone
  · exact good_backToComment (x := t.addParseError _) h (by simp) h.reconsume hnone _

/-- Two dashes and `!`: the comment ends with an error, or goes on. -/
theorem good_commentEndBang (h : LoopInv source t (c :: cs)) (hs : t.state = .commentEndBang) :
    Good source t (c :: cs) (t.handleCommentEndBangState source c) := by
  have hnone : t.tagState.attributes = none := LoopInv.tag_of h hs
  simp only [handleCommentEndBangState, natCast_ne_eof, if_false]
  split_ifs
  · exact goes_rests h (by simp) h.reconsume rfl hnone
  · exact good_emitComment _ h (by simp) h.reconsume rfl hnone
  · exact good_backToComment (x := t.addParseError _) h (by simp) h.reconsume hnone _
  · exact good_backToComment h (like_refl t) h.reconsume hnone _

/-! ### What is matched as a whole -/

/-- The iterator has gone behind what has been matched. -/
theorem length_drop_lt {pre : Bytes} (hne : cs ≠ []) (hpre : pre ≠ []) :
    (cs.drop pre.length).length < cs.length := by
  have hcs := List.length_pos_iff.2 hne
  have hlen := List.length_pos_iff.2 hpre
  rw [List.length_drop]
  omega

/-- Behind `<!`: a comment, a document type, a CDATA section, or a bogus comment. -/
theorem good_markupDeclaration (h : LoopInv source t cs) (hs : t.state = .markupDeclaration) :
    Good source t cs (t.handleMarkupDeclarationState source) := by
  have hnone : t.tagState.attributes = none := LoopInv.tag_of h hs
  have hempty : t.temporaryBuffer = [] := LoopInv.temp_of h hs
  have hdashes : str "--" ≠ [] := by decide
  have hdoctype : str "DOCTYPE" ≠ [] := by decide
  have hcdata : str "[CDATA[" ≠ [] := by decide
  simp only [handleMarkupDeclarationState]
  split_ifs with h1 h2 h3
  · obtain ⟨hne, hrest⟩ := h.rest.match_true hdashes h1
    exact goes_moved h hrest rfl rfl rfl (length_drop_lt hne hdashes) rfl rfl trivial hnone
  · obtain ⟨hne, hrest⟩ := h.rest.match_true hdoctype h2
    exact goes_moved h hrest rfl rfl rfl (length_drop_lt hne hdoctype) rfl rfl hempty hnone
  · obtain ⟨hne, hrest⟩ := h.rest.match_true hcdata (Bool.and_eq_true_iff.1 h3).2
    exact goes_moved h hrest rfl rfl rfl (length_drop_lt hne hcdata) rfl rfl trivial hnone
  · rw [clearTemporaryBuffer_of_none
      (t := ((t.addParseError .dashesOrDoctype).setState .bogusComment).reconsume) h.emit]
    exact goes_again h (by simp) rfl rfl nofun (by rw [hs]; rfl) trivial hnone

/-- A CDATA section gives its code points until `]]>` is found. -/
theorem good_cdata (h : LoopInv source t (c :: cs)) (hs : t.state = .cdata) :
    Good source t (c :: cs) (t.handleCdataState source c) := by
  have hnone : t.tagState.attributes = none := LoopInv.tag_of h hs
  have hclose : str "]]>" ≠ [] := by decide
  simp only [handleCdataState, natCast_ne_eof, if_false]
  split_ifs with h1
  · obtain ⟨hne, hrest⟩ := h.rest.match_true hclose h1
    exact goes_moved h hrest rfl rfl rfl (length_drop_lt hne hclose) rfl rfl trivial hnone
  · exact good_emitCurrentChar h (like_refl t) h.reconsume (hs ▸ rfl) hnone

/-! ### Document types -/

/-- The document type of the token is begun anew. -/
theorem ends_emitDoctype (h : Ends source t cs (t'.finishToken source (.docType t'.docTypeState)).1
      (some (t'.finishToken source (.docType t'.docTypeState)).2)) :
    Ends source t cs (t'.emitDoctype source).1 (some (t'.emitDoctype source).2) := by
  obtain ⟨cs', token, hout, hb, hok, hbudget⟩ := h
  exact ⟨cs', token, hout, ⟨hb.rests, hb.reconsume, hb.sound, hb.tag, hb.rest⟩, hok, hbudget⟩

/-- A document type has no attributes to check. -/
theorem docType_ok {lastTag : GumboTag} (d : GumboTokenDocType) :
    (GumboTokenValue.docType d).Ok lastTag :=
  fun _ _ _ heq => by cases heq

/-- A document type is emitted. -/
theorem good_emitDoctype {x : GumboTokenizerState} (b : Bool) (h : LoopInv source t (c :: cs))
    (hlike : Like t x) (hre : x.reconsumeCurrentInput = false) (hrests : x.state.rests = true)
    (hnone : x.tagState.attributes = none) :
    Good source t (c :: cs) (returns b (x.emitDoctype source)) :=
  ends_emitDoctype (ends_on h hlike hre hrests hnone (docType_ok _) (by simp))

/-- A state of a document type with an empty temporary buffer. -/
theorem goes_empty {x : GumboTokenizerState} (h : LoopInv source t (c :: cs)) (hlike : Like t x)
    (hre : x.reconsumeCurrentInput = false) (hrule : x.state.tempRule = .empty)
    (hphase : x.state.tagPhase = .none) (hamp : x.state.isCharRef = false)
    (hempty : x.temporaryBuffer = []) (hnone : x.tagState.attributes = none) :
    Goes source t (c :: cs) x := by
  refine goes_on h hlike hre ?_ hamp ?_ ?_
  · rw [hrule]
    rfl
  · rw [hrule]
    exact hempty
  · rw [hphase]
    exact hnone

/-- Behind the keyword a blank is expected. -/
theorem good_doctype (h : LoopInv source t (c :: cs)) (hs : t.state = .doctype) :
    Good source t (c :: cs) (t.handleDoctypeState source c) := by
  have hnone : t.tagState.attributes = none := LoopInv.tag_of h hs
  have hempty : t.temporaryBuffer = [] := LoopInv.temp_of h hs
  simp only [handleDoctypeState, natCast_ne_eof, if_false]
  rw [assert_of_true (by rw [hempty]; rfl)]
  split_ifs
  · exact goes_empty h (by simp) h.reconsume rfl rfl rfl hempty hnone
  · exact goes_again h (by simp) rfl rfl nofun (by rw [hs]; rfl) hempty hnone

/-- In front of the name of a document type. -/
theorem good_beforeDoctypeName (h : LoopInv source t (c :: cs))
    (hs : t.state = .beforeDoctypeName) :
    Good source t (c :: cs) (t.handleBeforeDoctypeNameState source c) := by
  have hnone : t.tagState.attributes = none := LoopInv.tag_of h hs
  simp only [handleBeforeDoctypeNameState, natCast_ne_eof, if_false]
  split_ifs
  · exact goes_on h (like_refl t) h.reconsume (hs ▸ rfl) (hs ▸ rfl) h.temp.holds h.tag
  · exact goes_rests h (by simp) h.reconsume rfl hnone
  · exact good_emitDoctype _ h (by simp) h.reconsume rfl hnone
  · exact goes_rests h (by simp) h.reconsume rfl hnone

/-- The name is taken from the temporary buffer, which is cleared. -/
theorem finishDoctypeName_of_none (h : t.temporaryBufferEmit = none) :
    t.finishDoctypeName = { t with
      input := t.input.setMark, temporaryBuffer := [], scriptDataBuffer := []
      docTypeState := { t.docTypeState with name := some t.temporaryBuffer } } := by
  rw [finishDoctypeName, clearTemporaryBuffer_of_none h]

/-- In the name, which is put in lower case. -/
theorem good_doctypeName (h : LoopInv source t (c :: cs)) (hs : t.state = .doctypeName) :
    Good source t (c :: cs) (t.handleDoctypeNameState source c) := by
  have hnone : t.tagState.attributes = none := LoopInv.tag_of h hs
  simp only [handleDoctypeNameState, natCast_ne_eof, if_false]
  split_ifs
  · rw [finishDoctypeName_of_none (t := t.setState .afterDoctypeName) h.emit]
    exact goes_empty h (by simp) h.reconsume rfl rfl rfl rfl hnone
  · rw [finishDoctypeName_of_none (t := t.setState .data) h.emit]
    exact good_emitDoctype _ h (by simp) h.reconsume rfl hnone
  · exact goes_rests h (by simp) h.reconsume (hs ▸ rfl) hnone
  · exact goes_rests h (by simp) h.reconsume rfl hnone

/-- An error after which the rest of a document type is passed over. -/
theorem good_toBogusDoctype (h : LoopInv source t (c :: cs)) (hnone : t.tagState.attributes = none)
    (type : GumboErrorType) : Good source t (c :: cs) (t.toBogusDoctype type) :=
  goes_rests h (by simp) h.reconsume rfl hnone

/-- An error with which a document type is returned, with quirks. -/
theorem good_doctypeError (h : LoopInv source t (c :: cs)) (hnone : t.tagState.attributes = none)
    (type : GumboErrorType) (hrests : s.rests = true) :
    Good source t (c :: cs) (t.doctypeError source type s) :=
  good_emitDoctype _ h (by simp) h.reconsume hrests hnone

/-- Behind the name: the end, or one of the keywords `PUBLIC` and `SYSTEM`. -/
theorem good_afterDoctypeName (h : LoopInv source t (c :: cs)) (hs : t.state = .afterDoctypeName) :
    Good source t (c :: cs) (t.handleAfterDoctypeNameState source c) := by
  have hnone : t.tagState.attributes = none := LoopInv.tag_of h hs
  have hempty : t.temporaryBuffer = [] := LoopInv.temp_of h hs
  have hpublic : str "PUBLIC" ≠ [] := by decide
  have hsystem : str "SYSTEM" ≠ [] := by decide
  simp only [handleAfterDoctypeNameState, natCast_ne_eof, if_false]
  split_ifs with h1 h2 h3 h4
  · exact goes_on h (like_refl t) h.reconsume (hs ▸ rfl) (hs ▸ rfl) h.temp.holds h.tag
  · exact good_emitDoctype _ h (by simp) h.reconsume rfl hnone
  · obtain ⟨hne, hrest⟩ := h.rest.match_true hpublic h3
    exact goes_moved h hrest rfl rfl rfl (length_drop_lt hne hpublic) rfl rfl hempty hnone
  · obtain ⟨hne, hrest⟩ := h.rest.match_true hsystem h4
    exact goes_moved h hrest rfl rfl rfl (length_drop_lt hne hsystem) rfl rfl hempty hnone
  · exact good_toBogusDoctype h hnone _

/-- An identifier is begun. -/
theorem good_beginId {x : GumboTokenizerState} (h : LoopInv source t (c :: cs)) (hlike : Like t x)
    (hre : x.reconsumeCurrentInput = false) (hempty : x.temporaryBuffer = [])
    (hnone : x.tagState.attributes = none) (hrests : s.rests = true) :
    Good source t (c :: cs) (.nextChar (x.beginId s)) := by
  rw [beginId, assert_of_true (by rw [temporaryBufferEquals, hempty]; rfl)]
  exact goes_rests h ⟨hlike.start, hlike.width, hlike.current, hlike.emit, hlike.buffered,
    hlike.sound⟩ hre hrests hnone

/-- Behind `PUBLIC` a blank is expected; a quote begins the identifier all the same. -/
theorem good_afterDoctypePublicKeyword (h : LoopInv source t (c :: cs))
    (hs : t.state = .afterDoctypePublicKeyword) :
    Good source t (c :: cs) (t.handleAfterDoctypePublicKeywordState source c) := by
  have hnone : t.tagState.attributes = none := LoopInv.tag_of h hs
  have hempty : t.temporaryBuffer = [] := LoopInv.temp_of h hs
  simp only [handleAfterDoctypePublicKeywordState, natCast_ne_eof, if_false]
  split_ifs
  · exact goes_empty h (by simp) h.reconsume rfl rfl rfl hempty hnone
  · exact good_beginId h (by simp) h.reconsume hempty hnone rfl
  · exact good_beginId h (by simp) h.reconsume hempty hnone rfl
  · exact good_doctypeError h hnone _ rfl
  · exact good_doctypeError h hnone _ rfl

/-- In front of the public identifier. -/
theorem good_beforeDoctypePublicId (h : LoopInv source t (c :: cs))
    (hs : t.state = .beforeDoctypePublicId) :
    Good source t (c :: cs) (t.handleBeforeDoctypePublicIdState source c) := by
  have hnone : t.tagState.attributes = none := LoopInv.tag_of h hs
  have hempty : t.temporaryBuffer = [] := LoopInv.temp_of h hs
  simp only [handleBeforeDoctypePublicIdState, natCast_ne_eof, if_false]
  split_ifs
  · exact goes_on h (like_refl t) h.reconsume (hs ▸ rfl) (hs ▸ rfl) h.temp.holds h.tag
  · exact good_beginId h (like_refl t) h.reconsume hempty hnone rfl
  · exact good_beginId h (like_refl t) h.reconsume hempty hnone rfl
  · exact good_doctypeError h hnone _ rfl
  · exact good_doctypeError h hnone _ rfl

/-- What the function that takes over an identifier leaves as it is. -/
def FinishesId (finishId : GumboTokenizerState → GumboTokenizerState) : Prop :=
  ∀ t : GumboTokenizerState, t.temporaryBufferEmit = none → ∃ docTypeState, finishId t =
    { t with
      input := t.input.setMark, temporaryBuffer := [], scriptDataBuffer := [], docTypeState }

/-- The public identifier is taken from the temporary buffer. -/
theorem finishesId_public : FinishesId finishDoctypePublicId := fun t h => by
  rw [finishDoctypePublicId, clearTemporaryBuffer_of_none h]
  exact ⟨_, rfl⟩

/-- The system identifier is taken from the temporary buffer. -/
theorem finishesId_system : FinishesId finishDoctypeSystemId := fun t h => by
  rw [finishDoctypeSystemId, clearTemporaryBuffer_of_none h]
  exact ⟨_, rfl⟩

/-- The four states of a quoted identifier. -/
theorem good_doctypeIdQuoted {finishId : GumboTokenizerState → GumboTokenizerState}
    {after : GumboTokenizerEnum} (h : LoopInv source t (c :: cs)) (hrests : t.state.rests = true)
    (hfinish : FinishesId finishId) (hflush : after.tempRule.flushes = false)
    (hholds : after.tempRule.Holds []) (hphase : after.tagPhase = .none)
    (hamp : after.isCharRef = false) (quote : ℤ) (eof : GumboErrorType) :
    Good source t (c :: cs) (t.handleDoctypeIdQuoted source c quote after finishId eof) := by
  have hnone : t.tagState.attributes = none := by
    have htag := h.tag
    rwa [(rests_iff.1 hrests).2.1] at htag
  simp only [handleDoctypeIdQuoted, natCast_ne_eof, if_false]
  split_ifs
  · obtain ⟨d, hd⟩ := hfinish (t.setState after) h.emit
    rw [hd]
    refine goes_on h (by simp) h.reconsume hflush hamp hholds ?_
    change GumboTagState.Ok _ after.tagPhase
    rw [hphase]
    exact hnone
  · exact goes_rests h (by simp) h.reconsume hrests hnone
  · obtain ⟨d, hd⟩ :=
      hfinish (((t.addParseError .doctypeEnd).setState .data).forceQuirks true) h.emit
    rw [hd]
    exact good_emitDoctype _ h (by simp) h.reconsume rfl hnone
  · exact goes_rests h (by simp) h.reconsume hrests hnone

/-- Behind the public identifier: the end, or the system identifier. -/
theorem good_afterDoctypePublicId (h : LoopInv source t (c :: cs))
    (hs : t.state = .afterDoctypePublicId) :
    Good source t (c :: cs) (t.handleAfterDoctypePublicIdState source c) := by
  have hnone : t.tagState.attributes = none := LoopInv.tag_of h hs
  have hempty : t.temporaryBuffer = [] := LoopInv.temp_of h hs
  simp only [handleAfterDoctypePublicIdState, natCast_ne_eof, if_false]
  split_ifs
  · exact goes_empty h (by simp) h.reconsume rfl rfl rfl hempty hnone
  · exact good_emitDoctype _ h (by simp) h.reconsume rfl hnone
  · exact good_beginId h (by simp) h.reconsume hempty hnone rfl
  · exact good_beginId h (by simp) h.reconsume hempty hnone rfl
  · exact good_toBogusDoctype h hnone _

/-- Behind the blanks between the identifiers. -/
theorem good_betweenDoctypePublicSystemId (h : LoopInv source t (c :: cs))
    (hs : t.state = .betweenDoctypePublicSystemId) :
    Good source t (c :: cs) (t.handleBetweenDoctypePublicSystemIdState source c) := by
  have hnone : t.tagState.attributes = none := LoopInv.tag_of h hs
  have hempty : t.temporaryBuffer = [] := LoopInv.temp_of h hs
  simp only [handleBetweenDoctypePublicSystemIdState, natCast_ne_eof, if_false]
  split_ifs
  · exact goes_on h (like_refl t) h.reconsume (hs ▸ rfl) (hs ▸ rfl) h.temp.holds h.tag
  · exact good_emitDoctype _ h (by simp) h.reconsume rfl hnone
  · exact good_beginId h (like_refl t) h.reconsume hempty hnone rfl
  · exact good_beginId h (like_refl t) h.reconsume hempty hnone rfl
  · exact good_doctypeError h hnone _ rfl

/-- Behind `SYSTEM` a blank is expected; a quote begins the identifier all the same. -/
theorem good_afterDoctypeSystemKeyword (h : LoopInv source t (c :: cs))
    (hs : t.state = .afterDoctypeSystemKeyword) :
    Good source t (c :: cs) (t.handleAfterDoctypeSystemKeywordState source c) := by
  have hnone : t.tagState.attributes = none := LoopInv.tag_of h hs
  have hempty : t.temporaryBuffer = [] := LoopInv.temp_of h hs
  simp only [handleAfterDoctypeSystemKeywordState, natCast_ne_eof, if_false]
  split_ifs
  · exact goes_empty h (by simp) h.reconsume rfl rfl rfl hempty hnone
  · exact good_beginId h (by simp) h.reconsume hempty hnone rfl
  · exact good_beginId h (by simp) h.reconsume hempty hnone rfl
  · exact good_doctypeError h hnone _ rfl
  · exact good_toBogusDoctype h hnone _

/-- In front of the system identifier. -/
theorem good_beforeDoctypeSystemId (h : LoopInv source t (c :: cs))
    (hs : t.state = .beforeDoctypeSystemId) :
    Good source t (c :: cs) (t.handleBeforeDoctypeSystemIdState source c) := by
  have hnone : t.tagState.attributes = none := LoopInv.tag_of h hs
  have hempty : t.temporaryBuffer = [] := LoopInv.temp_of h hs
  simp only [handleBeforeDoctypeSystemIdState, natCast_ne_eof, if_false]
  split_ifs
  · exact goes_on h (like_refl t) h.reconsume (hs ▸ rfl) (hs ▸ rfl) h.temp.holds h.tag
  · exact good_beginId h (like_refl t) h.reconsume hempty hnone rfl
  · exact good_beginId h (like_refl t) h.reconsume hempty hnone rfl
  · exact good_doctypeError h hnone _ rfl
  · exact good_toBogusDoctype h hnone _

/-- Behind the system identifier only the end is expected. -/
theorem good_afterDoctypeSystemId (h : LoopInv source t (c :: cs))
    (hs : t.state = .afterDoctypeSystemId) :
    Good source t (c :: cs) (t.handleAfterDoctypeSystemIdState source c) := by
  have hnone : t.tagState.attributes = none := LoopInv.tag_of h hs
  simp only [handleAfterDoctypeSystemIdState, natCast_ne_eof, if_false]
  split_ifs
  · exact goes_rests h (like_refl t) h.reconsume (hs ▸ rfl) hnone
  · exact good_emitDoctype _ h (by simp) h.reconsume rfl hnone
  · exact goes_rests h (by simp) h.reconsume rfl hnone

/-- A bogus document type is passed over up to its end. -/
theorem good_bogusDoctype (h : LoopInv source t (c :: cs)) (hs : t.state = .bogusDoctype) :
    Good source t (c :: cs) (t.handleBogusDoctypeState source c) := by
  have hnone : t.tagState.attributes = none := LoopInv.tag_of h hs
  simp only [handleBogusDoctypeState, natCast_ne_eof, or_false]
  split_ifs
  · exact good_emitDoctype _ h (by simp) h.reconsume rfl hnone
  · exact goes_rests h (like_refl t) h.reconsume (hs ▸ rfl) hnone

end GumboTokenizerState
end Gumbo
end Scaner
