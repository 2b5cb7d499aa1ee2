/-
# The tokens of a document

`gumbo_parse_with_options` calls `gumbo_lex` until it gives the token for the end of the document
(`html_parser/parser.cpp`).  Between two calls the tree construction sets whether the current node
is foreign, and behind some start tags it puts the tokenizer into the state that the tag asks for;
what else it does with the tokens is left open (`TreeConstruction`).  The rounds in which it
processes one token are taken together, so that they are taken to end, and
`stop_on_first_error` is not set, as in the default options.  The two assertions of the loop, on
`loop_count` and on the attributes that a node has taken over, are left out.

For every document and every such tree construction the loop comes to its end, and the end of the
document is the last token and the only one of its kind (`gumboParse_init_returns`).  No start tag
has an attribute twice (`gumboParse_attributes_nodup`).
-/

import Scaner.Gumbo.Lex

namespace Scaner
namespace Gumbo

open Bytes Utf8 Utf8Iterator GumboTokenizerState

/-- The state that the tree construction sets behind a start tag, if it opens an element for it
(`run_generic_parsing_algorithm`, and the case of `plaintext`). -/
def lexerState : GumboTag → Option GumboTokenizerEnum
  | .title | .textarea => some .rcdata
  | .noframes | .style | .xmp | .iframe | .noembed => some .rawtext
  | .script => some .script
  | .plaintext => some .plaintext
  | _ => none

/-- The tree construction, as the tokenizer sees it: whether the current node is foreign, and
`handle_token` until the token has been processed (`_reprocess_current_token` is no longer set),
with whether an element with a state of its own has been opened. -/
structure TreeConstruction (σ : Type*) where
  isCurrentNodeForeign : σ → Bool
  handleToken : σ → GumboToken → σ × Bool

/-- A token, and whether the tree construction has opened an element with a state of its own. -/
structure Processed where
  token : GumboToken
  opened : Bool
  deriving DecidableEq

/-- `gumbo_tokenizer_set_state`, if the tree construction calls it for the token. -/
def setLexerState (t : GumboTokenizerState) : GumboTokenValue → Bool → GumboTokenizerState
  | .startTag tag _ _, true => ((lexerState tag).map t.setState).getD t
  | _, _ => t

section Parse

variable {σ : Type*} (source : Bytes) (entities : List NamedCharRef) (tree : TreeConstruction σ)

/-- The loop of `gumbo_parse_with_options`, with a bound on the calls of `gumbo_lex`: the tokens,
and what it leaves.  `stop_on_first_error` is not set. -/
def gumboParse : ℕ → σ → GumboTokenizerState → Option (List Processed × σ × GumboTokenizerState)
  | 0, _, _ => none
  | n + 1, parser, t =>
      match gumboLex source entities (4 * source.length + 4)
        { t with isCurrentNodeForeign := tree.isCurrentNodeForeign parser } with
      | some ⟨_, t, some token⟩ =>
          let r := tree.handleToken parser token
          let t := setLexerState t token.v r.2
          if token.v = .eof then some ([⟨token, r.2⟩], r.1, t)
          else (gumboParse n r.1 t).map fun rest => (⟨token, r.2⟩ :: rest.1, rest.2)
      | _ => none

end Parse

/-! ### Between the calls -/

section Runs

variable {σ : Type*} {source : Bytes} {t : GumboTokenizerState} {cs : List ℕ}

/-- At the start the tokenizer is ready, with the whole document left. -/
theorem between_init (source : Bytes) : Between source (.init source) (decode source) :=
  ⟨rfl, rfl, rfl, rfl, .inl ⟨rfl, rest_init source⟩⟩

/-- The parser sets states only in which the tokenizer can wait. -/
theorem rests_of_lexerState {tag : GumboTag} {s : GumboTokenizerEnum}
    (h : lexerState tag = some s) : s.rests = true ∧ s.extra = 0 := by
  unfold lexerState at h
  split at h <;> cases h <;> exact ⟨rfl, rfl⟩

/-- The tokenizer is left as it is, or put into a state in which it can wait. -/
theorem setLexerState_cases (t : GumboTokenizerState) (v : GumboTokenValue) (opened : Bool) :
    setLexerState t v opened = t ∨
      ∃ s : GumboTokenizerEnum, s.rests = true ∧ s.extra = 0 ∧
        setLexerState t v opened = t.setState s := by
  unfold setLexerState
  split
  case h_1 tag _ _ =>
    cases hs : lexerState tag with
    | none => exact .inl rfl
    | some s => exact .inr ⟨s, (rests_of_lexerState hs).1, (rests_of_lexerState hs).2, rfl⟩
  case h_2 => exact .inl rfl

/-- Setting a state for the text of an element leaves the tokenizer ready. -/
theorem between_setLexerState (h : Between source t cs) (v : GumboTokenValue) (opened : Bool) :
    Between source (setLexerState t v opened) cs := by
  obtain heq | ⟨s, hrests, -, heq⟩ := setLexerState_cases t v opened
  · rwa [heq]
  · rw [heq]
    exact ⟨hrests, h.reconsume, h.sound, h.tag, h.rest⟩

/-- Setting a state adds no token. -/
theorem pending_setLexerState_le (t : GumboTokenizerState) (v : GumboTokenValue) (opened : Bool)
    (n : ℕ) : (setLexerState t v opened).pending n ≤ t.pending n := by
  obtain heq | ⟨s, -, hextra, heq⟩ := setLexerState_cases t v opened
  · rw [heq]
  · rw [heq]
    change 2 * n + s.extra + (if t.bufferedEmitChar = kGumboNoChar then 0 else 1) +
      (t.temporaryBufferEmit.map fun k => t.temporaryBuffer.length - k).getD 0 ≤ _
    rw [hextra, pending]
    omega

/-- Setting a state moves nothing in the document. -/
theorem setLexerState_input (t : GumboTokenizerState) (v : GumboTokenValue) (opened : Bool) :
    (setLexerState t v opened).input = t.input ∧
      (setLexerState t v opened).tagState = t.tagState := by
  obtain heq | ⟨s, -, -, heq⟩ := setLexerState_cases t v opened <;> rw [heq] <;> exact ⟨rfl, rfl⟩

/-- **A call of `gumbo_lex` in the loop**: the token, and what holds in front of the next call. -/
theorem gumboParse_succ (entities : List NamedCharRef) (tree : TreeConstruction σ) (n : ℕ)
    (parser : σ) (h : Between source t cs) :
    ∃ success t₁ token cs', gumboLex source entities (4 * source.length + 4)
        { t with isCurrentNodeForeign := tree.isCurrentNodeForeign parser } =
          some ⟨success, t₁, some token⟩ ∧
      let r := tree.handleToken parser token
      let t' := setLexerState t₁ token.v r.2
      gumboParse source entities tree (n + 1) parser t =
        (if token.v = .eof then some ([⟨token, r.2⟩], r.1, t')
        else (gumboParse source entities tree n r.1 t').map
          fun rest => (⟨token, r.2⟩ :: rest.1, rest.2)) ∧
      Between source t' cs' ∧ token.v.Ok t'.tagState.lastStartTag ∧
      (token.v = .eof ∧ t'.input.current = -1 ∨
        token.v ≠ .eof ∧ t'.pending cs'.length < t.pending cs.length) := by
  obtain ⟨⟨success, t₁, output⟩, hlex, cs₁, token, hout, hbetween, hok, hnext⟩ :=
    gumboLex_returned (t := { t with
      isCurrentNodeForeign := tree.isCurrentNodeForeign parser }) entities
      ⟨h.rests, h.reconsume, h.sound, h.tag, h.rest⟩
  obtain rfl : output = some token := hout
  obtain ⟨hinput, htag⟩ := setLexerState_input t₁ token.v (tree.handleToken parser token).2
  refine ⟨success, t₁, token, cs₁, hlex, ?_, between_setLexerState hbetween _ _, ?_,
    hnext.imp ?_ ?_⟩
  · rw [gumboParse, hlex]
  · rwa [htag]
  · rintro ⟨heof, hrest⟩
    rw [hinput]
    exact ⟨heof, hrest.current⟩
  · rintro ⟨hne, hlt⟩
    exact ⟨hne, (pending_setLexerState_le t₁ _ _ _).trans_lt hlt⟩

/-- What a run leaves: the token for the end stands behind all others, the document has been read,
and no assertion has failed. -/
structure Tokenized (tokens : List Processed) (t : GumboTokenizerState) : Prop where
  sound : t.sound = true
  read : t.input.current = -1
  ok : ∀ x ∈ tokens, ∃ lastTag, x.token.v.Ok lastTag
  ends : ∃ body last, tokens = body ++ [last] ∧ last.token.v = .eof ∧
    ∀ x ∈ body, x.token.v ≠ .eof

/-- The token for the end, alone. -/
theorem Tokenized.single {x : Processed} {lastTag : GumboTag} (hsound : t.sound = true)
    (hread : t.input.current = -1) (hok : x.token.v.Ok lastTag) (heof : x.token.v = .eof) :
    Tokenized [x] t :=
  ⟨hsound, hread, fun _ hx => ⟨lastTag, List.mem_singleton.1 hx ▸ hok⟩, [], x, rfl, heof,
    List.forall_mem_nil _⟩

/-- One more token in front. -/
theorem Tokenized.cons {x : Processed} {tokens : List Processed} {lastTag : GumboTag}
    (h : Tokenized tokens t) (hok : x.token.v.Ok lastTag) (hne : x.token.v ≠ .eof) :
    Tokenized (x :: tokens) t := by
  obtain ⟨body, last, rfl, heof, hbody⟩ := h.ends
  exact ⟨h.sound, h.read, List.forall_mem_cons.2 ⟨⟨lastTag, hok⟩, h.ok⟩, x :: body, last, rfl, heof,
    List.forall_mem_cons.2 ⟨hne, hbody⟩⟩

/-- The number of tokens that can still be returned falls with each call. -/
theorem gumboParse_returns (entities : List NamedCharRef) (tree : TreeConstruction σ) (n : ℕ)
    (parser : σ) (h : Between source t cs) (hn : t.pending cs.length < n) :
    ∃ tokens parser' t', gumboParse source entities tree n parser t = some (tokens, parser', t') ∧
      tokens.length ≤ t.pending cs.length + 1 := by
  induction n generalizing parser t cs with
  | zero => exact absurd hn (Nat.not_lt_zero _)
  | succ n ih =>
      obtain ⟨-, t₁, token, cs₁, -, hparse, hbetween, -, hnext⟩ :=
        gumboParse_succ entities tree n parser h
      rw [hparse]
      obtain ⟨heof, -⟩ | ⟨hne, hlt⟩ := hnext
      · rw [if_pos heof]
        refine ⟨[⟨token, (tree.handleToken parser token).2⟩], _, _, rfl, ?_⟩
        rw [List.length_singleton]
        omega
      · obtain ⟨tokens, parser', t', hrest, hlen⟩ :=
          ih (tree.handleToken parser token).1 hbetween (by omega)
        rw [if_neg hne, hrest]
        refine ⟨⟨token, (tree.handleToken parser token).2⟩ :: tokens, parser', t', rfl, ?_⟩
        rw [List.length_cons]
        omega

/-- **What every run leaves.** -/
theorem gumboParse_tokenized (entities : List NamedCharRef) (tree : TreeConstruction σ) {n : ℕ}
    {parser parser' : σ} {tokens : List Processed} {t' : GumboTokenizerState}
    (h : Between source t cs)
    (hparse : gumboParse source entities tree n parser t = some (tokens, parser', t')) :
    Tokenized tokens t' := by
  induction n generalizing parser t cs tokens with
  | zero => cases hparse
  | succ n ih =>
      obtain ⟨-, t₁, token, cs₁, -, hstep, hbetween, hok, hnext⟩ :=
        gumboParse_succ entities tree n parser h
      rw [hstep] at hparse
      obtain ⟨heof, hread⟩ | ⟨hne, -⟩ := hnext
      · rw [if_pos heof] at hparse
        cases hparse
        exact .single hbetween.sound hread hok heof
      · rw [if_neg hne] at hparse
        obtain ⟨⟨rest, parser₂, t₂⟩, hrest, heq⟩ := Option.map_eq_some_iff.1 hparse
        cases heq
        exact (ih hbetween hrest).cons hok hne

/-- At the start each code point gives at most two tokens. -/
theorem pending_init (source : Bytes) (n : ℕ) :
    (GumboTokenizerState.init source).pending n = 2 * n := rfl

/-- **Every document comes to its end**: the loop of `gumbo_parse_with_options` is left after at
most two calls of `gumbo_lex` for each code point, and one more. -/
theorem gumboParse_init_returns (source : Bytes) (entities : List NamedCharRef)
    (tree : TreeConstruction σ) (parser : σ) :
    ∃ tokens parser' t',
      gumboParse source entities tree (2 * (decode source).length + 1) parser (.init source) =
        some (tokens, parser', t') ∧ t'.sound = true ∧ t'.input.current = -1 ∧
      ∃ body last, tokens = body ++ [last] ∧ last.token.v = .eof ∧
        (∀ x ∈ body, x.token.v ≠ .eof) ∧ body.length ≤ 2 * (decode source).length := by
  obtain ⟨tokens, parser', t', hparse, hlen⟩ := gumboParse_returns entities tree
    (2 * (decode source).length + 1) parser (between_init source)
    (by rw [pending_init]; exact Nat.lt_succ_self _)
  have htokens := gumboParse_tokenized entities tree (between_init source) hparse
  obtain ⟨body, last, rfl, heof, hbody⟩ := htokens.ends
  refine ⟨_, parser', t', hparse, htokens.sound, htokens.read, body, last, rfl, heof, hbody, ?_⟩
  rw [pending_init, List.length_append, List.length_singleton] at hlen
  omega

/-- A tree construction that opens no element. -/
def TreeConstruction.idle : TreeConstruction Unit where
  isCurrentNodeForeign _ := false
  handleToken _ _ := ((), false)

-- the original text of a tag need not end with its `>`: of the carriage return of three bytes
-- behind the tag one byte has been passed over when the token is finished
example : ((gumboParse (str "<a>" ++ [0xE0, 0x80, 0x8D, lf]) [] .idle 3 ()
    (.init (str "<a>" ++ [0xE0, 0x80, 0x8D, lf]))).map fun r =>
      r.1.head?.map fun x => (x.token.v, x.token.originalText)) =
    some (some (.startTag .a [] false, ⟨0, 4⟩)) := by
  decide +kernel

/-- **No start tag has an attribute twice**, in any run. -/
theorem gumboParse_attributes_nodup {entities : List NamedCharRef} {tree : TreeConstruction σ}
    {n : ℕ} {parser parser' : σ} {tokens : List Processed} {t' : GumboTokenizerState}
    (hparse : gumboParse source entities tree n parser (.init source) =
      some (tokens, parser', t')) {x : Processed} (hx : x ∈ tokens) {tag : GumboTag}
    {attributes : List GumboAttribute} {isSelfClosing : Bool}
    (hv : x.token.v = .startTag tag attributes isSelfClosing) :
    (attributes.map GumboAttribute.name).Nodup := by
  obtain ⟨lastTag, hok⟩ := (gumboParse_tokenized entities tree (between_init source) hparse).ok x hx
  exact (hok tag attributes isSelfClosing hv).1

/-- A start tag with the attribute `b` twice and the attribute `c`. -/
def repeated : Bytes := str "<a b=1 b=2 c>"

/-- The attributes in its token. -/
def repeatedAttributes : List GumboAttribute :=
  [⟨str "b", ⟨3, 1⟩, str "1", ⟨5, 1⟩, ⟨1, 4, 3⟩, ⟨1, 5, 4⟩, some ⟨1, 6, 5⟩, some ⟨1, 7, 6⟩⟩,
   ⟨str "c", ⟨11, 1⟩, [], ⟨11, 1⟩, ⟨1, 12, 11⟩, ⟨1, 13, 12⟩, none, none⟩]

/-- An attribute that stands in a tag twice is returned once. -/
theorem gumboParse_attributes_nodup_repeated :
    ∃ x post t', gumboParse repeated [] .idle 2 () (.init repeated) = some (x :: post, (), t') ∧
      x.token.v = .startTag .a repeatedAttributes false ∧
      (repeatedAttributes.map GumboAttribute.name).Nodup := by
  have hrun : (gumboParse repeated [] .idle 2 () (.init repeated)).map
      (fun r => r.1.map fun x => x.token.v) =
        some [.startTag .a repeatedAttributes false, .eof] := by decide +kernel
  obtain ⟨⟨tokens, parser, t'⟩, hparse, htokens⟩ := Option.map_eq_some_iff.1 hrun
  obtain ⟨x, post, rfl, hv, -⟩ := List.map_eq_cons_iff.1 htokens
  exact ⟨x, post, t', hparse, hv, gumboParse_attributes_nodup hparse List.mem_cons_self hv⟩

end Runs

end Gumbo
end Scaner
