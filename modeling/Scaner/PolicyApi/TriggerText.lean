/-
# Triggers read back from their text

`divil_trigger`, `format_trigger` and `hit_trigger` of `policy_api::trigger_base` in
`scaner_test/policy_work.cpp`: whether the tokens of a trigger are those of the text that
`format_trigger` makes of them.

`divil_trigger` reads the pieces of the text between the occurrences of `||`
(`divilTrigger_snd`).  `||` overlaps with itself, so a token that ends with a bar does not
stand in front of it unharmed: `A|` is written `A|||`, which is read as `A` and `|`.  No
piece but the last can end with a bar.  It is one of three things (`last_cases`): closed
by the `||` behind it, a single bar, which is read back where nothing follows it, or
dangling, which is not read back at all.
-/

import Scaner.Lib.Cut
import Scaner.PolicyApi.Trigger

namespace Scaner
namespace PolicyApi

open Bytes

/-- The byte `|`. -/
abbrev bar : UInt8 := 124

/-- The texts between the occurrences of `||`. -/
def pieces (s : Bytes) : List Bytes := cut [bar, bar] s

/-- The tokens that `divil_trigger` reads, from the empty list on. -/
def tokens (s : Bytes) : List Bytes := (divilTrigger s []).2

/-- The tokens of a trigger and, behind them, the new ones of another. -/
def addTokens (a b : Bytes) : List Bytes := (pieces b).foldl pushToken (tokens a)

/-- A single `|` at the end, behind another byte. -/
def Dangling (s : Bytes) : Prop := ∃ c, c ≠ bar ∧ [c, bar] <:+ s

/-- An occurrence of `||` behind the token is found where the token ends. -/
abbrev Closed (t : Bytes) : Prop := FirstAt [bar, bar] t

variable {s t x y a b c segment : Bytes} {v w vT : List Bytes}

/-! ### The loop reads the pieces -/

/-- With no `||` to come, the rest is the last token. -/
theorem divilLoop_last (h : ¬ [bar, bar] <:+: s) :
    divilLoop segment vT s = pushToken vT (segment ++ s) := by
  induction s generalizing segment with
  | nil => simp [divilLoop]
  | cons c s ih =>
      rw [List.infix_cons_iff, not_or, pair_prefix_cons] at h
      rw [divilLoop, ih h.2, List.append_assoc]
      · rfl
      · rintro rest rfl rfl
        exact h.1 ⟨rfl, rfl⟩

/-- A token ends at the `||` behind it, and the next one begins. -/
theorem divilLoop_append (h : Closed x) :
    divilLoop segment vT (x ++ ([bar, bar] ++ y)) =
      divilLoop [] (pushToken vT (segment ++ x)) y := by
  induction x generalizing segment with
  | nil => simp [divilLoop]
  | cons c x ih =>
      obtain ⟨hc, hx⟩ := firstAt_cons.1 h
      rw [List.cons_append, divilLoop, ih hx, List.append_assoc]
      · rfl
      · intro rest hbar hrest
        refine hc (pair_prefix_cons.2 ⟨hbar.symm, ?_⟩)
        cases x with
        | nil => rfl
        | cons d x => simpa using congrArg List.head? hrest

/-- The loop pushes the pieces one by one. -/
theorem divilLoop_eq (vT : List Bytes) (s : Bytes) :
    divilLoop [] vT s = (pieces s).foldl pushToken vT := by
  unfold pieces
  induction s using cut_induction (List.cons_ne_nil bar [bar]) generalizing vT with
  | hlast s h => rw [cut_eq_singleton h, divilLoop_last h]; rfl
  | hnext x y h ih => rw [cut_append (by simp) h, divilLoop_append h, ih]; rfl

/-- **The tokens are read from the pieces one by one.** -/
theorem divilTrigger_snd (s : Bytes) (vT : List Bytes) :
    (divilTrigger s vT).2 = (pieces s).foldl pushToken vT := by
  unfold divilTrigger
  split_ifs with hs
  · subst hs
    rfl
  · exact divilLoop_eq vT s

/-- The tokens of a text are its pieces, pushed from the empty list on. -/
theorem tokens_eq (s : Bytes) : tokens s = (pieces s).foldl pushToken [] :=
  divilTrigger_snd s []

/-- `divil_trigger` returns whether it has found a token. -/
theorem divilTrigger_nil (s : Bytes) :
    divilTrigger s [] = (!(tokens s).isEmpty, tokens s) := by
  unfold tokens divilTrigger
  split_ifs <;> rfl

/-- `format_trigger` of one text writes the tokens that it reads from it. -/
theorem formatText_eq (s : Bytes) : formatText s = formatTokens (tokens s) := by
  rw [formatText, divilTrigger_nil]
  cases tokens s <;> rfl

/-- `format_trigger` of two texts writes the tokens of both. -/
theorem formatTrigger_eq (a b : Bytes) :
    formatTrigger a b = formatTokens (addTokens a b) := by
  rw [formatTrigger, divilTrigger_snd]
  rfl

/-- **A trigger is hit exactly when one of its tokens is a token of the text.** -/
theorem TriggerBase.hitTrigger_iff :
    (TriggerBase.ofTrigger a).hitTrigger c = true ↔ ∃ t ∈ tokens a, t ∈ tokens c := by
  unfold TriggerBase.hitTrigger
  split_ifs with hc
  · subst hc
    simp [tokens, divilTrigger]
  · rw [divilTrigger_nil]
    cases tokens c with
    | nil => simp
    | cons t v => simp [TriggerBase.ofTrigger, tokens]

/-! ### Lists of tokens -/

/-- What `divil_trigger` makes: no token twice, none empty, all in upper case. -/
structure TokenList (v : List Bytes) : Prop where
  nodup : v.Nodup
  ne_nil : ∀ t ∈ v, t ≠ []
  upper : ∀ t ∈ v, t.map toUpper = t

/-- Upper case is kept. -/
theorem toUpper_toUpper (b : UInt8) : toUpper (toUpper b) = toUpper b := by
  unfold toUpper
  grind

/-- A token that is pushed is there, in upper case, unless it is empty. -/
theorem mem_pushToken : t ∈ pushToken vT x ↔ t ∈ vT ∨ x ≠ [] ∧ x.map toUpper = t := by
  unfold pushToken
  split_ifs with hx hmem
  · simp [hx]
  · simp only [hx, ne_eq, not_false_eq_true, true_and]
    refine ⟨Or.inl, ?_⟩
    rintro (h | rfl)
    · exact h
    · exact hmem
  · simp [hx, eq_comm]

/-- The same of several tokens. -/
theorem mem_foldl_pushToken {ps : List Bytes} :
    t ∈ ps.foldl pushToken vT ↔ t ∈ vT ∨ ∃ p ∈ ps, p ≠ [] ∧ p.map toUpper = t := by
  induction ps generalizing vT with
  | nil => simp
  | cons p ps ih =>
      rw [List.foldl_cons, ih, mem_pushToken, or_assoc]
      simp

/-- The tokens of a text are its pieces in upper case, without the empty ones. -/
theorem mem_tokens : t ∈ tokens s ↔ ∃ p ∈ pieces s, p ≠ [] ∧ p.map toUpper = t := by
  rw [tokens_eq, mem_foldl_pushToken]
  simp

/-- The empty list is one. -/
theorem TokenList.nil : TokenList [] := ⟨List.nodup_nil, by simp, by simp⟩

/-- Pushing a token keeps what is known of the list. -/
theorem TokenList.pushToken (h : TokenList vT) (x : Bytes) : TokenList (pushToken vT x) := by
  have hmem : ∀ t ∈ PolicyApi.pushToken vT x, t ≠ [] ∧ t.map toUpper = t := by
    intro t ht
    rcases mem_pushToken.1 ht with ht | ⟨hx, rfl⟩
    · exact ⟨h.ne_nil t ht, h.upper t ht⟩
    · exact ⟨by simpa using hx, by simp [toUpper_toUpper]⟩
  refine ⟨?_, fun t ht => (hmem t ht).1, fun t ht => (hmem t ht).2⟩
  unfold PolicyApi.pushToken
  split_ifs with hx hnew
  · exact h.nodup
  · exact h.nodup
  · exact List.nodup_append.2 ⟨h.nodup, by simp, by rintro t ht _ hx rfl; simp_all⟩

/-- Pushing several tokens keeps what is known of the list. -/
theorem TokenList.foldl (h : TokenList vT) (ps : List Bytes) :
    TokenList (ps.foldl PolicyApi.pushToken vT) := by
  induction ps generalizing vT with
  | nil => exact h
  | cons p ps ih => exact ih (h.pushToken p)

/-- What `divil_trigger` reads is a list of tokens. -/
theorem tokenList_tokens (s : Bytes) : TokenList (tokens s) := by
  rw [tokens_eq]
  exact TokenList.nil.foldl _

/-- An empty token is not pushed. -/
theorem pushToken_nil (vT : List Bytes) : pushToken vT [] = vT := by
  simp [pushToken]

/-- Tokens that are not in the list yet are added as they are. -/
theorem TokenList.foldl_append (h : TokenList (v ++ w)) :
    w.foldl PolicyApi.pushToken v = v ++ w := by
  induction w generalizing v with
  | nil => simp
  | cons t w ih =>
      have hpush : PolicyApi.pushToken v t = v ++ [t] := by
        have hnew : t ∉ v := fun hv => (List.nodup_append.1 h.nodup).2.2 t hv t (by simp) rfl
        rw [PolicyApi.pushToken, if_neg (h.ne_nil t (by simp)), h.upper t (by simp), if_neg hnew]
      rw [List.foldl_cons, hpush, ih (by simpa using h)]
      simp

/-! ### Bars -/

/-- Upper case changes no bar, and makes none. -/
theorem toUpper_eq_bar_iff {b : UInt8} : toUpper b = bar ↔ b = bar := by
  unfold toUpper
  grind

/-- A text of bars is the same in upper case, and comes of no other. -/
theorem map_eq_replicate_bar_iff {n : ℕ} :
    t.map toUpper = List.replicate n bar ↔ t = List.replicate n bar := by
  rw [List.eq_replicate_iff, List.eq_replicate_iff]
  simp [toUpper_eq_bar_iff]

/-- A single bar is the same in upper case, and comes of no other text. -/
theorem map_eq_bar_iff : t.map toUpper = [bar] ↔ t = [bar] :=
  map_eq_replicate_bar_iff (n := 1)

/-- `||` stands in a text exactly if it does in upper case. -/
theorem infix_map_iff : [bar, bar] <:+: t.map toUpper ↔ [bar, bar] <:+: t := by
  rw [List.infix_map_iff]
  constructor
  · rintro ⟨l, hl, hbars⟩
    rwa [map_eq_replicate_bar_iff (n := 2) |>.1 hbars.symm] at hl
  · exact fun h => ⟨_, h, rfl⟩

/-- A token is closed exactly if it is in upper case. -/
theorem closed_map_iff : Closed (t.map toUpper) ↔ Closed t := by
  have hsuffix : [bar] <:+ t.map toUpper ↔ [bar] <:+ t := by
    rw [List.suffix_map_iff]
    constructor
    · rintro ⟨l, hl, hbar⟩
      rwa [map_eq_bar_iff.1 hbar.symm] at hl
    · exact fun h => ⟨_, h, rfl⟩
  rw [Closed, Closed, firstAt_twin_iff, firstAt_twin_iff, infix_map_iff, hsuffix]

/-- There is no `||` in a closed token. -/
theorem Closed.noBars (h : Closed t) : ¬ [bar, bar] <:+: t := (firstAt_twin_iff.1 h).1

/-- A bar is not closed: with `||` behind it, the first `||` begins with it. -/
theorem not_closed_bar : ¬ Closed [bar] := fun h => (firstAt_twin_iff.1 h).2 List.suffix_rfl

/-- The last two bytes of a text are two bytes. -/
theorem pair_suffix_inj {c d e f : UInt8} (h : [c, d] <:+ s) (h' : [e, f] <:+ s) : c = e :=
  (List.cons.inj ((List.suffix_of_suffix_length_le h h' le_rfl).eq_of_length rfl)).1

/-- Whether a bar dangles is a matter of the last piece. -/
theorem dangling_append_iff : Dangling (x ++ ([bar, bar] ++ y)) ↔ Dangling y := by
  constructor
  · rintro ⟨c, hc, hsuffix⟩
    refine ⟨c, hc, ?_⟩
    -- a text of less than two bytes would leave a byte of the `||` for `c`
    match y, hsuffix with
    | [], hsuffix => exact absurd (pair_suffix_inj hsuffix ⟨x, rfl⟩) hc
    | [d], hsuffix => exact absurd (pair_suffix_inj (f := d) hsuffix ⟨x ++ [bar], by simp⟩) hc
    | d :: e :: z, hsuffix =>
        rw [← List.append_assoc] at hsuffix
        exact List.suffix_of_suffix_length_le hsuffix (List.suffix_append _ _) (by simp)
  · rintro ⟨c, hc, hsuffix⟩
    rw [← List.append_assoc]
    exact ⟨c, hc, hsuffix.trans (List.suffix_append _ _)⟩

/-- What stands behind the last `||`. -/
theorem last_cases (h : ¬ [bar, bar] <:+: t) : Closed t ∨ t = [bar] ∨ Dangling t := by
  by_cases hbar : [bar] <:+ t
  · obtain ⟨x, rfl⟩ := hbar
    rcases List.eq_nil_or_concat x with rfl | ⟨x, c, rfl⟩
    · exact Or.inr (Or.inl rfl)
    · refine Or.inr (Or.inr ⟨c, ?_, by simp⟩)
      rintro rfl
      exact h ⟨x, [], by simp⟩
  · exact Or.inl (firstAt_twin_iff.2 ⟨h, hbar⟩)

/-- **Only the last piece may end with a bar**, and it dangles where the text does. -/
theorem pieces_eq (s : Bytes) :
    ∃ front last, pieces s = front ++ [last] ∧ (∀ t ∈ front, Closed t) ∧
      ¬ [bar, bar] <:+: last ∧ (Dangling last ↔ Dangling s) := by
  unfold pieces
  induction s using cut_induction (List.cons_ne_nil bar [bar]) with
  | hlast s h => exact ⟨[], s, by simp [cut_eq_singleton h], by simp, h, Iff.rfl⟩
  | hnext x y h ih =>
      obtain ⟨front, last, hcut, hfront, hlast, hdangling⟩ := ih
      refine ⟨x :: front, last, by rw [cut_append (by simp) h, hcut]; rfl, ?_, hlast, ?_⟩
      · intro t ht
        rcases List.mem_cons.1 ht with rfl | ht
        · exact h
        · exact hfront t ht
      · rw [dangling_append_iff, hdangling]

/-- There is no `||` in a piece. -/
theorem not_infix_of_mem_pieces (h : t ∈ pieces s) : ¬ [bar, bar] <:+: t := by
  obtain ⟨front, last, hpieces, hfront, hlast, -⟩ := pieces_eq s
  rw [hpieces, List.mem_append, List.mem_singleton] at h
  rcases h with h | rfl
  · exact (hfront t h).noBars
  · exact hlast

/-- A token is the only one of its own text. -/
theorem tokens_token (h : t ∈ tokens s) : tokens t = [t] := by
  obtain ⟨p, hp, hne, rfl⟩ := mem_tokens.1 h
  have hinfix : ¬ [bar, bar] <:+: p.map toUpper := mt infix_map_iff.1 (not_infix_of_mem_pieces hp)
  rw [tokens_eq, pieces, cut_eq_singleton hinfix]
  simp [pushToken, hne, toUpper_toUpper]

/-! ### The tokens of a text with a dangling bar -/

/-- Every token is closed, but the last one may be a single bar. -/
def Sound (v : List Bytes) : Prop :=
  ∃ w, (∀ t ∈ w, Closed t) ∧ (v = w ∨ v = w ++ [[bar]])

/-- Pieces that are closed give tokens that are. -/
theorem closed_foldl {ps : List Bytes} (hv : ∀ t ∈ vT, Closed t) (hps : ∀ t ∈ ps, Closed t) :
    ∀ t ∈ ps.foldl pushToken vT, Closed t := by
  intro t ht
  rcases mem_foldl_pushToken.1 ht with ht | ⟨p, hp, -, rfl⟩
  · exact hv t ht
  · exact closed_map_iff.2 (hps p hp)

/-- Without a dangling bar, only a single bar at the end is not closed. -/
theorem sound_foldl (hv : ∀ t ∈ vT, Closed t) (hs : ¬ Dangling s) :
    Sound ((pieces s).foldl pushToken vT) := by
  obtain ⟨front, last, hpieces, hfront, hlast, hdangling⟩ := pieces_eq s
  have hclosed := closed_foldl hv hfront
  rw [hpieces, List.foldl_append, List.foldl_cons, List.foldl_nil]
  rcases last_cases hlast with hlast | rfl | hlast
  · refine ⟨_, fun t ht => ?_, Or.inl rfl⟩
    rcases mem_pushToken.1 ht with ht | ⟨-, rfl⟩
    · exact hclosed t ht
    · exact closed_map_iff.2 hlast
  · refine ⟨_, hclosed, Or.inr ?_⟩
    have hnew : [bar] ∉ front.foldl pushToken vT := fun h => not_closed_bar (hclosed _ h)
    exact if_neg hnew
  · exact absurd (hdangling.1 hlast) hs

/-- The tokens of a text without a dangling bar are sound. -/
theorem sound_tokens (hs : ¬ Dangling s) : Sound (tokens s) := by
  rw [tokens_eq]
  exact sound_foldl (by simp) hs

/-- A token of a sound list is closed, or a bar. -/
theorem Sound.closed_or_bar (h : Sound v) (ht : t ∈ v) : Closed t ∨ t = [bar] := by
  obtain ⟨w, hw, rfl | rfl⟩ := h
  · exact Or.inl (hw t ht)
  · rcases List.mem_append.1 ht with ht | ht
    · exact Or.inl (hw t ht)
    · exact Or.inr (List.mem_singleton.1 ht)

/-- A dangling bar is the end of the last token. -/
theorem exists_tokens_of_dangling (hs : Dangling s) :
    ∃ w x, (∀ t ∈ w, Closed t) ∧ Closed x ∧ x ≠ [] ∧ tokens s = w ++ [x ++ [bar]] := by
  obtain ⟨front, last, hpieces, hfront, hlast, hdangling⟩ := pieces_eq s
  obtain ⟨c, hc, u, rfl⟩ := hdangling.2 hs
  have hclosed : ∀ t ∈ front.foldl pushToken [], Closed t := closed_foldl (by simp) hfront
  have hx : Closed (u ++ [c]) := by
    refine firstAt_twin_iff.2 ⟨fun h => hlast ?_, fun h => hc ?_⟩
    · exact h.trans ⟨[], [bar], by simp⟩
    · obtain ⟨z, hz⟩ := h
      exact (List.cons.inj (List.append_inj' hz rfl).2).1.symm
  refine ⟨_, (u ++ [c]).map toUpper, hclosed, closed_map_iff.2 hx, by simp, ?_⟩
  have hupper : (u ++ [c, bar]).map toUpper = (u ++ [c]).map toUpper ++ [bar] := by
    simp [toUpper_eq_bar_iff.2]
  have hnew : (u ++ [c]).map toUpper ++ [bar] ∉ front.foldl pushToken [] := by
    intro h
    exact (firstAt_twin_iff.1 (hclosed _ h)).2 (List.suffix_append _ _)
  rw [tokens_eq, hpieces, List.foldl_append, List.foldl_cons, List.foldl_nil, pushToken,
    if_neg (by simp), hupper, if_neg hnew]

/-- What `format_trigger` writes ends with `||`, so no bar dangles in it. -/
theorem not_dangling_formatTokens (v : List Bytes) : ¬ Dangling (formatTokens v) := by
  rintro ⟨c, hc, hsuffix⟩
  rcases v.eq_nil_or_concat with rfl | ⟨w, t, rfl⟩
  · simp [formatTokens] at hsuffix
  · have hbars : [bar, bar] <:+ formatTokens (w.concat t) :=
      ⟨formatTokens w ++ t, by simp [formatTokens]; rfl⟩
    exact hc (pair_suffix_inj hsuffix hbars)

/-! ### The text read back -/

/-- Closed tokens are the first pieces of what is written. -/
theorem pieces_formatTokens_append (hw : ∀ t ∈ w, Closed t) :
    pieces (formatTokens (w ++ v)) = w ++ pieces (formatTokens v) := by
  induction w with
  | nil => rfl
  | cons t w ih =>
      have htext : formatTokens (t :: w ++ v) = t ++ ([bar, bar] ++ formatTokens (w ++ v)) := by
        simp [formatTokens]
        rfl
      rw [htext, pieces, cut_append (by simp) (hw t (by simp)), ← pieces,
        ih fun t ht => hw t (by simp [ht])]
      rfl

/-- If all are closed, there is an empty piece behind them. -/
theorem pieces_formatTokens_closed (hw : ∀ t ∈ w, Closed t) :
    pieces (formatTokens w) = w ++ [[]] := by
  have h := pieces_formatTokens_append (v := []) hw
  rwa [List.append_nil] at h

/-- A bar at the end is written as three, which are read as an empty piece and a bar. -/
theorem pieces_formatTokens_bar (hw : ∀ t ∈ w, Closed t) :
    pieces (formatTokens (w ++ [[bar]])) = w ++ [[], [bar]] :=
  pieces_formatTokens_append hw

/-- A token that dangles is read as two. -/
theorem pieces_formatTokens_dangling (hw : ∀ t ∈ w, Closed t) (hx : Closed x) :
    pieces (formatTokens (w ++ [x ++ [bar]])) = w ++ [x, [bar]] := by
  have htext : formatTokens [x ++ [bar]] = x ++ ([bar, bar] ++ [bar]) := by
    simp [formatTokens]
    rfl
  rw [pieces_formatTokens_append hw, htext, pieces, cut_append (by simp) hx]
  rfl

/-- **A sound list of tokens is read back from its text.** -/
theorem TokenList.tokens_formatTokens (h : TokenList v) (hv : Sound v) :
    tokens (formatTokens v) = v := by
  obtain ⟨w, hw, rfl | rfl⟩ := hv
  · rw [tokens_eq, pieces_formatTokens_closed hw, List.foldl_append,
      TokenList.foldl_append (v := []) h]
    exact pushToken_nil v
  · have hw' : TokenList ([] ++ w) :=
      ⟨(List.nodup_append.1 h.nodup).1, fun t ht => h.ne_nil t (by simp_all),
        fun t ht => h.upper t (by simp_all)⟩
    rw [tokens_eq, pieces_formatTokens_bar hw, List.foldl_append, hw'.foldl_append,
      List.foldl_cons, List.nil_append, pushToken_nil]
    exact h.foldl_append

/-- A token that dangles is lost. -/
theorem exists_token_lost (hs : Dangling s) : ∃ t ∈ tokens s, ∀ v, t ∉ tokens (formatTokens v) := by
  obtain ⟨w, x, -, -, hne, hs⟩ := exists_tokens_of_dangling hs
  refine ⟨x ++ [bar], by simp [hs], fun v hmem => ?_⟩
  rcases (sound_tokens (not_dangling_formatTokens v)).closed_or_bar hmem with h | h
  · exact (firstAt_twin_iff.1 h).2 (List.suffix_append _ _)
  · exact hne (by simpa using h)

/-- **The tokens are read back unless the last one dangles.** -/
theorem tokens_formatTokens_iff (s : Bytes) :
    tokens (formatTokens (tokens s)) = tokens s ↔ ¬ Dangling s := by
  constructor
  · intro h hs
    obtain ⟨t, ht, hlost⟩ := exists_token_lost hs
    exact hlost (tokens s) (by rwa [h])
  · exact fun hs => (tokenList_tokens s).tokens_formatTokens (sound_tokens hs)

/-- **So is the text.** -/
theorem formatText_formatText_iff (s : Bytes) :
    formatText (formatText s) = formatText s ↔ ¬ Dangling s := by
  rw [formatText_eq s, formatText_eq]
  constructor
  · intro h hs
    obtain ⟨w, x, hw, hx, hne, hs⟩ := exists_tokens_of_dangling hs
    have hpieces := congrArg pieces h
    -- what is written for sound tokens has an empty piece where `x` is
    obtain ⟨w', hw', hsound | hsound⟩ :=
      sound_tokens (not_dangling_formatTokens (tokens s))
    · rw [hsound, pieces_formatTokens_closed hw', hs, pieces_formatTokens_dangling hw hx] at hpieces
      simpa using congrArg List.getLast? hpieces
    · rw [hsound, pieces_formatTokens_bar hw', hs, pieces_formatTokens_dangling hw hx] at hpieces
      have := (List.append_inj' hpieces rfl).2
      simp_all
  · intro hs
    rw [(tokens_formatTokens_iff s).2 hs]

/-! ### The hits of two triggers put together -/

/-- The tokens of two triggers together. -/
theorem mem_addTokens : t ∈ addTokens a b ↔ t ∈ tokens a ∨ t ∈ tokens b := by
  rw [addTokens, mem_foldl_pushToken, mem_tokens (s := b)]

/-- They are a list of tokens as well. -/
theorem tokenList_addTokens (a b : Bytes) : TokenList (addTokens a b) :=
  (tokenList_tokens a).foldl _

/-- Tokens are pushed behind those that are there. -/
theorem foldl_pushToken_eq (vT ps : List Bytes) : ∃ w, ps.foldl pushToken vT = vT ++ w := by
  induction ps using List.reverseRecOn with
  | nil => exact ⟨[], by simp⟩
  | append_singleton ps p ih =>
      obtain ⟨w, hw⟩ := ih
      rw [List.foldl_append, hw, List.foldl_cons, List.foldl_nil, pushToken]
      split_ifs
      · exact ⟨w, rfl⟩
      · exact ⟨w, rfl⟩
      · exact ⟨w ++ [p.map toUpper], by simp⟩

/-- Behind the tokens of the one come those of the other that it does not have. -/
theorem exists_addTokens (a b : Bytes) :
    ∃ w, addTokens a b = tokens a ++ w ∧ ∀ t ∈ w, t ∈ tokens b ∧ t ∉ tokens a := by
  obtain ⟨w, hw⟩ := foldl_pushToken_eq (tokens a) (pieces b)
  refine ⟨w, hw, fun t ht => ?_⟩
  have hnew : t ∉ tokens a := by
    have hnodup := (tokenList_addTokens a b).nodup
    rw [addTokens, hw] at hnodup
    exact fun hold => (List.nodup_append.1 hnodup).2.2 t hold t ht rfl
  have hmem : t ∈ addTokens a b := by
    rw [addTokens, hw]
    exact List.mem_append_right _ ht
  exact ⟨(mem_addTokens.1 hmem).resolve_left hnew, hnew⟩

/-- The hits tell the tokens, as a token hits itself alone. -/
theorem hitTrigger_iff_tokens (a b : Bytes) :
    (∀ c, c ≠ [] → ((TriggerBase.ofTrigger (formatTrigger a b)).hitTrigger c = true ↔
      (TriggerBase.ofTrigger a).hitTrigger c = true ∨
        (TriggerBase.ofTrigger b).hitTrigger c = true)) ↔
      ∀ t, t ∈ tokens (formatTokens (addTokens a b)) ↔ t ∈ addTokens a b := by
  simp only [TriggerBase.hitTrigger_iff, formatTrigger_eq]
  have hself : ∀ (t : Bytes) (v : List Bytes), (∃ s, t ∈ tokens s) →
      ((∃ r ∈ v, r ∈ tokens t) ↔ t ∈ v) := by
    rintro t v ⟨s, ht⟩
    simp [tokens_token ht]
  constructor
  · intro h t
    by_cases ht : ∃ s, t ∈ tokens s
    · have hne : t ≠ [] := by
        obtain ⟨s, hs⟩ := ht
        exact (tokenList_tokens s).ne_nil t hs
      have htok := h t hne
      rwa [hself t _ ht, hself t _ ht, hself t _ ht, ← mem_addTokens] at htok
    · rw [mem_addTokens]
      exact ⟨fun h => absurd ⟨_, h⟩ ht, fun h => absurd (h.elim (⟨a, ·⟩) (⟨b, ·⟩)) ht⟩
  · intro h c _
    simp only [h, mem_addTokens]
    constructor
    · rintro ⟨t, ht | ht, hc⟩
      · exact Or.inl ⟨t, ht, hc⟩
      · exact Or.inr ⟨t, ht, hc⟩
    · rintro (⟨t, ht, hc⟩ | ⟨t, ht, hc⟩)
      · exact ⟨t, Or.inl ht, hc⟩
      · exact ⟨t, Or.inr ht, hc⟩

/-- A single bar with a token behind it is not read back. -/
theorem bar_not_mem_pieces (hw : ∀ t ∈ w, Closed t) (hy : Closed y) (hne : y ≠ [])
    (hv : ∀ t ∈ v, Closed t) : [bar] ∉ pieces (formatTokens (w ++ [bar] :: y :: v)) := by
  have hbar : ∀ {u : List Bytes}, (∀ t ∈ u, Closed t) → [bar] ∉ u :=
    fun hu h => not_closed_bar (hu _ h)
  have htext : formatTokens ([bar] :: y :: v) =
      [] ++ ([bar, bar] ++ (bar :: y ++ ([bar, bar] ++ formatTokens v))) := by
    simp [formatTokens]
    rfl
  rw [pieces_formatTokens_append hw, htext, pieces, cut_append (by simp) .nil, List.mem_append,
    List.mem_cons, not_or, not_or]
  refine ⟨hbar hw, by simp, ?_⟩
  have hrest : cut [bar, bar] (formatTokens v) = v ++ [[]] := pieces_formatTokens_closed hv
  by_cases hhead : y.head? = some bar
  · -- the bar and the first byte of the token are a separator
    obtain ⟨z, rfl⟩ := List.head?_eq_some_iff.1 hhead
    have hz : Closed z := (firstAt_cons.1 hy).2
    have hsplit : bar :: bar :: z ++ ([bar, bar] ++ formatTokens v) =
        [] ++ ([bar, bar] ++ (z ++ ([bar, bar] ++ formatTokens v))) := by simp
    rw [hsplit, cut_append (by simp) .nil, cut_append (by simp) hz, hrest, List.mem_cons,
      List.mem_cons, List.mem_append, not_or, not_or, not_or]
    refine ⟨by simp, ?_, hbar hv, by simp⟩
    rintro rfl
    exact not_closed_bar hz
  · have hclosed : Closed (bar :: y) := by
      refine firstAt_cons.2 ⟨?_, hy⟩
      rw [pair_prefix_cons]
      rintro ⟨-, h⟩
      cases y with
      | nil => exact hne rfl
      | cons d y => exact hhead h
    rw [cut_append (by simp) hclosed, hrest, List.mem_cons, List.mem_append, not_or, not_or]
    exact ⟨by simpa using hne.symm, hbar hv, by simp⟩

/-- A bar is a token exactly if it is a piece. -/
theorem bar_mem_tokens_iff : [bar] ∈ tokens s ↔ [bar] ∈ pieces s := by
  rw [mem_tokens]
  constructor
  · rintro ⟨p, hp, -, hbar⟩
    rwa [map_eq_bar_iff.1 hbar] at hp
  · exact fun h => ⟨[bar], h, by simp, rfl⟩

/-- In a sound list a bar is the last token. -/
theorem Sound.eq_append_bar (h : Sound v) (hbar : [bar] ∈ v) :
    ∃ w, (∀ t ∈ w, Closed t) ∧ v = w ++ [[bar]] := by
  obtain ⟨w, hw, rfl | rfl⟩ := h
  · exact absurd (hw _ hbar) not_closed_bar
  · exact ⟨w, hw, rfl⟩

/-- A bar between two tokens is lost. -/
theorem bar_not_mem_tokens (ha : ¬ Dangling a) (hb : ¬ Dangling b) (hbar : [bar] ∈ tokens a)
    (hnew : ¬ ∀ t ∈ tokens b, t ∈ tokens a) : [bar] ∉ tokens (formatTokens (addTokens a b)) := by
  obtain ⟨w, hw, hwa⟩ := (sound_tokens ha).eq_append_bar hbar
  obtain ⟨e, he, hnewe⟩ := exists_addTokens a b
  have hclosed : ∀ t ∈ e, Closed t := by
    intro t ht
    refine ((sound_tokens hb).closed_or_bar (hnewe t ht).1).resolve_right ?_
    rintro rfl
    exact (hnewe _ ht).2 hbar
  have hene : e ≠ [] := by
    rintro rfl
    refine hnew fun t ht => ?_
    have hmem : t ∈ addTokens a b := mem_addTokens.2 (Or.inr ht)
    rwa [he, List.append_nil] at hmem
  obtain ⟨y, v, rfl⟩ := List.exists_cons_of_ne_nil hene
  have hy : y ≠ [] := (tokenList_addTokens a b).ne_nil y (by simp [he])
  rw [bar_mem_tokens_iff, he, hwa, List.append_assoc]
  exact bar_not_mem_pieces hw (hclosed y (by simp)) hy fun t ht => hclosed t (by simp [ht])

/-- Two triggers together are sound if no bar dangles and nothing comes behind a bar. -/
theorem sound_addTokens (ha : ¬ Dangling a) (hb : ¬ Dangling b)
    (h : [bar] ∈ tokens a → ∀ t ∈ tokens b, t ∈ tokens a) : Sound (addTokens a b) := by
  by_cases hbar : [bar] ∈ tokens a
  · -- nothing is added
    obtain ⟨e, he, hnew⟩ := exists_addTokens a b
    obtain rfl : e = [] := by
      refine List.eq_nil_iff_forall_not_mem.2 fun t ht => ?_
      exact (hnew t ht).2 (h hbar t (hnew t ht).1)
    rw [he, List.append_nil]
    exact sound_tokens ha
  · refine sound_foldl (fun t ht => ?_) hb
    refine ((sound_tokens ha).closed_or_bar ht).resolve_right ?_
    rintro rfl
    exact hbar ht

/-- **When two triggers together are read back**: no bar dangles in either, and nothing comes
behind a bar. -/
theorem tokens_addTokens_iff (a b : Bytes) :
    (∀ t, t ∈ tokens (formatTokens (addTokens a b)) ↔ t ∈ addTokens a b) ↔
      ¬ Dangling a ∧ ¬ Dangling b ∧ ([bar] ∈ tokens a → ∀ t ∈ tokens b, t ∈ tokens a) := by
  constructor
  · intro h
    have hlost : ∀ s, (∀ t ∈ tokens s, t ∈ addTokens a b) → ¬ Dangling s := by
      intro s hsub hs
      obtain ⟨t, ht, hlost⟩ := exists_token_lost hs
      exact hlost _ ((h t).2 (hsub t ht))
    have ha : ¬ Dangling a := hlost a fun t ht => mem_addTokens.2 (Or.inl ht)
    have hb : ¬ Dangling b := hlost b fun t ht => mem_addTokens.2 (Or.inr ht)
    refine ⟨ha, hb, fun hbar => ?_⟩
    by_contra hnew
    exact bar_not_mem_tokens ha hb hbar hnew ((h _).2 (mem_addTokens.2 (Or.inl hbar)))
  · rintro ⟨ha, hb, h⟩ t
    rw [(tokenList_addTokens a b).tokens_formatTokens (sound_addTokens ha hb h)]

/-- Every piece of `b` is a piece of `a`, apart from case. -/
def AddsNothing (a b : Bytes) : Prop :=
  ∀ p ∈ pieces b, p ≠ [] → ∃ q ∈ pieces a, q.map toUpper = p.map toUpper

/-- Said of pieces or of tokens: the second trigger has nothing new. -/
theorem addsNothing_iff : AddsNothing a b ↔ ∀ t ∈ tokens b, t ∈ tokens a := by
  constructor
  · intro h t ht
    obtain ⟨p, hp, hne, rfl⟩ := mem_tokens.1 ht
    obtain ⟨q, hq, hqp⟩ := h p hp hne
    have hqne : q ≠ [] := by
      rintro rfl
      exact hne (List.map_eq_nil_iff.1 hqp.symm)
    exact mem_tokens.2 ⟨q, hq, hqne, hqp⟩
  · intro h p hp hne
    obtain ⟨q, hq, -, hqp⟩ := mem_tokens.1 (h _ (mem_tokens.2 ⟨p, hp, hne, rfl⟩))
    exact ⟨q, hq, hqp⟩

/-- **Which triggers are read back from their text**: those that do not end with a single
bar behind another byte.  Two of them put together hit what either hits if, besides, the
first has no piece that is a single bar or the second adds no token to it. -/
theorem trigger_readBack_iff (s a b : Bytes) :
    ((divilTrigger (formatTokens (divilTrigger s []).2) []).2 = (divilTrigger s []).2 ↔
      ¬ Dangling s) ∧
    (formatText (formatText s) = formatText s ↔ ¬ Dangling s) ∧
    ((∀ c, c ≠ [] → ((TriggerBase.ofTrigger (formatTrigger a b)).hitTrigger c = true ↔
      (TriggerBase.ofTrigger a).hitTrigger c = true ∨
        (TriggerBase.ofTrigger b).hitTrigger c = true)) ↔
      ¬ Dangling a ∧ ¬ Dangling b ∧ ([bar] ∈ pieces a → AddsNothing a b)) := by
  refine ⟨tokens_formatTokens_iff s, formatText_formatText_iff s, ?_⟩
  rw [hitTrigger_iff_tokens, tokens_addTokens_iff, bar_mem_tokens_iff, addsNothing_iff]

/-- `a|` is written `A|||` and read back as two tokens; `|` with `y` behind it is written
`|||Y||`, which `y` does not hit. -/
theorem trigger_not_readBack :
    (divilTrigger (formatTokens (divilTrigger (str "a|") []).2) []).2 ≠
        (divilTrigger (str "a|") []).2 ∧
      formatText (formatText (str "a|")) ≠ formatText (str "a|") ∧
      (TriggerBase.ofTrigger (formatTrigger (str "|") (str "y"))).hitTrigger (str "y") = false ∧
      (TriggerBase.ofTrigger (str "y")).hitTrigger (str "y") = true := by
  decide

end PolicyApi
end Scaner
