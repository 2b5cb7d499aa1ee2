/-
# Interim responses

A server may send a message with status 100 in front of the response.  Both
`http_reponse_check` and `http_reponse_completed` (`scaner_test/http_tools.cpp`)
look for the response by a scan for `\nHTTP/` that starts behind the head of the
interim message.

That head has taken the `\n` in front of the response with it.  So the scan
passes over the response (`nextMessage_bytes`), and the decoder is left with the
interim message alone (`OnlyInterim`).  An interim message without fields is
worse: the field loop knows its empty line only together with the end of a line
before it, which the status line has used up, and takes the whole head of the
response for the fields of the interim message (`httpGetHead_interim`).

`not_transparent`: no interim message is transparent, in front of no response.
-/

import Scaner.HttpTools.ChunkSizes
import Scaner.HttpTools.ContentLength

namespace Scaner
namespace HttpTools

open Bytes Machine Cursor

/-- The interim message `i` in front of the response `r` changes nothing: the two
are complete, and are decoded into an entry for the interim message, first, and
the entry `e` of the response, last. -/
def Transparent (env : Externals) (i r trigger : Bytes) (e : HttpInfo) : Prop :=
  CheckReturns (i ++ r) true ∧
    ∃ ok l t first last, CompletedReturns env (i ++ r) [] trigger (ok, l, t) ∧
      l.head? = some first ∧ first.status = 100 ∧
      l.getLast? = some last ∧ last.status = e.status ∧ last.head = e.head ∧
      last.bodyOrigin = e.bodyOrigin

/-! ### A head without fields -/

/-- A line that no empty line follows is read as a field, whatever is in it. -/
theorem headLoop_anyLine {x s : Bytes} (hx : lf ∉ x) (hs : NotBlank s) (p p1 : Bytes) (n : ℕ)
    (head : Head) :
    ∃ head', headLoop p p1 n head (x ++ lf :: s) = headLoop [] [] 0 head' s := by
  induction x generalizing p p1 n head with
  | nil =>
      have h₁ : startsWith (lf :: s) (str "\r\n\r\n") = false := rfl
      have h₂ : startsWith (lf :: s) (str "\n\n") = false := by
        rw [startsWith_lf_lf, hs.1, Bool.and_false]
      have hc : ¬ (p1 = [] ∧ lf = colon) := fun h => absurd h.2 (by decide)
      simp only [List.nil_append, headLoop, h₁, h₂, hc, Bool.false_eq_true, if_false, if_true]
      exact ⟨_, rfl⟩
  | cons c x ih =>
      simp only [List.mem_cons, not_or] at hx
      have hnext : startsWith (x ++ lf :: s) (str "\n\r\n") = false := by
        cases x with
        | nil => rw [List.nil_append, startsWith_lf_crlf, hs.2, Bool.and_false]
        | cons d x =>
            have hd : (lf == d) = false := by simpa using fun h => hx.2 (by simp [h])
            rw [List.cons_append, startsWith_lf_crlf, hd, Bool.false_and]
      obtain ⟨h₁, h₂⟩ := not_blank_of_ne (Ne.symm hx.1) (Or.inl hnext)
      simp only [List.cons_append, headLoop, h₁, h₂, Ne.symm hx.1, Bool.false_eq_true, if_false]
      split_ifs <;> exact ih hx.2 _ _ _ _

/-- What stands in front of the line feed of a line end. -/
theorem Eol.exists_bytes (eol : Eol) : ∃ x, eol.bytes = x ++ [Bytes.lf] ∧ Bytes.lf ∉ x := by
  cases eol with
  | crlf => exact ⟨[cr], rfl, by decide⟩
  | lf => exact ⟨[], rfl, by decide⟩

namespace ResponseHead

variable (h : ResponseHead)

/-- The status line is one line. -/
theorem exists_statusLine : ∃ x, h.statusLine = x ++ [lf] ∧ lf ∉ x := by
  obtain ⟨x, hx, hlf⟩ := h.eol.exists_bytes
  refine ⟨str "HTTP/1.1 " ++ (h.code ++ space :: (h.reason ++ x)), by simp [statusLine, hx], ?_⟩
  have hver : lf ∉ str "HTTP/1.1 " := by decide
  have hcode : lf ∉ h.code := fun hc => IsDecimal.ne_of_mem h.code_ok (by decide) hc rfl
  have hreason : lf ∉ h.reason := fun hc => h.reason_ok lf hc rfl
  have hspace : lf ≠ space := by decide
  simp [hver, hcode, hreason, hspace, hlf]

/-- The status line is no empty line. -/
theorem notBlank_statusLine (s : Bytes) : NotBlank (h.statusLine ++ s) := ⟨rfl, rfl⟩

/-- The lines of the fields are no empty lines. -/
theorem notBlank_lines (hf : h.fields ≠ []) (s : Bytes) : NotBlank (h.lines ++ s) := by
  obtain ⟨f, fields, hfs⟩ := List.exists_cons_of_ne_nil hf
  rw [lines, hfs, List.flatMap_cons, List.append_assoc]
  exact f.notBlank_line _ _

end ResponseHead

/-- **An interim head without fields swallows the head behind it.** -/
theorem httpGetHead_interim {i h : ResponseHead} (hi : i.fields = []) (hf : h.fields ≠ [])
    (b : Bytes) (head : Head) (state : ℕ) :
    ∃ head', httpGetHead (i.bytes ++ (h.bytes ++ b)) head state = ⟨true, b, head', i.status⟩ := by
  obtain ⟨x, hx, hlfx⟩ := i.eol.exists_bytes
  obtain ⟨y, hy, hlfy⟩ := h.exists_statusLine
  have hbytes : i.bytes ++ (h.bytes ++ b) =
      i.statusLine ++ (x ++ lf :: (y ++ lf :: (h.lines ++ (h.eol.bytes ++ b)))) := by
    simp [ResponseHead.bytes, ResponseHead.lines, hi, hx, hy]
  have hy' : NotBlank (y ++ lf :: (h.lines ++ (h.eol.bytes ++ b))) := by
    have := h.notBlank_statusLine (h.lines ++ (h.eol.bytes ++ b))
    rwa [hy, List.append_assoc] at this
  obtain ⟨head₁, h₁⟩ := headLoop_anyLine hlfx hy' [] [] 0 head
  obtain ⟨head₂, h₂⟩ := headLoop_anyLine hlfy (h.notBlank_lines hf _) [] [] 0 head₁
  have hloop := h₁.trans (h₂.trans (headLoop_fields h.eol hf b))
  rw [hbytes, i.httpGetHead_statusLine, hloop]
  exact ⟨_, rfl⟩

/-! ### The scan behind an interim head -/

/-- The search for the next message passes over a line in front of one that does not begin with
`HTTP/`. -/
theorem nextMessage_line {x s : Bytes} (hx : lf ∉ x) (hs : startsWith s (str "HTTP/") = false) :
    nextMessage (x ++ lf :: s) = nextMessage s := by
  have hlf : startsWith (lf :: s) (str "\nHTTP/") = false := by
    change (lf == lf && startsWith s (str "HTTP/")) = false
    rw [hs, Bool.and_false]
  induction x with
  | nil => rw [List.nil_append, nextMessage, seekPast, if_neg (by simp [hlf])]; rfl
  | cons c x ih =>
      simp only [List.mem_cons, not_or] at hx
      have hc : startsWith (c :: (x ++ lf :: s)) (str "\nHTTP/") = false := by
        change (lf == c && startsWith (x ++ lf :: s) (str "HTTP/")) = false
        rw [beq_eq_false_iff_ne.2 hx.1, Bool.false_and]
      rw [List.cons_append, nextMessage, seekPast, if_neg (by simp [hc])]
      exact ih hx.2

/-- A field does not begin like a status line, if its name does not. -/
theorem Field.startsWith_line {f : Field} (hf : ¬ str "HTTP/" <+: f.name) (eol : Eol) (s : Bytes) :
    startsWith (f.line eol ++ s) (str "HTTP/") = false := by
  rw [← Bool.not_eq_true, startsWith_iff]
  intro hp
  have hline : f.line eol ++ s = f.name ++ colon :: (f.value ++ eol.bytes ++ s) := by
    simp [Field.line]
  rw [hline] at hp
  rcases List.prefix_or_prefix_of_prefix hp (List.prefix_append _ _) with h | h
  · exact hf h
  · -- the `':'` behind the name would be one of the bytes of `HTTP/`
    obtain ⟨u, hu⟩ := h
    rw [← hu, List.prefix_append_right_inj] at hp
    cases u with
    | nil => exact hf (by rw [← hu, List.append_nil])
    | cons c u =>
        obtain ⟨rfl, -⟩ := List.cons_prefix_cons.1 hp
        have hmem : colon ∈ str "HTTP/" := by simp [← hu]
        exact absurd hmem (by decide)

/-- The line of a field is one line. -/
theorem Field.exists_line (eol : Eol) (f : Field) : ∃ x, f.line eol = x ++ [lf] ∧ lf ∉ x := by
  obtain ⟨x, hx, hlf⟩ := eol.exists_bytes
  refine ⟨f.name ++ colon :: (f.value ++ x), by simp [Field.line, hx], ?_⟩
  have hname : lf ∉ f.name := fun h => (f.name_ok lf h).2.2 rfl
  have hvalue : lf ∉ f.value := fun h => (f.value_ok lf h).2 rfl
  have hcolon : lf ≠ colon := by decide
  simp [hname, hvalue, hcolon, hlf]

/-- No message begins in fields whose names do not begin with `HTTP/`. -/
theorem nextMessage_fields (eol : Eol) {fields : List Field}
    (hf : ∀ f ∈ fields, ¬ str "HTTP/" <+: f.name) (b : Bytes) :
    startsWith (fields.flatMap (Field.line eol) ++ (eol.bytes ++ b)) (str "HTTP/") = false ∧
      nextMessage (fields.flatMap (Field.line eol) ++ (eol.bytes ++ b)) =
        nextMessage (eol.bytes ++ b) := by
  induction fields with
  | nil => exact ⟨by cases eol <;> rfl, rfl⟩
  | cons f fields ih =>
      obtain ⟨hstart, hnext⟩ := ih fun g hg => hf g (by simp [hg])
      obtain ⟨x, hx, hlf⟩ := f.exists_line eol
      rw [List.flatMap_cons, List.append_assoc]
      refine ⟨Field.startsWith_line (hf f (by simp)) eol _, ?_⟩
      rw [hx, List.append_assoc, List.singleton_append, nextMessage_line hlf hstart, hnext]

/-- **The scan passes over a head**, and stops behind it if the body begins like
a message. -/
theorem nextMessage_bytes {h : ResponseHead} (hf : ∀ f ∈ h.fields, ¬ str "HTTP/" <+: f.name)
    (b : Bytes) :
    nextMessage (h.bytes ++ b) = if startsWith b (str "HTTP/") then b else nextMessage b := by
  obtain ⟨x, hx, hlfx⟩ := h.exists_statusLine
  obtain ⟨y, hy, hlfy⟩ := h.eol.exists_bytes
  obtain ⟨hstart, hnext⟩ := nextMessage_fields h.eol hf b
  have hbytes : h.bytes ++ b =
      x ++ lf :: (h.fields.flatMap (Field.line h.eol) ++ (h.eol.bytes ++ b)) := by
    simp [ResponseHead.bytes, ResponseHead.lines, hx]
  rw [hbytes, nextMessage_line hlfx hstart, hnext, hy, List.append_assoc, List.singleton_append]
  split_ifs with hb
  · have hnot : ∀ u v, y = u ++ v → v ≠ [] → ¬ str "\nHTTP/" <+: v ++ lf :: b := by
      rintro u (_ | ⟨c, v⟩) rfl hv hp
      · exact hv rfl
      · obtain ⟨rfl, -⟩ := List.cons_prefix_cons.1 hp
        exact hlfy (List.mem_append_right _ List.mem_cons_self)
    have hlf : startsWith (lf :: b) (str "\nHTTP/") = true := by
      change (lf == lf && startsWith b (str "HTTP/")) = true
      rw [hb]
      rfl
    rw [nextMessage, seekPast_append hnot, seekPast, if_pos hlf]
  · exact nextMessage_line hlfy (by simpa using hb)

/-! ### What the decoder makes of it -/

variable {env : Externals} {content b : Bytes} {vList : List HttpInfo} {trigger : Bytes}

/-- The number of entries in `v_list`. -/
def CompletedState.entries : CompletedState → ℕ
  | message _ vList _ => vList.length
  | chunk _ _ _ vList _ => vList.length + 1

/-- The number of entries in `v_list` behind a turn of the loop. -/
def nextEntries : Next CompletedState CompletedResult → ℕ
  | .loop s => s.entries
  | .ret r => r.2.1.length

/-- A turn takes no entry back. -/
theorem entries_le_step {s : CompletedState} {x : Next CompletedState CompletedResult}
    (hs : s.In content) (h : completedStep env content s = .ok x) :
    s.entries ≤ nextEntries x := by
  cases s with
  | message itWork vList trigger =>
      rcases completedStep_message_cases env vList trigger hs with
        ⟨-, h'⟩ | ⟨-, -, v, h'⟩ | ⟨-, -, v, -, -, ⟨-, t, h'⟩ | ⟨-, h'⟩⟩ <;>
        obtain rfl := Except.ok.inj (h'.symm.trans h) <;>
        simp [CompletedState.entries, nextEntries]
  | chunk it itWork v vList trigger =>
      rcases completedStep_chunk_cases hs h with rfl | ⟨c, e, t, -, -, rfl⟩ |
        ⟨it', c, v', -, -, -, -, rfl⟩ <;>
        simp [CompletedState.entries, nextEntries]

/-- Entries are never taken back. -/
theorem entries_le_of_returns {s : CompletedState} {r : CompletedResult} (hs : s.In content)
    (h : Returns (completedStep env content) s r) : s.entries ≤ r.2.1.length := by
  refine h.invariant (I := fun a => a.In content ∧ s.entries ≤ a.entries)
    (P := fun r => s.entries ≤ r.2.1.length) ⟨hs, le_rfl⟩ ?_ ?_
  · rintro a a' ⟨ha, hle⟩ hst
    exact ⟨completedStep_in ha hst, hle.trans (entries_le_step ha hst)⟩
  · rintro a r ⟨ha, hle⟩ hst
    exact hle.trans (entries_le_step ha hst)

/-- A message that is there gives an entry. -/
theorem lt_length_of_returns {itWork : Bytes} {r : CompletedResult} (hs : itWork <:+ content)
    (hne : itWork ≠ [])
    (h : Returns (completedStep env content) (.message itWork vList trigger) r) :
    vList.length < r.2.1.length := by
  rcases completedStep_message_cases env vList trigger hs with
    ⟨hnil, -⟩ | ⟨-, -, v, hst⟩ | ⟨-, -, v, -, -, ⟨-, t, hst⟩ | ⟨-, hst⟩⟩
  · exact absurd hnil hne
  · rw [returns_ret hst] at h
    simp [h]
  · rw [returns_loop hst] at h
    have := entries_le_of_returns (completedStep_in (s := .message itWork vList trigger) hs hst) h
    simp only [CompletedState.entries, List.length_append, List.length_singleton] at this
    omega
  · rw [returns_loop hst] at h
    exact entries_le_of_returns (completedStep_in (s := .message itWork vList trigger) hs hst) h

/-- A response of known length that gives one entry has no further message in its
body, and the entry has its status. -/
theorem LengthHead.nextMessage_eq_nil (h : LengthHead) {e : HttpInfo} {t : Bytes} {ok : Bool}
    (he : CompletedReturns env (h.bytes ++ b) vList trigger (ok, [e], t)) :
    nextMessage b = [] ∧ e.status = h.status := by
  have hhead := h.httpGetHead_bytes h.fields_ne b .empty 0
  have hch : ¬ (addFields h.fields .empty).Chunked := fun hc =>
    h.length_ok.ne_nil (h.contentLength_addFields.symm.trans hc.1)
  have hpart : framedPart (httpGetHead (h.bytes ++ b) .empty 0) = b := by
    rw [hhead, framedPart, if_neg h.final]
  rw [completedReturns_iff (h.bytes_append_ne b)] at he
  rcases completedStep_message_cases env [] trigger
    (List.suffix_refl (h.bytes ++ b)) with
    ⟨hnil, -⟩ | ⟨-, hok, -⟩ | ⟨-, -, v, hstate, hv, ⟨-, t', hst⟩ | ⟨hc, -⟩⟩
  · exact absurd hnil (h.bytes_append_ne b)
  · rw [hhead] at hok
    cases hok
  · rw [hpart, List.nil_append] at hst
    rw [completedStart, returns_loop hst] at he
    have hsuf : nextMessage b <:+ h.bytes ++ b :=
      (nextMessage_suffix b).trans (List.suffix_append _ _)
    have hnil : nextMessage b = [] := by
      by_contra hne
      have := lt_length_of_returns hsuf hne he
      simp at this
    have hend : completedStep env (h.bytes ++ b) (.message [] [v] t') =
        .ok (.ret (true, [v], t')) := rfl
    rw [hnil, returns_ret hend] at he
    obtain rfl : e = v := by simpa using congrArg (fun r => r.2.1) he
    exact ⟨hnil, by rw [hstate, hhead]⟩
  · rw [hv, hhead] at hc
    exact absurd hc hch

/-- The decoder has the interim message only, and will see no other. -/
def CompletedState.OnlyInterim (b : Bytes) : CompletedState → Prop
  | message itWork vList _ => itWork = [] ∧ ∃ v, vList = [v] ∧ v.status = 100
  | chunk _ itWork v vList _ => itWork <:+ b ∧ vList = [] ∧ v.status = 100

/-- Where no message begins in a text, none begins in an end of it. -/
theorem nextMessage_eq_nil_of_suffix {c : Bytes} (hb : nextMessage b = []) (hc : c <:+ b) :
    nextMessage c = [] := by
  refine seekPast_eq_nil fun h => ?_
  exact seekPast_ne_nil (by decide) (h.trans hc.isInfix) hb

/-- The decoder then returns the interim message only. -/
theorem CompletedState.OnlyInterim.returns {s : CompletedState} {r : CompletedResult}
    (hs : s.OnlyInterim b) (hin : s.In content) (hb : nextMessage b = [])
    (h : Returns (completedStep env content) s r) : ∃ v, r.2.1 = [v] ∧ v.status = 100 := by
  refine h.invariant (I := fun a => a.In content ∧ a.OnlyInterim b)
    (P := fun r => ∃ v, r.2.1 = [v] ∧ v.status = 100) ⟨hin, hs⟩ ?_ ?_
  · rintro a a' ⟨ha, hint⟩ hst
    refine ⟨completedStep_in ha hst, ?_⟩
    cases a with
    | message itWork vList trigger =>
        obtain ⟨rfl, -⟩ := hint
        simp [completedStep] at hst
    | chunk it itWork v vList trigger =>
        obtain ⟨hsuf, rfl, hv⟩ := hint
        rcases completedStep_chunk_cases ha hst with h' | ⟨c, e, t, hc, hes, h'⟩ |
          ⟨it', c, v', hc, -, -, hvs, h'⟩ <;>
          simp only [Next.loop.injEq, reduceCtorEq] at h'
        · subst h'
          exact ⟨nextMessage_eq_nil_of_suffix hb (hc.trans hsuf), e, rfl, hes.trans hv⟩
        · subst h'
          exact ⟨hc.trans hsuf, rfl, hvs.trans hv⟩
  · rintro a r ⟨ha, hint⟩ hst
    cases a with
    | message itWork vList trigger =>
        obtain ⟨rfl, v, rfl, hv⟩ := hint
        obtain rfl : _ = r := by simpa [completedStep] using hst
        exact ⟨v, rfl, hv⟩
    | chunk it itWork v vList trigger =>
        obtain ⟨hsuf, rfl, hv⟩ := hint
        rcases completedStep_chunk_cases ha hst with h' | ⟨c, e, t, -, -, h'⟩ |
          ⟨it', c, v', -, -, -, -, h'⟩ <;>
          simp only [Next.ret.injEq, reduceCtorEq] at h'
        subst h'
        exact ⟨v, rfl, hv⟩

/-- An interim message with fields is all that the decoder finds. -/
theorem only_interim {i h : ResponseHead} (hi : i.status = 100) (hif : i.fields ≠ [])
    (hf : ∀ f ∈ h.fields, ¬ str "HTTP/" <+: f.name) (hb : nextMessage b = [])
    {r : CompletedResult}
    (hr : CompletedReturns env (i.bytes ++ (h.bytes ++ b)) vList trigger r) :
    ∃ v, r.2.1 = [v] ∧ v.status = 100 := by
  have hne : i.bytes ++ (h.bytes ++ b) ≠ [] := by
    simp [ResponseHead.bytes, ResponseHead.statusLine]
  have hhead := i.httpGetHead_bytes hif (h.bytes ++ b) .empty 0
  have hpart : framedPart (httpGetHead (i.bytes ++ (h.bytes ++ b)) .empty 0) <:+ b := by
    rw [hhead, framedPart, if_pos hi, nextMessage_bytes hf]
    split_ifs
    · exact List.suffix_rfl
    · exact nextMessage_suffix b
  rw [completedReturns_iff hne] at hr
  rcases completedStep_message_cases env [] trigger
    (List.suffix_refl (i.bytes ++ (h.bytes ++ b))) with
    ⟨hnil, -⟩ | ⟨-, hok, -⟩ | ⟨-, -, v, hstate, hv, hstep⟩
  · exact absurd hnil hne
  · rw [hhead] at hok
    cases hok
  · have h100 : v.status = 100 := by rw [hstate, hhead]; exact hi
    rcases hstep with ⟨-, t, hst⟩ | ⟨-, hst⟩
    · refine CompletedState.OnlyInterim.returns ?_ (completedStep_in (s := completedStart _ _)
        List.suffix_rfl hst) hb ((returns_loop hst).1 hr)
      exact ⟨nextMessage_eq_nil_of_suffix hb hpart, v, rfl, h100⟩
    · refine CompletedState.OnlyInterim.returns ?_ (completedStep_in (s := completedStart _ _)
        List.suffix_rfl hst) hb ((returns_loop hst).1 hr)
      exact ⟨hpart, rfl, h100⟩

/-- **No interim message is transparent**: with fields, it is the only message
that is decoded; without, the test waits for ever.  A field whose name begins
with `HTTP/` is left out, for the line of such a field is a status line to both
functions. -/
theorem not_transparent {i : ResponseHead} (hi : i.status = 100) {h : LengthHead}
    (hf : ∀ f ∈ h.fields, ¬ str "HTTP/" <+: f.name) {e : HttpInfo} {t : Bytes}
    (he : CompletedReturns env (h.bytes ++ b) vList trigger (true, [e], t)) :
    ¬ Transparent env i.bytes (h.bytes ++ b) trigger e := by
  obtain ⟨hb, hestatus⟩ := h.nextMessage_eq_nil he
  rintro ⟨hcheck, ok, l, t', first, last, hr, -, -, hlast, hstatus, -, -⟩
  by_cases hif : i.fields = []
  · obtain ⟨head', hhead⟩ := httpGetHead_interim hif h.fields_ne b .empty 0
    have hne : i.bytes ++ (h.bytes ++ b) ≠ [] := by
      simp [ResponseHead.bytes, ResponseHead.statusLine]
    have hst : checkStep (i.bytes ++ (h.bytes ++ b)) (checkStart (i.bytes ++ (h.bytes ++ b))) =
        .ok (.ret false) := by
      simp only [checkStart, checkStep, if_neg hne, hhead, hi, hb, ne_eq, not_true_eq_false,
        Bool.true_eq_false, if_false, if_true]
    rw [checkReturns_iff, returns_ret hst] at hcheck
    cases hcheck
  · obtain ⟨v, hv, h100⟩ := only_interim hi hif hf hb hr
    simp only at hv
    rw [hv, List.getLast?_singleton, Option.some.injEq] at hlast
    exact h.final (hestatus.symm.trans (hstatus.symm.trans (hlast ▸ h100)))

/-- `HTTP/1.1 100 Continue`, with a field. -/
def continueHead : ResponseHead where
  eol := .crlf
  code := str "100"
  status := 100
  code_ok := ⟨by decide, forall_mem_of_all rfl, by decide⟩
  status_lt := by decide
  reason := str "Continue"
  reason_ok := forall_mem_of_all rfl
  fields := [⟨str "A", str " b", by decide, forall_mem_of_all rfl,
    forall_mem_of_all rfl⟩]

/-- An interim message with a field, in front of a response of one byte. -/
theorem not_transparent_continueHead :
    ∃ e t, CompletedReturns ⟨fun _ => none, fun _ _ => []⟩ (oneByteHead.bytes ++ str "a") [] []
        (true, [e], t) ∧
      ¬ Transparent ⟨fun _ => none, fun _ _ => []⟩ continueHead.bytes (oneByteHead.bytes ++ str "a")
        [] e := by
  obtain ⟨e, t, hret, -⟩ := oneByteHead.completedReturns_bytes
    ⟨fun _ => none, fun _ _ => []⟩ (b := str "a") rfl (by decide) [] []
  exact ⟨e, t, hret, not_transparent rfl (by decide) hret⟩

/-- An interim message without fields makes a complete response incomplete. -/
theorem interim_incomplete :
    CheckReturns (str "HTTP/1.1 200 OK\r\nContent-Length: 1\r\n\r\na") true ∧
      ¬ CheckReturns (str "HTTP/1.1 100 Continue\r\n\r\n" ++
        str "HTTP/1.1 200 OK\r\nContent-Length: 1\r\n\r\na") true := by
  refine ⟨⟨1, rfl⟩, fun h => ?_⟩
  have hfalse : true = false := h.unique ⟨1, rfl⟩
  cases hfalse

end HttpTools
end Scaner
