/-
# Content-Length framing

Responses of known length, as `http_reponse_check` and `http_reponse_completed`
(`scaner_test/http_tools.cpp`) see them.

`LengthHead.httpReponseCheck_prefix`: on every prefix of such a response the
completeness test answers, and answers true exactly when the head and the
declared number of bytes are there.  When bytes are missing, the test goes on
behind a `\nHTTP/` inside the body, with the map it has; a field that is read
there is joined to the length with `';'`, where `atoi` stops, so the length is
still the declared one (`httpGetHead_contentLength`).

`LengthHead.completedReturns_bytes`: the decoder copies the declared bytes, but
leaves `itWork` in front of them, and the scan for the next message that follows
copies them once more.
-/

import Scaner.HttpTools.Completed
import Scaner.HttpTools.HeadText

namespace Scaner
namespace HttpTools

open Bytes Machine Cursor

/-- The head of a final response with one Content-Length field. -/
structure LengthHead extends ResponseHead where
  final : status ≠ 100
  length : ℕ
  lengthField : Field
  fields_length : fields.filter (·.key = str "content-length") = [lengthField]
  length_ok : IsDecimal lengthField.content length
  length_lt : length < 2 ^ 31

namespace LengthHead

variable (h : LengthHead)

/-- A head with a length has a field. -/
theorem fields_ne : h.fields ≠ [] := by
  intro h0
  have := h.fields_length
  simp [h0] at this

/-- The length is what its field says. -/
theorem contentLength_addFields :
    (addFields h.fields .empty).contentLength = h.lengthField.content := by
  rw [Head.contentLength, Head.index, addFields_of_filter_eq h.fields_length h.length_ok.ne_nil]
  rfl

/-- The length is read back. -/
theorem atoi_contentLength : atoi h.lengthField.content = h.length :=
  h.length_ok.atoi_eq h.length_lt

/-- A message is not empty. -/
theorem bytes_append_ne (c : Bytes) : h.bytes ++ c ≠ [] := by
  simp [ResponseHead.bytes, ResponseHead.statusLine]

end LengthHead

/-! ### The length stays what it was -/

/-- The map has a length, and it is `N`. -/
def Head.HasLength (head : Head) (N : ℤ) : Prop :=
  head.contentLength ≠ [] ∧ atoi head.contentLength = N

/-- A value that is added, also to the length itself, leaves the number that `atoi` reads of the
length. -/
theorem Head.HasLength.addValue {head : Head} {N : ℤ} (h : head.HasLength N) (key value : Bytes) :
    (HttpTools.addValue key value head).HasLength N := by
  by_cases hk : str "content-length" = key
  · subst hk
    rcases index_addValue_self h.1 value with he | he
    · rw [HasLength, contentLength, he]
      exact h
    · rw [HasLength, contentLength, he, atoi_append_semicolon]
      exact ⟨by simp, h.2⟩
  · rw [HasLength, contentLength, index, addValue_of_ne hk]
    exact h

/-- Storing another field does not change what `atoi` reads of the length. -/
theorem Head.HasLength.storeField {head : Head} {N : ℤ} (h : head.HasLength N) (p : Bytes) (n : ℕ)
    (p1 : Bytes) (n1 : ℕ) : (HttpTools.storeField p n p1 n1 head).HasLength N := by
  unfold HttpTools.storeField
  split_ifs
  · exact h.addValue _ _
  · exact h

/-- Fields that follow do not change what `atoi` reads of the length. -/
theorem headLoop_hasLength {p p1 : Bytes} {n : ℕ} {head : Head} {s : Bytes} {x : Bytes × Head}
    {N : ℤ} (hN : head.HasLength N) (h : headLoop p p1 n head s = some x) : x.2.HasLength N := by
  induction s generalizing p p1 n head with
  | nil => simp [headLoop] at h
  | cons b s ih =>
      rw [headLoop] at h
      generalize (if p = [] then b :: s else p) = q at h
      simp only at h
      split_ifs at h
      · obtain rfl := Option.some.inj h
        exact hN.storeField _ _ _ _
      · obtain rfl := Option.some.inj h
        exact hN.storeField _ _ _ _
      · exact ih hN h
      · exact ih (hN.storeField _ _ _ _) h
      · exact ih hN h

/-- **A length that is known is not changed by a later head.** -/
theorem httpGetHead_contentLength {s : Bytes} {head : Head} {state : ℕ} {N : ℤ}
    (hN : head.HasLength N) (h : (httpGetHead s head state).ok = true) :
    (httpGetHead s head state).head.HasLength N := by
  unfold httpGetHead at h ⊢
  simp only at h ⊢
  split_ifs at h ⊢
  cases hl : headLoop [] [] 0 head (skipLine (scanStatus [] ((seekHttp s).drop 4)).1) with
  | none => simp [hl] at h
  | some x => exact headLoop_hasLength hN hl

/-! ### The completeness test -/

/-- Fewer bytes than the known length are left. -/
def CheckState.Short (N : ℕ) : CheckState → Prop
  | .message itWork head => head.HasLength N ∧ itWork.length < N
  | .chunk _ _ => False

variable {content : Bytes} {N : ℕ}

/-- A turn with too few bytes left returns false, or goes on with fewer. -/
theorem CheckState.Short.checkStep {s : CheckState} (hs : s.Short N) (content : Bytes) :
    HttpTools.checkStep content s = .ok (.ret false) ∨
      ∃ t : CheckState, HttpTools.checkStep content s = .ok (.loop t) ∧ t.Short N ∧
        t.itWork.length < s.itWork.length := by
  cases s with
  | chunk it itWork => exact hs.elim
  | message itWork head =>
      obtain ⟨hN, hlt⟩ := hs
      cases hst : HttpTools.checkStep content (.message itWork head) with
      | error e => exact absurd hst (checkStep_message_ne_error e)
      | ok x =>
          rcases checkStep_message hst with rfl | ⟨hok, hx⟩
          · exact Or.inl rfl
          have hrest := (httpGetHead_suffix hok).2
          have hN' := httpGetHead_contentLength hN hok
          have hnext := length_nextMessage_le (httpGetHead itWork head 0).rest
          have hbody : checkBody (httpGetHead itWork head 0).rest (httpGetHead itWork head 0).head =
              .loop (.message (nextMessage (httpGetHead itWork head 0).rest)
                (httpGetHead itWork head 0).head) := by
            rw [checkBody, if_pos hN'.1, if_neg]
            rw [hN'.2]
            omega
          obtain rfl : x = _ := hx.elim id fun hx => hx.2.trans hbody
          exact Or.inr ⟨_, rfl, ⟨hN', by omega⟩, checkStep_message_lt hst⟩

/-- **With too few bytes left, the test returns false**, after at most one turn
for each of them and one more. -/
theorem CheckState.Short.run_checkStep {s : CheckState} (hs : s.Short N) :
    run (HttpTools.checkStep content) (s.itWork.length + 1) s = .ok (.ret false) := by
  have hkeep : ∀ a b : CheckState, a.Short N → HttpTools.checkStep content a = .ok (.loop b) →
      b.Short N ∧ b.itWork.length < a.itWork.length := by
    intro a b ha hab
    rcases ha.checkStep content with h | ⟨t, h, ht⟩
    · simp [h] at hab
    · obtain rfl : t = b := by simpa [h] using hab
      exact ht
  obtain ⟨r, hr⟩ := exists_run_of_variant (fun s => s.itWork.length) hs
    (fun a b ha hab => (hkeep a b ha hab).1) (fun a b ha hab => (hkeep a b ha hab).2)
    fun a e ha hae => by rcases ha.checkStep content with h | ⟨t, h, -⟩ <;> simp [h] at hae
  have hfalse : r = false :=
    Returns.invariant (P := (· = false)) ⟨_, hr⟩ hs (fun a b ha hab => (hkeep a b ha hab).1)
      fun a r ha har => by
        rcases ha.checkStep content with h | ⟨t, h, -⟩
        · simpa [h] using har.symm
        · simp [h] at har
  rw [hr, hfalse]

namespace LengthHead

variable (h : LengthHead)

/-- The first turn on a whole head: true when the declared bytes are there. -/
theorem checkStep_bytes (content c : Bytes) :
    checkStep content (.message (h.bytes ++ c) .empty) =
      if h.length ≤ c.length then .ok (.ret true)
      else .ok (.loop (.message (nextMessage c) (addFields h.fields .empty))) := by
  have hne := h.length_ok.ne_nil
  simp only [checkStep, if_neg (h.bytes_append_ne c), h.httpGetHead_bytes h.fields_ne, h.final,
    Bool.true_eq_false, if_false, checkBody, h.contentLength_addFields, h.atoi_contentLength]
  rw [if_pos hne]
  by_cases hle : h.length ≤ c.length
  · rw [if_pos (by omega), if_pos hle]
  · rw [if_neg (by omega), if_neg hle]

/-- **The test on what has been received so far** of a response of known length:
it returns, and returns true exactly when the head and the declared bytes are
there. -/
theorem httpReponseCheck_prefix {b c : Bytes} (hc : c <+: h.bytes ++ b) {fuel : ℕ}
    (hfuel : c.length < fuel) :
    httpReponseCheck fuel c = some (decide (h.bytes.length + h.length ≤ c.length)) := by
  by_cases hlt : c.length < h.bytes.length
  · -- a part of the head is no head, and the test is left in its first turn
    have hcut : c <+: h.bytes :=
      List.prefix_of_prefix_length_le hc (List.prefix_append _ _) hlt.le
    rw [decide_eq_false (by omega), httpReponseCheck]
    split_ifs with hnil
    · rfl
    · obtain ⟨n, rfl⟩ : ∃ n, fuel = n + 1 := ⟨fuel - 1, by omega⟩
      have hstep : checkStep c (checkStart c) = .ok (.ret false) := by
        simp only [checkStart, checkStep, if_neg hnil,
          h.not_ok_of_prefix h.fields_ne hcut hlt, if_true]
      rw [run_ret hstep]
  · obtain ⟨c', rfl⟩ : h.bytes <+: c :=
      List.prefix_of_prefix_length_le (List.prefix_append _ _) hc (by omega)
    rw [List.length_append] at hfuel ⊢
    refine httpReponseCheck_mono (n := (nextMessage c').length + 2) ?_ ?_
    · have := length_nextMessage_le c'
      have : h.bytes.length ≠ 0 := by simp [ResponseHead.bytes, ResponseHead.statusLine]
      omega
    rw [httpReponseCheck_eq_some (h.bytes_append_ne c'), checkStart]
    have hstep := h.checkStep_bytes (h.bytes ++ c') c'
    by_cases hle : h.length ≤ c'.length
    · rw [if_pos hle] at hstep
      rw [run_ret hstep, decide_eq_true (by omega)]
    · rw [if_neg hle] at hstep
      have hshort : (CheckState.message (nextMessage c') (addFields h.fields .empty)).Short
          h.length := by
        have := length_nextMessage_le c'
        refine ⟨⟨?_, ?_⟩, by omega⟩
        · rw [h.contentLength_addFields]
          exact h.length_ok.ne_nil
        · rw [h.contentLength_addFields, h.atoi_contentLength]
      rw [run_loop hstep, decide_eq_false (by omega)]
      exact hshort.run_checkStep

/-- **The test on a response that is still coming in** returns, and it returns true exactly
on the prefixes that have the whole head and the declared number of bytes behind it, whatever
the bytes are. -/
theorem checkReturns_true_iff {b c : Bytes} (hc : c <+: h.bytes ++ b) :
    (∃ answer, CheckReturns c answer) ∧
      (CheckReturns c true ↔ ∃ body, c = h.bytes ++ body ∧ h.length ≤ body.length) := by
  have hret : CheckReturns c (decide (h.bytes.length + h.length ≤ c.length)) :=
    ⟨c.length + 1, h.httpReponseCheck_prefix hc (Nat.lt_succ_self _)⟩
  refine ⟨⟨_, hret⟩, ?_⟩
  constructor
  · intro htrue
    have hle : h.bytes.length + h.length ≤ c.length := of_decide_eq_true (hret.unique htrue)
    obtain ⟨body, rfl⟩ : h.bytes <+: c :=
      List.prefix_of_prefix_length_le (List.prefix_append _ _) hc (by omega)
    rw [List.length_append] at hle
    exact ⟨body, rfl, by omega⟩
  · rintro ⟨body, rfl, hle⟩
    rwa [decide_eq_true (by rw [List.length_append]; omega)] at hret

end LengthHead

/-! ### The decoder -/

namespace LengthHead

variable (h : LengthHead) {env : Externals}

/-- What the decoder makes of the message: the declared bytes and then everything
up to the next message, which begins with the declared bytes again. -/
def entry (c : Bytes) : HttpInfo :=
  { status := h.status, head := addFields h.fields .empty, bodyOrigin := c.take h.length }

/-- A turn of the decoder on a whole message. -/
theorem completedStep_bytes (env : Externals) {content c : Bytes} (hc : h.bytes ++ c <:+ content)
    (hle : h.length ≤ c.length) (vList : List HttpInfo) (trigger : Bytes) :
    completedStep env content (.message (h.bytes ++ c) vList trigger) =
      .ok (.loop (.message (nextMessage c) (vList ++ [(finished env c (h.entry c) trigger).1])
        (finished env c (h.entry c) trigger).2)) := by
  have hsuf : c <:+ content := (List.suffix_append _ _).trans hc
  have hne := h.length_ok.ne_nil
  simp only [completedStep, if_neg (h.bytes_append_ne c), h.httpGetHead_bytes h.fields_ne, h.final,
    Bool.true_eq_false, if_false, completedBody, h.contentLength_addFields, h.atoi_contentLength]
  rw [if_pos hne]
  split_ifs with hpos
  · rw [advance_of_le hsuf hle]
    change (copyRange c (c.drop h.length) >>= _) = _
    rw [copyRange_drop hle]
    exact finishMessage_eq _ _ _ _
  · have h0 : h.length = 0 := by omega
    rw [finishMessage_eq, entry, h0]
    rfl

/-- **The decoder on one message of known length**: one entry, whose body has the
declared bytes twice. -/
theorem completedReturns_bytes (env : Externals) {b : Bytes} (hb : b.length = h.length)
    (hnext : ¬ str "\nHTTP/" <:+: b) (vList : List HttpInfo) (trigger : Bytes) :
    ∃ e t, CompletedReturns env (h.bytes ++ b) vList trigger (true, [e], t) ∧
      e.status = h.status ∧ e.head = addFields h.fields .empty ∧
      ((∀ f ∈ h.fields, f.key ≠ str "content-encoding") → e.bodyOrigin = b ++ b) := by
  have hnil : nextMessage b = [] := seekPast_eq_nil hnext
  have hstep := h.completedStep_bytes env (List.suffix_refl (h.bytes ++ b)) hb.ge [] trigger
  have hend : completedStep env (h.bytes ++ b)
      (.message [] [(finished env b (h.entry b) trigger).1]
        (finished env b (h.entry b) trigger).2) =
        .ok (.ret (true, [(finished env b (h.entry b) trigger).1],
          (finished env b (h.entry b) trigger).2)) := rfl
  rw [hnil, List.nil_append] at hstep
  refine ⟨_, _, (completedReturns_iff (h.bytes_append_ne b)).2
    ((returns_loop hstep).2 ((returns_ret hend).2 rfl)), (finished_status _ _ _).1,
    (finished_status _ _ _).2, fun hce => ?_⟩
  have hindex : (h.entry b).head.index (str "content-encoding") = [] := by
    change (addFields h.fields .empty (str "content-encoding")).getD [] = []
    rw [addFields_of_not_mem hce]
    rfl
  rw [finished_bodyOrigin hindex, hnil, entry, ← hb, List.take_length, List.length_nil,
    Nat.sub_zero, List.take_length]

/-- **The decoder returns the body of a response of known length only when there
is none.** -/
theorem completedReturns_body_iff {b : Bytes} (hb : b.length = h.length)
    (hce : ∀ f ∈ h.fields, f.key ≠ str "content-encoding") (hnext : ¬ str "\nHTTP/" <:+: b)
    (vList : List HttpInfo) (trigger : Bytes) :
    (∃ e t, CompletedReturns env (h.bytes ++ b) vList trigger (true, [e], t) ∧
      e.bodyOrigin = b) ↔ h.length = 0 := by
  obtain ⟨e, t, hret, -, -, hbody⟩ := h.completedReturns_bytes env hb hnext vList trigger
  constructor
  · rintro ⟨e', t', hret', he⟩
    obtain ⟨rfl, -⟩ : e = e' ∧ t = t' := by simpa using hret.unique hret'
    rw [hbody hce] at he
    have hlen := congrArg List.length he
    rw [List.length_append] at hlen
    omega
  · intro h0
    obtain rfl : b = [] := List.length_eq_zero_iff.1 (hb.trans h0)
    exact ⟨e, t, hret, hbody hce⟩

end LengthHead

/-- `HTTP/1.1 200 OK` with a Content-Length field, of which `value` is the text
behind the colon. -/
def okHead (value : Bytes) (length : ℕ) (hvalue : ∀ c ∈ value, c ≠ cr ∧ c ≠ lf)
    (hlength : IsDecimal (trim valueEnds value) length) (hlt : length < 2 ^ 31) : LengthHead where
  eol := .crlf
  code := str "200"
  status := 200
  code_ok := ⟨by decide, forall_mem_of_all rfl, by decide⟩
  status_lt := by decide
  reason := str "OK"
  reason_ok := forall_mem_of_all rfl
  fields := [⟨str "Content-Length", value, by decide, forall_mem_of_all rfl, hvalue⟩]
  final := by decide
  length := length
  lengthField := ⟨str "Content-Length", value, by decide, forall_mem_of_all rfl, hvalue⟩
  fields_length := rfl
  length_ok := hlength
  length_lt := hlt

/-- `HTTP/1.1 200 OK`, with a body of one byte. -/
def oneByteHead : LengthHead :=
  okHead (str " 1") 1 (forall_mem_of_all rfl) ⟨by decide, forall_mem_of_all rfl, by decide⟩
    (by decide)

/-- The response is complete with its one byte, and not before. -/
theorem checkReturns_true_oneByte :
    (∃ answer, CheckReturns oneByteHead.bytes answer) ∧
      (CheckReturns oneByteHead.bytes true ↔
        ∃ body, oneByteHead.bytes = oneByteHead.bytes ++ body ∧ 1 ≤ body.length) ∧
      CheckReturns (oneByteHead.bytes ++ str "a") true :=
  have hhead := oneByteHead.checkReturns_true_iff (List.prefix_append oneByteHead.bytes (str "a"))
  have hbody := oneByteHead.checkReturns_true_iff
    (List.prefix_refl (oneByteHead.bytes ++ str "a"))
  ⟨hhead.1, hhead.2, hbody.2.2 ⟨str "a", rfl, by decide⟩⟩

/-- The one byte of the body is decoded, but not as a body of one byte. -/
theorem completedReturns_body_iff_oneByte :
    ¬ ∃ e t, CompletedReturns ⟨fun _ => none, fun _ _ => []⟩ (oneByteHead.bytes ++ str "a") [] []
      (true, [e], t) ∧ e.bodyOrigin = str "a" :=
  (oneByteHead.completedReturns_body_iff rfl (by decide) (by decide) [] []).not.2
    (by decide)

/-- The body of one byte comes back as two bytes. -/
theorem oneByteHead_doubled :
    oneByteHead.bytes = str "HTTP/1.1 200 OK\r\nContent-Length: 1\r\n\r\n" ∧
      (∃ e t, CompletedReturns ⟨fun _ => none, fun _ _ => []⟩ (oneByteHead.bytes ++ str "a") [] []
        (true, [e], t) ∧ e.bodyOrigin = str "aa") ∧
      ¬ ∃ e t, CompletedReturns ⟨fun _ => none, fun _ _ => []⟩ (oneByteHead.bytes ++ str "a") [] []
        (true, [e], t) ∧ e.bodyOrigin = str "a" := by
  obtain ⟨e, t, hret, -, -, hbody⟩ := oneByteHead.completedReturns_bytes
    ⟨fun _ => none, fun _ _ => []⟩ (b := str "a") rfl (by decide) [] []
  have he : e.bodyOrigin = str "aa" := hbody (by decide)
  refine ⟨by decide, ⟨e, t, hret, he⟩, ?_⟩
  rintro ⟨e', t', hret', he'⟩
  obtain ⟨rfl, -⟩ : e = e' ∧ t = t' := by simpa using hret.unique hret'
  exact absurd (he.symm.trans he') (by decide)

end HttpTools
end Scaner
