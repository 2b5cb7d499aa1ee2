/-
# What lies behind the buffer

`http_get_head` and `http_reponse_check` (`scaner_test/http_tools.hpp`, `http_tools.cpp`)
compare the text at an iterator with `strncmp`, and read sizes with `strtol`.  Neither
knows where the vector ends.  What they read behind `end()` is what the storage of the
vector holds there: bytes of an earlier response when the vector has been used before, or
bytes that nobody has written.

Here these bytes are given (`behind`).  A text that begins in the buffer and ends behind it
is found, and the iterator is then moved past `end()`.  As long as no text that is looked
for lies across `end()` (`NoneAcross`), the test on a response of known length does what it
does with nothing behind the buffer (`LengthHead.httpReponseCheckIn_eq`).
-/

import Scaner.HttpTools.ContentLength

namespace Scaner
namespace HttpTools

open Bytes Machine Cursor

variable (behind : Bytes)

/-- The loop of `http_get_head` that looks for `HTTP`. -/
def seekHttpIn : Bytes → Bytes
  | [] => []
  | b :: s => if startsWith (b :: s ++ behind) (str "HTTP") then b :: s else seekHttpIn s

/-- The scan for the next message. -/
def nextMessageIn : Bytes → Bytes
  | [] => []
  | b :: s => if startsWith (b :: s ++ behind) (str "\nHTTP/") then s else nextMessageIn s

/-- The loop of `http_get_head` over the fields. -/
def headLoopIn (p p1 : Bytes) (n : ℕ) (head : Head) : Bytes → Except Fault (Option (Bytes × Head))
  | [] => .ok none
  | b :: s =>
      if startsWith (b :: s ++ behind) (str "\r\n\r\n") then
        if (b :: s).length < 4 then .error .pastEnd
        else .ok (some ((b :: s).drop 4, storeField p n p1 (p1.length - (b :: s).length) head))
      else if startsWith (b :: s ++ behind) (str "\n\n") then
        if (b :: s).length < 2 then .error .pastEnd
        else .ok (some ((b :: s).drop 2, storeField p n p1 (p1.length - (b :: s).length) head))
      else
        let p := if p = [] then b :: s else p
        if p1 = [] ∧ b = colon then headLoopIn p s (p.length - (b :: s).length) head s
        else if b = lf then
          headLoopIn [] [] 0 (storeField p n p1 (p1.length - (b :: s).length) head) s
        else headLoopIn p p1 n head s

/-- `http_get_head(begin_, end_, &head_info, &state)`. -/
def httpGetHeadIn (begin_ : Bytes) (headInfo : Head) (state : ℕ) : Except Fault HeadResult :=
  let begin_ := seekHttpIn behind begin_
  if begin_ = [] then .ok ⟨false, [], headInfo, state⟩
  else if begin_.length < 4 then .error .pastEnd
  else
    let r := scanStatus [] (begin_.drop 4)
    if r.2.1 ≠ [] ∧ r.2.2 ≠ 0 then
      let state := toSize (atoi (r.2.1.take r.2.2))
      match headLoopIn behind [] [] 0 headInfo (skipLine r.1) with
      | .error e => .error e
      | .ok (some x) => .ok ⟨true, x.1, x.2, state⟩
      | .ok none => .ok ⟨false, [], .empty, state⟩
    else .ok ⟨false, r.1, headInfo, state⟩

/-- One turn of either loop of `http_reponse_check`, as in `checkStep`. -/
def checkStepIn (content : Bytes) : CheckState → Except Fault (Next CheckState Bool)
  | .message itWork head =>
      if itWork = [] then .ok (.ret false)
      else
        match httpGetHeadIn behind itWork head 0 with
        | .error e => .error e
        | .ok r =>
            let next := nextMessageIn behind r.rest
            if r.ok = false then .ok (.ret false)
            else if r.state = 100 then
              if next ≠ [] then .ok (.loop (.message next r.head)) else .ok (.ret false)
            else if r.head.contentLength ≠ [] then
              if atoi r.head.contentLength ≤ r.rest.length then .ok (.ret true)
              else .ok (.loop (.message next r.head))
            else if r.head.isChunked then .ok (.loop (.chunk r.rest r.rest))
            else .ok (.loop (.message next r.head))
  | .chunk _ [] => .ok (.ret false)
  | .chunk it (b :: itWork) =>
      if b = lf then
        let nlength := strtol 16 (it ++ behind)
        if nlength > itWork.length then .ok (.ret false)
        else if nlength = 0 ∧ itWork ≠ [] then .ok (.ret true)
        else
          match advance content itWork (nlength + 2) with
          | .ok it => .ok (.loop (.chunk it it))
          | .error e => .error e
      else .ok (.loop (.chunk it itWork))

/-- `http_reponse_check(content)`, with a bound on the turns, in a storage that holds
`behind` behind the bytes of `content`. -/
def httpReponseCheckIn (fuel : ℕ) (content : Bytes) : Option Bool :=
  if content = [] then some false
  else
    match run (checkStepIn behind content) fuel (checkStart content) with
    | .ok (.ret b) => some b
    | _ => none

/-- The texts that are looked for with `strncmp`. -/
def soughtTexts : List Bytes := [str "HTTP", str "\r\n\r\n", str "\n\n", str "\nHTTP/"]

/-- None of them begins in the buffer and ends behind it. -/
def NoneAcross (content : Bytes) : Prop :=
  ∀ pat ∈ soughtTexts, ∀ w ∈ content.tails, w ≠ [] → startsWith (w ++ behind) pat = true →
    startsWith w pat = true

instance (content : Bytes) : Decidable (NoneAcross behind content) :=
  inferInstanceAs (Decidable (∀ pat ∈ soughtTexts, ∀ w ∈ content.tails, _ → _ → _))

/-- Nothing can be completed by nothing. -/
theorem noneAcross_nil (content : Bytes) : NoneAcross [] content := by
  intro pat _ w _ _ h
  rwa [List.append_nil] at h

variable {behind} {content s : Bytes}

/-- Such a text is found where it is found with nothing behind. -/
theorem NoneAcross.startsWith_eq (h : NoneAcross behind content) {b : UInt8}
    (hs : b :: s <:+ content) {pat : Bytes} (hpat : pat ∈ soughtTexts) :
    startsWith (b :: s ++ behind) pat = startsWith (b :: s) pat := by
  rw [Bool.eq_iff_iff]
  exact ⟨h pat hpat _ ((List.mem_tails _ _).2 hs) (by simp), fun hw => startsWith_append hw behind⟩

/-- The search for `HTTP` finds the same whatever is behind. -/
theorem seekHttpIn_eq (h : NoneAcross behind content) (hs : s <:+ content) :
    seekHttpIn behind s = seekHttp s := by
  induction s with
  | nil => rfl
  | cons b s ih =>
      rw [seekHttpIn, seekHttp, h.startsWith_eq hs (by decide),
        ih ((List.suffix_cons b s).trans hs)]

/-- The search for the next message finds the same whatever is behind. -/
theorem nextMessageIn_eq (h : NoneAcross behind content) (hs : s <:+ content) :
    nextMessageIn behind s = nextMessage s := by
  induction s with
  | nil => rfl
  | cons b s ih =>
      rw [nextMessageIn, nextMessage, seekPast, h.startsWith_eq hs (by decide),
        ih ((List.suffix_cons b s).trans hs), nextMessage]

/-- The field loop does the same whatever is behind. -/
theorem headLoopIn_eq (h : NoneAcross behind content) (hs : s <:+ content) (p p1 : Bytes) (n : ℕ)
    (head : Head) : headLoopIn behind p p1 n head s = .ok (headLoop p p1 n head s) := by
  induction s generalizing p p1 n head with
  | nil => rfl
  | cons b s ih =>
      have hrest := ih ((List.suffix_cons b s).trans hs)
      rw [headLoopIn, headLoop, h.startsWith_eq hs (by decide), h.startsWith_eq hs (by decide)]
      split_ifs with h₁ h₂ h₃ h₄
      · exact absurd h₂ (not_lt.2 (length_le_of_startsWith h₁))
      · rfl
      · exact absurd h₄ (not_lt.2 (length_le_of_startsWith h₃))
      · rfl
      all_goals simp only [hrest]

/-- `http_get_head` does the same whatever is behind. -/
theorem httpGetHeadIn_eq (h : NoneAcross behind content) (hs : s <:+ content) (head : Head)
    (state : ℕ) : httpGetHeadIn behind s head state = .ok (httpGetHead s head state) := by
  have hin : ∀ {t : Bytes}, t <:+ seekHttp s → t <:+ content := fun ht =>
    ht.trans ((seekHttp_suffix s).trans hs)
  unfold httpGetHeadIn httpGetHead
  rw [seekHttpIn_eq h hs]
  by_cases hnil : seekHttp s = []
  · simp only [if_pos hnil]
  · have hfour : ¬ (seekHttp s).length < 4 :=
      not_lt.2 (length_le_of_startsWith (startsWith_seekHttp hnil))
    have hloop := headLoopIn_eq h (hin ((skipLine_suffix _).trans
      ((scanStatus_suffix [] _).trans (List.drop_suffix 4 (seekHttp s))))) [] [] 0 head
    simp only [if_neg hnil, if_neg hfour, hloop]
    split_ifs
    · cases headLoop [] [] 0 head (skipLine (scanStatus [] ((seekHttp s).drop 4)).1) <;> rfl
    · rfl

/-- A turn of the loop over the messages. -/
theorem checkStepIn_message (h : NoneAcross behind content) (hs : s <:+ content) (head : Head) :
    checkStepIn behind content (.message s head) = checkStep content (.message s head) := by
  simp only [checkStepIn, checkStep, httpGetHeadIn_eq h hs]
  by_cases hnil : s = []
  · rw [if_pos hnil, if_pos hnil]
  rw [if_neg hnil, if_neg hnil]
  by_cases hok : (httpGetHead s head 0).ok = false
  · rw [if_pos hok, if_pos hok]
  rw [if_neg hok, if_neg hok]
  have hrest : (httpGetHead s head 0).rest <:+ content :=
    (httpGetHead_suffix (by simpa using hok)).1.trans hs
  rw [nextMessageIn_eq h hrest]
  unfold checkBody
  split_ifs <;> rfl

/-! ### A response of known length -/

namespace LengthHead

variable (h : LengthHead) {b c : Bytes}

/-- The test on a part of a response comes to no chunks: it is at its start, or has too few
bytes left. -/
theorem checkStep_start {t : CheckState} (hc : c <+: h.bytes ++ b)
    (hst : checkStep c (checkStart c) = .ok (.loop t)) : t.Short h.length := by
  by_cases hlt : c.length < h.bytes.length
  · have hcut : c <+: h.bytes :=
      List.prefix_of_prefix_length_le hc (List.prefix_append _ _) hlt.le
    simp only [checkStart, checkStep, h.not_ok_of_prefix h.fields_ne hcut hlt, if_true] at hst
    split_ifs at hst <;> simp at hst
  · obtain ⟨c', rfl⟩ : h.bytes <+: c :=
      List.prefix_of_prefix_length_le (List.prefix_append _ _) hc (by omega)
    rw [checkStart, h.checkStep_bytes] at hst
    split_ifs at hst with hle
    · simp at hst
    · obtain rfl : _ = t := by simpa using hst
      have := length_nextMessage_le c'
      refine ⟨⟨?_, ?_⟩, by omega⟩
      · rw [h.contentLength_addFields]
        exact h.length_ok.ne_nil
      · rw [h.contentLength_addFields, h.atoi_contentLength]

/-- **The test on what has been received so far**, whatever lies behind it that completes none of
the texts that are looked for. -/
theorem httpReponseCheckIn_eq (hc : c <+: h.bytes ++ b) {behind : Bytes}
    (hacross : NoneAcross behind c) {fuel : ℕ} (hfuel : c.length < fuel) :
    httpReponseCheckIn behind fuel c =
      some (decide (h.bytes.length + h.length ≤ c.length)) := by
  rw [← h.httpReponseCheck_prefix hc hfuel, httpReponseCheckIn, httpReponseCheck]
  have hrun : run (checkStepIn behind c) fuel (checkStart c) =
      run (checkStep c) fuel (checkStart c) := by
    refine run_congr (I := fun s => (s = checkStart c ∨ s.Short h.length) ∧ s.In c)
      ⟨Or.inl rfl, List.suffix_rfl⟩ (fun s t hs hst => ⟨Or.inr ?_, checkStep_in hs.2 hst⟩)
      (fun s hs => ?_) fuel
    · rcases hs.1 with rfl | hshort
      · exact h.checkStep_start hc hst
      · rcases hshort.checkStep c with hret | ⟨t', ht', hshort', -⟩
        · simp [hret] at hst
        · obtain rfl : t' = t := by simpa [ht'] using hst
          exact hshort'
    · cases s with
      | message s head => exact checkStepIn_message hacross hs.2 head
      | chunk it itWork =>
          rcases hs.1 with heq | hshort
          · cases heq
          · exact hshort.elim
  exact hrun ▸ rfl

end LengthHead

end HttpTools
end Scaner
