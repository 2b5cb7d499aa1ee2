/-
# The completeness test

`http_reponse_check` in `scaner_test/http_tools.cpp`: whether the bytes received
so far hold a complete response.

Two loops of the source are loops here, the one over the messages and the one
over the chunks of a chunked message; one turn of either is one `checkStep`.
The inner loops that only look for bytes are the functions `httpGetHead` and
`nextMessage`.  The map `head` is shared by all messages of one call, so that
the fields of an earlier message are still there when a later one is read.

The chunk loop moves the iterator by a number the server sent, with a sign, and
is the only place of the function where an iterator can leave the buffer.
-/

import Scaner.HttpTools.Head
import Scaner.Lib.Cursor
import Scaner.Lib.Machine

namespace Scaner
namespace HttpTools

open Bytes Machine

/-- The scan for the next message: `itWork` is left at the `HTTP/` behind a line
end, or at the end. -/
def nextMessage (itWork : Bytes) : Bytes := seekPast (str "\nHTTP/") itWork

/-- `head["content-length"]`. -/
def Head.contentLength (head : Head) : Bytes := head.index (str "content-length")

/-- `head["transfer-encoding"]` is not empty and contains `chunked`. -/
def Head.isChunked (head : Head) : Bool :=
  head.index (str "transfer-encoding") ≠ [] &&
    containsSub (str "chunked") (head.index (str "transfer-encoding"))

/-- The body is read as chunks: there is no length. -/
def Head.Chunked (head : Head) : Prop := head.contentLength = [] ∧ head.isChunked = true

/-- Where `http_reponse_check` stands: at the head of the loop over the messages,
or at the head of the loop over the chunks, with `it` at the start of the line of
the next size. -/
inductive CheckState
  | message (itWork : Bytes) (head : Head)
  | chunk (it itWork : Bytes)

namespace CheckState

/-- The cursor `it_work`. -/
def itWork : CheckState → Bytes
  | message itWork _ => itWork
  | chunk _ itWork => itWork

/-- The cursor of a state among chunks. -/
@[simp]
theorem itWork_chunk (it itWork : Bytes) : (chunk it itWork).itWork = itWork := rfl

/-- The iterators lie in the buffer, with `it` not behind `itWork`: so `*it` can be
read when `*itWork` can. -/
def In (content : Bytes) : CheckState → Prop
  | message itWork _ => itWork <:+ content
  | chunk it itWork => it <:+ content ∧ itWork <:+ it

end CheckState

/-- What is done behind the head of a message other than an interim one. -/
def checkBody (itWork : Bytes) (head : Head) : Next CheckState Bool :=
  if head.contentLength ≠ [] then
    if atoi head.contentLength ≤ itWork.length then .ret true
    else .loop (.message (nextMessage itWork) head)
  else if head.isChunked then .loop (.chunk itWork itWork)
  else .loop (.message (nextMessage itWork) head)

/-- One turn of either loop.  Where the chunk loop ends, `itWork` is at the end,
and so does the loop over the messages. -/
def checkStep (content : Bytes) : CheckState → Except Fault (Next CheckState Bool)
  | .message itWork head =>
      if itWork = [] then .ok (.ret false)
      else
        let r := httpGetHead itWork head 0
        if r.ok = false then .ok (.ret false)
        else if r.state = 100 then
          if nextMessage r.rest ≠ [] then .ok (.loop (.message (nextMessage r.rest) r.head))
          else .ok (.ret false)
        else .ok (checkBody r.rest r.head)
  | .chunk _ [] => .ok (.ret false)
  | .chunk it (b :: itWork) =>
      if b = lf then
        let nlength := strtol 16 it
        if nlength > itWork.length then .ok (.ret false)
        else if nlength = 0 ∧ itWork ≠ [] then .ok (.ret true)
        else
          match Cursor.advance content itWork (nlength + 2) with
          | .ok it => .ok (.loop (.chunk it it))
          | .error e => .error e
      else .ok (.loop (.chunk it itWork))

/-- The state a call starts in. -/
def checkStart (content : Bytes) : CheckState := .message content .empty

/-- `http_reponse_check(content)`, with a bound on the turns. -/
def httpReponseCheck (fuel : ℕ) (content : Bytes) : Option Bool :=
  if content = [] then some false
  else
    match run (checkStep content) fuel (checkStart content) with
    | .ok (.ret b) => some b
    | _ => none

/-- `http_reponse_check(content)` returns `b`. -/
def CheckReturns (content : Bytes) (b : Bool) : Prop :=
  ∃ fuel, httpReponseCheck fuel content = some b

/-- What `http_reponse_check` returns is what its loop does. -/
theorem httpReponseCheck_eq_some {content : Bytes} {fuel : ℕ} {b : Bool} (hc : content ≠ []) :
    httpReponseCheck fuel content = some b ↔
      run (checkStep content) fuel (checkStart content) = .ok (.ret b) := by
  rw [httpReponseCheck, if_neg hc]
  cases h : run (checkStep content) fuel (checkStart content) with
  | error e => simp
  | ok x => cases x <;> simp

/-- The same with enough turns, whether the content is empty or not. -/
theorem checkReturns_iff {content : Bytes} {b : Bool} :
    CheckReturns content b ↔ Returns (checkStep content) (checkStart content) b := by
  by_cases hc : content = []
  · subst hc
    have h : checkStep [] (checkStart []) = .ok (.ret false) := rfl
    rw [returns_ret h]
    exact ⟨fun ⟨n, hn⟩ => by simpa [httpReponseCheck] using hn.symm,
      fun h => ⟨0, by simp [httpReponseCheck, h]⟩⟩
  · exact exists_congr fun n => httpReponseCheck_eq_some hc

/-- A call returns at most one value. -/
theorem CheckReturns.unique {content : Bytes} {b b' : Bool} (h : CheckReturns content b)
    (h' : CheckReturns content b') : b = b' :=
  Returns.unique (checkReturns_iff.1 h) (checkReturns_iff.1 h')

/-- A result stays with a larger bound on the turns. -/
theorem httpReponseCheck_mono {content : Bytes} {n m : ℕ} {b : Bool} (hnm : n ≤ m)
    (h : httpReponseCheck n content = some b) : httpReponseCheck m content = some b := by
  by_cases hc : content = []
  · rw [httpReponseCheck, if_pos hc] at h ⊢
    exact h
  · rw [httpReponseCheck_eq_some hc] at h ⊢
    exact run_mono hnm h

/-! ### What one turn does -/

/-- The next message lies within the text. -/
theorem nextMessage_suffix (s : Bytes) : nextMessage s <:+ s := seekPast_suffix _ s

/-- The next message is no longer than the text. -/
theorem length_nextMessage_le (s : Bytes) : (nextMessage s).length ≤ s.length :=
  length_seekPast_le _ s

variable {content itWork it : Bytes} {head : Head}

/-- **A turn of the loop over the messages** fails on the head, or goes behind it
and from there to a later byte, to the chunks, or to the answer true. -/
theorem checkStep_message {x : Next CheckState Bool}
    (h : checkStep content (.message itWork head) = .ok x) :
    x = .ret false ∨
      ((httpGetHead itWork head 0).ok = true ∧
        (x = .loop (.message (nextMessage (httpGetHead itWork head 0).rest)
            (httpGetHead itWork head 0).head) ∨
          ((httpGetHead itWork head 0).state ≠ 100 ∧
            x = checkBody (httpGetHead itWork head 0).rest (httpGetHead itWork head 0).head))) := by
  simp only [checkStep] at h
  split_ifs at h with h₁ h₂ h₃ h₄ <;> obtain rfl := Except.ok.inj h
  · exact Or.inl rfl
  · exact Or.inl rfl
  · exact Or.inr ⟨by simpa using h₂, Or.inl rfl⟩
  · exact Or.inl rfl
  · exact Or.inr ⟨by simpa using h₂, Or.inr ⟨h₃, rfl⟩⟩

/-- The loop over the messages stays in the buffer. -/
theorem checkStep_message_ne_error (e : Fault) :
    checkStep content (.message itWork head) ≠ .error e := by
  simp only [checkStep]
  split_ifs <;> simp

/-- Behind a head, the test looks no further back than where the head ends. -/
theorem checkBody_loop {s : CheckState} (h : checkBody itWork head = .loop s) :
    s = .message (nextMessage itWork) head ∨ s = .chunk itWork itWork := by
  unfold checkBody at h
  split_ifs at h <;> simp_all

/-- **A turn of the loop over the messages consumes bytes.** -/
theorem checkStep_message_lt {s : CheckState}
    (h : checkStep content (.message itWork head) = .ok (.loop s)) :
    s.itWork.length < itWork.length := by
  rcases checkStep_message h with h | ⟨hok, h⟩
  · cases h
  have hlt := (httpGetHead_suffix hok).2
  have hnext := length_nextMessage_le (httpGetHead itWork head 0).rest
  rcases h with h | ⟨-, h⟩
  · obtain rfl : s = _ := by simpa using h
    exact lt_of_le_of_lt hnext hlt
  · rcases checkBody_loop h.symm with rfl | rfl
    · exact lt_of_le_of_lt hnext hlt
    · exact hlt

/-- Every turn keeps the iterators in the buffer, as long as it does not fault. -/
theorem checkStep_in {s t : CheckState} (hs : s.In content)
    (h : checkStep content s = .ok (.loop t)) : t.In content := by
  cases s with
  | message itWork head =>
      rcases checkStep_message h with h | ⟨hok, h⟩
      · cases h
      have hsuf := (httpGetHead_suffix hok).1.trans hs
      have hnext := (nextMessage_suffix (httpGetHead itWork head 0).rest).trans hsuf
      rcases h with h | ⟨-, h⟩
      · obtain rfl : t = _ := by simpa using h
        exact hnext
      · rcases checkBody_loop h.symm with rfl | rfl
        · exact hnext
        · exact ⟨hsuf, List.suffix_rfl⟩
  | chunk it itWork =>
      cases itWork with
      | nil => simp [checkStep] at h
      | cons b itWork =>
          simp only [checkStep] at h
          split_ifs at h with h₁ h₂ h₃
          · simp at h
          · simp at h
          · cases ha : Cursor.advance content itWork (strtol 16 it + 2) with
            | error e => simp [ha] at h
            | ok c =>
                obtain rfl : CheckState.chunk c c = t := by simpa [ha] using h
                exact ⟨Cursor.advance_suffix ha, List.suffix_rfl⟩
          · obtain rfl : CheckState.chunk it itWork = t := by simpa using h
            exact ⟨hs.1, (List.suffix_cons b itWork).trans hs.2⟩

/-- The loop over the chunks passes over what is no newline. -/
theorem returns_check_line {line : Bytes} (hline : lf ∉ line) (it s : Bytes) (r : Bool) :
    Returns (checkStep content) (.chunk it (line ++ s)) r ↔
      Returns (checkStep content) (.chunk it s) r := by
  induction line with
  | nil => rfl
  | cons c line ih =>
      simp only [List.mem_cons, not_or] at hline
      have hst : checkStep content (.chunk it (c :: line ++ s)) =
          .ok (.loop (.chunk it (line ++ s))) := by
        rw [List.cons_append, checkStep, if_neg (Ne.symm hline.1)]
      exact (returns_loop hst).trans (ih hline.2)

end HttpTools
end Scaner
