/-
# The decoder

`http_reponse_completed` in `scaner_test/http_tools.cpp`: it cuts the received
bytes into messages, and leaves one `http_info` for each in `v_list`.

The loops over the messages and over the chunks are loops here, as in
`Scaner.HttpTools.Check`; what follows the framed part of a message, up to the
end of the turn, is `finishMessage`.  Every iterator that is moved and every
range that is copied goes through `Scaner.Lib.Cursor`, and faults where the
source would leave the buffer.

`gzip::ungzip`, which calls zlib, and `charset::any_to_unicode`, which calls
Windows, are parameters (`Externals`).
-/

import Scaner.HttpTools.Check
import Scaner.PolicyApi.Trigger

namespace Scaner
namespace HttpTools

open Bytes Machine Cursor

/-- The functions of other libraries. -/
structure Externals where
  /-- `ungzip(in, out)`: `out`, when it returns true. -/
  ungzip : Bytes → Option Bytes
  /-- `any_to_unicode(charset, in, in.size(), out)`: `out`. -/
  anyToUnicode : Bytes → Bytes → List UInt16

/-- `class http_info`. -/
structure HttpInfo where
  status : ℕ := 0
  translateWstrBody : List UInt16 := []
  bodyCharset : Bytes := []
  head : Head := .empty
  bodyOrigin : Bytes := []

/-- Where `http_reponse_completed` stands.  `v` is the entry of `v_list` that is
being filled, `vList` holds those before it. -/
inductive CompletedState
  | message (itWork : Bytes) (vList : List HttpInfo) (trigger : Bytes)
  | chunk (it itWork : Bytes) (v : HttpInfo) (vList : List HttpInfo) (trigger : Bytes)

/-- The iterators lie in the buffer, as in `CheckState.In`. -/
def CompletedState.In (content : Bytes) : CompletedState → Prop
  | message itWork _ _ => itWork <:+ content
  | chunk it itWork _ _ _ => it <:+ content ∧ itWork <:+ it

/-- The value, `v_list` and `trigger` when the function returns. -/
abbrev CompletedResult := Bool × List HttpInfo × Bytes

/-- The loop that skips an interim message: `itWork` and `v.body_origin`.  Every
turn copies all bytes from `it` on. -/
def skipInterim (it : Bytes) : Bytes → Bytes → Bytes × Bytes
  | [], body => ([], body)
  | b :: itWork, body =>
      if startsWith (b :: itWork) (str "\nHTTP/") then (itWork, body)
      else skipInterim it itWork (body ++ it.take (it.length - itWork.length))

variable (env : Externals)

/-- The content encoding. -/
def decodeBody (v : HttpInfo) : HttpInfo :=
  if containsSub (str "gzip") (v.head.index (str "content-encoding")) then
    match env.ungzip v.bodyOrigin with
    | some out => { v with bodyOrigin := out }
    | none => v
  else v

/-- The charset that a content type names, in lower case, or `gbk`. -/
def charsetOf (contentType : Bytes) : Bytes :=
  let name := match afterFirst (str "charset=") contentType with
    | some s => (s.takeWhile fun b => !(str " ;\r\n").contains b).map toLower
    | none => []
  if name = [] then str "gbk" else name

/-- The content type: the translated text of a text message, and the trigger. -/
def decodeText (v : HttpInfo) (trigger : Bytes) : HttpInfo × Bytes :=
  let contentType := v.head.index (str "content-type")
  if containsSub (str "text/") contentType then
    ({ v with
        bodyCharset := charsetOf contentType
        translateWstrBody := env.anyToUnicode (charsetOf contentType) v.bodyOrigin },
      PolicyApi.formatTrigger trigger (str "once"))
  else ({ v with bodyCharset := [] }, trigger)

/-- The rest of a turn, behind the framed part of the message: the bytes up to
the next message are added to the body, which is then decoded. -/
def finishMessage (itWork : Bytes) (v : HttpInfo) (vList : List HttpInfo) (trigger : Bytes) :
    Except Fault (Next CompletedState CompletedResult) := do
  let it := itWork
  let itWork := nextMessage itWork
  let bytes ← copyRange it itWork
  let v := decodeBody env { v with bodyOrigin := v.bodyOrigin ++ bytes }
  let r := decodeText env v trigger
  return .loop (.message itWork (vList ++ [r.1]) r.2)

/-- What is done behind the head of a message. -/
def completedBody (content itWork : Bytes) (v : HttpInfo) (vList : List HttpInfo)
    (trigger : Bytes) : Except Fault (Next CompletedState CompletedResult) :=
  if v.head.contentLength ≠ [] then
    let nLength := atoi v.head.contentLength
    if nLength ≤ itWork.length ∧ 0 < nLength then do
      let last ← advance content itWork nLength
      let bytes ← copyRange itWork last
      finishMessage env itWork { v with bodyOrigin := v.bodyOrigin ++ bytes } vList trigger
    else finishMessage env itWork v vList trigger
  else if v.head.isChunked then .ok (.loop (.chunk itWork itWork v vList trigger))
  else finishMessage env itWork v vList trigger

/-- One turn of either loop. -/
def completedStep (content : Bytes) :
    CompletedState → Except Fault (Next CompletedState CompletedResult)
  | .message itWork vList trigger =>
      if itWork = [] then .ok (.ret (true, vList, trigger))
      else
        let r := httpGetHead itWork .empty 0
        let v : HttpInfo := { status := r.state, head := r.head }
        if r.ok = false then .ok (.ret (false, vList ++ [v], trigger))
        else if r.state = 100 then
          let x := skipInterim r.rest r.rest []
          completedBody env content x.1 { v with bodyOrigin := x.2 } vList trigger
        else completedBody env content r.rest v vList trigger
  | .chunk _ [] v vList trigger => finishMessage env [] v vList trigger
  | .chunk it (b :: itWork) v vList trigger =>
      if b = lf then
        let nlength := strtol 16 it
        if nlength > itWork.length then .ok (.ret (false, vList ++ [v], trigger))
        else if nlength = 0 then do
          let itWork ← advance content itWork 2
          finishMessage env itWork v vList trigger
        else do
          let last ← advance content itWork nlength
          let bytes ← copyRange itWork last
          let it ← advance content itWork (nlength + 2)
          return .loop (.chunk it it { v with bodyOrigin := v.bodyOrigin ++ bytes } vList trigger)
      else .ok (.loop (.chunk it itWork v vList trigger))

/-- The state a call starts in. -/
def completedStart (content trigger : Bytes) : CompletedState := .message content [] trigger

/-- `http_reponse_completed(content, v_list, trigger)`, with a bound on the
turns. -/
def httpReponseCompleted (fuel : ℕ) (content : Bytes) (vList : List HttpInfo) (trigger : Bytes) :
    Option CompletedResult :=
  if content = [] then some (false, vList, trigger)
  else
    match run (completedStep env content) fuel (completedStart content trigger) with
    | .ok (.ret r) => some r
    | _ => none

/-- `http_reponse_completed(content, v_list, trigger)` returns `r`. -/
def CompletedReturns (content : Bytes) (vList : List HttpInfo) (trigger : Bytes)
    (r : CompletedResult) : Prop :=
  ∃ fuel, httpReponseCompleted env fuel content vList trigger = some r

variable {env}

/-- What `http_reponse_completed` returns is what its loop does. -/
theorem completedReturns_iff {content : Bytes} (hc : content ≠ []) {vList : List HttpInfo}
    {trigger : Bytes} {r : CompletedResult} :
    CompletedReturns env content vList trigger r ↔
      Returns (completedStep env content) (completedStart content trigger) r := by
  refine exists_congr fun n => ?_
  rw [httpReponseCompleted, if_neg hc]
  cases h : run (completedStep env content) n (completedStart content trigger) with
  | error e => simp
  | ok x => cases x <;> simp

/-- A call returns at most one result. -/
theorem CompletedReturns.unique {content : Bytes} {vList : List HttpInfo} {trigger : Bytes}
    {r r' : CompletedResult} (h : CompletedReturns env content vList trigger r)
    (h' : CompletedReturns env content vList trigger r') : r = r' := by
  by_cases hc : content = []
  · obtain ⟨n, hn⟩ := h
    obtain ⟨m, hm⟩ := h'
    rw [httpReponseCompleted, if_pos hc] at hn hm
    exact Option.some.inj (hn.symm.trans hm)
  · rw [completedReturns_iff hc] at h h'
    exact Returns.unique h h'

/-! ### What one turn does -/

/-- Behind an interim response the next message is looked for. -/
theorem skipInterim_fst (it itWork body : Bytes) :
    (skipInterim it itWork body).1 = nextMessage itWork := by
  induction itWork generalizing body with
  | nil => rfl
  | cons b itWork ih =>
      rw [skipInterim, nextMessage, seekPast]
      split
      · rfl
      · exact ih _

/-- The entry that `finishMessage` adds to `v_list`, and the trigger. -/
def finished (env : Externals) (itWork : Bytes) (v : HttpInfo) (trigger : Bytes) :
    HttpInfo × Bytes :=
  decodeText env (decodeBody env
    { v with
      bodyOrigin := v.bodyOrigin ++ itWork.take (itWork.length - (nextMessage itWork).length) })
    trigger

/-- The rest of a turn always succeeds. -/
theorem finishMessage_eq (itWork : Bytes) (v : HttpInfo) (vList : List HttpInfo)
    (trigger : Bytes) :
    finishMessage env itWork v vList trigger =
      .ok (.loop (.message (nextMessage itWork) (vList ++ [(finished env itWork v trigger).1])
        (finished env itWork v trigger).2)) := by
  have hle := length_nextMessage_le itWork
  simp only [finishMessage, copyRange, if_pos hle]
  rfl

/-- The entry keeps the status and the head of the message. -/
theorem finished_status (itWork : Bytes) (v : HttpInfo) (trigger : Bytes) :
    (finished env itWork v trigger).1.status = v.status ∧
      (finished env itWork v trigger).1.head = v.head := by
  unfold finished decodeText decodeBody
  simp only
  split_ifs <;> first | exact ⟨rfl, rfl⟩ | (split <;> exact ⟨rfl, rfl⟩)

/-- A body with no content encoding is left as it is. -/
theorem finished_bodyOrigin {v : HttpInfo} (hv : v.head.index (str "content-encoding") = [])
    (itWork trigger : Bytes) :
    (finished env itWork v trigger).1.bodyOrigin =
      v.bodyOrigin ++ itWork.take (itWork.length - (nextMessage itWork).length) := by
  have hgzip : containsSub (str "gzip") [] = false := rfl
  unfold finished decodeText decodeBody
  simp only [hv, hgzip, Bool.false_eq_true, if_false]
  split_ifs <;> rfl

variable {content itWork : Bytes} {v : HttpInfo} {vList : List HttpInfo} {trigger : Bytes}

/-- The rest of a turn, as far as the iterators, the status and the head go. -/
theorem exists_finishMessage (env : Externals) (itWork : Bytes) (v : HttpInfo)
    (vList : List HttpInfo) (trigger : Bytes) :
    ∃ e t, finishMessage env itWork v vList trigger =
        .ok (.loop (.message (nextMessage itWork) (vList ++ [e]) t)) ∧
      e.status = v.status ∧ e.head = v.head :=
  ⟨_, _, finishMessage_eq itWork v vList trigger, finished_status itWork v trigger⟩

/-- A message that is not chunked is followed by the next one, whatever its
length: the declared bytes are copied, but not passed over. -/
theorem completedBody_of_not_chunked (env : Externals) (vList : List HttpInfo) (trigger : Bytes)
    (hs : itWork <:+ content) (hv : ¬ v.head.Chunked) :
    ∃ e t, completedBody env content itWork v vList trigger =
        .ok (.loop (.message (nextMessage itWork) (vList ++ [e]) t)) ∧
      e.status = v.status ∧ e.head = v.head := by
  unfold completedBody
  simp only
  split_ifs with h₁ h₂ h₃
  · obtain ⟨n, hn⟩ := Int.eq_ofNat_of_zero_le (Int.le_of_lt h₂.2)
    have hle : n ≤ itWork.length := by omega
    rw [hn, advance_of_le hs hle]
    change ∃ e t, (copyRange itWork (itWork.drop n) >>= _) = _ ∧ _
    rw [copyRange_drop hle]
    exact exists_finishMessage env itWork _ vList trigger
  · exact exists_finishMessage env itWork v vList trigger
  · exact absurd ⟨not_not.1 h₁, h₃⟩ hv
  · exact exists_finishMessage env itWork v vList trigger

/-- With a chunked body the loop goes on among the chunks. -/
theorem completedBody_of_chunked (hv : v.head.Chunked) :
    completedBody env content itWork v vList trigger =
      .ok (.loop (.chunk itWork itWork v vList trigger)) := by
  unfold completedBody
  rw [if_neg (not_not.2 hv.1), if_pos hv.2]

/-- Where the framed part of a message begins: behind an interim head, the scan
for the next message has gone on already. -/
def framedPart (r : HeadResult) : Bytes := if r.state = 100 then nextMessage r.rest else r.rest

/-- The body lies behind the head. -/
theorem framedPart_suffix (r : HeadResult) : framedPart r <:+ r.rest := by
  unfold framedPart
  split_ifs
  · exact nextMessage_suffix _
  · exact List.suffix_rfl

/-- A turn of the loop over the messages goes on to the framed part of one. -/
theorem completedStep_message (env : Externals) (content : Bytes) (vList : List HttpInfo)
    (trigger : Bytes) (hne : itWork ≠ [])
    (hok : (httpGetHead itWork .empty 0).ok = true) :
    ∃ v : HttpInfo, v.status = (httpGetHead itWork .empty 0).state ∧
      v.head = (httpGetHead itWork .empty 0).head ∧
      completedStep env content (.message itWork vList trigger) =
        completedBody env content (framedPart (httpGetHead itWork .empty 0)) v vList trigger := by
  simp only [completedStep, if_neg hne, hok, Bool.true_eq_false, if_false, framedPart,
    skipInterim_fst]
  split_ifs
  · exact ⟨_, rfl, rfl, rfl⟩
  · exact ⟨_, rfl, rfl, rfl⟩

/-- **What a turn of the loop over the messages does**: it returns at the end of
the buffer or at a head that is none; else it adds an entry and goes on to the
next message, or goes on to the chunks. -/
theorem completedStep_message_cases (env : Externals) (vList : List HttpInfo) (trigger : Bytes)
    (hs : itWork <:+ content) :
    (itWork = [] ∧ completedStep env content (.message itWork vList trigger) =
        .ok (.ret (true, vList, trigger))) ∨
      (itWork ≠ [] ∧ ((httpGetHead itWork .empty 0).ok = false ∧
        ∃ v, completedStep env content (.message itWork vList trigger) =
          .ok (.ret (false, vList ++ [v], trigger)))) ∨
      (itWork ≠ [] ∧ (httpGetHead itWork .empty 0).ok = true ∧
        ∃ v : HttpInfo, v.status = (httpGetHead itWork .empty 0).state ∧
          v.head = (httpGetHead itWork .empty 0).head ∧
          ((¬ v.head.Chunked ∧ ∃ t, completedStep env content (.message itWork vList trigger) =
              .ok (.loop (.message (nextMessage (framedPart (httpGetHead itWork .empty 0)))
                (vList ++ [v]) t))) ∨
            (v.head.Chunked ∧ completedStep env content (.message itWork vList trigger) =
              .ok (.loop (.chunk (framedPart (httpGetHead itWork .empty 0))
                (framedPart (httpGetHead itWork .empty 0)) v vList trigger))))) := by
  by_cases hne : itWork = []
  · exact Or.inl ⟨hne, by rw [completedStep, if_pos hne]⟩
  refine Or.inr ?_
  cases hok : (httpGetHead itWork .empty 0).ok with
  | false =>
      refine Or.inl ⟨hne, rfl, ?_⟩
      simp only [completedStep, if_neg hne, hok, if_true]
      exact ⟨_, rfl⟩
  | true =>
      obtain ⟨v, hstate, hhead, hst⟩ := completedStep_message env content vList trigger hne
        hok
      have hsuf : framedPart (httpGetHead itWork .empty 0) <:+ content :=
        (framedPart_suffix _).trans ((httpGetHead_suffix hok).1.trans hs)
      refine Or.inr ⟨hne, rfl, ?_⟩
      rw [hst]
      by_cases hch : v.head.Chunked
      · exact ⟨v, hstate, hhead, Or.inr ⟨hch, completedBody_of_chunked hch⟩⟩
      · obtain ⟨e, t, he, hes, heh⟩ := completedBody_of_not_chunked env vList trigger hsuf hch
        exact ⟨e, hes.trans hstate, heh.trans hhead, Or.inl ⟨heh ▸ hch, t, he⟩⟩

end HttpTools
end Scaner
