/-
# What the decoder accepts

`http_reponse_check` stops at the first complete message.  The decoder
`http_reponse_completed` goes on: whatever follows a `\nHTTP/`, be it behind the
message or inside its body, is read as one more message.

`Messages` is the language of the decoder, as a grammar on the bytes: a sequence
of messages, each with a whole head, and with a whole sequence of chunks if it
is chunked (`Chunks`).  `completedReturns_true_iff`: the decoder returns true on
the texts of this language, and on no others.  `Scaner.HttpTools.Agree` compares
that with what the test has read.
-/

import Scaner.HttpTools.ChunkSizes

namespace Scaner
namespace HttpTools

open Bytes Machine Cursor

/-- A sequence of chunks, and the bytes behind it.  Each chunk is a line with its
size, the data, and two more bytes.  The sequence ends with a chunk of size `0`,
or where no more line follows. -/
inductive Chunks : Bytes → Bytes → Prop
  | cut {line : Bytes} (hline : lf ∉ line) : Chunks line []
  | last {line two rest : Bytes} (hline : lf ∉ line)
      (hsize : strtol 16 (line ++ lf :: (two ++ rest)) = 0) (htwo : two.length = 2) :
      Chunks (line ++ lf :: (two ++ rest)) rest
  | data {line bytes two rest tail : Bytes} (hline : lf ∉ line)
      (hsize : strtol 16 (line ++ lf :: (bytes ++ (two ++ rest))) = bytes.length)
      (hbytes : bytes ≠ []) (htwo : two.length = 2) (h : Chunks rest tail) :
      Chunks (line ++ lf :: (bytes ++ (two ++ rest))) tail

/-- A sequence of messages, as the decoder tells them apart. -/
inductive Messages : Bytes → Prop
  | nil : Messages []
  | plain {s : Bytes} (hok : (httpGetHead s .empty 0).ok = true)
      (hhead : ¬ (httpGetHead s .empty 0).head.Chunked)
      (h : Messages (nextMessage (framedPart (httpGetHead s .empty 0)))) : Messages s
  | chunked {s rest : Bytes} (hok : (httpGetHead s .empty 0).ok = true)
      (hhead : (httpGetHead s .empty 0).head.Chunked)
      (hchunks : Chunks (framedPart (httpGetHead s .empty 0)) rest)
      (h : Messages (nextMessage rest)) : Messages s

/-- What is left to be read is in the language. -/
def CompletedState.Accepts : CompletedState → Prop
  | message itWork _ _ => Messages itWork
  | chunk it itWork _ _ _ => ∀ line, it = line ++ itWork → lf ∉ line →
      ∃ rest, Chunks it rest ∧ Messages (nextMessage rest)

variable {env : Externals} {content : Bytes} {vList l : List HttpInfo} {trigger t : Bytes}

/-! ### Texts on which the decoder returns true -/

/-- `s` returns true in its next turn, or leads to a state with `Accepts`. -/
def CompletedState.Leads (env : Externals) (content : Bytes) (s : CompletedState) : Prop :=
  (∃ l t, completedStep env content s = .ok (.ret (true, l, t))) ∨
    ∃ b : CompletedState, completedStep env content s = .ok (.loop b) ∧ b.Accepts

/-- From where a message begins, a run that returns true has read messages. -/
theorem accepts_message {itWork : Bytes} (hin : itWork <:+ content)
    (h : (CompletedState.message itWork vList trigger).Leads env content) : Messages itWork := by
  rcases completedStep_message_cases env vList trigger hin with
    ⟨hnil, -⟩ | ⟨-, -, v, hst⟩ | ⟨-, hok, v, -, hv, ⟨hch, t, hst⟩ | ⟨hch, hst⟩⟩
  · rw [hnil]
    exact .nil
  · simp [CompletedState.Leads, hst] at h
  · rw [CompletedState.Leads, hst] at h
    obtain ⟨b, hb, hacc⟩ := h.resolve_left (by simp)
    obtain rfl : _ = b := by simpa using hb
    exact .plain hok (hv ▸ hch) hacc
  · rw [CompletedState.Leads, hst] at h
    obtain ⟨b, hb, hacc⟩ := h.resolve_left (by simp)
    obtain rfl : _ = b := by simpa using hb
    obtain ⟨rest, hrest, hmsg⟩ := hacc [] rfl (by simp)
    exact .chunked hok (hv ▸ hch) hrest hmsg

/-- From where a chunk size ends, a run that returns true has read chunks, and messages behind
them. -/
theorem accepts_size {it line s : Bytes} {v : HttpInfo} (hs : s <:+ content)
    (h : (CompletedState.chunk it (lf :: s) v vList trigger).Leads env content)
    (hit : it = line ++ lf :: s) (hline : lf ∉ line) :
    ∃ rest, Chunks it rest ∧ Messages (nextMessage rest) := by
  by_cases hfit : CompletedFits (strtol 16 it) s
  · rcases hfit with hgt | ⟨h0, h2⟩ | ⟨hpos, hle⟩
    · simp [CompletedState.Leads, completedStep_stop hgt] at h
    · obtain ⟨e, t', he, -⟩ := completedStep_last env v vList trigger hs h0 h2
      rw [CompletedState.Leads, he] at h
      obtain ⟨b, hb, hacc⟩ := h.resolve_left (by simp)
      obtain rfl : _ = b := by simpa using hb
      have hsplit : it = line ++ lf :: (s.take 2 ++ s.drop 2) := by rw [hit, List.take_append_drop]
      refine ⟨s.drop 2, ?_, hacc⟩
      rw [hsplit] at h0 ⊢
      exact .last hline h0 (by simp [h2])
    · obtain ⟨n, hn⟩ := Int.eq_ofNat_of_zero_le (Int.le_of_lt hpos)
      have hn0 : 0 < n := by omega
      have hle' : n + 2 ≤ s.length := by omega
      rw [CompletedState.Leads, completedStep_data env v vList trigger hs hn hn0 hle'] at h
      obtain ⟨b, hb, hacc⟩ := h.resolve_left (by simp)
      obtain rfl : _ = b := by simpa using hb
      obtain ⟨rest, hrest, hmsg⟩ := hacc [] rfl (by simp)
      have hlen : (s.take n).length = n := by
        rw [List.length_take]
        omega
      have hsplit : it = line ++ lf :: (s.take n ++ ((s.drop n).take 2 ++ s.drop (n + 2))) := by
        rw [hit, ← List.drop_drop, List.take_append_drop, List.take_append_drop]
      refine ⟨rest, ?_, hmsg⟩
      rw [hsplit] at hn ⊢
      refine .data hline (by rw [hn, hlen]) ?_ ?_ hrest
      · rw [← List.length_pos_iff]
        omega
      · rw [List.length_take, List.length_drop]
        omega
  · obtain ⟨e, he⟩ := completedStep_fault env v vList trigger hs hfit
    simp [CompletedState.Leads, he] at h

/-- A state that leads to acceptance accepts. -/
theorem CompletedState.Leads.accepts {s : CompletedState} (hin : s.In content)
    (h : s.Leads env content) : s.Accepts := by
  match s, hin, h with
  | .message itWork vList trigger, hin, h => exact accepts_message hin h
  | .chunk it [] v vList trigger, _, _ =>
      rintro line rfl hline
      rw [List.append_nil]
      exact ⟨[], .cut hline, .nil⟩
  | .chunk it (c :: s) v vList trigger, hin, h =>
      intro line hit hline
      by_cases hc : c = lf
      · subst hc
        exact accepts_size ((List.suffix_cons lf s).trans (hin.2.trans hin.1)) h hit hline
      · rw [CompletedState.Leads, completedStep, if_neg hc] at h
        obtain ⟨b, hb, hacc⟩ := h.resolve_left (by simp)
        obtain rfl : _ = b := by simpa using hb
        exact hacc (line ++ [c]) (by simp [hit]) (by simp [hline, Ne.symm hc])

/-! ### The decoder returns true on the language -/

/-- The bytes of a size line are passed over. -/
theorem returns_chunk_line {r : CompletedResult} {it line s : Bytes} {v : HttpInfo}
    (hline : lf ∉ line) :
    Returns (completedStep env content) (.chunk it (line ++ s) v vList trigger) r ↔
      Returns (completedStep env content) (.chunk it s v vList trigger) r := by
  induction line with
  | nil => rfl
  | cons c line ih =>
      simp only [List.mem_cons, not_or] at hline
      have hst : completedStep env content (.chunk it (c :: line ++ s) v vList trigger) =
          .ok (.loop (.chunk it (line ++ s) v vList trigger)) := by
        rw [List.cons_append, completedStep, if_neg (Ne.symm hline.1)]
      exact (returns_loop hst).trans (ih hline.2)

/-- The chunk loop leads over a sequence of chunks to the message behind it. -/
theorem Chunks.returns (env : Externals) (vList : List HttpInfo) (trigger : Bytes) {c rest : Bytes}
    (hc : Chunks c rest) (hs : c <:+ content) (v : HttpInfo) :
    ∃ e t, e.status = v.status ∧ e.head = v.head ∧ ∀ r,
      Returns (completedStep env content) (.message (nextMessage rest) (vList ++ [e]) t) r →
        Returns (completedStep env content) (.chunk c c v vList trigger) r := by
  induction hc generalizing v with
  | @cut line hline =>
      obtain ⟨e, t, he, hstatus⟩ := exists_finishMessage env [] v vList trigger
      refine ⟨e, t, hstatus.1, hstatus.2, fun r hr => ?_⟩
      have hline' : Returns (completedStep env content)
          (.chunk line (line ++ []) v vList trigger) r ↔
          Returns (completedStep env content) (.chunk line [] v vList trigger) r :=
        returns_chunk_line hline
      rw [List.append_nil] at hline'
      exact hline'.2 ((returns_loop he).2 hr)
  | @last line two rest hline hsize htwo =>
      have hsuf : two ++ rest <:+ content := suffix_of_append_cons hs
      obtain ⟨e, t, he, hstatus⟩ := completedStep_last env v vList trigger hsuf hsize
        (by simp [htwo])
      rw [← htwo, List.drop_left] at he
      exact ⟨e, t, hstatus.1, hstatus.2, fun r hr =>
        (returns_chunk_line hline).2 ((returns_loop he).2 hr)⟩
  | @data line bytes two rest tail hline hsize hbytes htwo _ ih =>
      have hsuf : bytes ++ (two ++ rest) <:+ content := suffix_of_append_cons hs
      have hpos : 0 < bytes.length := List.length_pos_iff.2 hbytes
      have hst := completedStep_data env v vList trigger hsuf hsize hpos (by simp [htwo])
      have hdrop : (bytes ++ (two ++ rest)).drop (bytes.length + 2) = rest := by
        rw [← htwo, ← List.drop_drop, List.drop_left, List.drop_left]
      rw [hdrop] at hst
      obtain ⟨e, t, hstatus, hhead, hr⟩ := ih
        ((List.suffix_append two rest).trans ((List.suffix_append bytes _).trans hsuf))
        { v with bodyOrigin := v.bodyOrigin ++ (bytes ++ (two ++ rest)).take bytes.length }
      exact ⟨e, t, hstatus, hhead, fun r h =>
        (returns_chunk_line hline).2 ((returns_loop hst).2 (hr r h))⟩

/-- What is behind chunks is an end of the text. -/
theorem Chunks.suffix {c rest : Bytes} (hc : Chunks c rest) : rest <:+ c := by
  induction hc with
  | cut => exact List.nil_suffix
  | @last line two rest =>
      exact (List.suffix_append two rest).trans
        ((List.suffix_cons lf _).trans (List.suffix_append line _))
  | @data line bytes two rest tail _ _ _ _ _ ih =>
      exact ih.trans ((List.suffix_append two rest).trans ((List.suffix_append bytes _).trans
        ((List.suffix_cons lf _).trans (List.suffix_append line _))))

/-- **Messages are read to the end**: by induction on them. -/
theorem Messages.returns {s : Bytes} (h : Messages s) (hs : s <:+ content)
    (vList : List HttpInfo) (trigger : Bytes) :
    ∃ l t, Returns (completedStep env content) (.message s vList trigger) (true, l, t) := by
  have hne : ∀ {s : Bytes}, (httpGetHead s .empty 0).ok = true → s ≠ [] := by
    rintro s hok rfl
    have := (httpGetHead_suffix hok).2
    simp at this
  induction h generalizing vList trigger with
  | nil =>
      have hst : completedStep env content (.message [] vList trigger) =
          .ok (.ret (true, vList, trigger)) := rfl
      exact ⟨vList, trigger, (returns_ret hst).2 rfl⟩
  | @plain s hok hhead _ ih =>
      have hsuf : framedPart (httpGetHead s .empty 0) <:+ content :=
        (framedPart_suffix _).trans ((httpGetHead_suffix hok).1.trans hs)
      obtain ⟨v, -, hv, hst⟩ := completedStep_message env content vList trigger (hne hok) hok
      obtain ⟨e, t', he, -⟩ := completedBody_of_not_chunked env vList trigger (v := v)
        hsuf (hv ▸ hhead)
      obtain ⟨l, t, hr⟩ := ih ((nextMessage_suffix _).trans hsuf) (vList ++ [e]) t'
      exact ⟨l, t, (returns_loop (hst.trans he)).2 hr⟩
  | @chunked s rest hok hhead hchunks _ ih =>
      have hsuf : framedPart (httpGetHead s .empty 0) <:+ content :=
        (framedPart_suffix _).trans ((httpGetHead_suffix hok).1.trans hs)
      obtain ⟨v, -, hv, hst⟩ := completedStep_message env content vList trigger (hne hok) hok
      rw [completedBody_of_chunked (hv ▸ hhead)] at hst
      obtain ⟨e, t', -, -, hr⟩ := hchunks.returns env vList trigger hsuf v
      obtain ⟨l, t, hl⟩ := ih ((nextMessage_suffix rest).trans (hchunks.suffix.trans hsuf))
        (vList ++ [e]) t'
      exact ⟨l, t, (returns_loop hst).2 (hr _ hl)⟩

/-- **The language of the decoder**: it returns true exactly on the sequences of
messages. -/
theorem completedReturns_true_iff (hne : content ≠ []) :
    (∃ l t, CompletedReturns env content vList trigger (true, l, t)) ↔ Messages content := by
  simp only [completedReturns_iff hne]
  constructor
  · rintro ⟨l, t, hr⟩
    refine hr.backward (I := CompletedState.In content) (A := CompletedState.Accepts)
      (s := completedStart content trigger) List.suffix_rfl (fun _ _ => completedStep_in)
      fun a ha h => ?_
    have hleads : a.Leads env content := h.imp (fun h => ⟨l, t, h⟩) id
    exact hleads.accepts ha
  · exact fun h => h.returns List.suffix_rfl [] trigger

end HttpTools
end Scaner
