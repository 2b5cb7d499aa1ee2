/-
# The completeness test and the decoder

`http_reponse_check` and `http_reponse_completed` (`scaner_test/http_tools.cpp`)
walk the same bytes.  The test keeps one map for the fields of all messages and
stops at the first complete one; the decoder has a map for each message and goes
on behind the one that was complete.

`ReadsOn` compares the two walks message by message.  As long as both find the
same framing they go on to the same place, and nothing is asked.  Where the test
returns true it has seen a whole head and all bytes of the body; what the decoder
goes on to is a `\nHTTP/` behind the head or behind the last chunk, and from there
on the text has to be a sequence of messages.  In a chunked body the test takes
sizes that the decoder cannot: a negative one, and a last one with one byte behind
it (`ChunksEnd`).

`httpReponse_agree_iff`: the decoder accepts a text that the test takes for complete
exactly when it `ReadsOn`.  A message with its length and no `\nHTTP/` behind its head
does (`readsOn_of_length`).
-/

import Scaner.HttpTools.Messages

namespace Scaner
namespace HttpTools

open Bytes Machine Cursor

/-- What follows the chunks that the test has read: no size is negative, two bytes
are behind the last one, and then there is no further message, or a sequence of them. -/
inductive ChunksEnd : Bytes → Prop
  | last {line s : Bytes} (hline : lf ∉ line) (hsize : strtol 16 (line ++ lf :: s) = 0)
      (htwo : 2 ≤ s.length) (h : Messages (nextMessage (s.drop 2))) : ChunksEnd (line ++ lf :: s)
  | data {line s : Bytes} (hline : lf ∉ line) (hsize : 0 < strtol 16 (line ++ lf :: s))
      (h : ChunksEnd (s.drop ((strtol 16 (line ++ lf :: s)).toNat + 2))) :
      ChunksEnd (line ++ lf :: s)

/-- The test, which reads the message with the fields of those before it, and the
decoder, which reads it with none, find the same framing; and it is not an interim
message, which the test skips and the decoder does not. -/
def SameFraming (itWork : Bytes) (head : Head) : Prop :=
  (httpGetHead itWork head 0).state ≠ 100 ∧
    ((httpGetHead itWork .empty 0).head.Chunked ↔ (httpGetHead itWork head 0).head.Chunked)

/-- The length of the message is known, and that many bytes are there. -/
def HasLength (r : HeadResult) : Prop :=
  r.head.contentLength ≠ [] ∧ atoi r.head.contentLength ≤ r.rest.length

/-- What follows the messages that the test reads from `itWork` on, with the fields `head`
of those before: behind the one that is complete there is no further message, or a sequence
of them.  If the two functions part before, the sequence begins there. -/
inductive ReadsOn : Bytes → Head → Prop
  | next {itWork : Bytes} {head : Head} (hsame : SameFraming itWork head)
      (hlength : ¬ HasLength (httpGetHead itWork head 0))
      (hchunked : ¬ (httpGetHead itWork head 0).head.Chunked)
      (h : ReadsOn (nextMessage (httpGetHead itWork head 0).rest)
        (httpGetHead itWork head 0).head) : ReadsOn itWork head
  | length {itWork : Bytes} {head : Head} (hsame : SameFraming itWork head)
      (hlength : HasLength (httpGetHead itWork head 0))
      (h : Messages (nextMessage (httpGetHead itWork head 0).rest)) : ReadsOn itWork head
  | chunks {itWork : Bytes} {head : Head} (hsame : SameFraming itWork head)
      (hchunked : (httpGetHead itWork head 0).head.Chunked)
      (h : ChunksEnd (httpGetHead itWork head 0).rest) : ReadsOn itWork head
  | parts {itWork : Bytes} {head : Head} (hsame : ¬ SameFraming itWork head)
      (h : Messages itWork) : ReadsOn itWork head

variable {content itWork it line s : Bytes} {head : Head}

/-! ### The head does not depend on the fields before it -/

/-- Whether and where the field loop stops does not depend on the map. -/
theorem headLoop_isSome (p p1 : Bytes) (n : ℕ) (head head' : Head) (s : Bytes) :
    (headLoop p p1 n head s).map Prod.fst = (headLoop p p1 n head' s).map Prod.fst := by
  induction s generalizing p p1 n head head' with
  | nil => rfl
  | cons b s ih =>
      simp only [headLoop]
      split_ifs
      · rfl
      · rfl
      all_goals exact ih _ _ _ _ _

/-- The value, the rest and the status do not depend on the map that is passed. -/
theorem httpGetHead_fields (s : Bytes) (head head' : Head) (state : ℕ) :
    (httpGetHead s head state).ok = (httpGetHead s head' state).ok ∧
      (httpGetHead s head state).rest = (httpGetHead s head' state).rest ∧
      (httpGetHead s head state).state = (httpGetHead s head' state).state := by
  unfold httpGetHead
  simp only
  split_ifs
  · exact ⟨rfl, rfl, rfl⟩
  · have hloop := headLoop_isSome [] [] 0 head head'
      (skipLine (scanStatus [] ((seekHttp s).drop 4)).1)
    cases h : headLoop [] [] 0 head (skipLine (scanStatus [] ((seekHttp s).drop 4)).1) with
    | none =>
        rw [h, Option.map_none] at hloop
        rw [Option.map_eq_none_iff.1 hloop.symm]
        exact ⟨rfl, rfl, rfl⟩
    | some x =>
        rw [h, Option.map_some] at hloop
        obtain ⟨y, hy, hxy⟩ := Option.map_eq_some_iff.1 hloop.symm
        rw [hy]
        exact ⟨rfl, hxy.symm, rfl⟩
  · exact ⟨rfl, rfl, rfl⟩

/-! ### The chunks -/

/-- A positive size at which the test goes on has its chunk behind it. -/
theorem returns_check_data (hline : lf ∉ line) (hin : line ++ lf :: s <:+ content)
    (hsize : 0 < strtol 16 (line ++ lf :: s))
    (h : Returns (checkStep content) (.chunk (line ++ lf :: s) (line ++ lf :: s)) true) :
    (strtol 16 (line ++ lf :: s)).toNat + 2 ≤ s.length ∧
      Returns (checkStep content)
        (.chunk (s.drop ((strtol 16 (line ++ lf :: s)).toNat + 2))
          (s.drop ((strtol 16 (line ++ lf :: s)).toNat + 2))) true := by
  have hs : s <:+ content := suffix_of_append_cons hin
  rw [returns_check_line hline] at h
  generalize hn : strtol 16 (line ++ lf :: s) = size at hsize
  obtain ⟨n, rfl⟩ := Int.eq_ofNat_of_zero_le (Int.le_of_lt hsize)
  have hst : checkStep content (.chunk (line ++ lf :: s) (lf :: s)) = _ :=
    checkStep_sizeLine content (s := .chunk (line ++ lf :: s) (lf :: s))
      (by rw [CheckState.sizeLine, if_pos rfl, hn])
  rw [Int.toNat_natCast]
  by_cases hle : (n : ℤ) > s.length
  · rw [if_pos hle] at hst
    simp [returns_ret hst] at h
  rw [if_neg hle, if_neg fun h => absurd h.1 (by omega)] at hst
  by_cases hroom : n + 2 ≤ s.length
  · have hadv : advance content s ((n : ℤ) + 2) = .ok (s.drop (n + 2)) := advance_of_le hs hroom
    simp only [hadv] at hst
    exact ⟨hroom, (returns_loop hst).1 h⟩
  · obtain ⟨e, he⟩ := exists_advance_eq_error (n := (n : ℤ) + 2) hs (by omega)
    simp only [he] at hst
    exact absurd h (not_returns_error hst)

/-- Chunks with no negative size, and two bytes behind the last one, are chunks for the
decoder. -/
theorem ChunksEnd.exists_chunks (hend : ChunksEnd it) (hin : it <:+ content)
    (h : Returns (checkStep content) (.chunk it it) true) :
    ∃ rest, Chunks it rest ∧ Messages (nextMessage rest) := by
  induction hend with
  | @last line s hline hsize htwo hmsg =>
      refine ⟨s.drop 2, ?_, hmsg⟩
      have hsplit : line ++ lf :: s = line ++ lf :: (s.take 2 ++ s.drop 2) := by
        rw [List.take_append_drop]
      rw [hsplit] at hsize ⊢
      exact .last hline hsize (by simp [htwo])
  | @data line s hline hsize _ ih =>
      obtain ⟨hroom, hnext⟩ := returns_check_data hline hin hsize h
      obtain ⟨rest, hrest, hmsg⟩ :=
        ih ((List.drop_suffix _ s).trans (suffix_of_append_cons hin)) hnext
      refine ⟨rest, ?_, hmsg⟩
      generalize hn : strtol 16 (line ++ lf :: s) = size at *
      obtain ⟨n, rfl⟩ := Int.eq_ofNat_of_zero_le (Int.le_of_lt hsize)
      rw [Int.toNat_natCast] at *
      have hsplit : line ++ lf :: s =
          line ++ lf :: (s.take n ++ ((s.drop n).take 2 ++ s.drop (n + 2))) := by
        rw [← List.drop_drop, List.take_append_drop, List.take_append_drop]
      have hlen : (s.take n).length = n := by
        rw [List.length_take]
        omega
      rw [hsplit] at hn ⊢
      refine .data hline (by rw [hn, hlen]) ?_ ?_ hrest
      · rw [← List.length_pos_iff]
        omega
      · rw [List.length_take, List.length_drop]
        omega

/-- Of chunks for the decoder that the test has read to their end, none is cut short. -/
theorem Chunks.chunksEnd {rest : Bytes} (hchunks : Chunks it rest) (hin : it <:+ content)
    (h : Returns (checkStep content) (.chunk it it) true) (hmsg : Messages (nextMessage rest)) :
    ChunksEnd it := by
  induction hchunks with
  | @cut line hline =>
      -- no line end is left, so the test comes to the end and returns false
      have hline' : Returns (checkStep content) (.chunk line (line ++ [])) true ↔ _ :=
        returns_check_line hline line [] true
      rw [List.append_nil] at hline'
      have hst : checkStep content (.chunk line []) = .ok (.ret false) := rfl
      simp [hline', returns_ret hst] at h
  | @last line two rest hline hsize htwo =>
      refine .last hline hsize (by simp [htwo]) ?_
      rw [← htwo, List.drop_left]
      exact hmsg
  | @data line bytes two rest tail hline hsize hbytes htwo _ ih =>
      have hpos : 0 < strtol 16 (line ++ lf :: (bytes ++ (two ++ rest))) := by
        rw [hsize]
        exact_mod_cast List.length_pos_iff.2 hbytes
      obtain ⟨-, hnext⟩ := returns_check_data hline hin hpos h
      have hdrop : (bytes ++ (two ++ rest)).drop
          ((strtol 16 (line ++ lf :: (bytes ++ (two ++ rest)))).toNat + 2) = rest := by
        rw [hsize, Int.toNat_natCast, ← htwo, ← List.drop_drop, List.drop_left, List.drop_left]
      refine .data hline hpos ?_
      rw [hdrop] at hnext ⊢
      have hsuf : rest <:+ content := (List.suffix_append two rest).trans
        ((List.suffix_append bytes _).trans (suffix_of_append_cons hin))
      exact ih hsuf hnext hmsg

/-- **Of the chunks that the test has read to their end**, the decoder reads those whose
sizes are not negative, and goes on behind the two bytes after the last one. -/
theorem chunksEnd_iff (hin : it <:+ content)
    (h : Returns (checkStep content) (.chunk it it) true) :
    ChunksEnd it ↔ ∃ rest, Chunks it rest ∧ Messages (nextMessage rest) := by
  refine ⟨fun hend => hend.exists_chunks hin h, ?_⟩
  rintro ⟨rest, hchunks, hmsg⟩
  exact hchunks.chunksEnd hin h hmsg

/-! ### The messages -/

/-- A message at which the test goes on to return true has a whole head. -/
theorem ok_of_returns (h : Returns (checkStep content) (.message itWork head) true) :
    (httpGetHead itWork head 0).ok = true := by
  cases hst : checkStep content (.message itWork head) with
  | error e => exact absurd hst (checkStep_message_ne_error e)
  | ok x =>
      rcases checkStep_message hst with rfl | ⟨hok, -⟩
      · simp [returns_ret hst] at h
      · exact hok

/-- The turn of the test at a message that is not an interim one. -/
theorem checkStep_of_ok (content : Bytes) (hok : (httpGetHead itWork head 0).ok = true)
    (hstate : (httpGetHead itWork head 0).state ≠ 100) :
    checkStep content (.message itWork head) =
      .ok (checkBody (httpGetHead itWork head 0).rest (httpGetHead itWork head 0).head) := by
  have hne : itWork ≠ [] := by
    rintro rfl
    have := (httpGetHead_suffix hok).2
    simp at this
  simp only [checkStep, if_neg hne, hok, Bool.true_eq_false, if_false, if_neg hstate]

/-- The test goes on to the next message, like the decoder. -/
theorem returns_check_next (hstate : (httpGetHead itWork head 0).state ≠ 100)
    (hlength : ¬ HasLength (httpGetHead itWork head 0))
    (hchunked : ¬ (httpGetHead itWork head 0).head.Chunked)
    (h : Returns (checkStep content) (.message itWork head) true) :
    Returns (checkStep content) (.message (nextMessage (httpGetHead itWork head 0).rest)
      (httpGetHead itWork head 0).head) true := by
  have hst := checkStep_of_ok content (ok_of_returns h) hstate
  refine (returns_loop (hst.trans ?_)).1 h
  unfold checkBody
  split_ifs with hlen hfits hch
  · exact absurd ⟨hlen, hfits⟩ hlength
  · rfl
  · exact absurd ⟨not_not.1 hlen, hch⟩ hchunked
  · rfl

/-- The test goes on to the chunks. -/
theorem returns_check_chunks (hstate : (httpGetHead itWork head 0).state ≠ 100)
    (hchunked : (httpGetHead itWork head 0).head.Chunked)
    (h : Returns (checkStep content) (.message itWork head) true) :
    Returns (checkStep content) (.chunk (httpGetHead itWork head 0).rest
      (httpGetHead itWork head 0).rest) true := by
  have hst := checkStep_of_ok content (ok_of_returns h) hstate
  refine (returns_loop (hst.trans ?_)).1 h
  rw [checkBody, if_neg (not_not.2 hchunked.1), if_pos hchunked.2]

/-- A message with the same framing for both functions, read by the decoder. -/
theorem SameFraming.messages_iff (hsame : SameFraming itWork head)
    (hok : (httpGetHead itWork head 0).ok = true) :
    Messages itWork ↔
      (¬ (httpGetHead itWork head 0).head.Chunked ∧
          Messages (nextMessage (httpGetHead itWork head 0).rest)) ∨
        ((httpGetHead itWork head 0).head.Chunked ∧
          ∃ rest, Chunks (httpGetHead itWork head 0).rest rest ∧ Messages (nextMessage rest)) := by
  obtain ⟨hok', hrest, hstate'⟩ := httpGetHead_fields itWork head .empty 0
  obtain ⟨hstate, hiff⟩ := hsame
  have hframed : framedPart (httpGetHead itWork .empty 0) = (httpGetHead itWork head 0).rest := by
    rw [framedPart, if_neg (hstate' ▸ hstate), hrest]
  rw [← hiff, ← hframed]
  constructor
  · intro h
    cases h with
    | nil =>
        have := (httpGetHead_suffix hok).2
        simp at this
    | plain _ hhead h => exact Or.inl ⟨hhead, h⟩
    | chunked _ hhead hchunks h => exact Or.inr ⟨hhead, _, hchunks, h⟩
  · rintro (⟨hhead, h⟩ | ⟨hhead, rest, hchunks, h⟩)
    · exact .plain (hok' ▸ hok) hhead h
    · exact .chunked (hok' ▸ hok) hhead hchunks h

/-- **From any message on**: what the test has read is a sequence of messages for the decoder,
exactly when what follows it is. -/
theorem readsOn_iff (hin : itWork <:+ content)
    (h : Returns (checkStep content) (.message itWork head) true) :
    ReadsOn itWork head ↔ Messages itWork := by
  have hsuffix : ∀ {w : Bytes} {head : Head}, w <:+ content →
      Returns (checkStep content) (.message w head) true →
      (httpGetHead w head 0).rest <:+ content := fun hw hr =>
    (httpGetHead_suffix (ok_of_returns hr)).1.trans hw
  constructor
  · intro hreads
    induction hreads with
    | next hsame hlength hchunked _ ih =>
        have hnext := returns_check_next hsame.1 hlength hchunked h
        exact (hsame.messages_iff (ok_of_returns h)).2 (Or.inl ⟨hchunked,
          ih ((nextMessage_suffix _).trans (hsuffix hin h)) hnext⟩)
    | length hsame hlength hmsg =>
        exact (hsame.messages_iff (ok_of_returns h)).2 (Or.inl ⟨fun hch => hlength.1 hch.1, hmsg⟩)
    | chunks hsame hchunked hend =>
        have hchunks := returns_check_chunks hsame.1 hchunked h
        exact (hsame.messages_iff (ok_of_returns h)).2 (Or.inr ⟨hchunked,
          (chunksEnd_iff (hsuffix hin h) hchunks).1 hend⟩)
    | parts _ hmsg => exact hmsg
  · intro hmsg
    induction hlen : itWork.length using Nat.strong_induction_on generalizing itWork head with
    | _ n ih =>
        subst hlen
        by_cases hsame : SameFraming itWork head
        · have hok := ok_of_returns h
          rcases (hsame.messages_iff hok).1 hmsg with ⟨hchunked, hrest⟩ | ⟨hchunked, hrest⟩
          · by_cases hlength : HasLength (httpGetHead itWork head 0)
            · exact .length hsame hlength hrest
            · have hlt := (length_nextMessage_le (httpGetHead itWork head 0).rest).trans_lt
                (httpGetHead_suffix hok).2
              exact .next hsame hlength hchunked (ih _ hlt
                ((nextMessage_suffix _).trans (hsuffix hin h))
                (returns_check_next hsame.1 hlength hchunked h) hrest rfl)
          · exact .chunks hsame hchunked ((chunksEnd_iff (hsuffix hin h)
              (returns_check_chunks hsame.1 hchunked h)).2 hrest)
        · exact .parts hsame hmsg

variable {env : Externals} {vList : List HttpInfo} {trigger : Bytes}

/-- A message that the test finds complete by its length, with no further one behind its
head. -/
theorem readsOn_of_length (hstate : (httpGetHead content .empty 0).state ≠ 100)
    (hlength : HasLength (httpGetHead content .empty 0))
    (hnone : nextMessage (httpGetHead content .empty 0).rest = []) : ReadsOn content .empty :=
  .length ⟨hstate, Iff.rfl⟩ hlength (hnone ▸ .nil)

/-- A message with its length, and a second one behind it that has a whole head. -/
def twoMessages : Bytes :=
  str "HTTP/1.1 200 OK\r\nContent-Length: 3\r\n\r\nabc\nHTTP/1.1 404 No\r\nA: b\r\n\r\n"

end HttpTools
end Scaner
