/-
# Chunked bodies

A chunked body as a server writes it: every chunk is its size in hexadecimal, a line break,
the data and a line break, and the body ends with a chunk of size `0`.  A `Chunk` keeps the
conditions of the format, and a `ChunkedHead` announces such a body.

The chunk loops of `http_reponse_check` and `http_reponse_completed`
(`scaner_test/http_tools.cpp`) look for a newline only in the line of a size: behind the size
they jump over the data, whatever it is (`returns_check_chunk`, `returns_completed_chunk`).
So both take the whole body, and the decoder puts the data together
(`ChunkedHead.decodes`).
-/

import Scaner.HttpTools.HeadText
import Scaner.HttpTools.Messages

namespace Scaner
namespace HttpTools

open Bytes Machine Cursor

/-! ### The text of a body -/

/-- A chunk: its size as it is written, and its data. -/
structure Chunk where
  size : Bytes
  data : Bytes
  data_ne : data ≠ []
  data_lt : data.length < 2 ^ 31
  size_ok : IsHex size data.length

namespace Chunk

/-- A chunk with its size and its line breaks. -/
def bytes (c : Chunk) : Bytes := c.size ++ ([cr, lf] ++ (c.data ++ [cr, lf]))

/-- The chunk in front of `rest`, cut behind the line of its size. -/
def inFront (c : Chunk) (rest : Bytes) : Bytes :=
  (c.size ++ [cr]) ++ lf :: (c.data ++ ([cr, lf] ++ rest))

variable {c : Chunk} {rest content : Bytes}

/-- What stands behind the size of a chunk, and behind the chunk. -/
theorem suffix_of_inFront (h : c.inFront rest <:+ content) :
    c.data ++ ([cr, lf] ++ rest) <:+ content ∧ rest <:+ content := by
  have hdata : c.data ++ ([cr, lf] ++ rest) <:+ content := suffix_of_append_cons h
  exact ⟨hdata, (List.suffix_append _ _).trans ((List.suffix_append _ _).trans hdata)⟩

/-- The line of the size has no newline in it. -/
theorem size_line (c : Chunk) : lf ∉ c.size ++ [cr] := by
  intro h
  rcases List.mem_append.1 h with h | h
  · have hlf := (hexDigit_spec (c.size_ok.digits lf h)).2
    exact hlf (by decide)
  · exact absurd h (by decide)

/-- The size of a chunk is read back. -/
theorem strtol_inFront (c : Chunk) (rest : Bytes) :
    strtol 16 (c.inFront rest) = c.data.length := by
  have hcons : c.inFront rest = c.size ++ cr :: (lf :: (c.data ++ ([cr, lf] ++ rest))) := by
    simp [inFront]
  rw [hcons]
  exact c.size_ok.strtol_eq c.data_lt _

/-- There is room for a chunk and the line break behind it. -/
theorem length_add_two_le (c : Chunk) (rest : Bytes) :
    c.data.length + 2 ≤ (c.data ++ ([cr, lf] ++ rest)).length := by
  rw [List.length_append, List.length_append]
  exact Nat.add_le_add_left (Nat.le_add_right _ _) _

/-- Behind a chunk and its line break the rest begins. -/
theorem drop_data (c : Chunk) (rest : Bytes) :
    (c.data ++ ([cr, lf] ++ rest)).drop (c.data.length + 2) = rest := by
  rw [← List.drop_drop, List.drop_left]
  rfl

end Chunk

/-- The chunks, and the one of size `0` at the end. -/
def chunkedBody (chunks : List Chunk) : Bytes :=
  chunks.flatMap Chunk.bytes ++ str "0\r\n\r\n"

/-- The first chunk, and the others. -/
theorem chunkedBody_cons (c : Chunk) (chunks : List Chunk) :
    chunkedBody (c :: chunks) = c.inFront (chunkedBody chunks) := by
  simp [chunkedBody, Chunk.bytes, Chunk.inFront]

/-- The last size is zero. -/
theorem strtol_chunkedBody_nil : strtol 16 (chunkedBody []) = 0 := by decide

/-! ### The test -/

variable {content : Bytes}

/-- The test goes from a chunk to the next one. -/
theorem returns_check_chunk (c : Chunk) {rest : Bytes} (hs : c.inFront rest <:+ content)
    {r : Bool} :
    Returns (checkStep content) (.chunk (c.inFront rest) (c.inFront rest)) r ↔
      Returns (checkStep content) (.chunk rest rest) r := by
  have hle := c.length_add_two_le rest
  have hne : c.data.length ≠ 0 := by simpa using c.data_ne
  have hadv : advance content (c.data ++ ([cr, lf] ++ rest)) ((c.data.length : ℤ) + 2) =
      .ok ((c.data ++ ([cr, lf] ++ rest)).drop (c.data.length + 2)) :=
    advance_of_le (Chunk.suffix_of_inFront hs).1 hle
  rw [c.drop_data] at hadv
  refine (returns_check_line c.size_line (c.inFront rest)
    (lf :: (c.data ++ ([cr, lf] ++ rest))) r).trans (returns_loop ?_)
  simp only [checkStep, if_true, c.strtol_inFront]
  rw [if_neg (by omega), if_neg (by omega), hadv]

/-- The test returns true at the end of the chunks. -/
theorem returns_check_chunkedBody (chunks : List Chunk) (hs : chunkedBody chunks <:+ content) :
    Returns (checkStep content) (.chunk (chunkedBody chunks) (chunkedBody chunks)) true := by
  induction chunks with
  | nil =>
      have hzero : lf ∉ str "0\r" := by decide
      refine (returns_check_line hzero (chunkedBody []) (lf :: [cr, lf]) true).2
        ((returns_ret ?_).2 rfl)
      rw [checkStep, if_pos rfl, strtol_chunkedBody_nil]
      rfl
  | cons c chunks ih =>
      rw [chunkedBody_cons] at hs ⊢
      rw [returns_check_chunk c hs]
      exact ih (Chunk.suffix_of_inFront hs).2

/-! ### The decoder -/

variable {env : Externals} {v : HttpInfo} {vList : List HttpInfo} {trigger : Bytes}

/-- The decoder adds the data of a chunk to the body, and goes on to the next one. -/
theorem returns_completed_chunk (c : Chunk) {rest : Bytes} (hs : c.inFront rest <:+ content)
    {r : CompletedResult} :
    Returns (completedStep env content)
        (.chunk (c.inFront rest) (c.inFront rest) v vList trigger) r ↔
      Returns (completedStep env content)
        (.chunk rest rest { v with bodyOrigin := v.bodyOrigin ++ c.data } vList trigger) r := by
  have hpos : 0 < c.data.length := List.length_pos_iff.2 c.data_ne
  have hst := completedStep_data env v vList trigger (Chunk.suffix_of_inFront hs).1
    (c.strtol_inFront rest) hpos (c.length_add_two_le rest)
  rw [c.drop_data, List.take_left] at hst
  have hline : Returns (completedStep env content)
      (.chunk (c.inFront rest) (c.inFront rest) v vList trigger) r ↔ _ :=
    returns_chunk_line c.size_line
  exact hline.trans (returns_loop hst)

/-- The decoder comes to the end of the chunks with the data of all of them. -/
theorem returns_completed_chunkedBody (chunks : List Chunk) (v : HttpInfo)
    (hs : chunkedBody chunks <:+ content) {e : HttpInfo} {t : Bytes}
    (he : finished env [] { v with bodyOrigin := v.bodyOrigin ++ chunks.flatMap Chunk.data }
      trigger = (e, t)) :
    Returns (completedStep env content)
      (.chunk (chunkedBody chunks) (chunkedBody chunks) v vList trigger)
      (true, vList ++ [e], t) := by
  induction chunks generalizing v with
  | nil =>
      have hsuf : [cr, lf] <:+ content :=
        (List.suffix_cons lf _).trans ((List.suffix_append (str "0\r") _).trans hs)
      have hadv : advance content [cr, lf] 2 = .ok [] := advance_of_le (k := 2) hsuf le_rfl
      have hst : completedStep env content (.chunk (chunkedBody []) (lf :: [cr, lf]) v vList
          trigger) = .ok (.loop (.message [] (vList ++ [e]) t)) := by
        rw [List.flatMap_nil, List.append_nil] at he
        rw [completedStep, if_pos rfl, strtol_chunkedBody_nil]
        simp only [hadv]
        change finishMessage env [] v vList trigger = _
        rw [finishMessage_eq, he]
        rfl
      have hline : Returns (completedStep env content)
          (.chunk (chunkedBody []) (str "0\r" ++ lf :: [cr, lf]) v vList trigger)
          (true, vList ++ [e], t) ↔ _ := returns_chunk_line (by decide)
      exact hline.2 ((returns_loop hst).2 ((returns_ret rfl).2 rfl))
  | cons c chunks ih =>
      rw [chunkedBody_cons] at hs ⊢
      rw [returns_completed_chunk c hs]
      refine ih _ (Chunk.suffix_of_inFront hs).2 ?_
      rw [← he, List.flatMap_cons, List.append_assoc]

/-! ### Responses with a chunked body -/

/-- The head of a final response with a chunked body, for any version of the protocol. -/
structure ChunkedHead where
  eol : Eol
  version : Bytes
  version_ok : ∀ c ∈ version, c ≠ space
  code : Bytes
  status : ℕ
  code_ok : IsDecimal code status
  status_lt : status < 2 ^ 31
  final : status ≠ 100
  reason : Bytes
  reason_ok : ∀ c ∈ reason, c ≠ lf
  fields : List Field
  encoding : ∃ f ∈ fields, f.key = str "transfer-encoding" ∧ str "chunked" <:+: f.value
  no_length : ∀ f ∈ fields, f.key ≠ str "content-length"
  no_encoding : ∀ f ∈ fields, f.key ≠ str "content-encoding"

namespace ChunkedHead

variable (h : ChunkedHead)

/-- The head as it is sent. -/
def bytes : Bytes :=
  str "HTTP" ++ (h.version ++ space :: (h.code ++ space :: (h.reason ++ (h.eol.bytes ++
    (h.fields.flatMap (Field.line h.eol) ++ h.eol.bytes)))))

/-- A chunked head has a field. -/
theorem fields_ne : h.fields ≠ [] := by
  obtain ⟨f, hf, -⟩ := h.encoding
  exact List.ne_nil_of_mem hf

/-- A message is not empty. -/
theorem bytes_append_ne (c : Bytes) : h.bytes ++ c ≠ [] := by simp [bytes, str]

/-- What is read of a chunked head. -/
theorem httpGetHead_bytes (body : Bytes) (state : ℕ) :
    httpGetHead (h.bytes ++ body) .empty state = ⟨true, body, headInfo h.fields, h.status⟩ := by
  have hbytes : h.bytes ++ body = str "HTTP" ++ (h.version ++ space :: (h.code ++ space ::
      (h.reason ++ (h.eol.bytes ++ (h.fields.flatMap (Field.line h.eol) ++
        (h.eol.bytes ++ body)))))) := by
    simp [bytes]
  have hcode : ∀ c ∈ h.code, c ≠ space := fun c hc => IsDecimal.ne_of_mem h.code_ok (by decide) hc
  rw [hbytes, httpGetHead_spaces h.version_ok hcode h.code_ok.ne_nil,
    skipLine_append h.reason_ok, skipLine_eol, headLoop_fields h.eol h.fields_ne, addFields_empty,
    toSize_atoi h.code_ok h.status_lt]

/-- A name that no field has is not in the map. -/
theorem index_of_not_mem {k : Bytes} (hk : ∀ f ∈ h.fields, f.key ≠ k) :
    (headInfo h.fields).index k = [] := by
  rw [← addFields_empty, Head.index, addFields_of_not_mem hk]
  rfl

/-- The head announces chunks. -/
theorem chunked : (headInfo h.fields).Chunked := by
  obtain ⟨f, hf, hkey, hvalue⟩ := h.encoding
  have hcontent : str "chunked" <:+: f.content :=
    infix_trim_of_not_mem (forall_mem_of_all rfl) hvalue
  have hne : f.content ≠ [] := by
    rintro hnil
    rw [hnil, List.infix_nil] at hcontent
    exact absurd hcontent (by decide)
  have hmem : f.content ∈ contents h.fields (str "transfer-encoding") := by
    refine List.mem_filter.2 ⟨List.mem_map_of_mem (List.mem_filter.2 ⟨hf, ?_⟩), ?_⟩
    · simpa using hkey
    · simpa using hne
  have hindex : str "chunked" <:+: (headInfo h.fields).index (str "transfer-encoding") := by
    rw [Head.index, headInfo, if_neg (List.ne_nil_of_mem hmem)]
    exact hcontent.trans (infix_intercalate_of_mem hmem)
  refine ⟨h.index_of_not_mem h.no_length, ?_⟩
  rw [Head.isChunked, Bool.and_eq_true, decide_eq_true_eq, containsSub_iff]
  refine ⟨fun hnil => ?_, hindex⟩
  rw [hnil, List.infix_nil] at hindex
  exact absurd hindex (by decide)

/-- **Chunked bodies are decoded exactly**: the test takes the response for complete, and the
decoder returns true with one entry, whose body is the data of the chunks. -/
theorem decodes (env : Externals) (chunks : List Chunk) (vList : List HttpInfo)
    (trigger : Bytes) :
    CheckReturns (h.bytes ++ chunkedBody chunks) true ∧
      ∃ e t, CompletedReturns env (h.bytes ++ chunkedBody chunks) vList trigger (true, [e], t) ∧
        e.bodyOrigin = chunks.flatMap Chunk.data := by
  have hne := h.bytes_append_ne (chunkedBody chunks)
  have hsuf : chunkedBody chunks <:+ h.bytes ++ chunkedBody chunks := List.suffix_append _ _
  have hlength : (headInfo h.fields).contentLength = [] := h.chunked.1
  constructor
  · rw [checkReturns_iff, checkStart]
    refine (returns_loop ?_).2 (returns_check_chunkedBody chunks hsuf)
    simp only [checkStep, if_neg hne, h.httpGetHead_bytes, h.final, Bool.true_eq_false, if_false,
      checkBody, hlength, ne_eq, not_true_eq_false, h.chunked.2, if_true]
  · -- the entry as the head leaves it, and as the chunks do
    let v : HttpInfo := { status := h.status, head := headInfo h.fields }
    let r := finished env [] { v with bodyOrigin := v.bodyOrigin ++ chunks.flatMap Chunk.data }
      trigger
    refine ⟨r.1, r.2, ?_, ?_⟩
    · rw [completedReturns_iff hne, completedStart]
      have hchunks : Returns (completedStep env (h.bytes ++ chunkedBody chunks))
          (.chunk (chunkedBody chunks) (chunkedBody chunks) v [] trigger) (true, [r.1], r.2) :=
        returns_completed_chunkedBody chunks v hsuf rfl
      refine (returns_loop ?_).2 hchunks
      simp only [completedStep, if_neg hne, h.httpGetHead_bytes, h.final, Bool.true_eq_false,
        if_false]
      exact completedBody_of_chunked h.chunked
    · have hbody : r.1.bodyOrigin = v.bodyOrigin ++ chunks.flatMap Chunk.data ++ [].take _ :=
        finished_bodyOrigin (h.index_of_not_mem h.no_encoding) [] trigger
      rw [List.take_nil, List.append_nil] at hbody
      exact hbody

end ChunkedHead

example : ∃ h : ChunkedHead, h.bytes =
    str "HTTP/1.0 200 OK\r\nX: y\r\nTransfer-Encoding: gzip, chunked;\r\n\r\n" :=
  ⟨{  eol := .crlf
      version := str "/1.0"
      version_ok := forall_mem_of_all rfl
      code := str "200"
      status := 200
      code_ok := ⟨by decide, forall_mem_of_all rfl, by decide⟩
      status_lt := by decide
      final := by decide
      reason := str "OK"
      reason_ok := forall_mem_of_all rfl
      fields := [
        ⟨str "X", str " y", by decide, forall_mem_of_all rfl, forall_mem_of_all rfl⟩,
        ⟨str "Transfer-Encoding", str " gzip, chunked;", by decide, forall_mem_of_all rfl,
          forall_mem_of_all rfl⟩]
      encoding := ⟨_, List.mem_cons_of_mem _ (List.mem_singleton_self _), by decide, by decide⟩
      no_length := by decide
      no_encoding := by decide }, by decide⟩

end HttpTools
end Scaner
