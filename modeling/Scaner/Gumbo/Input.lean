/-
# What is left to read

The tokenizer and the character references see of a document the code point under the cursor,
the one behind it, and the one at the mark (`html_parser/utf8.h`).  `Rest` says which code points
are left, and `Marked` which ones are left when the iterator has gone back to the mark: with
these two nothing has to be said of bytes, widths and positions again.
-/

import Scaner.Gumbo.Utf8

namespace Scaner
namespace Gumbo

open Bytes Utf8

variable {source : Bytes} {iter iter' : Utf8Iterator} {cs : List ℕ} {c : ℕ}

namespace Utf8Iterator

/-- The code points that are left, that under the cursor in front. -/
def Rest (source : Bytes) (iter : Utf8Iterator) (cs : List ℕ) : Prop :=
  ∃ i, Stands source i iter ∧ decode (source.drop i) = cs

/-- The code points that are left behind a `reset` to `mark`. -/
def Marked (source : Bytes) (mark : ℕ) (cs : List ℕ) : Prop :=
  ∀ iter : Utf8Iterator, iter.start = mark → Rest source (readChar source iter) cs

/-- The code point in front, as `utf8iterator_current` tells it. -/
def front (cs : List ℕ) : ℤ := (cs.head?.map (Nat.cast : ℕ → ℤ)).getD (-1)

/-- At the end of the document `utf8iterator_current` is -1. -/
@[simp]
theorem front_nil : front [] = -1 := rfl

/-- Before the end, `utf8iterator_current` is the next code point. -/
@[simp]
theorem front_cons (c : ℕ) (cs : List ℕ) : front (c :: cs) = c := rfl

/-- -1 means the end, since no code point is negative. -/
theorem front_eq_neg_one_iff : front cs = -1 ↔ cs = [] := by
  cases cs with
  | nil => simp
  | cons c cs =>
      have hne : (c : ℤ) ≠ -1 := by omega
      simp [hne]

/-- A text of no characters is empty. -/
theorem decode_eq_nil {s : Bytes} (h : decode s = []) : s = [] := by
  cases s with
  | nil => rfl
  | cons b s => simp [decode_cons] at h

/-- At the start the whole document is left. -/
theorem rest_init (source : Bytes) : Rest source (init source) (decode source) :=
  ⟨0, stands_init source, rfl⟩

/-- Where an iterator stands is a matter of its pointer, its width and its code point. -/
theorem Stands.congr {i : ℕ} (h : Stands source i iter) (hstart : iter'.start = iter.start)
    (hwidth : iter'.width = iter.width) (hcurrent : iter'.current = iter.current) :
    Stands source i iter' := by
  cases hi : source.drop i with
  | nil =>
      rw [Stands, hi] at h ⊢
      exact ⟨hcurrent.trans h.1, hstart ▸ h.2⟩
  | cons b s =>
      rw [Stands, hi] at h ⊢
      exact ⟨hcurrent.trans h.1, hwidth.trans h.2.1, by rw [hstart, hwidth, h.2.2]⟩

/-- Only the place, the width and the code point count. -/
theorem Rest.congr (h : Rest source iter cs) (hstart : iter'.start = iter.start)
    (hwidth : iter'.width = iter.width) (hcurrent : iter'.current = iter.current) :
    Rest source iter' cs := by
  obtain ⟨i, hstands, hdecode⟩ := h
  exact ⟨i, hstands.congr hstart hwidth hcurrent, hdecode⟩

/-- Setting the mark moves nothing. -/
theorem Rest.setMark (h : Rest source iter cs) : Rest source iter.setMark cs :=
  h.congr rfl rfl rfl

/-- The code point under the cursor is the first that is left. -/
theorem Rest.current (h : Rest source iter cs) : iter.current = front cs := by
  obtain ⟨i, hstands, rfl⟩ := h
  cases hi : source.drop i with
  | nil =>
      rw [Stands, hi] at hstands
      exact hstands.1
  | cons b s =>
      rw [Stands, hi] at hstands
      rw [decode_cons, hstands.1, front_cons]

/-- `utf8iterator_next` takes one code point. -/
theorem Rest.next (h : Rest source iter cs) : Rest source (next source iter) cs.tail := by
  obtain ⟨i, hstands, rfl⟩ := h
  cases hi : source.drop i with
  | nil =>
      obtain ⟨j, hj, hstands'⟩ := hstands.next_of_end (List.drop_eq_nil_iff.1 hi)
      refine ⟨j, hstands', ?_⟩
      rw [List.drop_eq_nil_iff.2 hj]
      rfl
  | cons b s =>
      refine ⟨_, hstands.next hi, ?_⟩
      rw [decode_cons, List.tail_cons, ← hi, List.drop_drop]

/-- Only a bad character is delivered as the replacement character with an error. -/
theorem Rest.next_errors (h : Rest source iter cs)
    (hgood : cs.tail.head? ≠ some kUtf8ReplacementChar) :
    (Utf8Iterator.next source iter).errors = iter.errors := by
  by_cases hlt : iter.start + iter.width < source.length
  · obtain ⟨b, s, hdrop⟩ := List.exists_cons_of_ne_nil (List.drop_eq_nil_iff.not.2 (by omega) :
      source.drop (iter.start + iter.width) ≠ [])
    have hnext : Utf8Iterator.next source iter = readChar source iter.advanced := if_pos hlt
    have hread : ReadFrom iter.advanced (readBytes b s) (readChar source iter.advanced) :=
      readChar_readFrom hdrop
    have hcurrent := h.next.current
    rw [hnext, hread.current] at hcurrent
    rw [hnext, readChar_errors hdrop]
    · rfl
    · by_contra hbad
      rw [Bool.not_eq_false] at hbad
      rw [codePoint_of_isBadChar hbad] at hcurrent
      cases hcs : cs.tail with
      | nil =>
          rw [hcs] at hcurrent
          exact absurd hcurrent (by decide)
      | cons c rest =>
          rw [hcs, front_cons, Nat.cast_inj] at hcurrent
          exact hgood (by rw [hcs, ← hcurrent]; rfl)
  · have hnext : Utf8Iterator.next source iter = { iter.advanced with current := -1 } :=
      if_neg hlt
    rw [hnext]
    rfl

/-- `k` calls take `k` code points. -/
theorem Rest.iterate (h : Rest source iter cs) (k : ℕ) :
    Rest source ((Utf8Iterator.next source)^[k] iter) (cs.drop k) := by
  induction k with
  | zero => exact h
  | succ k ih =>
      rw [Function.iterate_succ_apply', ← List.tail_drop]
      exact ih.next

/-- The errors that have been recorded stay the same over characters that are not bad. -/
theorem Rest.iterate_errors {k : ℕ} (h : Rest source iter cs)
    (hgood : ∀ c ∈ (cs.drop 1).take k, c ≠ kUtf8ReplacementChar) :
    ((Utf8Iterator.next source)^[k] iter).errors = iter.errors := by
  induction k with
  | zero => rfl
  | succ k ih =>
      have hlast : (cs.drop k).tail.head? ≠ some kUtf8ReplacementChar := by
        intro hbad
        refine hgood _ ?_ rfl
        rw [List.tail_drop, List.head?_drop] at hbad
        rw [List.take_add_one, List.getElem?_drop, Nat.add_comm 1 k, hbad]
        simp
      rw [Function.iterate_succ_apply', (h.iterate k).next_errors hlast]
      refine ih fun c hc => hgood c ?_
      rw [List.take_add_one]
      exact List.mem_append_left _ hc

/-- What is left has been read as code points that can be delivered. -/
theorem Rest.delivered (h : Rest source iter cs) (hc : c ∈ cs) : Delivered c := by
  obtain ⟨i, -, rfl⟩ := h
  exact delivered_of_mem_decode hc

/-- There is a byte for each code point that is left. -/
theorem Rest.length_le (h : Rest source iter cs) : cs.length ≤ source.length := by
  obtain ⟨i, -, rfl⟩ := h
  exact (length_decode_le _).trans (by simp)

/-- In front of a byte there is a code point left. -/
theorem Rest.start_lt (h : Rest source iter cs) (hne : iter.start < source.length) : cs ≠ [] := by
  rintro rfl
  obtain ⟨i, hstands, hdecode⟩ := h
  rw [Stands, decode_eq_nil hdecode] at hstands
  exact absurd hne (Nat.not_lt.2 hstands.2)

/-- A mark on anything but a line break can be gone back to. -/
theorem Rest.marked (h : Rest source iter (c :: cs)) (hc : c ≠ 10) :
    Marked source iter.start (c :: cs) := by
  obtain ⟨i, hstands, hdecode⟩ := h
  cases hi : source.drop i with
  | nil =>
      rw [hi] at hdecode
      cases hdecode
  | cons b s =>
      rw [Stands, hi] at hstands
      obtain ⟨hcurrent, hwidth, hstart⟩ := hstands
      have hcode : (readBytes b s).codePoint = c := by
        rw [hi, decode_cons] at hdecode
        exact (List.cons.inj hdecode).1
      have hskip : (readBytes b s).skipsCr = false := by
        by_contra hskip
        rw [Bool.not_eq_false] at hskip
        exact hc (hcode ▸ (skipsCr_spec hskip).1)
      have hplace : iter.start = i := by
        rw [CharRead.size, hskip, hwidth] at hstart
        simpa using hstart
      intro iter' hiter'
      rw [hplace] at hiter'
      have hread : ReadFrom iter' (readBytes b s) (readChar source iter') :=
        readChar_readFrom (by rw [hiter', hi])
      refine ⟨i, ?_, hdecode⟩
      rw [← hiter']
      exact Stands.of_readFrom (by rw [hiter', hi]) hread

/-- Going back to a mark gives back what was left there. -/
theorem Marked.reset (h : Marked source iter.mark cs) : Rest source (reset source iter) cs :=
  h _ rfl

/-- `utf8iterator_maybe_consume_match` does not move, or takes as many code points as the text has
bytes. -/
theorem match_cases (source : Bytes) (iter : Utf8Iterator) (pre : Bytes) (caseSensitive : Bool) :
    maybeConsumeMatch source iter pre caseSensitive = (false, iter) ∨
      iter.start + pre.length ≤ source.length ∧
        maybeConsumeMatch source iter pre caseSensitive =
          (true, (Utf8Iterator.next source)^[pre.length] iter) := by
  rw [maybeConsumeMatch]
  generalize (if caseSensitive then _ else _ : Bool) = same
  cases hm : decide (iter.start + pre.length ≤ source.length) && same with
  | false => exact .inl rfl
  | true => exact .inr ⟨of_decide_eq_true (Bool.and_eq_true_iff.1 hm).1, rfl⟩

/-- What is matched is not at the end; the iterator goes on by as many code points as there are
bytes in the prefix. -/
theorem Rest.match_true {pre : Bytes} {caseSensitive : Bool} (h : Rest source iter cs)
    (hpre : pre ≠ []) (hmatch : (maybeConsumeMatch source iter pre caseSensitive).1 = true) :
    cs ≠ [] ∧ Rest source (maybeConsumeMatch source iter pre caseSensitive).2
      (cs.drop pre.length) := by
  have hpos := List.length_pos_iff.2 hpre
  obtain hfalse | ⟨hle, htrue⟩ := match_cases source iter pre caseSensitive
  · rw [hfalse] at hmatch
    cases hmatch
  · rw [htrue]
    exact ⟨h.start_lt (by omega), h.iterate _⟩

end Utf8Iterator

end Gumbo
end Scaner
