/-
# The lines of a head

The field loop of `http_get_head` (`scaner_test/http_tools.hpp`) on any text, whether a
server would write it as a head or not.  It goes through the text byte by byte, with pointers
to the start of the line, to the first `':'` in it and to the byte behind that.

`headLoop_eq`: it stops at the first `"\r\n\r\n"` or `"\n\n"`; up to there it cuts the text
into lines at the newlines, and stores the field of every line that has a name in front of a
`':'`.  What a head with written fields gives (`Scaner.HttpTools.HeadText`) and that bytes
behind the empty line change nothing (`headLoop_append`) is then said of lines.
-/

import Scaner.HttpTools.Head
import Scaner.Lib.Find

namespace Scaner
namespace HttpTools

open Bytes

/-- The text up to the empty line, and what is behind it. -/
def splitBlank : Bytes → Option (Bytes × Bytes)
  | [] => none
  | b :: s =>
      if startsWith (b :: s) (str "\r\n\r\n") then some ([], (b :: s).drop 4)
      else if startsWith (b :: s) (str "\n\n") then some ([], (b :: s).drop 2)
      else (splitBlank s).map fun r => (b :: r.1, r.2)

/-- A line stored as a field: its name is the text up to the first `':'`. -/
def storeLine (head : Head) (line : Bytes) : Head :=
  if untilAny [colon] line = [] then head
  else addValue ((untilAny [colon] line).map toLower)
    (trim valueEnds ((fromAny [colon] line).drop 1)) head

/-- The lines of a text stored as fields. -/
def storeLines (head : Head) (text : Bytes) : Head := (text.splitOn lf).foldl storeLine head

/-- A text with no newline is one line. -/
theorem storeLines_of_not_mem {line : Bytes} (h : lf ∉ line) (head : Head) :
    storeLines head line = storeLine head line := by
  rw [storeLines, List.splitOn_eq_singleton h]
  rfl

/-- The first line of a text is stored, and then the others. -/
theorem storeLines_append {line : Bytes} (h : lf ∉ line) (head : Head) (text : Bytes) :
    storeLines head (line ++ lf :: text) = storeLines (storeLine head line) text := by
  rw [storeLines, List.splitOn_append_cons_self_of_not_mem h]
  rfl

/-- The pointers of the loop when `line` is read of a line and `s` is to come. -/
structure Reading (line s p p1 : Bytes) (n : ℕ) : Prop where
  line_ok : lf ∉ line
  start : p = if line = [] then [] else line ++ s
  field : (colon ∉ line ∧ p1 = [] ∧ n = 0) ∨
    ∃ name value, line = name ++ colon :: value ∧ colon ∉ name ∧ p1 = value ++ s ∧
      n = name.length

/-- In front of a line nothing of it has been read. -/
theorem Reading.init (s : Bytes) : Reading [] s [] [] 0 :=
  ⟨by simp, rfl, Or.inl ⟨by simp, rfl, rfl⟩⟩

variable {line s p p1 : Bytes} {n : ℕ} {b : UInt8} {head : Head}

/-- The first `':'` of a line ends its name. -/
theorem untilAny_colon {name : Bytes} (h : colon ∉ name) (value : Bytes) :
    untilAny [colon] (name ++ colon :: value) = name ∧
      fromAny [colon] (name ++ colon :: value) = colon :: value := by
  have huntil := untilAny_append_cons h value
  refine ⟨huntil, ?_⟩
  have hcut := untilAny_append_fromAny [colon] (name ++ colon :: value)
  rw [huntil] at hcut
  exact List.append_cancel_left hcut

/-- Where a line ends, it is stored.  The pointer to its start may have been set there. -/
theorem Reading.storeField (h : Reading line (b :: s) p p1 n) {q : Bytes} (hq : p ≠ [] → q = p) :
    storeField q n p1 (p1.length - (b :: s).length) head = storeLine head line := by
  rcases h.field with ⟨hcolon, rfl, rfl⟩ | ⟨name, value, rfl, hname, rfl, rfl⟩
  · -- a line with no `':'` has no value
    rw [HttpTools.storeField, if_neg (by simp), storeLine, untilAny_of_not_mem hcolon]
    have hnone : fromAny [colon] line = [] :=
      fromAny_eq_nil_iff.2 fun c hc hset => hcolon (List.mem_singleton.1 hset ▸ hc)
    split_ifs
    · rfl
    · rw [hnone]
      exact (if_pos rfl).symm
  · have hp : p = name ++ colon :: value ++ b :: s := by rw [h.start, if_neg (by simp)]
    obtain rfl : q = p := hq (by simp [hp])
    have htake : (value ++ b :: s).take ((value ++ b :: s).length - (b :: s).length) = value := by
      rw [List.length_append, Nat.add_sub_cancel]
      exact List.take_left
    obtain ⟨huntil, hfrom⟩ := untilAny_colon hname value
    rw [storeLine, huntil, hfrom, hp, HttpTools.storeField, htake]
    simp only [List.append_assoc, List.take_left, List.drop_one, List.tail_cons]
    by_cases hnil : name = []
    · rw [if_neg (by simp [hnil]), if_pos hnil]
    rw [if_neg hnil]
    by_cases hvalue : value = []
    · subst hvalue
      rw [if_neg (by simp)]
      exact (if_pos rfl).symm
    · have hpos : 0 < name.length ∧ 0 < value.length :=
        ⟨List.length_pos_iff.2 hnil, List.length_pos_iff.2 hvalue⟩
      rw [if_pos ⟨by simp, by simp, hpos.1, by simp [hpos.2]⟩]

/-- A byte that does not end the line is read. -/
theorem Reading.cons (h : Reading line (b :: s) p p1 n) (hb : b ≠ lf)
    (hcolon : ¬ (p1 = [] ∧ b = colon)) :
    Reading (line ++ [b]) s (if p = [] then b :: s else p) p1 n := by
  refine ⟨by simp [h.line_ok, Ne.symm hb], ?_, ?_⟩
  · rw [h.start]
    by_cases hline : line = []
    · simp [hline]
    · simp [hline]
  · rcases h.field with ⟨hnone, rfl, rfl⟩ | ⟨name, value, rfl, hname, rfl, rfl⟩
    · refine Or.inl ⟨?_, rfl, rfl⟩
      have hbc : b ≠ colon := fun hbc => hcolon ⟨rfl, hbc⟩
      simp [hnone, Ne.symm hbc]
    · exact Or.inr ⟨name, value ++ [b], by simp, hname, by simp, rfl⟩

/-- The first `':'` of a line is read. -/
theorem Reading.atColon (h : Reading line (colon :: s) p p1 n) (hp1 : p1 = []) :
    Reading (line ++ [colon]) s (if p = [] then colon :: s else p) s
      ((if p = [] then colon :: s else p).length - (colon :: s).length) := by
  have hnone : colon ∉ line := by
    rcases h.field with ⟨hnone, -, -⟩ | ⟨name, value, -, -, rfl, -⟩
    · exact hnone
    · simp at hp1
  have hp : (if p = [] then colon :: s else p) = line ++ colon :: s := by
    rw [h.start]
    by_cases hline : line = []
    · simp [hline]
    · simp [hline]
  refine ⟨by simpa [h.line_ok] using (by decide : lf ≠ colon), ?_, ?_⟩
  · rw [hp]
    simp
  · refine Or.inr ⟨line, [], rfl, hnone, rfl, ?_⟩
    rw [hp, List.length_append]
    omega

/-- The loop from the middle of a line on. -/
theorem Reading.headLoop (h : Reading line s p p1 n) (head : Head) :
    headLoop p p1 n head s =
      (splitBlank s).map fun r => (r.2, storeLines head (line ++ r.1)) := by
  induction s generalizing line p p1 n head with
  | nil => rfl
  | cons b s ih =>
      have hend : HttpTools.storeField p n p1 (p1.length - (b :: s).length) head =
          storeLines head (line ++ []) := by
        rw [List.append_nil, storeLines_of_not_mem h.line_ok]
        exact h.storeField fun _ => rfl
      rw [HttpTools.headLoop, splitBlank]
      by_cases hcrlf : startsWith (b :: s) (str "\r\n\r\n") = true
      · rw [if_pos hcrlf, if_pos hcrlf, hend]
        rfl
      rw [if_neg hcrlf, if_neg hcrlf]
      by_cases hlf : startsWith (b :: s) (str "\n\n") = true
      · rw [if_pos hlf, if_pos hlf, hend]
        rfl
      rw [if_neg hlf, if_neg hlf, Option.map_map]
      simp only
      by_cases hcolon : p1 = [] ∧ b = colon
      · obtain ⟨hp1, rfl⟩ := hcolon
        rw [if_pos ⟨hp1, rfl⟩, ih (h.atColon hp1)]
        simp [Function.comp_def]
      rw [if_neg hcolon]
      by_cases hb : b = lf
      · subst hb
        have hline : HttpTools.storeField (if p = [] then lf :: s else p) n p1
            (p1.length - (lf :: s).length) head = storeLine head line :=
          h.storeField fun hp => if_neg hp
        rw [if_pos rfl, hline, ih (.init s)]
        simp [Function.comp_def, storeLines_append h.line_ok]
      · rw [if_neg hb, ih (h.cons hb hcolon)]
        simp [Function.comp_def]

/-- **What the field loop makes of any text**: it stores the lines up to the first empty line,
and stops behind that. -/
theorem headLoop_eq (head : Head) (s : Bytes) :
    headLoop [] [] 0 head s = (splitBlank s).map fun r => (r.2, storeLines head r.1) :=
  (Reading.init s).headLoop head

/-! ### Empty lines -/

/-- `s` does not begin with an empty line. -/
def NotBlank (s : Bytes) : Prop :=
  startsWith s (str "\n") = false ∧ startsWith s (str "\r\n") = false

/-- An empty line that begins with CR: its first byte, and the others. -/
theorem startsWith_crlf_crlf (b : UInt8) (s : Bytes) :
    startsWith (b :: s) (str "\r\n\r\n") = (cr == b && startsWith s (str "\n\r\n")) := rfl

/-- An empty line that is begun: its next byte, and the others. -/
theorem startsWith_lf_crlf (b : UInt8) (s : Bytes) :
    startsWith (b :: s) (str "\n\r\n") = (lf == b && startsWith s (str "\r\n")) := rfl

/-- An empty line with LF only, byte by byte. -/
theorem startsWith_lf_lf (b : UInt8) (s : Bytes) :
    startsWith (b :: s) (str "\n\n") = (lf == b && startsWith s (str "\n")) := rfl

/-- A byte other than a line end starts no empty line. -/
theorem not_blank_of_ne {b : UInt8} {s : Bytes} (hb : b ≠ lf)
    (hs : startsWith s (str "\n\r\n") = false ∨ b ≠ cr) :
    startsWith (b :: s) (str "\r\n\r\n") = false ∧ startsWith (b :: s) (str "\n\n") = false := by
  rw [startsWith_crlf_crlf, startsWith_lf_lf]
  have h₁ : (lf == b) = false := by simpa using Ne.symm hb
  refine ⟨?_, by simp [h₁]⟩
  rcases hs with h | h
  · simp [h]
  · have : (cr == b) = false := by simpa using Ne.symm h
    simp [this]

/-- A text that begins with no line end begins with no empty line. -/
theorem NotBlank.of_ne {b : UInt8} {s : Bytes} (hr : b ≠ cr) (hl : b ≠ lf) : NotBlank (b :: s) := by
  have h₁ : (lf == b) = false := by simpa using Ne.symm hl
  have h₂ : (cr == b) = false := by simpa using Ne.symm hr
  exact ⟨by change (lf == b && _) = false; simp [h₁], by change (cr == b && _) = false; simp [h₂]⟩

section Blank

variable {x t : Bytes}

/-- A byte that begins no empty line is passed over. -/
theorem splitBlank_cons {b : UInt8} (hcrlf : startsWith (b :: t) (str "\r\n\r\n") = false)
    (hlf : startsWith (b :: t) (str "\n\n") = false) :
    splitBlank (b :: t) = (splitBlank t).map fun r => (b :: r.1, r.2) := by
  rw [splitBlank, hcrlf, hlf, if_neg (by simp), if_neg (by simp)]

/-- Bytes with no line end among them belong to the first line. -/
theorem splitBlank_pass (hx : ∀ c ∈ x, c ≠ cr ∧ c ≠ lf) :
    splitBlank (x ++ t) = (splitBlank t).map fun r => (x ++ r.1, r.2) := by
  induction x with
  | nil => simp
  | cons b x ih =>
      have hb := hx b (by simp)
      obtain ⟨hcrlf, hlf⟩ := not_blank_of_ne (s := x ++ t) hb.2 (Or.inr hb.1)
      rw [List.cons_append, splitBlank_cons hcrlf hlf, ih fun c hc => hx c (by simp [hc]),
        Option.map_map]
      rfl

/-- A newline in front of a text that is not blank is not where the head ends. -/
theorem splitBlank_lf (h : NotBlank t) :
    splitBlank (lf :: t) = (splitBlank t).map fun r => (lf :: r.1, r.2) := by
  have hlf : startsWith (lf :: t) (str "\n\n") = false := by
    rw [startsWith_lf_lf, h.1, Bool.and_false]
  exact splitBlank_cons rfl hlf

/-- The same of CR LF. -/
theorem splitBlank_crlf (h : NotBlank t) :
    splitBlank (cr :: lf :: t) = (splitBlank t).map fun r => (cr :: lf :: r.1, r.2) := by
  have hstop : startsWith (lf :: t) (str "\n\r\n") = false := by
    rw [startsWith_lf_crlf, h.2, Bool.and_false]
  obtain ⟨hcrlf, hlf⟩ := not_blank_of_ne (b := cr) (by decide) (Or.inl hstop)
  rw [splitBlank_cons hcrlf hlf, splitBlank_lf h, Option.map_map]
  rfl

/-- The text is cut at an empty line only. -/
theorem infix_of_splitBlank {r : Bytes × Bytes} (h : splitBlank t = some r) :
    str "\r\n\r\n" <:+: t ∨ str "\n\n" <:+: t := by
  induction t generalizing r with
  | nil => cases h
  | cons b t ih =>
      rw [splitBlank] at h
      split_ifs at h with hcrlf hlf
      · exact Or.inl (startsWith_iff.1 hcrlf).isInfix
      · exact Or.inr (startsWith_iff.1 hlf).isInfix
      · obtain ⟨r', hr', -⟩ := Option.map_eq_some_iff.1 h
        exact (ih hr').imp (·.trans (List.suffix_cons b t).isInfix)
          (·.trans (List.suffix_cons b t).isInfix)

/-- A text with an empty line in it cannot begin one that only ends in the bytes
behind. -/
theorem startsWith_append_of_blank {s pat : Bytes}
    (hpat : pat = str "\r\n\r\n" ∨ pat = str "\n\n")
    (hs : str "\r\n\r\n" <:+: s ∨ str "\n\n" <:+: s) (d : Bytes) :
    startsWith (s ++ d) pat = startsWith s pat := by
  have hinits : ∀ q ∈ [str "\r\n\r\n", str "\n\n"], ∀ l ∈ q.inits,
      (str "\r\n\r\n" <:+: l ∨ str "\n\n" <:+: l) → q <+: l := by decide
  rw [Bool.eq_iff_iff]
  refine ⟨fun h => ?_, fun h => startsWith_append h d⟩
  rw [startsWith_iff] at h ⊢
  rcases List.prefix_or_prefix_of_prefix h (List.prefix_append s d) with hp | hp
  · exact hp
  · exact hinits pat (by simpa using hpat) s ((List.mem_inits _ _).2 hp) hs

/-- Bytes behind the empty line do not move it. -/
theorem splitBlank_append (d : Bytes) {r : Bytes × Bytes} (h : splitBlank t = some r) :
    splitBlank (t ++ d) = some (r.1, r.2 ++ d) := by
  induction t generalizing r with
  | nil => cases h
  | cons b t ih =>
      have hblank := infix_of_splitBlank h
      rw [splitBlank] at h
      rw [List.cons_append, splitBlank, ← List.cons_append,
        startsWith_append_of_blank (Or.inl rfl) hblank,
        startsWith_append_of_blank (Or.inr rfl) hblank]
      split_ifs at h ⊢ with hcrlf hlf
      · obtain rfl := Option.some.inj h
        have hlen : 4 ≤ (b :: t).length := length_le_of_startsWith hcrlf
        rw [List.drop_append_of_le_length hlen]
      · obtain rfl := Option.some.inj h
        have hlen : 2 ≤ (b :: t).length := length_le_of_startsWith hlf
        rw [List.drop_append_of_le_length hlen]
      · obtain ⟨r', hr', rfl⟩ := Option.map_eq_some_iff.1 h
        rw [ih hr', Option.map_some]

/-- **The field loop is decided by what it has read**: bytes behind the empty
line change nothing. -/
theorem headLoop_append (d : Bytes) {r : Bytes × Head} (h : headLoop [] [] 0 head t = some r) :
    headLoop [] [] 0 head (t ++ d) = some (r.1 ++ d, r.2) := by
  rw [headLoop_eq, Option.map_eq_some_iff] at h
  obtain ⟨r, hr, rfl⟩ := h
  rw [headLoop_eq, splitBlank_append d hr, Option.map_some]

end Blank

end HttpTools
end Scaner
