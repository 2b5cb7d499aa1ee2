/-
# The head parser

`http_get_head` in `scaner_test/http_tools.hpp`, as `http_reponse_check` and
`http_reponse_completed` call it, with both `head_info` and `state` given.

It looks for `HTTP`, reads the status code between the next two spaces, goes
behind the end of that line and then reads fields until an empty line.  The
field loop keeps four variables: `p`, the start of the line, and `p1`, the start
of the value behind the first `':'` of the line, both `end_` while there is none,
and the lengths `n` and `n1`.  A pointer is the list of the bytes that follow it
(`Scaner.Lib.Bytes`), so that `end_` is `[]`, and `begin_ - p` is the difference
of two lengths.

The block that stores a field stands three times in the source, for the two
kinds of empty line and for a line end (`storeField`).
-/

import Scaner.Lib.Bytes
import Mathlib.Logic.Function.Basic

namespace Scaner
namespace HttpTools

open Bytes

/-- `std::map<std::string, std::string>`: the fields of a head, by lower-case
name. -/
abbrev Head := Bytes → Option Bytes

namespace Head

/-- No fields. -/
def empty : Head := fun _ => none

/-- `head[key]`, read: the empty string where there is no entry.  The entry that
`operator[]` adds is empty too, which every reader of the map takes for none. -/
def index (head : Head) (key : Bytes) : Bytes := (head key).getD []

/-- `head[key] = value`. -/
def set (head : Head) (key value : Bytes) : Head := Function.update head key (some value)

end Head

/-- The bytes cut off both ends of a value, `" \r\n\t;"`. -/
def valueEnds : Bytes := str " \r\n\t;"

/-- A value joins those stored under its key before; an empty one is dropped. -/
def addValue (key value : Bytes) (head : Head) : Head :=
  if value = [] then head
  else if head.index key = [] then head.set key value
  else head.set key (head.index key ++ str ";" ++ value)

/-- The block that stores the field with the name `p[0 .. n)` and the value
`p1[0 .. n1)`. -/
def storeField (p : Bytes) (n : ℕ) (p1 : Bytes) (n1 : ℕ) (head : Head) : Head :=
  if p ≠ [] ∧ p1 ≠ [] ∧ 0 < n ∧ 0 < n1 then
    addValue ((p.take n).map toLower) (trim valueEnds (p1.take n1)) head
  else head

/-- The loop that looks for `HTTP`. -/
def seekHttp : Bytes → Bytes
  | [] => []
  | b :: s => if startsWith (b :: s) (str "HTTP") then b :: s else seekHttp s

/-- The loop over the status line: `begin_`, `p` and `n` when it is left. -/
def scanStatus (p : Bytes) : Bytes → Bytes × Bytes × ℕ
  | [] => ([], p, 0)
  | b :: s =>
      if b = space then
        if p = [] then scanStatus s s else (b :: s, p, p.length - (b :: s).length)
      else scanStatus p s

/-- The loop that goes behind the end of the line. -/
def skipLine : Bytes → Bytes
  | [] => []
  | b :: s => if b = lf then s else skipLine s

/-- The loop over the fields: `begin_` and the map when an empty line is found,
`none` when the loop reaches `end_`. -/
def headLoop (p p1 : Bytes) (n : ℕ) (head : Head) : Bytes → Option (Bytes × Head)
  | [] => none
  | b :: s =>
      if startsWith (b :: s) (str "\r\n\r\n") then
        some ((b :: s).drop 4, storeField p n p1 (p1.length - (b :: s).length) head)
      else if startsWith (b :: s) (str "\n\n") then
        some ((b :: s).drop 2, storeField p n p1 (p1.length - (b :: s).length) head)
      else
        let p := if p = [] then b :: s else p
        if p1 = [] ∧ b = colon then headLoop p s (p.length - (b :: s).length) head s
        else if b = lf then
          headLoop [] [] 0 (storeField p n p1 (p1.length - (b :: s).length) head) s
        else headLoop p p1 n head s

/-- What `http_get_head` leaves: its value, `begin_`, `*head_info`, `*state`. -/
structure HeadResult where
  ok : Bool
  rest : Bytes
  head : Head
  state : ℕ

/-- An `int` stored in a `size_t`. -/
def toSize (x : ℤ) : ℕ := (x % 2 ^ 32).toNat

/-- `http_get_head(begin_, end_, &head_info, &state)`. -/
def httpGetHead (begin_ : Bytes) (headInfo : Head) (state : ℕ) : HeadResult :=
  let begin_ := seekHttp begin_
  if begin_ = [] then ⟨false, [], headInfo, state⟩
  else
    let r := scanStatus [] (begin_.drop 4)
    if r.2.1 ≠ [] ∧ r.2.2 ≠ 0 then
      let state := toSize (atoi (r.2.1.take r.2.2))
      match headLoop [] [] 0 headInfo (skipLine r.1) with
      | some x => ⟨true, x.1, x.2, state⟩
      | none => ⟨false, [], .empty, state⟩
    else ⟨false, r.1, headInfo, state⟩

/-! ### The map -/

/-- The value under a key, after one has been set. -/
theorem Head.index_set (head : Head) (key value k : Bytes) :
    (head.set key value).index k = if k = key then value else head.index k := by
  by_cases h : k = key
  · subst h; simp [Head.index, Head.set]
  · simp [Head.index, Head.set, h]

/-- A value changes no other key. -/
theorem addValue_of_ne {key k : Bytes} (h : k ≠ key) (value : Bytes) (head : Head) :
    addValue key value head k = head k := by
  unfold addValue
  split_ifs <;> simp [Head.set, h]

/-- What stood under a key stays in front of what is added there. -/
theorem index_addValue_self {key : Bytes} {head : Head} (h : head.index key ≠ []) (value : Bytes) :
    (addValue key value head).index key = head.index key ∨
      (addValue key value head).index key = head.index key ++ semicolon :: value := by
  unfold addValue
  by_cases hv : value = []
  · simp [hv]
  · right
    rw [if_neg hv, if_neg h, Head.index_set, if_pos rfl]
    simp [str]

/-! ### What the loops consume -/

/-- The search for `HTTP` stops within the text. -/
theorem seekHttp_suffix (s : Bytes) : seekHttp s <:+ s := by
  induction s with
  | nil => exact List.suffix_rfl
  | cons b s ih =>
      rw [seekHttp]
      split
      · exact List.suffix_rfl
      · exact ih.trans (List.suffix_cons b s)

/-- Where the search stops, there is `HTTP`. -/
theorem startsWith_seekHttp {s : Bytes} (h : seekHttp s ≠ []) :
    startsWith (seekHttp s) (str "HTTP") = true := by
  induction s with
  | nil => exact absurd rfl h
  | cons b s ih =>
      rw [seekHttp] at h ⊢
      split
      · assumption
      · rename_i hb
        rw [if_neg hb] at h
        exact ih h

/-- The status scan stops within the text. -/
theorem scanStatus_suffix (p s : Bytes) : (scanStatus p s).1 <:+ s := by
  induction s generalizing p with
  | nil => exact List.suffix_rfl
  | cons b s ih =>
      rw [scanStatus]
      split_ifs
      · exact (ih s).trans (List.suffix_cons b s)
      · exact List.suffix_rfl
      · exact (ih p).trans (List.suffix_cons b s)

/-- The end of a line lies within the text. -/
theorem skipLine_suffix (s : Bytes) : skipLine s <:+ s := by
  induction s with
  | nil => exact List.suffix_rfl
  | cons b s ih =>
      rw [skipLine]
      split
      · exact List.suffix_cons b s
      · exact ih.trans (List.suffix_cons b s)

/-- The field loop stops within the text. -/
theorem headLoop_suffix {p p1 : Bytes} {n : ℕ} {head : Head} {s : Bytes} {x : Bytes × Head}
    (h : headLoop p p1 n head s = some x) : x.1 <:+ s := by
  induction s generalizing p p1 n head with
  | nil => simp [headLoop] at h
  | cons b s ih =>
      rw [headLoop] at h
      split_ifs at h
      · obtain rfl := Option.some.inj h
        exact List.drop_suffix 4 _
      · obtain rfl := Option.some.inj h
        exact List.drop_suffix 2 _
      all_goals exact (ih h).trans (List.suffix_cons b s)

/-- **A parsed head consumes bytes**: `begin_` is left strictly closer to `end_`,
inside the same buffer. -/
theorem httpGetHead_suffix {s : Bytes} {head : Head} {state : ℕ}
    (h : (httpGetHead s head state).ok = true) :
    (httpGetHead s head state).rest <:+ s ∧ (httpGetHead s head state).rest.length < s.length := by
  unfold httpGetHead at h ⊢
  simp only at h ⊢
  split_ifs at h ⊢ with h₁ h₂
  cases hl : headLoop [] [] 0 head (skipLine (scanStatus [] ((seekHttp s).drop 4)).1) with
  | none => simp [hl] at h
  | some x =>
      have hx : x.1 <:+ (seekHttp s).drop 4 :=
        (headLoop_suffix hl).trans ((skipLine_suffix _).trans (scanStatus_suffix _ _))
      have h4 : 4 ≤ (seekHttp s).length := length_le_of_startsWith (startsWith_seekHttp h₁)
      have hs := (seekHttp_suffix s).length_le
      have hxl := hx.length_le
      rw [List.length_drop] at hxl
      exact ⟨hx.trans ((List.drop_suffix 4 _).trans (seekHttp_suffix s)), by simp only; omega⟩

end HttpTools
end Scaner
