/-
# Sizes that a server sends

The chunk loops of `http_reponse_check` and `http_reponse_completed`
(`scaner_test/http_tools.cpp`) read a size with `strtol`, compare it with the
bytes that are left, and move `itWork` by the size and two more.  The two bytes
are not part of the comparison, the size has a sign, and the last chunk moves
the decoder by two without any comparison.

`httpReponse_safe_iff`: both functions stay in the buffer exactly when each size
they come to leaves room for its jump.  `httpReponseCheck_terminates_iff`: the
test returns, with `itWork` moved on in every turn, exactly when no size moves
it back.  Both hold for every buffer; the sizes are those of the lines that the
loops reach.
-/

import Scaner.HttpTools.Completed

namespace Scaner
namespace HttpTools

open Bytes Machine Cursor

/-- The size in front of a line end that is just being passed, and the bytes
behind it. -/
def CheckState.sizeLine : CheckState → Option (ℤ × Bytes)
  | .chunk it (b :: itWork) => if b = lf then some (strtol 16 it, itWork) else none
  | _ => none

/-- The size that `http_reponse_completed` has read at the end of a line, and what is behind it. -/
def CompletedState.sizeLine : CompletedState → Option (ℤ × Bytes)
  | .chunk it (b :: itWork) _ _ _ => if b = lf then some (strtol 16 it, itWork) else none
  | _ => none

/-- A size that ends the test, or leads it to a place in the buffer. -/
def CheckFits (content : Bytes) (size : ℤ) (itWork : Bytes) : Prop :=
  itWork.length < size ∨ (size = 0 ∧ itWork ≠ []) ∨
    (-((content.length : ℤ) - itWork.length) ≤ size + 2 ∧ size + 2 ≤ itWork.length)

/-- A size that ends the test, or leads it on. -/
def CheckAdvances (size : ℤ) (itWork : Bytes) : Prop :=
  itWork.length < size ∨ (size = 0 ∧ itWork ≠ []) ∨ (0 ≤ size + 2 ∧ size + 2 ≤ itWork.length)

/-- A size that ends the decoder, or has the bytes of its chunk behind it and two
more. -/
def CompletedFits (size : ℤ) (itWork : Bytes) : Prop :=
  itWork.length < size ∨ (size = 0 ∧ 2 ≤ itWork.length) ∨
    (0 < size ∧ size + 2 ≤ itWork.length)

/-- `http_reponse_check` stays in the buffer. -/
def CheckSafe (content : Bytes) : Prop :=
  (∀ e, ¬ Faults (checkStep content) (checkStart content) e) ∧
    ∀ s, Reaches (checkStep content) (checkStart content) s → s.In content

/-- `http_reponse_completed` stays in the buffer, and copies no range whose ends
are in the wrong order. -/
def CompletedSafe (env : Externals) (content trigger : Bytes) : Prop :=
  (∀ e, ¬ Faults (completedStep env content) (completedStart content trigger) e) ∧
    ∀ s, Reaches (completedStep env content) (completedStart content trigger) s → s.In content

/-! ### The test -/

variable {content itWork : Bytes} {size : ℤ}

/-- What `http_reponse_check` does where a chunk size has been read. -/
theorem checkStep_sizeLine (content : Bytes) {s : CheckState}
    (hs : s.sizeLine = some (size, itWork)) :
    checkStep content s =
      if size > itWork.length then .ok (.ret false)
      else if size = 0 ∧ itWork ≠ [] then .ok (.ret true)
      else match advance content itWork (size + 2) with
        | .ok it => .ok (.loop (.chunk it it))
        | .error e => .error e := by
  match s, hs with
  | .chunk it (b :: s), hs =>
      simp only [CheckState.sizeLine] at hs
      split_ifs at hs with hb
      obtain ⟨rfl, rfl⟩ : strtol 16 it = size ∧ s = itWork := by simpa using hs
      exact if_pos hb

/-- Every other turn stays in the buffer and consumes bytes. -/
theorem checkStep_of_sizeLine_eq_none (content : Bytes) {s : CheckState}
    (hs : s.sizeLine = none) :
    ∃ x, checkStep content s = .ok x ∧ ∀ t, x = .loop t → t.itWork.length < s.itWork.length := by
  match s, hs with
  | .message itWork head, _ =>
      cases hst : checkStep content (.message itWork head) with
      | error e => exact absurd hst (checkStep_message_ne_error e)
      | ok x => exact ⟨x, rfl, fun t ht => checkStep_message_lt (ht ▸ hst)⟩
  | .chunk it [], _ => exact ⟨_, rfl, by simp⟩
  | .chunk it (b :: s), hs =>
      have hb : b ≠ lf := by
        rintro rfl
        simp [CheckState.sizeLine] at hs
      refine ⟨_, by rw [checkStep, if_neg hb], ?_⟩
      rintro t ht
      obtain rfl : CheckState.chunk it s = t := by simpa using ht
      simp

/-- The line of a size lies within the content. -/
theorem CheckState.In.sizeLine {s : CheckState} (hin : s.In content)
    (hs : s.sizeLine = some (size, itWork)) :
    itWork <:+ content ∧ s.itWork.length = itWork.length + 1 := by
  match s, hs with
  | .chunk it (b :: s), hs =>
      simp only [CheckState.sizeLine] at hs
      split_ifs at hs with hb
      obtain ⟨-, rfl⟩ : strtol 16 it = size ∧ s = itWork := by simpa using hs
      exact ⟨(List.suffix_cons b s).trans (hin.2.trans hin.1), rfl⟩

/-- **`http_reponse_check` stays within the content.** -/
theorem reaches_check_in {s : CheckState}
    (h : Reaches (checkStep content) (checkStart content) s) : s.In content :=
  h.invariant (I := CheckState.In content) List.suffix_rfl fun _ _ => checkStep_in

/-- A turn of the test faults at a size that does not fit, and nowhere else. -/
theorem checkStep_error_iff {s : CheckState} (hin : s.In content) :
    (∃ e, checkStep content s = .error e) ↔
      ∃ size itWork, s.sizeLine = some (size, itWork) ∧ ¬ CheckFits content size itWork := by
  cases hs : s.sizeLine with
  | none =>
      obtain ⟨x, hx, -⟩ := checkStep_of_sizeLine_eq_none content hs
      simp [hx]
  | some line =>
      obtain ⟨size, itWork⟩ := line
      have hadv := advance_isOk_iff (n := size + 2) (hin.sizeLine hs).1
      have hfits : CheckFits content size itWork ↔ itWork.length < size ∨
          (size = 0 ∧ itWork ≠ []) ∨ ∃ c, advance content itWork (size + 2) = .ok c := by
        rw [hadv, CheckFits]
      have hline : (∃ size' itWork', some (size, itWork) = some (size', itWork') ∧
          ¬ CheckFits content size' itWork') ↔ ¬ CheckFits content size itWork :=
        ⟨by rintro ⟨_, _, h, hn⟩; cases h; exact hn, fun hn => ⟨_, _, rfl, hn⟩⟩
      rw [hline, hfits, checkStep_sizeLine content hs]
      split_ifs with h₁ h₂
      · simp [h₁.lt]
      · simp [h₂]
      · have h₁' : ¬ (itWork.length : ℤ) < size := h₁
        cases advance content itWork (size + 2) <;> simp [h₁', h₂]

/-- The test stays in the buffer exactly when every size it comes to fits. -/
theorem checkSafe_iff :
    CheckSafe content ↔ ∀ s, Reaches (checkStep content) (checkStart content) s →
      ∀ size itWork, s.sizeLine = some (size, itWork) → CheckFits content size itWork := by
  have hfaults := forall_not_faults_iff
    fun s (hr : Reaches (checkStep content) (checkStart content) s) =>
      checkStep_error_iff (reaches_check_in hr)
  rw [CheckSafe, and_iff_left fun s hr => reaches_check_in hr, hfaults]
  simp only [not_exists, not_and, not_not]

/-- A turn from a size that advances moves on, if it is not the last. -/
theorem checkStep_lt {s t : CheckState} (hin : s.In content)
    (h : ∀ size itWork, s.sizeLine = some (size, itWork) → CheckAdvances size itWork)
    (hst : checkStep content s = .ok (.loop t)) : t.itWork.length < s.itWork.length := by
  cases hs : s.sizeLine with
  | none =>
      obtain ⟨x, hx, hlt⟩ := checkStep_of_sizeLine_eq_none content hs
      exact hlt t (by simpa [hx] using hst)
  | some line =>
      obtain ⟨size, itWork⟩ := line
      obtain ⟨hsuf, hlen⟩ := hin.sizeLine hs
      rw [checkStep_sizeLine content hs] at hst
      split_ifs at hst with h₁ h₂
      · simp at hst
      · simp at hst
      · cases ha : advance content itWork (size + 2) with
        | error e => simp [ha] at hst
        | ok c =>
            obtain rfl : CheckState.chunk c c = t := by simpa [ha] using hst
            have hcl := advance_length hsuf ha
            have hadv := ((h size itWork hs).resolve_left h₁).resolve_left h₂
            rw [CheckState.itWork_chunk]
            omega

/-- A turn that moves on and does not fault comes from a size that advances. -/
theorem checkAdvances_of_lt {s : CheckState} (hin : s.In content)
    (hs : s.sizeLine = some (size, itWork)) (he : ∀ e, checkStep content s ≠ .error e)
    (hlt : ∀ t, checkStep content s = .ok (.loop t) → t.itWork.length < s.itWork.length) :
    CheckAdvances size itWork := by
  obtain ⟨hsuf, hlen⟩ := hin.sizeLine hs
  have hstep := checkStep_sizeLine content hs
  split_ifs at hstep with h₁ h₂
  · exact Or.inl h₁
  · exact Or.inr (Or.inl h₂)
  · cases ha : advance content itWork (size + 2) with
    | error e =>
        rw [ha] at hstep
        exact absurd hstep (he e)
    | ok c =>
        rw [ha] at hstep
        have hc := hlt _ hstep
        have hcl := advance_length hsuf ha
        rw [CheckState.itWork_chunk] at hc
        exact Or.inr (Or.inr ⟨by omega, by omega⟩)

/-- A chunk that is passed over fits. -/
theorem CheckAdvances.fits (hs : itWork <:+ content) (h : CheckAdvances size itWork) :
    CheckFits content size itWork := by
  have hle := hs.length_le
  rcases h with h | h | h
  · exact Or.inl h
  · exact Or.inr (Or.inl h)
  · exact Or.inr (Or.inr ⟨by omega, h.2⟩)

/-- **The test returns, moving on in every turn, exactly when no size it comes to
moves it back or out of the buffer.** -/
theorem httpReponseCheck_terminates_iff (content : Bytes) :
    ((∃ b, CheckReturns content b) ∧
        ∀ s t, Reaches (checkStep content) (checkStart content) s →
          checkStep content s = .ok (.loop t) → t.itWork.length < s.itWork.length) ↔
      ∀ s, Reaches (checkStep content) (checkStart content) s →
        ∀ size itWork, s.sizeLine = some (size, itWork) → CheckAdvances size itWork := by
  constructor
  · rintro ⟨⟨b, hb⟩, hlt⟩ s hr size itWork hs
    rw [checkReturns_iff, hr.returns_iff] at hb
    exact checkAdvances_of_lt (reaches_check_in hr) hs (fun e he => not_returns_error he hb)
      fun t => hlt s t hr
  · intro h
    have hlt : ∀ s t, Reaches (checkStep content) (checkStart content) s →
        checkStep content s = .ok (.loop t) → t.itWork.length < s.itWork.length :=
      fun s t hr => checkStep_lt (reaches_check_in hr) (h s hr)
    have hsafe : CheckSafe content := checkSafe_iff.2 fun s hr size itWork hs =>
      (h s hr size itWork hs).fits ((reaches_check_in hr).sizeLine hs).1
    obtain ⟨b, hb⟩ := exists_run_of_variant (fun s => s.itWork.length)
      (I := Reaches (checkStep content) (checkStart content)) (.refl _) (fun a b ha => ha.tail)
      hlt fun s e hr he => hsafe.1 e (faults_iff.2 ⟨s, hr, he⟩)
    exact ⟨⟨b, checkReturns_iff.2 ⟨_, hb⟩⟩, hlt⟩

/-- A size of `-5` leads the test back to the line it stands in. -/
theorem httpReponseCheck_negative_size :
    ¬ ∃ b, CheckReturns
      (str "HTTP/1.1 200 OK\r\nTransfer-Encoding: chunked\r\n\r\n-5\n") b := by
  rintro ⟨b, hb⟩
  refine not_returns_of_loop (I := fun s => s = checkStart _ ∨ ∃ t, t ∈ [str "-5\n", str "5\n",
    str "\n"] ∧ s = .chunk (str "-5\n") t) (Or.inl rfl) ?_ (checkReturns_iff.1 hb)
  rintro s (rfl | ⟨t, ht, rfl⟩)
  · exact ⟨.chunk (str "-5\n") (str "-5\n"), rfl, Or.inr ⟨_, by simp, rfl⟩⟩
  · simp only [List.mem_cons, List.not_mem_nil, or_false] at ht
    rcases ht with rfl | rfl | rfl
    · exact ⟨_, rfl, Or.inr ⟨str "5\n", by simp, rfl⟩⟩
    · exact ⟨_, rfl, Or.inr ⟨str "\n", by simp, rfl⟩⟩
    · exact ⟨_, rfl, Or.inr ⟨str "-5\n", by simp, rfl⟩⟩

/-! ### The decoder -/

variable {env : Externals} {it trigger : Bytes} {v : HttpInfo} {vList : List HttpInfo}

/-- A size larger than what is left ends the decoder. -/
theorem completedStep_stop (h : itWork.length < strtol 16 it) :
    completedStep env content (.chunk it (lf :: itWork) v vList trigger) =
      .ok (.ret (false, vList ++ [v], trigger)) := by
  simp only [completedStep, if_true]
  rw [if_pos h]

/-- The size `0` ends the message two bytes further on. -/
theorem completedStep_last (env : Externals) (v : HttpInfo) (vList : List HttpInfo)
    (trigger : Bytes) (hs : itWork <:+ content) (h0 : strtol 16 it = 0) (h2 : 2 ≤ itWork.length) :
    ∃ e t, completedStep env content (.chunk it (lf :: itWork) v vList trigger) =
        .ok (.loop (.message (nextMessage (itWork.drop 2)) (vList ++ [e]) t)) ∧
      e.status = v.status ∧ e.head = v.head := by
  have hadv : advance content itWork 2 = .ok (itWork.drop 2) := advance_of_le hs h2
  simp only [completedStep, if_true, h0, hadv]
  rw [if_neg (by omega)]
  exact exists_finishMessage env (itWork.drop 2) v vList trigger

/-- A size with its chunk behind it adds the chunk to the body. -/
theorem completedStep_data (env : Externals) (v : HttpInfo) (vList : List HttpInfo)
    (trigger : Bytes) {n : ℕ} (hs : itWork <:+ content) (hn : strtol 16 it = n)
    (hpos : 0 < n) (hle : n + 2 ≤ itWork.length) :
    completedStep env content (.chunk it (lf :: itWork) v vList trigger) =
      .ok (.loop (.chunk (itWork.drop (n + 2)) (itWork.drop (n + 2))
        { v with bodyOrigin := v.bodyOrigin ++ itWork.take n } vList trigger)) := by
  have hadv : advance content itWork n = .ok (itWork.drop n) := advance_of_le hs (by omega)
  have hadv2 : advance content itWork ((n : ℤ) + 2) = .ok (itWork.drop (n + 2)) :=
    advance_of_le hs hle
  have hcopy : copyRange itWork (itWork.drop n) = .ok (itWork.take n) := copyRange_drop (by omega)
  simp only [completedStep, if_true, hn]
  rw [if_neg (by omega), if_neg (by omega), hadv]
  change (copyRange itWork (itWork.drop n) >>= _) = _
  rw [hcopy]
  change (advance content itWork ((n : ℤ) + 2) >>= _) = _
  rw [hadv2]
  rfl

/-- A size that does not fit faults: at the jump over the last chunk, at the copy
of a chunk of negative size, or at the jump behind the chunk. -/
theorem completedStep_fault (env : Externals) (v : HttpInfo) (vList : List HttpInfo)
    (trigger : Bytes) (hs : itWork <:+ content) (h : ¬ CompletedFits (strtol 16 it) itWork) :
    ∃ e, completedStep env content (.chunk it (lf :: itWork) v vList trigger) = .error e := by
  simp only [CompletedFits, not_or, not_and] at h
  obtain ⟨hle, hlast, hdata⟩ := h
  simp only [completedStep, if_true]
  rw [if_neg (by omega)]
  by_cases h0 : strtol 16 it = 0
  · obtain ⟨e, he⟩ := exists_advance_eq_error (n := 2) hs (by have := hlast h0; omega)
    rw [if_pos h0, he]
    exact ⟨e, rfl⟩
  rw [if_neg h0]
  cases ha : advance content itWork (strtol 16 it) with
  | error e => exact ⟨e, rfl⟩
  | ok last =>
      have hlen := advance_length hs ha
      change ∃ e, (copyRange itWork last >>= _) = _
      unfold copyRange
      split_ifs with hrange
      · obtain ⟨e, he⟩ := exists_advance_eq_error (n := strtol 16 it + 2) hs
          (by have := hdata (by omega); omega)
        change ∃ e, (advance content itWork (strtol 16 it + 2) >>= _) = _
        rw [he]
        exact ⟨e, rfl⟩
      · exact ⟨_, rfl⟩

/-- **What a turn of the loop over the chunks does**, if it does not fault: it
returns false, adds an entry and goes on to a message, or goes on to a later
byte. -/
theorem completedStep_chunk_cases
    (hin : (CompletedState.chunk it itWork v vList trigger).In content)
    {x : Next CompletedState CompletedResult}
    (h : completedStep env content (.chunk it itWork v vList trigger) = .ok x) :
    x = .ret (false, vList ++ [v], trigger) ∨
      (∃ c e t, c <:+ itWork ∧ e.status = v.status ∧
        x = .loop (.message (nextMessage c) (vList ++ [e]) t)) ∨
      ∃ it' c v', c <:+ itWork ∧ c <:+ it' ∧ it' <:+ content ∧ v'.status = v.status ∧
        x = .loop (.chunk it' c v' vList trigger) := by
  cases itWork with
  | nil =>
      obtain ⟨e, t, he, hstatus, -⟩ := exists_finishMessage env [] v vList trigger
      exact Or.inr (Or.inl ⟨[], e, t, List.suffix_rfl, hstatus, Except.ok.inj (h.symm.trans he)⟩)
  | cons b itWork =>
      have hcons := List.suffix_cons b itWork
      by_cases hb : b = lf
      · subst hb
        have hsuf : itWork <:+ content := hcons.trans (hin.2.trans hin.1)
        have hfit : CompletedFits (strtol 16 it) itWork := by
          by_contra hfit
          obtain ⟨e, he⟩ := completedStep_fault env v vList trigger hsuf hfit
          simp [he] at h
        rcases hfit with hgt | ⟨h0, h2⟩ | ⟨hpos, hle⟩
        · exact Or.inl (Except.ok.inj (h.symm.trans (completedStep_stop hgt)))
        · obtain ⟨e, t, he, hstatus, -⟩ := completedStep_last env v vList trigger hsuf h0 h2
          exact Or.inr (Or.inl ⟨_, e, t, (List.drop_suffix 2 _).trans hcons, hstatus,
            Except.ok.inj (h.symm.trans he)⟩)
        · obtain ⟨n, hn⟩ := Int.eq_ofNat_of_zero_le (Int.le_of_lt hpos)
          have hst := completedStep_data env v vList trigger hsuf hn (by omega) (by omega)
          have hdrop := List.drop_suffix (n + 2) itWork
          exact Or.inr (Or.inr ⟨_, _, { v with bodyOrigin := v.bodyOrigin ++ itWork.take n },
            hdrop.trans hcons, List.suffix_rfl, hdrop.trans hsuf, rfl,
            Except.ok.inj (h.symm.trans hst)⟩)
      · rw [completedStep, if_neg hb] at h
        exact Or.inr (Or.inr ⟨it, itWork, v, hcons, hcons.trans hin.2, hin.1, rfl,
          (Except.ok.inj h).symm⟩)

/-- The line of a size lies within the content, in `http_reponse_completed` as well. -/
theorem CompletedState.In.sizeLine {s : CompletedState} (hin : s.In content)
    (hs : s.sizeLine = some (size, itWork)) :
    itWork <:+ content ∧ ∃ it v vList trigger, size = strtol 16 it ∧
      s = .chunk it (lf :: itWork) v vList trigger := by
  match s, hin, hs with
  | .chunk it (b :: s) v vList trigger, hin, hs =>
      simp only [CompletedState.sizeLine] at hs
      split_ifs at hs with hb
      obtain ⟨rfl, rfl⟩ : strtol 16 it = size ∧ s = itWork := by simpa using hs
      subst hb
      exact ⟨(List.suffix_cons lf s).trans (hin.2.trans hin.1), it, v, vList, trigger, rfl, rfl⟩

/-- A turn of the decoder faults at a size that does not fit, and nowhere else. -/
theorem completedStep_error_iff {s : CompletedState} (hin : s.In content) :
    (∃ e, completedStep env content s = .error e) ↔
      ∃ size itWork, s.sizeLine = some (size, itWork) ∧ ¬ CompletedFits size itWork := by
  constructor
  · rintro ⟨e, he⟩
    match s, hin, he with
    | .message itWork vList trigger, hin, he =>
        rcases completedStep_message_cases env vList trigger hin with
          ⟨-, h⟩ | ⟨-, -, v, h⟩ | ⟨-, -, v, -, -, ⟨-, t, h⟩ | ⟨-, h⟩⟩ <;> simp [h] at he
    | .chunk it [] v vList trigger, _, he =>
        rw [completedStep, finishMessage_eq] at he
        cases he
    | .chunk it (b :: itWork) v vList trigger, hin, he =>
        by_cases hb : b = lf
        · subst hb
          have hsuf : itWork <:+ content := (List.suffix_cons lf itWork).trans (hin.2.trans hin.1)
          refine ⟨strtol 16 it, itWork, by simp [CompletedState.sizeLine], ?_⟩
          rintro (hgt | ⟨h0, h2⟩ | ⟨hpos, hle⟩)
          · simp [completedStep_stop hgt] at he
          · obtain ⟨e', t, h, -⟩ := completedStep_last env v vList trigger hsuf h0 h2
            simp [h] at he
          · obtain ⟨n, hn⟩ := Int.eq_ofNat_of_zero_le (Int.le_of_lt hpos)
            simp [completedStep_data env v vList trigger hsuf hn (by omega) (by omega)] at he
        · rw [completedStep, if_neg hb] at he
          cases he
  · rintro ⟨size, itWork, hs, hfit⟩
    obtain ⟨hsuf, it, v, vList, trigger, rfl, rfl⟩ := hin.sizeLine hs
    exact completedStep_fault env v vList trigger hsuf hfit

/-- Every turn keeps the iterators in the buffer, as long as it does not fault. -/
theorem completedStep_in {s t : CompletedState} (hin : s.In content)
    (h : completedStep env content s = .ok (.loop t)) : t.In content := by
  cases s with
  | message itWork vList trigger =>
      rcases completedStep_message_cases env vList trigger hin with
        ⟨-, h'⟩ | ⟨-, -, v, h'⟩ | ⟨-, hok, v, -, -, hv⟩
      · simp [h'] at h
      · simp [h'] at h
      · have hsuf : framedPart (httpGetHead itWork .empty 0) <:+ content :=
          (framedPart_suffix _).trans ((httpGetHead_suffix hok).1.trans hin)
        rcases hv with ⟨-, t', h'⟩ | ⟨-, h'⟩ <;>
          obtain rfl : _ = t := by simpa [h'] using h
        · exact (nextMessage_suffix _).trans hsuf
        · exact ⟨hsuf, List.suffix_rfl⟩
  | chunk it itWork v vList trigger =>
      rcases completedStep_chunk_cases hin h with h' | ⟨c, e, t', hc, -, h'⟩ |
        ⟨it', c, v', -, hc, hit, -, h'⟩
      · cases h'
      · obtain rfl : t = _ := by simpa using h'
        exact (nextMessage_suffix c).trans (hc.trans (hin.2.trans hin.1))
      · obtain rfl : t = _ := by simpa using h'
        exact ⟨hit, hc⟩

/-- **`http_reponse_completed` stays within the content.** -/
theorem reaches_completed_in {s : CompletedState}
    (h : Reaches (completedStep env content) (completedStart content trigger) s) : s.In content :=
  h.invariant (I := CompletedState.In content) List.suffix_rfl fun _ _ => completedStep_in

/-- The decoder stays in the buffer exactly when every size it comes to fits. -/
theorem completedSafe_iff :
    CompletedSafe env content trigger ↔
      ∀ s, Reaches (completedStep env content) (completedStart content trigger) s →
        ∀ size itWork, s.sizeLine = some (size, itWork) → CompletedFits size itWork := by
  have hfaults := forall_not_faults_iff
    fun s (hr : Reaches (completedStep env content) (completedStart content trigger) s) =>
      completedStep_error_iff (reaches_completed_in hr)
  rw [CompletedSafe, and_iff_left fun s hr => reaches_completed_in hr, hfaults]
  simp only [not_exists, not_and, not_not]

/-- **Both functions stay in the buffer exactly when the sizes they come to fit**:
the sizes that end them, and those with room for the jump that follows. -/
theorem httpReponse_safe_iff (env : Externals) (content trigger : Bytes) :
    CheckSafe content ∧ CompletedSafe env content trigger ↔
      (∀ s, Reaches (checkStep content) (checkStart content) s →
        ∀ size itWork, s.sizeLine = some (size, itWork) → CheckFits content size itWork) ∧
      ∀ s, Reaches (completedStep env content) (completedStart content trigger) s →
        ∀ size itWork, s.sizeLine = some (size, itWork) → CompletedFits size itWork :=
  and_congr checkSafe_iff completedSafe_iff

/-- A last chunk that is cut behind its size leads both functions two bytes past
the end. -/
theorem httpReponse_not_safe :
    ¬ CheckSafe (str "HTTP/1.1 200 OK\r\nTransfer-Encoding: chunked\r\n\r\n0\n") ∧
      ¬ CompletedSafe ⟨fun _ => none, fun _ _ => []⟩
        (str "HTTP/1.1 200 OK\r\nTransfer-Encoding: chunked\r\n\r\n0\n") [] :=
  ⟨fun h => h.1 .pastEnd ⟨3, rfl⟩, fun h => h.1 .pastEnd ⟨3, rfl⟩⟩

end HttpTools
end Scaner
