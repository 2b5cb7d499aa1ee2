/-
# Numbers drawn from a counter

Several threads draw numbers from one counter.  A thread that has drawn a number
holds it until it gives it up or uses it.  However the threads are interleaved,
no number is used twice (`Distinct.step`), and a number that is below the counter
and neither used nor held is never used (`Lost.step`).
-/

import Mathlib.Data.List.Nodup
import Mathlib.Logic.Function.Basic
import Mathlib.Order.Nat

namespace Scaner

/-- The counter, what each thread holds, and the numbers that were used. -/
structure Tickets (ι : Type*) where
  next : ℕ
  held : ι → Option ℕ
  used : List ℕ

namespace Tickets

variable {ι : Type*} [DecidableEq ι]

/-- A thread draws a number, gives it up, or uses it. -/
inductive Step (s : Tickets ι) : Tickets ι → Prop
  | draw (i : ι) (hi : s.held i = none) :
      Step s { s with next := s.next + 1, held := Function.update s.held i (some s.next) }
  | giveUp (i : ι) (no : ℕ) (hi : s.held i = some no) :
      Step s { s with held := Function.update s.held i none }
  | use (i : ι) (no : ℕ) (hi : s.held i = some no) :
      Step s { s with held := Function.update s.held i none, used := s.used ++ [no] }

/-- The numbers that are held or used are below the counter and all different. -/
structure Distinct (s : Tickets ι) : Prop where
  held_lt : ∀ i no, s.held i = some no → no < s.next
  used_lt : ∀ no ∈ s.used, no < s.next
  held_inj : ∀ i j no, s.held i = some no → s.held j = some no → i = j
  not_used : ∀ i no, s.held i = some no → no ∉ s.used
  nodup : s.used.Nodup

/-- A number that was drawn, and that no thread has used or holds. -/
structure Lost (no : ℕ) (s : Tickets ι) : Prop where
  lt : no < s.next
  not_used : no ∉ s.used
  not_held : ∀ i, s.held i ≠ some no

variable {s t : Tickets ι}

/-- What is held after the thread `i` has put its number away was held before, by
another thread. -/
theorem held_of_update_none {i j : ι} {no : ℕ}
    (h : Function.update s.held i none j = some no) : j ≠ i ∧ s.held j = some no := by
  by_cases hji : j = i
  · subst hji
    simp at h
  · rw [Function.update_of_ne hji] at h
    exact ⟨hji, h⟩

/-- What is held after the thread `i` has drawn. -/
theorem held_of_update_some {i j : ι} {no : ℕ}
    (h : Function.update s.held i (some s.next) j = some no) :
    (j = i ∧ no = s.next) ∨ (j ≠ i ∧ s.held j = some no) := by
  by_cases hji : j = i
  · subst hji
    exact Or.inl ⟨rfl, by simpa using h.symm⟩
  · rw [Function.update_of_ne hji] at h
    exact Or.inr ⟨hji, h⟩

/-- A ticket that is drawn is a new one. -/
theorem Distinct.draw (h : s.Distinct) (i : ι) :
    Distinct { s with next := s.next + 1, held := Function.update s.held i (some s.next) } := by
  constructor
  case held_lt =>
    intro j no hj
    rcases held_of_update_some hj with ⟨-, rfl⟩ | ⟨-, hj⟩
    · exact Nat.lt_succ_self _
    · exact Nat.lt_succ_of_lt (h.held_lt j no hj)
  case used_lt =>
    intro no hno
    exact Nat.lt_succ_of_lt (h.used_lt no hno)
  case held_inj =>
    intro j k no hj hk
    rcases held_of_update_some hj with ⟨hji, hno⟩ | ⟨-, hj'⟩ <;>
      rcases held_of_update_some hk with ⟨hki, hno'⟩ | ⟨-, hk'⟩
    · exact hji.trans hki.symm
    · exact absurd hno (h.held_lt k no hk').ne
    · exact absurd hno' (h.held_lt j no hj').ne
    · exact h.held_inj j k no hj' hk'
  case not_used =>
    intro j no hj hno
    rcases held_of_update_some hj with ⟨-, rfl⟩ | ⟨-, hj⟩
    · exact absurd (h.used_lt _ hno) (lt_irrefl _)
    · exact h.not_used j no hj hno
  case nodup => exact h.nodup

/-- A ticket that is given up is held no longer. -/
theorem Distinct.giveUp (h : s.Distinct) (i : ι) :
    Distinct { s with held := Function.update s.held i none } where
  held_lt j no hj := h.held_lt j no (held_of_update_none hj).2
  used_lt := h.used_lt
  held_inj j k no hj hk :=
    h.held_inj j k no (held_of_update_none hj).2 (held_of_update_none hk).2
  not_used j no hj := h.not_used j no (held_of_update_none hj).2
  nodup := h.nodup

omit [DecidableEq ι] in
/-- A number that nobody holds or has used can be used. -/
theorem Distinct.record {no : ℕ} (h : s.Distinct) (hno : Lost no s) :
    Distinct { s with used := s.used ++ [no] } := by
  constructor
  case held_lt => exact h.held_lt
  case used_lt =>
    intro no' hno'
    rcases List.mem_append.1 hno' with hno' | hno'
    · exact h.used_lt no' hno'
    · exact List.mem_singleton.1 hno' ▸ hno.lt
  case held_inj => exact h.held_inj
  case not_used =>
    intro j no' hj hno'
    rcases List.mem_append.1 hno' with hno' | hno'
    · exact h.not_used j no' hj hno'
    · exact hno.not_held j (List.mem_singleton.1 hno' ▸ hj)
  case nodup =>
    refine List.nodup_append.2 ⟨h.nodup, List.nodup_singleton _, fun a ha b hb => ?_⟩
    obtain rfl := List.mem_singleton.1 hb
    rintro rfl
    exact hno.not_used ha

/-- **No number is used twice.** -/
theorem Distinct.step (h : s.Distinct) (hst : Step s t) : t.Distinct := by
  cases hst with
  | draw i hi => exact h.draw i
  | giveUp i no hi => exact h.giveUp i
  | use i no hi =>
      -- the number is put away before it is used
      refine (h.giveUp i).record ⟨h.held_lt i no hi, h.not_used i no hi, fun j hj => ?_⟩
      obtain ⟨hji, hj⟩ := held_of_update_none hj
      exact hji (h.held_inj j i no hj hi)

/-- A ticket that is lost stays lost. -/
theorem Lost.step {no : ℕ} (h : Lost no s) (hst : Step s t) : Lost no t := by
  cases hst with
  | draw i hi =>
      refine ⟨Nat.lt_succ_of_lt h.lt, h.not_used, fun j hj => ?_⟩
      rcases held_of_update_some hj with ⟨-, hno⟩ | ⟨-, hj⟩
      · exact h.lt.ne hno
      · exact h.not_held j hj
  | giveUp i no' hi =>
      exact ⟨h.lt, h.not_used, fun j hj => h.not_held j (held_of_update_none hj).2⟩
  | use i no' hi =>
      refine ⟨h.lt, fun hno => ?_, fun j hj => h.not_held j (held_of_update_none hj).2⟩
      rcases List.mem_append.1 hno with hno | hno
      · exact h.not_used hno
      · obtain rfl := List.mem_singleton.1 hno
        exact h.not_held i hi

end Tickets
end Scaner
