/-
# A record of what has been done

A system takes actions (`Scaner.Lib.Trace`), and a record notes for each of them what it does.
The record is not part of the system, which takes the same actions with it and without it;
`history` is the record of a run.  `history_of_exec` is the rule to reason with: a relation
between state and record that every action keeps holds at the end of every run; and
`history_of_along` is the rule for the runs that take allowed actions only.

`filterMap_perm` and `filterMap_set_perm` are about what the members of a list hold: those that
one member holds and those that the others do.
-/

import Mathlib.Data.List.Perm.Basic
import Scaner.Lib.Trace

namespace Scaner
namespace Trace

variable {σ α η : Type*}

/-- The record of a run, where `note` is what an action adds to it. -/
def history (step : σ → α → Option σ) (note : σ → α → η → η) : σ → η → List α → η
  | _, h, [] => h
  | s, h, a :: as =>
      match step s a with
      | none => h
      | some t => history step note t (note s a h) as

variable {step : σ → α → Option σ} {note : σ → α → η → η} {s t : σ} {h : η}

/-- The history of a run: its first action, and the others. -/
theorem history_cons {a : α} (hst : step s a = some t) (as : List α) :
    history step note s h (a :: as) = history step note t (note s a h) as := by
  simp only [history, hst]

/-- The history of a run in two parts. -/
theorem history_append {as : List α} (he : exec step s as = some t) (bs : List α) :
    history step note s h (as ++ bs) = history step note t (history step note s h as) bs := by
  induction as generalizing s h with
  | nil =>
      obtain rfl : s = t := by simpa [exec] using he
      rfl
  | cons a as ih =>
      obtain ⟨u, hu, he⟩ := exec_cons.1 he
      rw [List.cons_append, history_cons hu, history_cons hu]
      exact ih he

/-- **What every action keeps between state and record** holds at the end of every run. -/
theorem history_of_exec {J : σ → η → Prop} (hs : J s h)
    (hJ : ∀ s a t h, J s h → step s a = some t → J t (note s a h)) {as : List α}
    (he : exec step s as = some t) : J t (history step note s h as) := by
  induction as generalizing s h with
  | nil =>
      obtain rfl : s = t := by simpa [exec] using he
      exact hs
  | cons a as ih =>
      obtain ⟨u, hu, he⟩ := exec_cons.1 he
      rw [history_cons hu]
      exact ih (hJ s a u h hs hu) he

/-- The same, where only the actions that `Q` allows are known to keep the relation. -/
theorem history_of_along {Q : σ → α → Prop} {J : σ → η → Prop} (hs : J s h)
    (hJ : ∀ s a t h, J s h → Q s a → step s a = some t → J t (note s a h)) {as : List α}
    (hQ : Along step Q s as) (he : exec step s as = some t) :
    J t (history step note s h as) := by
  induction as generalizing s h with
  | nil =>
      obtain rfl : s = t := by simpa [exec] using he
      exact hs
  | cons a as ih =>
      obtain ⟨u, hu, he⟩ := exec_cons.1 he
      obtain ⟨hq, hQ⟩ := hQ u hu
      rw [history_cons hu]
      exact ih (hJ s a u h hs hq hu) hQ he

variable {β : Type*} {l : List α} {i : ℕ} {x : α}

/-- What the members of a list hold: what one of them does, and what the others do. -/
theorem filterMap_perm (g : α → Option β) (h : l[i]? = some x) :
    (l.filterMap g).Perm ((g x).toList ++ (l.eraseIdx i).filterMap g) := by
  induction l generalizing i with
  | nil => simp at h
  | cons y l ih =>
      cases i with
      | zero =>
          obtain rfl : y = x := by simpa using h
          cases hg : g y <;> simp [hg]
      | succ i =>
          have hrest := ih (by simpa using h)
          rw [List.eraseIdx_cons_succ]
          cases hg : g y with
          | none => simpa [List.filterMap_cons, hg] using hrest
          | some b =>
              simp only [List.filterMap_cons, hg]
              calc b :: l.filterMap g
                  _ |>.Perm (b :: ((g x).toList ++ (l.eraseIdx i).filterMap g)) := hrest.cons b
                  _ |>.Perm ((g x).toList ++ b :: (l.eraseIdx i).filterMap g) :=
                    List.perm_middle.symm

/-- What an element gives is replaced by what the new one gives. -/
theorem filterMap_set_perm (g : α → Option β) (h : l[i]? = some x) (y : α) :
    ((l.set i y).filterMap g).Perm ((g y).toList ++ (l.eraseIdx i).filterMap g) := by
  obtain ⟨hi, -⟩ := List.getElem?_eq_some_iff.1 h
  have hy : (l.set i y)[i]? = some y := List.getElem?_set_self hi
  have hperm := filterMap_perm g hy
  rwa [List.eraseIdx_set_eq] at hperm

end Trace
end Scaner
