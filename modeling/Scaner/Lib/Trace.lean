/-
# Runs of a system that takes one action at a time

A system is a function `step : σ → α → Option σ`: what the action `a` does in
the state `s`, or `none` where it cannot be taken.  An interleaving of several
threads is a list of actions, each of which names the thread that moves, and a
statement about every interleaving is a statement about every such list.

`Always step P` says that `P` holds in every state a run passes through, and
`Along step Q` that every action of the run is taken in a state where `Q`
allows it.  The two rules relate them.  If actions that `Q` allows keep an
invariant that gives `P`, and an action that `Q` forbids breaks `P` at once,
then `P` holds throughout a run exactly when `Q` holds along it
(`always_iff_along`).  If the harm of a forbidden action shows only at the end
of the run, but can never be undone, the same holds of the last state
(`along_or_doomed`).
-/

import Mathlib.Data.Option.Basic
import Mathlib.Tactic.Cases

namespace Scaner
namespace Trace

variable {σ α : Type*}

/-- The state after the actions `as` from `s`, if each can be taken. -/
def exec (step : σ → α → Option σ) : σ → List α → Option σ
  | s, [] => some s
  | s, a :: as =>
      match step s a with
      | none => none
      | some t => exec step t as

/-- `P` holds in every state the run passes through. -/
def Always (step : σ → α → Option σ) (P : σ → Prop) : σ → List α → Prop
  | s, [] => P s
  | s, a :: as => P s ∧ ∀ t, step s a = some t → Always step P t as

/-- Every action of the run is taken in a state where `Q` allows it. -/
def Along (step : σ → α → Option σ) (Q : σ → α → Prop) : σ → List α → Prop
  | _, [] => True
  | s, a :: as => ∀ t, step s a = some t → Q s a ∧ Along step Q t as

variable {step : σ → α → Option σ} {P I D : σ → Prop} {Q : σ → α → Prop} {s t : σ}

/-- A run is its first action and the rest. -/
theorem exec_cons {a : α} {as : List α} :
    exec step s (a :: as) = some t ↔ ∃ u, step s a = some u ∧ exec step u as = some t := by
  cases h : step s a with
  | none => simp [exec, h]
  | some u => simp [exec, h]

/-- A run in two parts. -/
theorem exec_append {as bs : List α} :
    exec step s (as ++ bs) = some t ↔
      ∃ u, exec step s as = some u ∧ exec step u bs = some t := by
  induction as generalizing s with
  | nil => simp [exec]
  | cons a as ih =>
      simp only [List.cons_append, exec_cons, ih]
      constructor
      · rintro ⟨v, hv, u, hu, ht⟩
        exact ⟨u, ⟨v, hv, hu⟩, ht⟩
      · rintro ⟨u, ⟨v, hv, hu⟩, ht⟩
        exact ⟨v, hv, u, hu, ht⟩

/-- An action that can be taken is allowed, and so are those behind it. -/
theorem along_cons {a : α} {as : List α} (h : step s a = some t) :
    Along step Q s (a :: as) ↔ Q s a ∧ Along step Q t as := by
  simp [Along, h]

/-- What is left of a run of allowed actions is one. -/
theorem Along.drop {as bs : List α} (h : Along step Q s (as ++ bs)) (he : exec step s as = some t) :
    Along step Q t bs := by
  induction as generalizing s with
  | nil =>
      obtain rfl : s = t := by simpa [exec] using he
      exact h
  | cons a as ih =>
      obtain ⟨u, hu, he⟩ := exec_cons.1 he
      exact ih (h u hu).2 he

/-- Whether a run takes allowed actions only can be computed. -/
def decideAlong (step : σ → α → Option σ) [∀ s a, Decidable (Q s a)] :
    ∀ s as, Decidable (Along step Q s as)
  | _, [] => isTrue trivial
  | s, a :: as =>
      match h : step s a with
      | none => isTrue fun t ht => by simp [h] at ht
      | some t => @decidable_of_iff _ (Q s a ∧ Along step Q t as) (along_cons h).symm
          (@instDecidableAnd _ _ _ (decideAlong step t as))

instance [∀ s a, Decidable (Q s a)] (s : σ) (as : List α) : Decidable (Along step Q s as) :=
  decideAlong step s as

/-- What holds throughout a run holds where it begins. -/
theorem Always.head {as : List α} (h : Always step P s as) : P s := by
  cases as with
  | nil => exact h
  | cons a as => exact h.1

/-- What holds throughout a run holds where it ends. -/
theorem Always.last {as : List α} (h : Always step P s as) (he : exec step s as = some t) :
    P t := by
  induction as generalizing s with
  | nil =>
      obtain rfl : s = t := by simpa [exec] using he
      exact h
  | cons a as ih =>
      obtain ⟨u, hu, he⟩ := exec_cons.1 he
      exact ih (h.2 u hu) he

/-- What follows from something that holds throughout a run does so as well. -/
theorem Always.mono {P' : σ → Prop} (hP : ∀ s, P s → P' s) {as : List α}
    (h : Always step P s as) : Always step P' s as := by
  induction as generalizing s with
  | nil => exact hP s h
  | cons a as ih => exact ⟨hP s h.1, fun t ht => ih (h.2 t ht)⟩

/-- **What every action keeps holds throughout every run.** -/
theorem always_of_step (hs : I s) (hI : ∀ s a t, I s → step s a = some t → I t) (as : List α) :
    Always step I s as := by
  induction as generalizing s with
  | nil => exact hs
  | cons a as ih => exact ⟨hs, fun t ht => ih (hI s a t hs ht)⟩

/-- What holds of every action in a state that `I` allows holds along every run. -/
theorem along_of_step (hs : I s) (hI : ∀ s a t, I s → step s a = some t → I t)
    (hQ : ∀ s a, I s → Q s a) (as : List α) : Along step Q s as := by
  induction as generalizing s with
  | nil => trivial
  | cons a as ih => exact fun t ht => ⟨hQ s a hs, ih (hI s a t hs ht)⟩

/-- A run of actions that are allowed in every state. -/
theorem along_of_forall {q : α → Prop} {as : List α} (h : ∀ a ∈ as, q a) (s : σ) :
    Along step (fun _ a => q a) s as := by
  induction as generalizing s with
  | nil => trivial
  | cons a as ih =>
      have hrest := ih fun b hb => h b (List.mem_cons_of_mem _ hb)
      exact fun t _ => ⟨h a List.mem_cons_self, hrest t⟩

/-- What the allowed actions keep holds throughout a run of allowed actions. -/
theorem always_of_along (hs : I s) (hI : ∀ s a t, I s → Q s a → step s a = some t → I t)
    {as : List α} (h : Along step Q s as) : Always step I s as := by
  induction as generalizing s with
  | nil => exact hs
  | cons a as ih =>
      refine ⟨hs, fun t ht => ?_⟩
      obtain ⟨hQ, hA⟩ := h t ht
      exact ih (hI s a t hs hQ ht) hA

/-- A property that every forbidden action breaks at once: a run throughout which it holds takes
no forbidden action, at least if `R` holds along it. -/
theorem along_of_always {R : σ → α → Prop} (hs : I s)
    (hI : ∀ s a t, I s → R s a → Q s a → step s a = some t → I t)
    (hQ : ∀ s a t, I s → R s a → ¬ Q s a → step s a = some t → ¬ P t) {as : List α}
    (hR : Along step R s as) (h : Always step P s as) : Along step Q s as := by
  induction as generalizing s with
  | nil => trivial
  | cons a as ih =>
      intro t ht
      obtain ⟨hr, hrest⟩ := hR t ht
      have hq : Q s a := by
        by_contra hn
        exact hQ s a t hs hr hn ht (h.2 t ht).head
      exact ⟨hq, ih (hI s a t hs hr hq ht) hrest (h.2 t ht)⟩

/-- **A property broken at once by every forbidden action and by no other.**
It holds throughout a run exactly when the run takes no forbidden action. -/
theorem always_iff_along (hs : I s) (hI : ∀ s a t, I s → Q s a → step s a = some t → I t)
    (hP : ∀ s, I s → P s) (hQ : ∀ s a t, I s → ¬ Q s a → step s a = some t → ¬ P t)
    (as : List α) : Always step P s as ↔ Along step Q s as := by
  refine ⟨fun h => ?_, fun h => (always_of_along hs hI h).mono hP⟩
  exact along_of_always hs (fun s a t hs _ => hI s a t hs) (fun s a t hs _ => hQ s a t hs)
    (along_of_forall (q := fun _ => True) (fun _ _ => trivial) s) h

/-- **A harm that is never undone.**  A run either takes allowed actions only,
and then ends in a state kept by `I`, or it ends in a doomed one. -/
theorem along_or_doomed (hs : I s) (hI : ∀ s a t, I s → Q s a → step s a = some t → I t)
    (hQ : ∀ s a t, I s → ¬ Q s a → step s a = some t → D t)
    (hD : ∀ s a t, D s → step s a = some t → D t) {as : List α} (he : exec step s as = some t) :
    (Along step Q s as ∧ I t) ∨ (¬ Along step Q s as ∧ D t) := by
  induction as generalizing s with
  | nil =>
      obtain rfl : s = t := by simpa [exec] using he
      exact Or.inl ⟨trivial, hs⟩
  | cons a as ih =>
      obtain ⟨u, hu, he⟩ := exec_cons.1 he
      by_cases hq : Q s a
      · rcases ih (hI s a u hs hq hu) he with ⟨hA, hi⟩ | ⟨hA, hd⟩
        · refine Or.inl ⟨fun v hv => ?_, hi⟩
          obtain rfl : u = v := by simpa [hu] using hv
          exact ⟨hq, hA⟩
        · exact Or.inr ⟨fun h => hA (h u hu).2, hd⟩
      · refine Or.inr ⟨fun h => hq (h u hu).1, ?_⟩
        exact (always_of_step (hQ s a u hs hq hu) hD as).last he

end Trace
end Scaner
