/-
# Loops that return, run for ever, or leave their memory

A loop is a function `step` on its states.  One turn leads to another state
(`Next.loop`), returns a value (`Next.ret`), or does something the language
leaves undefined (`Except.error`).  `run step n` makes the first `n` turns, so
a loop can be evaluated with a bound on its turns; `Returns`, `Reaches` and
`Faults` say what happens with no bound.

The rules are the ones a loop is reasoned about with: a turn can be peeled off
(`returns_loop`, `returns_ret`, `not_returns_error`), a loop returns at most
one value (`Returns.unique`), what every turn keeps holds in every state reached
(`Reaches.invariant`), a fault is a faulty turn of a state that is reached
(`faults_iff`, `forall_not_faults_iff`), and a variant that every turn lowers
makes the loop return within as many turns (`exists_run_of_variant`).
-/

import Mathlib.Data.Nat.Basic
import Mathlib.Tactic.Cases

namespace Scaner
namespace Machine

/-- What one turn leads to: another turn, or the value the code returns. -/
inductive Next (σ ρ : Type*)
  | loop (s : σ)
  | ret (r : ρ)

variable {σ ρ ε : Type*}

/-- The first `n` turns from `s`. -/
def run (step : σ → Except ε (Next σ ρ)) : ℕ → σ → Except ε (Next σ ρ)
  | 0, s => .ok (.loop s)
  | n + 1, s =>
      match step s with
      | .ok (.loop t) => run step n t
      | .ok (.ret r) => .ok (.ret r)
      | .error e => .error e

/-- The loop comes to the state `t`. -/
def Reaches (step : σ → Except ε (Next σ ρ)) (s t : σ) : Prop :=
  ∃ n, run step n s = .ok (.loop t)

/-- The loop returns `r`. -/
def Returns (step : σ → Except ε (Next σ ρ)) (s : σ) (r : ρ) : Prop :=
  ∃ n, run step n s = .ok (.ret r)

/-- The loop comes to the fault `e`. -/
def Faults (step : σ → Except ε (Next σ ρ)) (s : σ) (e : ε) : Prop :=
  ∃ n, run step n s = .error e

variable {step : σ → Except ε (Next σ ρ)} {s t : σ} {r r' : ρ} {e : ε}

/-- A turn that goes on. -/
theorem run_loop (h : step s = .ok (.loop t)) (n : ℕ) : run step (n + 1) s = run step n t := by
  simp only [run, h]

/-- A turn that returns. -/
theorem run_ret (h : step s = .ok (.ret r)) (n : ℕ) : run step (n + 1) s = .ok (.ret r) := by
  simp only [run, h]

/-- A turn that fails. -/
theorem run_error (h : step s = .error e) (n : ℕ) : run step (n + 1) s = .error e := by
  simp only [run, h]

/-- A run of `n + 1` turns that has not stopped made a first turn and `n` more. -/
theorem run_succ_eq_loop {n : ℕ} :
    run step (n + 1) s = .ok (.loop t) ↔
      ∃ v, step s = .ok (.loop v) ∧ run step n v = .ok (.loop t) := by
  cases hs : step s with
  | error e => simp [run_error hs]
  | ok x =>
      cases x with
      | loop v => simp [run_loop hs]
      | ret r => simp [run_ret hs]

/-- A run that has returned goes on returning the same value with more turns. -/
theorem run_mono {n m : ℕ} (hnm : n ≤ m) (h : run step n s = .ok (.ret r)) :
    run step m s = .ok (.ret r) := by
  induction n generalizing s m with
  | zero => simp [run] at h
  | succ n ih =>
      obtain ⟨m, rfl⟩ : ∃ k, m = k + 1 := ⟨m - 1, by omega⟩
      cases hs : step s with
      | error e => simp [run_error hs] at h
      | ok x =>
          cases x with
          | loop t =>
              rw [run_loop hs] at h ⊢
              exact ih (by omega) h
          | ret r' =>
              rw [run_ret hs] at h ⊢
              exact h

/-- Two loops whose turns are the same in the states that the first one comes to. -/
theorem run_congr {step' : σ → Except ε (Next σ ρ)} {I : σ → Prop} (hs : I s)
    (hI : ∀ a b, I a → step a = .ok (.loop b) → I b) (h : ∀ a, I a → step' a = step a) (n : ℕ) :
    run step' n s = run step n s := by
  induction n generalizing s with
  | zero => rfl
  | succ n ih =>
      have heq := h s hs
      cases hstep : step s with
      | error e => rw [run_error hstep, run_error (heq.trans hstep)]
      | ok x =>
          cases x with
          | loop t => rw [run_loop hstep, run_loop (heq.trans hstep), ih (hI s t hs hstep)]
          | ret r => rw [run_ret hstep, run_ret (heq.trans hstep)]

/-- **A turn that goes on is peeled off**: the loop returns what the next state
returns. -/
theorem returns_loop (h : step s = .ok (.loop t)) : Returns step s r ↔ Returns step t r := by
  constructor
  · rintro ⟨_ | n, hn⟩
    · simp [run] at hn
    · exact ⟨n, by rwa [run_loop h] at hn⟩
  · rintro ⟨n, hn⟩
    exact ⟨n + 1, by rwa [run_loop h]⟩

/-- A turn that returns decides the value. -/
theorem returns_ret (h : step s = .ok (.ret r)) : Returns step s r' ↔ r' = r := by
  constructor
  · rintro ⟨_ | n, hn⟩
    · simp [run] at hn
    · rw [run_ret h] at hn
      simpa using hn.symm
  · rintro rfl
    exact ⟨1, run_ret h 0⟩

/-- Nothing is returned after a fault. -/
theorem not_returns_error (h : step s = .error e) : ¬ Returns step s r := by
  rintro ⟨_ | n, hn⟩
  · simp [run] at hn
  · simp [run_error h] at hn

/-- A loop returns at most one value. -/
theorem Returns.unique (h : Returns step s r) (h' : Returns step s r') : r = r' := by
  obtain ⟨n, hn⟩ := h
  obtain ⟨m, hm⟩ := h'
  have h₁ := run_mono (Nat.le_max_left n m) hn
  rw [run_mono (Nat.le_max_right n m) hm] at h₁
  simpa using h₁.symm

/-- A state is reached from itself. -/
theorem Reaches.refl (s : σ) : Reaches step s s := ⟨0, rfl⟩

/-- With no turns only the state itself is reached. -/
theorem reaches_zero (h : run step 0 s = .ok (.loop t)) : s = t := by
  simpa [run] using h

/-- What every turn keeps holds in every state reached. -/
theorem Reaches.invariant {I : σ → Prop} (h : Reaches step s t) (hs : I s)
    (hI : ∀ a b, I a → step a = .ok (.loop b) → I b) : I t := by
  obtain ⟨n, hn⟩ := h
  induction n generalizing s with
  | zero => exact reaches_zero hn ▸ hs
  | succ n ih =>
      obtain ⟨v, hv, hn⟩ := run_succ_eq_loop.1 hn
      exact ih (hI s v hs hv) hn

/-- One more turn of a state that is reached. -/
theorem Reaches.tail {u : σ} (h : Reaches step s t) (ht : step t = .ok (.loop u)) :
    Reaches step s u := by
  obtain ⟨n, hn⟩ := h
  refine ⟨n + 1, ?_⟩
  induction n generalizing s with
  | zero =>
      obtain rfl := reaches_zero hn
      exact run_loop ht 0
  | succ n ih =>
      obtain ⟨v, hv, hn⟩ := run_succ_eq_loop.1 hn
      rw [run_loop hv]
      exact ih hn

/-- The loop returns what every state it comes to returns. -/
theorem Reaches.returns_iff (h : Reaches step s t) : Returns step s r ↔ Returns step t r := by
  obtain ⟨n, hn⟩ := h
  induction n generalizing s with
  | zero => rw [reaches_zero hn]
  | succ n ih =>
      obtain ⟨v, hv, hn⟩ := run_succ_eq_loop.1 hn
      exact (returns_loop hv).trans (ih hn)

/-- **What a returning run passes through**, read from its end: `A` holds of the
states that return `r`, and of those whose next state has it. -/
theorem Returns.backward {I A : σ → Prop} (h : Returns step s r) (hs : I s)
    (hI : ∀ a b, I a → step a = .ok (.loop b) → I b)
    (hA : ∀ a, I a → (step a = .ok (.ret r) ∨ ∃ b, step a = .ok (.loop b) ∧ A b) → A a) : A s := by
  obtain ⟨n, hn⟩ := h
  induction n generalizing s with
  | zero => simp [run] at hn
  | succ n ih =>
      cases hst : step s with
      | error e => simp [run_error hst] at hn
      | ok x =>
          cases x with
          | loop t =>
              rw [run_loop hst] at hn
              exact hA s hs (Or.inr ⟨t, hst, ih (hI s t hs hst) hn⟩)
          | ret r' =>
              rw [run_ret hst] at hn
              obtain rfl : r' = r := by simpa using hn
              exact hA s hs (Or.inl hst)

/-- What holds of every value that a state kept by `I` returns holds of the value
that the loop returns. -/
theorem Returns.invariant {I : σ → Prop} {P : ρ → Prop} (h : Returns step s r) (hs : I s)
    (hI : ∀ a b, I a → step a = .ok (.loop b) → I b)
    (hP : ∀ a r, I a → step a = .ok (.ret r) → P r) : P r := by
  -- `P r` says nothing about the state, so it holds of the first one if of the last.
  refine h.backward (A := fun _ => P r) hs hI fun a ha hnext => ?_
  obtain hret | ⟨b, -, hb⟩ := hnext
  · exact hP a r ha hret
  · exact hb

/-- **A loop that can always go on never returns.** -/
theorem not_returns_of_loop {I : σ → Prop} (hs : I s)
    (hI : ∀ a, I a → ∃ b, step a = .ok (.loop b) ∧ I b) : ¬ Returns step s r := by
  intro h
  refine h.invariant (P := fun _ => False) hs (fun a b ha hab => ?_) fun a r' ha har => ?_
  · obtain ⟨c, hac, hc⟩ := hI a ha
    obtain rfl : c = b := by simpa [hac] using hab
    exact hc
  · obtain ⟨c, hac, -⟩ := hI a ha
    simp [hac] at har

/-- A fault is a faulty turn of a state that is reached. -/
theorem faults_iff : Faults step s e ↔ ∃ t, Reaches step s t ∧ step t = .error e := by
  constructor
  · rintro ⟨n, hn⟩
    induction n generalizing s with
    | zero => simp [run] at hn
    | succ n ih =>
        cases hst : step s with
        | error e' =>
            rw [run_error hst] at hn
            obtain rfl : e' = e := by simpa using hn
            exact ⟨s, .refl s, hst⟩
        | ok x =>
            cases x with
            | loop v =>
                rw [run_loop hst] at hn
                obtain ⟨t, ⟨m, hm⟩, ht⟩ := ih hn
                exact ⟨t, ⟨m + 1, by rwa [run_loop hst]⟩, ht⟩
            | ret r' => simp [run_ret hst] at hn
  · rintro ⟨t, ⟨n, hn⟩, ht⟩
    refine ⟨n + 1, ?_⟩
    induction n generalizing s with
    | zero =>
        obtain rfl := reaches_zero hn
        exact run_error ht 0
    | succ n ih =>
        obtain ⟨v, hv, hn⟩ := run_succ_eq_loop.1 hn
        rw [run_loop hv]
        exact ih hn

/-- A loop has no fault exactly when it comes to no state whose turn is faulty. -/
theorem forall_not_faults_iff {Bad : σ → Prop}
    (hbad : ∀ t, Reaches step s t → ((∃ e, step t = .error e) ↔ Bad t)) :
    (∀ e, ¬ Faults step s e) ↔ ∀ t, Reaches step s t → ¬ Bad t := by
  constructor
  · intro h t hr ht
    obtain ⟨e, he⟩ := (hbad t hr).2 ht
    exact h e (faults_iff.2 ⟨t, hr, he⟩)
  · intro h e he
    obtain ⟨t, hr, ht⟩ := faults_iff.1 he
    exact h t hr ((hbad t hr).1 ⟨e, ht⟩)

/-- **A variant bounds the turns.**  If no state kept by `I` faults and every
turn from one lowers `μ`, the loop returns within `μ s + 1` turns. -/
theorem exists_run_of_variant {I : σ → Prop} (μ : σ → ℕ) (hs : I s)
    (hI : ∀ a b, I a → step a = .ok (.loop b) → I b)
    (hμ : ∀ a b, I a → step a = .ok (.loop b) → μ b < μ a)
    (he : ∀ a e, I a → step a ≠ .error e) :
    ∃ r, run step (μ s + 1) s = .ok (.ret r) := by
  induction hn : μ s using Nat.strong_induction_on generalizing s with
  | _ n ih =>
      cases hst : step s with
      | error e => exact absurd hst (he s e hs)
      | ok x =>
          cases x with
          | loop t =>
              have hlt : μ t < n := hn ▸ hμ s t hs hst
              obtain ⟨r, hr⟩ := ih (μ t) hlt (hI s t hs hst) rfl
              exact ⟨r, by rw [run_loop hst]; exact run_mono (by omega) hr⟩
          | ret r => exact ⟨r, run_ret hst n⟩

end Machine
end Scaner
