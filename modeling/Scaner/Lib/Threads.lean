/-
# Counting threads by what they are about to do

The threads of a system are indexed by a finite type, and `pc i` is where the
thread `i` stands.  `total f pc` adds up a weight of every thread: the number of
threads at some place, or the number of things that they still owe.  A step of
one thread changes the total by the weights of the two places it leads between
(`total_update`).
-/

import Mathlib.Algebra.BigOperators.Group.Finset.Piecewise
import Mathlib.Algebra.Order.BigOperators.Group.Finset
import Mathlib.Algebra.Order.Group.Nat
import Mathlib.Data.Fintype.Basic

namespace Scaner
namespace Threads

variable {ι α : Type*} [Fintype ι]

/-- The weights of all threads. -/
def total (f : α → ℕ) (pc : ι → α) : ℕ := ∑ i, f (pc i)

/-- **A step of one thread.** -/
theorem total_update [DecidableEq ι] (f : α → ℕ) (pc : ι → α) (i : ι) (a : α) :
    total f (Function.update pc i a) + f (pc i) = total f pc + f a := by
  unfold total
  rw [← Finset.add_sum_erase _ _ (Finset.mem_univ i),
    ← Finset.add_sum_erase _ (fun j => f (pc j)) (Finset.mem_univ i), Function.update_self]
  have hrest : ∑ j ∈ Finset.univ.erase i, f (Function.update pc i a j) =
      ∑ j ∈ Finset.univ.erase i, f (pc j) :=
    Finset.sum_congr rfl fun j hj => by rw [Function.update_of_ne (Finset.ne_of_mem_erase hj)]
  omega

/-- Each thread has a part of the total. -/
theorem le_total (f : α → ℕ) (pc : ι → α) (i : ι) : f (pc i) ≤ total f pc :=
  Finset.single_le_sum (f := fun j => f (pc j)) (fun _ _ => Nat.zero_le _) (Finset.mem_univ i)

/-- The total is zero exactly if each part is. -/
theorem total_eq_zero_iff (f : α → ℕ) (pc : ι → α) : total f pc = 0 ↔ ∀ i, f (pc i) = 0 := by
  simp [total, Finset.sum_eq_zero_iff]

/-- Weights add up thread by thread. -/
theorem total_add_le {f g h : α → ℕ} (hfg : ∀ a, f a + g a ≤ h a) (pc : ι → α) :
    total f pc + total g pc ≤ total h pc := by
  unfold total
  rw [← Finset.sum_add_distrib]
  exact Finset.sum_le_sum fun i _ => hfg (pc i)

/-- The total of threads that are all in one place. -/
theorem total_const (f : α → ℕ) (a : α) : total f (fun _ : ι => a) = Fintype.card ι * f a := by
  simp [total]

end Threads
end Scaner
