/-
# The last of several finishers

`task_map::finished_one_url` in `scaner_test/task_data.cpp` is called for a URL
once by its worker and once by each of its `n` policies, and the calls run on
threads of their own.  Each counts `running_thread` down from `n + 1` and tests
the result, stores `-1` if it has come to `0`, then reads `running_thread` again,
and frees the slot of the URL if it reads `-1`.

Only the call that counts down to `0` stores.  Any other call that has counted
down, and is late with its second read, reads the `-1` too, and frees the slot
once more.  `releases_eq_one_iff`: the slot is freed once, exactly in the
schedules in which no call but the one that stores reads `-1`.

`exec_alone`: a call that runs alone does what `TaskMap.finishedOneUrl` does in
one step.
-/

import Scaner.Lib.Threads
import Scaner.Lib.Trace
import Scaner.TaskData.TaskMap

namespace Scaner
namespace TaskData

open Trace Threads TaskMap

/-- The next step of a call of `finished_one_url`: the decrement with its test,
the store, the second read (after a store or not), the release of the slot. -/
inductive FinishPc
  | decrement
  | store
  | load (stored : Bool)
  | release
  | done
  deriving DecidableEq

/-- The calls for one URL, what they share, and how often the slot has been
freed. -/
structure FinishState (n : ℕ) where
  runningThread : ℤ
  runningUrlCount : ℕ
  releases : ℕ
  pc : Fin (n + 1) → FinishPc

namespace FinishState

variable {n : ℕ}

/-- The next step of the call `i`. -/
def step (s : FinishState n) (i : Fin (n + 1)) : Option (FinishState n) :=
  match s.pc i with
  | .decrement => some { s with
      runningThread := s.runningThread - 1
      pc := Function.update s.pc i (if s.runningThread - 1 ≤ 0 then .store else .load false) }
  | .store => some { s with runningThread := -1, pc := Function.update s.pc i (.load true) }
  | .load _ => some { s with
      pc := Function.update s.pc i (if s.runningThread = -1 then .release else .done) }
  | .release => some { s with
      runningUrlCount := decSize s.runningUrlCount
      releases := s.releases + 1
      pc := Function.update s.pc i .done }
  | .done => none

/-- `running_thread` is `n + 1`, and `count` slots are taken. -/
def init (n count : ℕ) : FinishState n := ⟨n + 1, count, 0, fun _ => .decrement⟩

/-- A call that did not store does not read `-1`. -/
def LoadsInTime (s : FinishState n) (i : Fin (n + 1)) : Prop :=
  s.pc i = .load false → s.runningThread ≠ -1

instance (s : FinishState n) (i : Fin (n + 1)) : Decidable (s.LoadsInTime i) :=
  inferInstanceAs (Decidable (_ → _))

/-- `s` has the values of the URL with the number `no` in `m`. -/
structure Shows (s : FinishState n) (m : TaskMap) (no : ℕ) : Prop where
  runningThread : ∃ url, m.urlList no = some url ∧ url.runningThread = s.runningThread
  runningUrlCount : m.runningUrlCount = s.runningUrlCount

/-- **A call that runs alone does what `TaskMap.finishedOneUrl` does.** -/
theorem exec_alone {s : FinishState n} {i : Fin (n + 1)} {m : TaskMap} {no : ℕ}
    (hm : s.Shows m no) (hpc : s.pc i = .decrement) :
    ∃ k t, exec step s (List.replicate k i) = some t ∧ t.pc = Function.update s.pc i .done ∧
      t.Shows (m.finishedOneUrl no).1 no := by
  obtain ⟨⟨url, hurl, hthread⟩, hcount⟩ := hm
  obtain ⟨_, hfin⟩ := TaskMap.finishedOneUrl_eq hurl
  rw [hfin, hthread, hcount]
  by_cases hlast : s.runningThread - 1 ≤ 0
  · refine ⟨4, ⟨-1, decSize s.runningUrlCount, s.releases + 1, Function.update s.pc i .done⟩,
      by simp [exec, FinishState.step, hpc, hlast], rfl, ⟨_, Function.update_self .., ?_⟩, ?_⟩
    · simp [finishedThread, hlast]
    · simp [finishedThread, hlast]
  · have hne : s.runningThread - 1 ≠ -1 := by omega
    refine ⟨2, ⟨s.runningThread - 1, s.runningUrlCount, s.releases, Function.update s.pc i .done⟩,
      by simp [exec, FinishState.step, hpc, hlast, hne], rfl, ⟨_, Function.update_self .., ?_⟩, ?_⟩
    · simp [finishedThread, hlast]
    · simp [finishedThread, hlast, hne]

/-! ### Who will free the slot -/

/-- A call that has not counted down. -/
def isDecrement : FinishPc → ℕ
  | .decrement => 1
  | _ => 0

/-- A call that is about to store. -/
def isStore : FinishPc → ℕ
  | .store => 1
  | _ => 0

/-- A call that will free the slot, as far as it is decided. -/
def owes : FinishPc → ℕ
  | .store => 1
  | .load true => 1
  | .release => 1
  | _ => 0

/-- The calls that have not counted yet. -/
def toCount (s : FinishState n) : ℕ := total isDecrement s.pc

/-- The calls that are about to store. -/
def stores (s : FinishState n) : ℕ := total isStore s.pc

/-- How often the slot has been freed, or is to be by calls that have decided. -/
def credit (s : FinishState n) : ℕ := s.releases + total owes s.pc

/-- The three phases of the calls: some have to count down; one has come to `0`
and is about to store; `-1` is stored. -/
inductive Phase (s : FinishState n) : Prop
  | counting (hcount : 0 < s.toCount) (hthread : s.runningThread = s.toCount)
      (hcredit : s.credit = 0)
  | storing (hcount : s.toCount = 0) (hthread : s.runningThread = 0) (hstores : s.stores = 1)
      (hcredit : s.credit = 1)
  | stored (hcount : s.toCount = 0) (hthread : s.runningThread = -1) (hstores : s.stores = 0)
      (hcredit : 1 ≤ s.credit)

/-- How often the slot will be freed, if no read is late. -/
def owed (s : FinishState n) : ℕ := max s.credit 1

variable {s t : FinishState n} {i : Fin (n + 1)}

/-- The counts after a step of the call `i` to `p`. -/
theorem counts_update (s : FinishState n) (i : Fin (n + 1)) (p : FinishPc) (thread : ℤ)
    (count releases : ℕ) :
    (mk thread count releases (Function.update s.pc i p)).toCount + isDecrement (s.pc i) =
        s.toCount + isDecrement p ∧
      (mk thread count releases (Function.update s.pc i p)).stores + isStore (s.pc i) =
        s.stores + isStore p ∧
      (mk thread count releases (Function.update s.pc i p)).credit + s.releases + owes (s.pc i) =
        s.credit + releases + owes p := by
  have hcredit := total_update owes s.pc i p
  refine ⟨total_update _ _ _ _, total_update _ _ _ _, ?_⟩
  simp only [credit]
  omega

/-- What one call counts for is part of the counts. -/
theorem le_counts (s : FinishState n) (i : Fin (n + 1)) :
    isDecrement (s.pc i) ≤ s.toCount ∧ isStore (s.pc i) ≤ s.stores ∧
      s.releases + s.stores + (owes (s.pc i) - isStore (s.pc i)) ≤ s.credit := by
  refine ⟨le_total _ _ i, le_total _ _ i, ?_⟩
  have hsplit := total_add_le (f := isStore) (g := fun p => owes p - isStore p) (h := owes)
    (by rintro (_ | _ | ⟨_ | _⟩ | _ | _) <;> decide) s.pc
  have hi := le_total (fun p => owes p - isStore p) s.pc i
  simp only [credit, stores]
  omega

/-- Once `-1` is stored, no call has to count down or to store. -/
theorem Phase.of_minusOne (h : s.Phase) (hthread : s.runningThread = -1) :
    s.toCount = 0 ∧ s.stores = 0 ∧ 1 ≤ s.credit := by
  rcases h with ⟨hcount, hpos, hcredit⟩ | ⟨hcount, hzero, hstores, hcredit⟩ |
    ⟨hcount, hminus, hstores, hcredit⟩
  · omega
  · omega
  · exact ⟨hcount, hstores, hcredit⟩

/-- A call that has stored, or is about to free the slot, finds `-1`. -/
theorem Phase.minusOne_of_owes (h : s.Phase) (howes : isStore (s.pc i) < owes (s.pc i)) :
    s.runningThread = -1 := by
  have hle := (le_counts s i).2.2
  rcases h with ⟨hcount, hpos, hcredit⟩ | ⟨hcount, hzero, hstores, hcredit⟩ |
    ⟨hcount, hminus, hstores, hcredit⟩
  · omega
  · omega
  · exact hminus

/-- The decrement: the last one to count down will store. -/
theorem Phase.decrement (h : s.Phase) (hpc : s.pc i = .decrement)
    (hst : s.step i = some t) : t.Phase ∧ t.owed = s.owed := by
  have hle := le_counts s i
  simp only [FinishState.step, hpc, Option.some.injEq] at hst
  rcases h with ⟨hcount, hthread, hcredit⟩ | ⟨hcount, -, -, -⟩ | ⟨hcount, -, -, -⟩
  · by_cases hlast : s.runningThread - 1 ≤ 0
    · have hup := counts_update s i .store (s.runningThread - 1) s.runningUrlCount s.releases
      rw [if_pos hlast] at hst
      simp only [hst, hpc, isDecrement, isStore, owes] at hup hle
      have ht : t.runningThread = s.runningThread - 1 := by rw [← hst]
      exact ⟨.storing (by omega) (by omega) (by omega) (by omega), by unfold owed; omega⟩
    · have hup := counts_update s i (.load false) (s.runningThread - 1) s.runningUrlCount s.releases
      rw [if_neg hlast] at hst
      simp only [hst, hpc, isDecrement, isStore, owes] at hup hle
      have ht : t.runningThread = s.runningThread - 1 := by rw [← hst]
      exact ⟨.counting (by omega) (by omega) (by omega), by unfold owed; omega⟩
  all_goals
    simp only [hpc, isDecrement] at hle
    omega

/-- The store. -/
theorem Phase.store (h : s.Phase) (hpc : s.pc i = .store) (hst : s.step i = some t) :
    t.Phase ∧ t.owed = s.owed := by
  have hle := le_counts s i
  have hup := counts_update s i (.load true) (-1) s.runningUrlCount s.releases
  simp only [FinishState.step, hpc, Option.some.injEq] at hst
  simp only [hst, hpc, isDecrement, isStore, owes] at hup hle
  have ht : t.runningThread = -1 := by rw [← hst]
  rcases h with ⟨hcount, hthread, hcredit⟩ | ⟨hcount, hthread, hstores, hcredit⟩ |
    ⟨hcount, hthread, hstores, hcredit⟩
  · omega
  · exact ⟨.stored (by omega) ht (by omega) (by omega), by unfold owed; omega⟩
  · omega

/-- The second read: it decides to free the slot when `-1` is stored. -/
theorem Phase.load {b : Bool} (h : s.Phase) (hpc : s.pc i = .load b) (hst : s.step i = some t) :
    t.Phase ∧ (s.LoadsInTime i → t.owed = s.owed) ∧ (¬ s.LoadsInTime i → t.owed = s.owed + 1) := by
  have hle := le_counts s i
  simp only [FinishState.step, hpc, Option.some.injEq] at hst
  by_cases hminus : s.runningThread = -1
  · rw [if_pos hminus] at hst
    have hup := counts_update s i .release s.runningThread s.runningUrlCount s.releases
    have ht : t.runningThread = -1 := by rw [← hst]; exact hminus
    obtain ⟨hcount, hstores, hcredit⟩ := h.of_minusOne hminus
    cases b with
    | false =>
        simp only [hst, hpc, isDecrement, isStore, owes] at hup hle
        refine ⟨.stored (by omega) ht (by omega) (by omega), fun hin => ?_, fun _ => ?_⟩
        · exact absurd hminus (hin hpc)
        · unfold owed
          omega
    | true =>
        simp only [hst, hpc, isDecrement, isStore, owes] at hup hle
        refine ⟨.stored (by omega) ht (by omega) (by omega), fun _ => ?_, fun hin => ?_⟩
        · unfold owed
          omega
        · exact absurd (by simp [LoadsInTime, hpc]) hin
  · rw [if_neg hminus] at hst
    have hup := counts_update s i .done s.runningThread s.runningUrlCount s.releases
    have ht : t.runningThread = s.runningThread := by rw [← hst]
    have hin : s.LoadsInTime i := fun _ => hminus
    cases b with
    | false =>
        simp only [hst, hpc, isDecrement, isStore, owes] at hup hle
        rcases h with ⟨hcount, hthread, hcredit⟩ | ⟨hcount, hthread, hstores, hcredit⟩ |
          ⟨hcount, hthread, hstores, hcredit⟩
        · exact ⟨.counting (by omega) (by omega) (by omega), fun _ => by unfold owed; omega,
            fun h => absurd hin h⟩
        · exact ⟨.storing (by omega) (by omega) (by omega) (by omega),
            fun _ => by unfold owed; omega, fun h => absurd hin h⟩
        · exact absurd hthread hminus
    | true =>
        -- a call that has stored reads `-1`
        have howes : isStore (s.pc i) < owes (s.pc i) := by rw [hpc]; decide
        exact absurd (h.minusOne_of_owes howes) hminus

/-- The release. -/
theorem Phase.release (h : s.Phase) (hpc : s.pc i = .release) (hst : s.step i = some t) :
    t.Phase ∧ t.owed = s.owed := by
  have howes : isStore (s.pc i) < owes (s.pc i) := by rw [hpc]; decide
  have hminus := h.minusOne_of_owes howes
  obtain ⟨hcount, hstores, hcredit⟩ := h.of_minusOne hminus
  have hup := counts_update s i .done s.runningThread (decSize s.runningUrlCount) (s.releases + 1)
  simp only [FinishState.step, hpc, Option.some.injEq] at hst
  simp only [hst, hpc, isDecrement, isStore, owes] at hup
  have ht : t.runningThread = s.runningThread := by rw [← hst]
  exact ⟨.stored (by omega) (by omega) (by omega) (by omega), by unfold owed; omega⟩

/-- **A step leads from phase to phase**, and the slot is freed once more than it
was to be by a late read only. -/
theorem Phase.step (h : s.Phase) (hst : s.step i = some t) :
    t.Phase ∧ (s.LoadsInTime i → t.owed = s.owed) ∧ (¬ s.LoadsInTime i → t.owed = s.owed + 1) := by
  have hother : (∀ b, s.pc i ≠ .load b) → t.Phase ∧ t.owed = s.owed →
      t.Phase ∧ (s.LoadsInTime i → t.owed = s.owed) ∧ (¬ s.LoadsInTime i → t.owed = s.owed + 1) :=
    fun hpc ⟨hphase, howed⟩ =>
      ⟨hphase, fun _ => howed, fun hin => absurd (fun hload => absurd hload (hpc false)) hin⟩
  cases hpc : s.pc i with
  | decrement => exact hother (by simp [hpc]) (h.decrement hpc hst)
  | store => exact hother (by simp [hpc]) (h.store hpc hst)
  | load b => exact h.load hpc hst
  | release => exact hother (by simp [hpc]) (h.release hpc hst)
  | done => simp [FinishState.step, hpc] at hst

/-! ### All calls -/

/-- At the start the slot is to be freed once. -/
theorem phase_init (n count : ℕ) : (init n count).Phase ∧ (init n count).owed = 1 := by
  have hcount : (init n count).toCount = n + 1 := by
    simp [toCount, init, total_const, isDecrement]
  have hcredit : (init n count).credit = 0 := by
    simp [credit, init, total_const, owes]
  exact ⟨.counting (by omega) (by rw [hcount]; simp [init]) hcredit, by unfold owed; omega⟩

/-- When all calls are done, the slot has been freed as often as it was to be. -/
theorem Phase.releases_eq (h : s.Phase) (hdone : ∀ i, s.pc i = .done) : s.releases = s.owed := by
  have hstores : s.stores = 0 := (total_eq_zero_iff _ _).2 fun i => by rw [hdone i]; rfl
  have howes : total owes s.pc = 0 := (total_eq_zero_iff _ _).2 fun i => by rw [hdone i]; rfl
  have hcount : s.toCount = 0 := (total_eq_zero_iff _ _).2 fun i => by rw [hdone i]; rfl
  rcases h with ⟨hpos, -, -⟩ | ⟨-, -, hone, -⟩ | ⟨-, -, -, hcredit⟩
  · omega
  · omega
  · unfold owed
    unfold credit at hcredit ⊢
    omega

/-- The slot is to be freed once, and `count` slots less the freed one are taken. -/
structure Once (count : ℕ) (s : FinishState n) : Prop where
  phase : s.Phase
  owed : s.owed = 1
  count : s.runningUrlCount + s.releases = count

/-- What is released is taken from the counter, once. -/
theorem Once.count_step {count : ℕ} (h : Once count s) (hpos : 0 < count) (hlt : count < 2 ^ 32)
    (hst : s.step i = some t) : t.runningUrlCount + t.releases = count := by
  have hcount := h.count
  unfold FinishState.step at hst
  split at hst
  case h_4 hpc =>
    obtain rfl := Option.some.inj hst
    have hle := (le_counts s i).2.2
    have howed := h.owed
    simp only [hpc, FinishState.owed, owes, isStore] at hle howed
    have hdec : decSize s.runningUrlCount = s.runningUrlCount - 1 := by
      unfold decSize
      omega
    simp only [hdec]
    omega
  case h_5 => cases hst
  all_goals
    obtain rfl := Option.some.inj hst
    exact hcount

/-- **A step in time leaves the slot to be freed once.** -/
theorem Once.step {count : ℕ} (hpos : 0 < count) (hlt : count < 2 ^ 32) (s : FinishState n)
    (i : Fin (n + 1)) (t : FinishState n) (h : Once count s) (hin : s.LoadsInTime i)
    (hst : s.step i = some t) : Once count t where
  phase := (h.phase.step hst).1
  owed := ((h.phase.step hst).2.1 hin).trans h.owed
  count := h.count_step hpos hlt hst

/-- **The slot of a URL is freed once, exactly in the schedules in which no call
but the one that stores `-1` reads it.** -/
theorem releases_eq_one_iff {count : ℕ} (hpos : 0 < count) (hlt : count < 2 ^ 32)
    {calls : List (Fin (n + 1))} (hrun : exec step (init n count) calls = some t)
    (hdone : ∀ i, t.pc i = .done) :
    (t.releases = 1 ∧
        Always step (fun s => s.runningUrlCount + s.releases = count) (init n count) calls) ↔
      Along step LoadsInTime (init n count) calls := by
  have hinit : Once count (init n count) := ⟨(phase_init n count).1, (phase_init n count).2, rfl⟩
  -- a late read makes it two, and no later step makes it less
  have hlate : ∀ (s : FinishState n) (i : Fin (n + 1)) (t : FinishState n), Once count s →
      ¬ s.LoadsInTime i → s.step i = some t → t.Phase ∧ 2 ≤ t.owed := fun s i t hs hin hst =>
    ⟨(hs.phase.step hst).1, by rw [(hs.phase.step hst).2.2 hin, hs.owed]⟩
  have hkept : ∀ (s : FinishState n) (i : Fin (n + 1)) (t : FinishState n),
      s.Phase ∧ 2 ≤ s.owed → s.step i = some t → t.Phase ∧ 2 ≤ t.owed := by
    intro s i t hs hst
    obtain ⟨hphase, hin, hout⟩ := hs.1.step hst
    refine ⟨hphase, ?_⟩
    by_cases h : s.LoadsInTime i
    · exact (hin h).symm ▸ hs.2
    · exact (hout h).symm ▸ hs.2.trans (Nat.le_succ _)
  rcases along_or_doomed hinit (Once.step hpos hlt) hlate hkept hrun with
    ⟨halong, hend⟩ | ⟨halong, hend, htwo⟩
  · refine iff_of_true ⟨(hend.phase.releases_eq hdone).trans hend.owed, ?_⟩ halong
    exact (always_of_along hinit (Once.step hpos hlt) halong).mono fun s hs => hs.count
  · refine iff_of_false (fun h => ?_) halong
    have := hend.releases_eq hdone
    omega

/-- The worker and one policy, one after the other. -/
theorem releases_eq_one_serial :
    ∃ t : FinishState 1, exec step (init 1 1) [0, 0, 1, 1, 1, 1] = some t ∧
      t.releases = 1 ∧ Always step (fun s => s.runningUrlCount + s.releases = 1) (init 1 1)
        [0, 0, 1, 1, 1, 1] :=
  ⟨_, rfl, (releases_eq_one_iff Nat.one_pos (by decide) rfl (by decide)).2 (by decide)⟩

/-- The worker counts down, the policy counts down and stores, and both read
`-1`: the only slot that is taken is freed twice. -/
theorem releases_eq_two :
    ∃ t : FinishState 1, exec step (init 1 1) [0, 1, 1, 0, 1, 0, 1] = some t ∧
      (∀ i, t.pc i = .done) ∧ t.releases = 2 ∧ t.runningUrlCount = 2 ^ 32 - 1 :=
  ⟨_, rfl, by decide, rfl, rfl⟩

end FinishState

end TaskData
end Scaner
