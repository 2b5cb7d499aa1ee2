/-
# The counters of the pool

`thread_pool::start`, `stop`, `free`, `push` and `thread_run` in
`scaner_test/thread_pool.cpp`, and `clear` in `scaner_test/thread_pool.h`: the calls of any
number of threads, and the steps of any number of workers, those of an earlier `start`
included.

`start`, `stop` and `is_running` hold `thread_queue_mutex`; a worker holds it for the test
of `is_running` alone, which is one step.  The counters are atomic, and everything that
changes one is a step of its own.  A worker in `wait` may wake at any time, so `notify_one`
is left out.  A thread that `stop` has interrupted ends in `wait`, or in its job, where that
comes to an interruption point; behind a job that is broken off `running_count` is not
decremented.

`stop` sets `running_count` to zero while jobs may be running, whose decrements then wrap
around.  `always_meaningful_iff`: the counters are right throughout a run, exactly if every
step of it is `Orderly`.
-/

import Scaner.Lib.Trace
import Scaner.TaskData.TaskMap

namespace Scaner
namespace ThreadPool

open Trace TaskData

/-- `free`. -/
def free (totalCount runningCount : ℕ) : ℕ :=
  let n := toInt ((totalCount : ℤ) - runningCount)
  (if n < 0 then 0 else n).toNat

/-- The next step of a worker in `thread_run`. -/
inductive RunPc (φ : Type)
  | test
  | pull
  | wait
  | increment (f : φ)
  | execute (f : φ)
  | decrement
  | ended
  deriving DecidableEq

/-- Between the increment and the decrement. -/
def RunPc.counted {φ : Type} : RunPc φ → Bool
  | execute _ => true
  | decrement => true
  | _ => false

/-- The next step of a thread in `stop`, `start` or `push`.  `stop` is called by `start`, with
the argument of which it goes on. -/
inductive CallPc (φ : Type)
  | idle
  | interrupt (start : Option (Fin (2 ^ 32)))
  | clearTotal (start : Option (Fin (2 ^ 32)))
  | clearRunning (start : Option (Fin (2 ^ 32)))
  | clearContent (start : Option (Fin (2 ^ 32)))
  | clearThreads (start : Option (Fin (2 ^ 32)))
  | lock (total : Fin (2 ^ 32))
  | setTotal (total : Fin (2 ^ 32))
  | spawn (total : Fin (2 ^ 32))
  | test (func : φ)
  | pushback (func : φ)
  deriving DecidableEq

/-- The counters, `work_queue_content`, `work_queue_thread` as the numbers of its workers,
whether `thread_queue_mutex` is held by a call, the workers that have been interrupted, all
workers, and the threads that call. -/
structure Counters (κ φ : Type) where
  totalCount : ℕ
  runningCount : ℕ
  content : List φ
  threads : List ℕ
  locked : Bool
  interrupted : List ℕ
  workers : List (RunPc φ)
  caller : κ → CallPc φ

/-- A call, a step of a call, a step of a worker, or the end of one that was interrupted. -/
inductive Event (κ φ : Type)
  | start (k : κ) (total : Fin (2 ^ 32))
  | stop (k : κ)
  | push (k : κ) (func : φ)
  | call (k : κ)
  | worker (i : ℕ)
  | breakOff (i : ℕ)

namespace Counters

variable {κ φ : Type}

/-- A pool that was constructed. -/
def init : Counters κ φ := ⟨0, 0, [], [], false, [], [], fun _ => .idle⟩

/-- The number of workers between the increment and the decrement. -/
def busy (s : Counters κ φ) : ℕ := s.workers.countP RunPc.counted

/-- `running_count` is the number of workers that it counts, and `free()` is not more than
`total_count`. -/
def Meaningful (s : Counters κ φ) : Prop :=
  s.runningCount = s.busy ∧ free s.totalCount s.runningCount ≤ s.totalCount

/-- A worker has moved. -/
def setWorker (s : Counters κ φ) (i : ℕ) (pc : RunPc φ) : Counters κ φ :=
  { s with workers := s.workers.set i pc }

/-- A step of `thread_run`. -/
def stepRun (s : Counters κ φ) (i : ℕ) : Option (Counters κ φ) :=
  match s.workers[i]? with
  | none => none
  | some .test =>
      if s.locked then none
      else some (s.setWorker i (if 0 < s.threads.length then .pull else .ended))
  | some .pull =>
      match s.content with
      | [] => some (s.setWorker i .wait)
      | f :: rest => some ({ s with content := rest }.setWorker i (.increment f))
  | some .wait => some (s.setWorker i .pull)
  | some (.increment f) =>
      some ({ s with runningCount := incSize s.runningCount }.setWorker i (.execute f))
  | some (.execute _) => some (s.setWorker i .decrement)
  | some .decrement =>
      some ({ s with runningCount := decSize s.runningCount }.setWorker i .test)
  | some .ended => none

/-- A worker that was interrupted comes to an interruption point. -/
def breakOff (s : Counters κ φ) (i : ℕ) : Option (Counters κ φ) :=
  if i ∈ s.interrupted then
    match s.workers[i]? with
    | some .wait => some (s.setWorker i .ended)
    | some (.execute _) => some (s.setWorker i .ended)
    | _ => none
  else none

variable [DecidableEq κ]

/-- A caller has moved. -/
def setCaller (s : Counters κ φ) (k : κ) (pc : CallPc φ) : Counters κ φ :=
  { s with caller := Function.update s.caller k pc }

/-- A step of `stop`, `start` or `push`. -/
def stepCall (s : Counters κ φ) (k : κ) : Option (Counters κ φ) :=
  match s.caller k with
  | .idle => none
  | .interrupt start =>
      if s.locked then none
      else some ({ s with locked := true, interrupted := s.threads ++ s.interrupted }.setCaller k
        (.clearTotal start))
  | .clearTotal start => some ({ s with totalCount := 0 }.setCaller k (.clearRunning start))
  | .clearRunning start => some ({ s with runningCount := 0 }.setCaller k (.clearContent start))
  | .clearContent start => some ({ s with content := [] }.setCaller k (.clearThreads start))
  | .clearThreads start =>
      some ({ s with threads := [], locked := false }.setCaller k
        (match start with | none => .idle | some total => .lock total))
  | .lock total =>
      if s.locked then none else some ({ s with locked := true }.setCaller k (.setTotal total))
  | .setTotal total => some ({ s with totalCount := total }.setCaller k (.spawn total))
  | .spawn total =>
      some ({ s with
        threads := (List.range total).map (s.workers.length + ·)
        workers := s.workers ++ List.replicate (total : ℕ) RunPc.test
        locked := false }.setCaller k .idle)
  | .test func =>
      if s.locked then none
      else some (s.setCaller k (if 0 < s.threads.length then .pushback func else .idle))
  | .pushback func => some ({ s with content := s.content ++ [func] }.setCaller k .idle)

/-- What happens in an event. -/
def step (s : Counters κ φ) : Event κ φ → Option (Counters κ φ)
  | .start k total =>
      match s.caller k with
      | .idle => some (s.setCaller k (.interrupt (some total)))
      | _ => none
  | .stop k =>
      match s.caller k with
      | .idle => some (s.setCaller k (.interrupt none))
      | _ => none
  | .push k func =>
      match s.caller k with
      | .idle => some (s.setCaller k (.test func))
      | _ => none
  | .call k => s.stepCall k
  | .worker i => s.stepRun i
  | .breakOff i => s.breakOff i

/-- `running_count` is set to zero when no worker is counted, no job is broken off, and the
workers that are counted do not exceed `total_count` by more than `2 ^ 31`, nor what a `size_t`
holds. -/
def Orderly (s : Counters κ φ) : Event κ φ → Prop
  | .call k =>
      match s.caller k with
      | .clearTotal _ => s.busy ≤ 2 ^ 31
      | .clearRunning _ => s.busy = 0
      | .setTotal total => s.busy ≤ total + 2 ^ 31
      | _ => True
  | .worker i =>
      match s.workers[i]? with
      | some (.increment _) => s.busy + 1 < 2 ^ 32 ∧ s.busy + 1 ≤ s.totalCount + 2 ^ 31
      | _ => True
  | .breakOff i =>
      match s.workers[i]? with
      | some (.execute _) => False
      | _ => True
  | _ => True

end Counters

/-! ### The counts -/

/-- The two counters, and the number of workers that are counted. -/
structure Counts where
  total : ℕ
  running : ℕ
  busy : ℕ

namespace Counts

variable {c d : Counts} {ok : Prop}

/-- The counters are right, and each of them is a `size_t`. -/
structure Right (c : Counts) : Prop where
  running : c.running = c.busy
  le : c.busy ≤ c.total + 2 ^ 31
  total_lt : c.total < 2 ^ 32
  busy_lt : c.busy < 2 ^ 32

/-- What a step does to the counts; `ok` says whether it is orderly. -/
inductive Change (c : Counts) (ok : Prop) : Counts → Prop
  | keep (h : ok) : Change c ok c
  | increment (h : ok ↔ c.busy + 1 < 2 ^ 32 ∧ c.busy + 1 ≤ c.total + 2 ^ 31) :
      Change c ok ⟨c.total, incSize c.running, c.busy + 1⟩
  | decrement (h : ok) (hpos : 0 < c.busy) :
      Change c ok ⟨c.total, decSize c.running, c.busy - 1⟩
  | lose (h : ¬ ok) (hpos : 0 < c.busy) : Change c ok ⟨c.total, c.running, c.busy - 1⟩
  | setTotal (total : Fin (2 ^ 32)) (h : ok ↔ c.busy ≤ total + 2 ^ 31) :
      Change c ok ⟨total, c.running, c.busy⟩
  | clearRunning (h : ok ↔ c.busy = 0) : Change c ok ⟨c.total, 0, c.busy⟩

/-- The conversion to `int` hides a difference of more than `2 ^ 31`. -/
theorem free_le_iff {total running : ℕ} (ht : total < 2 ^ 32) (hr : running < 2 ^ 32) :
    free total running ≤ total ↔ running ≤ total + 2 ^ 31 := by
  unfold free toInt
  simp only
  split_ifs <;> omega

/-- With right counters `free()` is not more than `total_count`. -/
theorem Right.free_le (h : c.Right) : free c.total c.running ≤ c.total := by
  rw [free_le_iff h.total_lt (h.running ▸ h.busy_lt), h.running]
  exact h.le

/-- An orderly step keeps the counts right. -/
theorem Change.right (hc : Change c ok d) (h : c.Right) (hok : ok) : d.Right := by
  obtain ⟨hrun, hle, htotal, hbusy⟩ := h
  cases hc with
  | keep _ => exact ⟨hrun, hle, htotal, hbusy⟩
  | increment h =>
      obtain ⟨hlt, hle⟩ := h.1 hok
      refine ⟨?_, hle, htotal, hlt⟩
      simp only [incSize]
      omega
  | decrement _ hpos =>
      refine ⟨?_, ?_, htotal, ?_⟩ <;> simp only [decSize] <;> omega
  | lose h _ => exact absurd hok h
  | setTotal total h => exact ⟨hrun, h.1 hok, total.isLt, hbusy⟩
  | clearRunning h => exact ⟨(h.1 hok).symm, hle, htotal, hbusy⟩

/-- A step that is not orderly makes them wrong at once. -/
theorem Change.wrong (hc : Change c ok d) (h : c.Right) (hok : ¬ ok) :
    ¬ (d.running = d.busy ∧ free d.total d.running ≤ d.total) := by
  obtain ⟨hrun, hle, htotal, hbusy⟩ := h
  rintro ⟨hrun', hfree⟩
  cases hc with
  | keep h => exact hok h
  | increment h =>
      refine hok (h.2 ?_)
      simp only [incSize] at hrun' hfree
      have hlt : c.busy + 1 < 2 ^ 32 := hrun' ▸ Nat.mod_lt _ (Nat.two_pow_pos 32)
      rw [hrun', free_le_iff htotal hlt] at hfree
      exact ⟨hlt, hfree⟩
  | decrement h _ => exact hok h
  | lose _ hpos =>
      simp only at hrun'
      omega
  | setTotal total h =>
      simp only at hfree
      rw [free_le_iff total.isLt (hrun ▸ hbusy), hrun] at hfree
      exact hok (h.2 hfree)
  | clearRunning h => exact hok (h.2 hrun'.symm)

end Counts

/-! ### What a step does to the counts -/

namespace Counters

variable {κ φ : Type} {s t : Counters κ φ} {i : ℕ} {pc : RunPc φ}

/-- The counts of a state. -/
def counts (s : Counters κ φ) : Counts := ⟨s.totalCount, s.runningCount, s.busy⟩

/-- What a step of one worker does to the number of those that are counted. -/
theorem countP_set {ws : List (RunPc φ)} (h : ws[i]? = some pc) (pc' : RunPc φ) :
    (ws.set i pc').countP RunPc.counted = ws.countP RunPc.counted -
      (if pc.counted then 1 else 0) + if pc'.counted then 1 else 0 := by
  obtain ⟨hi, hpc⟩ := List.getElem?_eq_some_iff.1 h
  rw [List.countP_set hi, hpc]

/-- A worker that is counted is one of those that are. -/
theorem busy_pos (h : s.workers[i]? = some pc) (hpc : pc.counted = true) : 0 < s.busy :=
  List.countP_pos_iff.2 ⟨pc, List.mem_of_getElem? h, hpc⟩

/-- A worker that is counted as before leaves the counts as they are. -/
theorem counts_setWorker (h : s.workers[i]? = some pc) {pc' : RunPc φ}
    (hsame : pc'.counted = pc.counted) : (s.setWorker i pc').counts = s.counts := by
  have hbusy : (s.setWorker i pc').busy = s.busy := by
    rw [busy, setWorker, countP_set h, hsame, ← busy]
    cases hcounted : pc.counted with
    | false => rfl
    | true =>
        have hpos := busy_pos h hcounted
        simp only [if_true]
        omega
  rw [counts, hbusy]
  rfl

/-- A step that leaves the counts. -/
theorem change_of_eq {ok : Prop} (h : t.counts = s.counts) (hok : ok) :
    s.counts.Change ok t.counts := h ▸ .keep hok

/-- The counts behind a step of a worker that stores `n` in `running_count`. -/
theorem counts_setRunning (h : s.workers[i]? = some pc) (n : ℕ) (pc' : RunPc φ) :
    ({ s with runningCount := n }.setWorker i pc').counts =
      ⟨s.counts.total, n, s.counts.busy -
        (if pc.counted then 1 else 0) + if pc'.counted then 1 else 0⟩ := by
  rw [counts, busy, setWorker, countP_set h]
  rfl

/-- A worker counts itself. -/
theorem change_increment {f : φ} (h : s.workers[i]? = some (.increment f)) :
    s.counts.Change (s.Orderly (.worker i))
      ({ s with runningCount := incSize s.runningCount }.setWorker i (.execute f)).counts := by
  have hok : s.Orderly (.worker i) ↔
      s.busy + 1 < 2 ^ 32 ∧ s.busy + 1 ≤ s.totalCount + 2 ^ 31 := by simp only [Orderly, h]
  rw [counts_setRunning h]
  exact .increment hok

/-- A worker no longer counts itself. -/
theorem change_decrement (h : s.workers[i]? = some .decrement) :
    s.counts.Change (s.Orderly (.worker i))
      ({ s with runningCount := decSize s.runningCount }.setWorker i .test).counts := by
  have hok : s.Orderly (.worker i) := by simp only [Orderly, h]
  rw [counts_setRunning h]
  exact .decrement hok (busy_pos h rfl)

/-- A worker whose job is broken off stays in `running_count`. -/
theorem change_lose {f : φ} (h : s.workers[i]? = some (.execute f)) :
    s.counts.Change (s.Orderly (.breakOff i)) (s.setWorker i .ended).counts := by
  have hok : ¬ s.Orderly (.breakOff i) := by simp only [Orderly, h, not_false_eq_true]
  have hcounts := counts_setRunning h s.runningCount .ended
  rw [hcounts]
  exact .lose hok (busy_pos h rfl)

/-- What a step of a worker does to the counts. -/
theorem change_stepRun (h : s.stepRun i = some t) :
    s.counts.Change (s.Orderly (.worker i)) t.counts := by
  cases hpc : s.workers[i]? with
  | none => simp [stepRun, hpc] at h
  | some pc =>
      cases pc with
      | test =>
          have hok : s.Orderly (.worker i) := by simp only [Orderly, hpc]
          simp only [stepRun, hpc] at h
          split_ifs at h with hlocked hrunning
          · obtain rfl := Option.some.inj h
            exact change_of_eq (counts_setWorker hpc rfl) hok
          · obtain rfl := Option.some.inj h
            exact change_of_eq (counts_setWorker hpc rfl) hok
      | pull =>
          have hok : s.Orderly (.worker i) := by simp only [Orderly, hpc]
          simp only [stepRun, hpc] at h
          split at h
          · obtain rfl := Option.some.inj h
            exact change_of_eq (counts_setWorker hpc rfl) hok
          · rename_i f rest _
            obtain rfl := Option.some.inj h
            exact change_of_eq (counts_setWorker (s := { s with content := rest }) hpc rfl) hok
      | wait =>
          have hok : s.Orderly (.worker i) := by simp only [Orderly, hpc]
          simp only [stepRun, hpc] at h
          obtain rfl := Option.some.inj h
          exact change_of_eq (counts_setWorker hpc rfl) hok
      | increment f =>
          simp only [stepRun, hpc] at h
          obtain rfl := Option.some.inj h
          exact change_increment hpc
      | execute f =>
          have hok : s.Orderly (.worker i) := by simp only [Orderly, hpc]
          simp only [stepRun, hpc] at h
          obtain rfl := Option.some.inj h
          exact change_of_eq (counts_setWorker hpc rfl) hok
      | decrement =>
          simp only [stepRun, hpc] at h
          obtain rfl := Option.some.inj h
          exact change_decrement hpc
      | ended => simp [stepRun, hpc] at h

/-- What breaking off a job does to the counts. -/
theorem change_breakOff (h : s.breakOff i = some t) :
    s.counts.Change (s.Orderly (.breakOff i)) t.counts := by
  unfold breakOff at h
  split_ifs at h with hinterrupted
  split at h
  · rename_i hpc
    have hok : s.Orderly (.breakOff i) := by simp only [Orderly, hpc]
    obtain rfl := Option.some.inj h
    exact change_of_eq (counts_setWorker hpc rfl) hok
  · rename_i hpc
    obtain rfl := Option.some.inj h
    exact change_lose hpc
  · cases h

/-- New workers are not counted. -/
theorem busy_spawn (ws : List (RunPc φ)) (n : ℕ) :
    (ws ++ List.replicate n RunPc.test).countP RunPc.counted = ws.countP RunPc.counted := by
  simp [List.countP_append, List.countP_replicate, RunPc.counted]

variable [DecidableEq κ]

/-- What a step of a caller does to the counts. -/
theorem change_stepCall {k : κ} (h : s.stepCall k = some t) :
    s.counts.Change (s.Orderly (.call k)) t.counts := by
  cases hpc : s.caller k with
  | idle => simp [stepCall, hpc] at h
  | interrupt start =>
      simp only [stepCall, hpc] at h
      split_ifs at h
      obtain rfl := Option.some.inj h
      exact .keep (by simp only [Orderly, hpc])
  | clearTotal start =>
      simp only [stepCall, hpc] at h
      obtain rfl := Option.some.inj h
      exact .setTotal 0 (by simp [Orderly, hpc, counts])
  | clearRunning start =>
      simp only [stepCall, hpc] at h
      obtain rfl := Option.some.inj h
      exact .clearRunning (by simp only [Orderly, hpc, counts])
  | clearContent start =>
      simp only [stepCall, hpc] at h
      obtain rfl := Option.some.inj h
      exact .keep (by simp only [Orderly, hpc])
  | clearThreads start =>
      simp only [stepCall, hpc] at h
      obtain rfl := Option.some.inj h
      exact .keep (by simp only [Orderly, hpc])
  | lock total =>
      simp only [stepCall, hpc] at h
      split_ifs at h
      obtain rfl := Option.some.inj h
      exact .keep (by simp only [Orderly, hpc])
  | setTotal total =>
      simp only [stepCall, hpc] at h
      obtain rfl := Option.some.inj h
      exact .setTotal total (by simp only [Orderly, hpc, counts])
  | spawn total =>
      simp only [stepCall, hpc] at h
      obtain rfl := Option.some.inj h
      refine change_of_eq ?_ (by simp only [Orderly, hpc])
      rw [counts, busy]
      exact congrArg (Counts.mk _ _) (busy_spawn s.workers total)
  | test func =>
      simp only [stepCall, hpc] at h
      split_ifs at h
      · obtain rfl := Option.some.inj h
        exact .keep (by simp only [Orderly, hpc])
      · obtain rfl := Option.some.inj h
        exact .keep (by simp only [Orderly, hpc])
  | pushback func =>
      simp only [stepCall, hpc] at h
      obtain rfl := Option.some.inj h
      exact .keep (by simp only [Orderly, hpc])

/-- A call that begins changes no count. -/
theorem change_begin {k : κ} {pc : CallPc φ}
    (h : (match s.caller k with
      | .idle => some (s.setCaller k pc)
      | _ => none) = some t) : s.counts.Change True t.counts := by
  split at h
  · obtain rfl := Option.some.inj h
    exact .keep trivial
  · cases h

/-- **What an event does to the counts.** -/
theorem change_step {a : Event κ φ} (h : s.step a = some t) :
    s.counts.Change (s.Orderly a) t.counts := by
  cases a with
  | start k total => exact change_begin h
  | stop k => exact change_begin h
  | push k func => exact change_begin h
  | call k => exact change_stepCall h
  | worker i => exact change_stepRun h
  | breakOff i => exact change_breakOff h

omit [DecidableEq κ] in
/-- At the start both counters are zero, and they are right. -/
theorem right_init : (init : Counters κ φ).counts.Right :=
  ⟨rfl, Nat.zero_le _, Nat.two_pow_pos 32, Nat.two_pow_pos 32⟩

/-- **The counters are right throughout a run** exactly if every step of it is orderly. -/
theorem always_meaningful_iff (as : List (Event κ φ)) :
    Always step Meaningful (init : Counters κ φ) as ↔ Along step Orderly (init : Counters κ φ) as :=
  always_iff_along (I := fun s => s.counts.Right) right_init
    (fun _ _ _ h hok hst => (change_step hst).right h hok)
    (fun _ h => ⟨h.running, h.free_le⟩)
    (fun _ _ _ h hok hst => (change_step hst).wrong h hok) as

/-- `start(1)`, a job that is pushed and pulled, and `stop()` up to `running_count = 0`, while
the job is being executed; then the worker comes to its decrement. -/
def stopWhileBusy : List (Event Unit Unit) :=
  let call := Event.call ()
  let worker := Event.worker 0
  [.start () 1, call, call, call, call, call, call, call, call,
    .push () (), call, call, worker, worker, worker,
    .stop (), call, call, call, worker, worker]

/-- `running_count` wraps around, and `free()` is one in a pool with no threads. -/
theorem exists_not_meaningful :
    ∃ s, exec step init stopWhileBusy = some s ∧ s.runningCount = 2 ^ 32 - 1 ∧ s.busy = 0 ∧
      s.totalCount = 0 ∧ free s.totalCount s.runningCount = 1 ∧ ¬ s.Meaningful := by
  have hrun : (exec step init stopWhileBusy).map
      (fun s => (s.runningCount, s.busy, s.totalCount)) = some (2 ^ 32 - 1, 0, 0) := by
    decide +kernel
  obtain ⟨s, hs, hcounts⟩ := Option.map_eq_some_iff.1 hrun
  simp only [Prod.mk.injEq] at hcounts
  obtain ⟨hrunning, hbusy, htotal⟩ := hcounts
  refine ⟨s, hs, hrunning, hbusy, htotal, ?_, fun h => ?_⟩
  · rw [hrunning, htotal]
    decide
  · rw [Meaningful, hrunning, hbusy] at h
    exact absurd h.1 (by decide)

end Counters

end ThreadPool
end Scaner
