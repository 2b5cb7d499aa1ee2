/-
# Jobs that wait for a worker

`thread_pool::push`, `pull` and `thread_run` in `scaner_test/thread_pool.cpp`,
over the `thread_work_queue` of `scaner_test/thread_work_queue.h`, with any
number of threads that push and any number of workers.

`pushback` and `pullfront` hold the mutex of the queue and are one step each; so
are the test of `is_running`, the test whether the queue is empty, and
`notify_one`.  A worker that pulls nothing waits on `thread_wait_condition`.  Its
mutex `mutex_test` is a local variable, which nobody else can lock, so that a job
may be pushed between the failed pull and the wait, and `notify_one` reaches
nobody.

`always_attended_iff`: a job in the queue has a worker that is awake or a
`notify_one` that is still to come, exactly in the runs in which the last worker
that is awake goes to wait with an empty queue, or with a `notify_one` to come.  So it is
in every run in which no job is pushed while a worker is between a pull that fails and its
wait (`always_attended_of_pushesInTime`).
-/

import Mathlib.Data.Fintype.Card
import Scaner.Lib.Trace

namespace Scaner
namespace ThreadPool

open Trace

variable {ι κ φ : Type}

/-- The next step of a thread in `push`. -/
inductive PushPc (φ : Type)
  | idle
  | test (func : φ)
  | pushback (func : φ)
  | notify

/-- The next step of a worker in `thread_run`; `func` is what `pull` has pulled.
`waiting` is a worker in `wait` that has not been notified. -/
inductive WorkerPc (φ : Type)
  | test
  | pullfront
  | empty (func : Option φ)
  | notify (func : Option φ)
  | wait
  | waiting
  | run (func : φ)
  | stopped

/-- `is_running` has been passed, and `notify_one` has not been called. -/
def PushPc.WillNotify : PushPc φ → Prop
  | pushback _ => True
  | notify => True
  | _ => False

/-- A worker that only `notify_one` can wake. -/
def WorkerPc.asleep : WorkerPc φ → Bool
  | waiting => true
  | _ => false

/-- A worker between a pull that has failed and its wait. -/
def WorkerPc.unserved : WorkerPc φ → Bool
  | empty none => true
  | notify none => true
  | wait => true
  | _ => false

/-- Behind `pull`: a worker with a job runs it, one without waits. -/
def WorkerPc.pulled : Option φ → WorkerPc φ
  | some func => run func
  | none => wait

/-- Behind `pull` a worker is awake. -/
theorem WorkerPc.asleep_pulled (func : Option φ) : (pulled func).asleep = false := by
  cases func <;> rfl

/-- `work_queue_content`, the workers, and the threads that push. -/
structure Pool (ι κ φ : Type) where
  content : List φ
  worker : ι → WorkerPc φ
  pusher : κ → PushPc φ

/-- A call of `push`, a step of a thread in `push`, or a step of a worker.  Where the
step is `notify_one`, `woken` is the worker that it wakes. -/
inductive Action (ι κ φ : Type)
  | push (k : κ) (func : φ)
  | pusher (k : κ) (woken : Option ι)
  | worker (i : ι) (woken : Option ι)

namespace Pool

/-- `is_running`: there are workers. -/
def isRunning [Fintype ι] (_ : Pool ι κ φ) : Bool := 0 < Fintype.card ι

/-- An empty queue, workers that start, and nobody in `push`. -/
def init : Pool ι κ φ := ⟨[], fun _ => .test, fun _ => .idle⟩

/-- A job in the queue has a worker that is awake, or a `notify_one` to come. -/
def Attended (s : Pool ι κ φ) : Prop :=
  s.content ≠ [] → (∃ i, (s.worker i).asleep = false) ∨ ∃ k, (s.pusher k).WillNotify

/-- The last worker that is awake goes to wait while the queue is empty, or while a
`notify_one` is to come. -/
def WaitsInTime (s : Pool ι κ φ) : Action ι κ φ → Prop
  | .worker i _ => s.worker i = .wait → s.content ≠ [] →
      (∃ j ≠ i, (s.worker j).asleep = false) ∨ ∃ k, (s.pusher k).WillNotify
  | _ => True

/-- Jobs are attended to, and only threads of a running pool come to `notify_one`. -/
structure Inv (s : Pool ι κ φ) : Prop where
  attended : s.Attended
  running : ∀ k, (s.pusher k).WillNotify → Nonempty ι

/-- At the start the queue is empty. -/
theorem inv_init : (init : Pool ι κ φ).Inv where
  attended h := absurd rfl h
  running _ h := h.elim

variable {s t : Pool ι κ φ}

/-- The pool runs exactly if there is a worker. -/
theorem isRunning_iff [Fintype ι] : s.isRunning = true ↔ Nonempty ι := by
  simp [isRunning, Fintype.card_pos_iff]

/-- A worker has moved. -/
def setWorker [DecidableEq ι] (s : Pool ι κ φ) (i : ι) (pc : WorkerPc φ) : Pool ι κ φ :=
  { s with worker := Function.update s.worker i pc }

/-- A thread in `push` has moved. -/
def setPusher [DecidableEq κ] (s : Pool ι κ φ) (k : κ) (pc : PushPc φ) : Pool ι κ φ :=
  { s with pusher := Function.update s.pusher k pc }

/-- `notify_one`: it wakes a worker that is asleep, if there is one. -/
def notifyOne [Fintype ι] [DecidableEq ι] (s : Pool ι κ φ) : Option ι → Option (Pool ι κ φ)
  | some j => if (s.worker j).asleep then some (s.setWorker j .pullfront) else none
  | none => if ∀ j, (s.worker j).asleep = false then some s else none

/-- A step of `push`. -/
def stepPush [Fintype ι] [DecidableEq ι] [DecidableEq κ] (s : Pool ι κ φ) (k : κ)
    (woken : Option ι) : Option (Pool ι κ φ) :=
  match s.pusher k with
  | .idle => none
  | .test func => some (s.setPusher k (if s.isRunning then .pushback func else .idle))
  | .pushback func => some ({ s with content := s.content ++ [func] }.setPusher k .notify)
  | .notify => (s.notifyOne woken).map (·.setPusher k .idle)

/-- A step of `thread_run`. -/
def stepRun [Fintype ι] [DecidableEq ι] (s : Pool ι κ φ) (i : ι) (woken : Option ι) :
    Option (Pool ι κ φ) :=
  match s.worker i with
  | .test => some (s.setWorker i (if s.isRunning then .pullfront else .stopped))
  | .pullfront =>
      match s.content with
      | [] => some (s.setWorker i (.empty none))
      | func :: rest => some ({ s with content := rest }.setWorker i (.empty (some func)))
  | .empty func =>
      some (s.setWorker i (if s.content.isEmpty then .pulled func else .notify func))
  | .notify func => (s.notifyOne woken).map (·.setWorker i (.pulled func))
  | .wait => some (s.setWorker i .waiting)
  | .waiting => none
  | .run _ => some (s.setWorker i .test)
  | .stopped => none

/-- What an action does. -/
def step [Fintype ι] [DecidableEq ι] [DecidableEq κ] (s : Pool ι κ φ) :
    Action ι κ φ → Option (Pool ι κ φ)
  | .push k func =>
      match s.pusher k with
      | .idle => some (s.setPusher k (.test func))
      | _ => none
  | .pusher k woken => s.stepPush k woken
  | .worker i woken => s.stepRun i woken

/-! ### Steps of workers -/

section Workers

variable [DecidableEq ι]

/-- A worker that has moved and is awake attends to the queue. -/
theorem Inv.setWorker (hrun : ∀ k, (s.pusher k).WillNotify → Nonempty ι) (i : ι)
    {pc : WorkerPc φ} (hpc : pc.asleep = false) : (s.setWorker i pc).Inv where
  attended _ := Or.inl ⟨i, by simp [Pool.setWorker, hpc]⟩
  running := hrun

variable [Fintype ι]

/-- `notify_one` moves no thread that pushes, and leaves a worker awake. -/
theorem notifyOne_spec {woken : Option ι} (h : s.notifyOne woken = some t) :
    t.content = s.content ∧ t.pusher = s.pusher ∧
      (Nonempty ι → ∃ i, (t.worker i).asleep = false) := by
  cases woken with
  | some j =>
      simp only [notifyOne] at h
      split_ifs at h
      obtain rfl := Option.some.inj h
      exact ⟨rfl, rfl, fun _ => ⟨j, by simp [Pool.setWorker, WorkerPc.asleep]⟩⟩
  | none =>
      simp only [notifyOne] at h
      split_ifs at h with hawake
      obtain rfl := Option.some.inj h
      exact ⟨rfl, rfl, fun ⟨j⟩ => ⟨j, hawake j⟩⟩

/-- **A step of a worker** other than the wait leaves the worker awake. -/
theorem stepRun_cases {i : ι} {woken : Option ι} (h : s.stepRun i woken = some t) :
    (s.worker i = .wait ∧ t = s.setWorker i .waiting) ∨
      (s.worker i ≠ .wait ∧ ∃ (u : Pool ι κ φ) (pc : WorkerPc φ), u.pusher = s.pusher ∧
        pc.asleep = false ∧ t = u.setWorker i pc) := by
  cases hpc : s.worker i with
  | wait =>
      simp only [stepRun, hpc] at h
      exact Or.inl ⟨rfl, (Option.some.inj h).symm⟩
  | test =>
      simp only [stepRun, hpc] at h
      refine Or.inr ⟨by simp, s, _, rfl, ?_, (Option.some.inj h).symm⟩
      split_ifs <;> rfl
  | pullfront =>
      simp only [stepRun, hpc] at h
      split at h
      · exact Or.inr ⟨by simp, s, _, rfl, rfl, (Option.some.inj h).symm⟩
      · rename_i func rest _
        exact Or.inr ⟨by simp, { s with content := rest }, .empty (some func), rfl, rfl,
          (Option.some.inj h).symm⟩
  | empty func =>
      simp only [stepRun, hpc] at h
      refine Or.inr ⟨by simp, s, _, rfl, ?_, (Option.some.inj h).symm⟩
      split_ifs
      · exact WorkerPc.asleep_pulled func
      · rfl
  | notify func =>
      simp only [stepRun, hpc] at h
      obtain ⟨u, hu, rfl⟩ := Option.map_eq_some_iff.1 h
      exact Or.inr ⟨by simp, u, _, (notifyOne_spec hu).2.1, WorkerPc.asleep_pulled func, rfl⟩
  | run func =>
      simp only [stepRun, hpc] at h
      exact Or.inr ⟨by simp, s, _, rfl, rfl, (Option.some.inj h).symm⟩
  | waiting => simp [stepRun, hpc] at h
  | stopped => simp [stepRun, hpc] at h

/-- A step of a worker that is in time keeps the jobs attended to. -/
theorem Inv.stepRun {i : ι} {woken : Option ι} (h : s.Inv) (hin : s.WaitsInTime (.worker i woken))
    (hst : s.stepRun i woken = some t) : t.Inv := by
  rcases stepRun_cases hst with ⟨hwait, rfl⟩ | ⟨-, u, pc, hpush, hpc, rfl⟩
  · refine ⟨fun hcontent => ?_, h.running⟩
    rcases hin hwait hcontent with ⟨j, hji, hj⟩ | hk
    · exact Or.inl ⟨j, by simpa [Pool.setWorker, Function.update_of_ne hji] using hj⟩
    · exact Or.inr hk
  · exact .setWorker (hpush ▸ h.running) i hpc

end Workers

/-! ### Steps of threads that push -/

section Pushers

variable [DecidableEq κ]

/-- A thread that moves on to its `notify_one` attends to the queue. -/
theorem Inv.setPusher_willNotify (hι : Nonempty ι) (s : Pool ι κ φ) (k : κ) {pc : PushPc φ}
    (hpc : pc.WillNotify) : (s.setPusher k pc).Inv where
  attended _ := Or.inr ⟨k, by simpa [setPusher] using hpc⟩
  running _ _ := hι

/-- A thread that has no `notify_one` to come may move freely. -/
theorem Inv.setPusher_of_not (h : s.Inv) {k : κ} (hk : ¬ (s.pusher k).WillNotify)
    {pc : PushPc φ} (hpc : pc.WillNotify → Nonempty ι) : (s.setPusher k pc).Inv := by
  have hother : ∀ l, (s.pusher l).WillNotify → ((s.setPusher k pc).pusher l).WillNotify := by
    intro l hl
    have hlk : l ≠ k := by
      rintro rfl
      exact hk hl
    simpa [setPusher, Function.update_of_ne hlk] using hl
  constructor
  case attended =>
    intro hcontent
    rcases h.attended hcontent with hi | ⟨l, hl⟩
    · exact Or.inl hi
    · exact Or.inr ⟨l, hother l hl⟩
  case running =>
    intro l hl
    by_cases hlk : l = k
    · subst hlk
      exact hpc (by simpa [setPusher] using hl)
    · exact h.running l (by simpa [setPusher, Function.update_of_ne hlk] using hl)

variable [Fintype ι] [DecidableEq ι]

/-- A step of a thread in `push` keeps the jobs attended to. -/
theorem Inv.stepPush {k : κ} {woken : Option ι} (h : s.Inv)
    (hst : s.stepPush k woken = some t) : t.Inv := by
  cases hpc : s.pusher k with
  | idle => simp [Pool.stepPush, hpc] at hst
  | test func =>
      simp only [Pool.stepPush, hpc] at hst
      obtain rfl := Option.some.inj hst
      refine h.setPusher_of_not (by simp [hpc, PushPc.WillNotify]) fun hwill => ?_
      split_ifs at hwill with hrun
      · exact isRunning_iff.1 hrun
      · exact hwill.elim
  | pushback func =>
      have hι : Nonempty ι := h.running k (by simp [hpc, PushPc.WillNotify])
      simp only [Pool.stepPush, hpc] at hst
      obtain rfl := Option.some.inj hst
      exact .setPusher_willNotify hι _ k trivial
  | notify =>
      have hι : Nonempty ι := h.running k (by simp [hpc, PushPc.WillNotify])
      simp only [Pool.stepPush, hpc] at hst
      obtain ⟨u, hu, rfl⟩ := Option.map_eq_some_iff.1 hst
      exact ⟨fun _ => Or.inl ((notifyOne_spec hu).2.2 hι), fun _ _ => hι⟩

end Pushers

/-! ### No job between a failed pull and the wait -/

section Served

/-- A job is pushed back while no worker is between a failed pull and its wait. -/
def PushesInTime (s : Pool ι κ φ) : Action ι κ φ → Prop
  | .pusher k _ => ∀ func, s.pusher k = .pushback func → ∀ i, (s.worker i).unserved = false
  | _ => True

/-- The queue is empty while a worker is between a failed pull and its wait. -/
def Served (s : Pool ι κ φ) : Prop := ∀ i, (s.worker i).unserved = true → s.content = []

/-- A worker that waits finds the queue empty. -/
theorem Served.waitsInTime (h : s.Served) (a : Action ι κ φ) : s.WaitsInTime a := by
  cases a with
  | worker i woken => exact fun hwait hcontent => absurd (h i (by rw [hwait]; rfl)) hcontent
  | _ => trivial

variable [DecidableEq ι]

/-- A worker may move on if the queue is empty where its pull has failed. -/
theorem Served.setWorker (h : s.Served) (i : ι) {pc : WorkerPc φ}
    (hpc : pc.unserved = true → s.content = []) : (s.setWorker i pc).Served := by
  intro j hj
  by_cases hji : j = i
  · subst hji
    exact hpc (by simpa [Pool.setWorker] using hj)
  · exact h j (by simpa [Pool.setWorker, Function.update_of_ne hji] using hj)

variable [Fintype ι]

/-- A worker that is woken pulls again. -/
theorem Served.notifyOne {woken : Option ι} (h : s.Served) (hst : s.notifyOne woken = some t) :
    t.Served := by
  cases woken with
  | some j =>
      simp only [Pool.notifyOne] at hst
      split_ifs at hst
      obtain rfl := Option.some.inj hst
      exact h.setWorker j nofun
  | none =>
      simp only [Pool.notifyOne] at hst
      split_ifs at hst
      obtain rfl := Option.some.inj hst
      exact h

/-- A worker pulls in vain only from an empty queue. -/
theorem Served.stepRun {i : ι} {woken : Option ι} (h : s.Served)
    (hst : s.stepRun i woken = some t) : t.Served := by
  cases hpc : s.worker i with
  | test =>
      simp only [Pool.stepRun, hpc] at hst
      obtain rfl := Option.some.inj hst
      refine h.setWorker i fun hun => ?_
      split_ifs at hun <;> cases hun
  | pullfront =>
      simp only [Pool.stepRun, hpc] at hst
      split at hst
      · rename_i hnone
        obtain rfl := Option.some.inj hst
        exact h.setWorker i fun _ => hnone
      · rename_i func rest hcontent
        obtain rfl := Option.some.inj hst
        -- there is a job, so no other worker has pulled in vain
        have hrest : ({ s with content := rest } : Pool ι κ φ).Served := by
          intro j hj
          exact absurd (h j hj) (by simp [hcontent])
        exact hrest.setWorker i nofun
  | empty func =>
      simp only [Pool.stepRun, hpc] at hst
      obtain rfl := Option.some.inj hst
      refine h.setWorker i fun hun => ?_
      cases func with
      | none => exact h i (by rw [hpc]; rfl)
      | some func => split_ifs at hun <;> cases hun
  | notify func =>
      simp only [Pool.stepRun, hpc] at hst
      obtain ⟨u, hu, rfl⟩ := Option.map_eq_some_iff.1 hst
      refine (h.notifyOne hu).setWorker i fun hun => ?_
      cases func with
      | none => exact (notifyOne_spec hu).1.trans (h i (by rw [hpc]; rfl))
      | some func => cases hun
  | wait =>
      simp only [Pool.stepRun, hpc] at hst
      obtain rfl := Option.some.inj hst
      exact h.setWorker i nofun
  | run func =>
      simp only [Pool.stepRun, hpc] at hst
      obtain rfl := Option.some.inj hst
      exact h.setWorker i nofun
  | waiting => simp [Pool.stepRun, hpc] at hst
  | stopped => simp [Pool.stepRun, hpc] at hst

variable [DecidableEq κ]

/-- A job is pushed back while nobody has pulled in vain. -/
theorem Served.stepPush {k : κ} {woken : Option ι} (h : s.Served)
    (hin : s.PushesInTime (.pusher k woken)) (hst : s.stepPush k woken = some t) : t.Served := by
  cases hpc : s.pusher k with
  | idle => simp [Pool.stepPush, hpc] at hst
  | test func =>
      simp only [Pool.stepPush, hpc] at hst
      obtain rfl := Option.some.inj hst
      exact h
  | pushback func =>
      simp only [Pool.stepPush, hpc] at hst
      obtain rfl := Option.some.inj hst
      intro i hi
      have hnone := hin func hpc i
      exact absurd (hnone.symm.trans hi) (by simp)
  | notify =>
      simp only [Pool.stepPush, hpc] at hst
      obtain ⟨u, hu, rfl⟩ := Option.map_eq_some_iff.1 hst
      have hserved := h.notifyOne hu
      exact hserved

/-- A job that is pushed in time keeps the queue empty for those who wait. -/
theorem Served.step {a : Action ι κ φ} (h : s.Served) (hin : s.PushesInTime a)
    (hst : s.step a = some t) : t.Served := by
  cases a with
  | push k func =>
      simp only [Pool.step] at hst
      split at hst
      · obtain rfl := Option.some.inj hst
        exact h
      · cases hst
  | pusher k woken => exact h.stepPush hin hst
  | worker i woken => exact h.stepRun hst

end Served

/-! ### Runs -/

variable [Fintype ι] [DecidableEq ι] [DecidableEq κ]

/-- **Every action that is in time keeps the jobs attended to.** -/
theorem Inv.step {a : Action ι κ φ} (h : s.Inv) (hin : s.WaitsInTime a)
    (hst : s.step a = some t) : t.Inv := by
  cases a with
  | push k func =>
      simp only [Pool.step] at hst
      split at hst
      · rename_i hidle
        obtain rfl := Option.some.inj hst
        exact h.setPusher_of_not (by simp [hidle, PushPc.WillNotify]) fun hwill => hwill.elim
      · cases hst
  | pusher k woken => exact h.stepPush hst
  | worker i woken => exact h.stepRun hin hst

/-- A wait that is not in time leaves the queue to nobody. -/
theorem not_attended_of_late {a : Action ι κ φ} (hlate : ¬ s.WaitsInTime a)
    (hst : s.step a = some t) : ¬ t.Attended := by
  cases a with
  | worker i woken =>
      simp only [WaitsInTime, Classical.not_imp, not_or] at hlate
      obtain ⟨hwait, hcontent, hworker, hpusher⟩ := hlate
      simp only [step, stepRun, hwait] at hst
      obtain rfl := Option.some.inj hst
      intro hatt
      rcases hatt hcontent with ⟨j, hj⟩ | hk
      · by_cases hji : j = i
        · subst hji
          simp [setWorker, WorkerPc.asleep] at hj
        · exact hworker ⟨j, hji, by simpa [setWorker, Function.update_of_ne hji] using hj⟩
      · exact hpusher hk
  | _ => exact absurd trivial hlate

/-- **No job sleeps while the workers sleep, exactly in the runs in which the last
worker that is awake goes to wait with an empty queue or a `notify_one` to come.** -/
theorem always_attended_iff (as : List (Action ι κ φ)) :
    Always step Attended (init : Pool ι κ φ) as ↔ Along step WaitsInTime init as :=
  always_iff_along inv_init (fun _ _ _ => Inv.step) (fun _ => Inv.attended)
    (fun _ _ _ _ => not_attended_of_late) as

/-- **No job sleeps while the workers sleep when none is pushed between a failed pull and the
wait.** -/
theorem always_attended_of_pushesInTime {as : List (Action ι κ φ)}
    (h : Along step PushesInTime (init : Pool ι κ φ) as) :
    Always step Attended (init : Pool ι κ φ) as := by
  have hinv : Always step (fun s : Pool ι κ φ => s.Inv ∧ s.Served) init as :=
    always_of_along ⟨inv_init, nofun⟩
      (fun s a t hs hin hst => ⟨hs.1.step (hs.2.waitsInTime a) hst, hs.2.step hin hst⟩) h
  exact hinv.mono fun s hs => hs.1.attended

/-- A job is pushed between the failed pull of the only worker and its wait. -/
theorem exists_not_attended :
    ∃ t : Pool (Fin 1) (Fin 1) Unit, exec step init
        [.worker 0 none, .worker 0 none, .worker 0 none, .push 0 (), .pusher 0 none,
          .pusher 0 none, .pusher 0 none, .worker 0 none] = some t ∧ ¬ t.Attended := by
  have hend : (exec step (init : Pool (Fin 1) (Fin 1) Unit)
      [.worker 0 none, .worker 0 none, .worker 0 none, .push 0 (), .pusher 0 none,
        .pusher 0 none, .pusher 0 none, .worker 0 none]).map
      (fun t => (t.content, (t.worker 0).asleep, t.pusher 0)) =
        some ([()], true, PushPc.idle) := rfl
  obtain ⟨t, ht, hsum⟩ := Option.map_eq_some_iff.1 hend
  obtain ⟨hcontent, hworker, hpusher⟩ : t.content = [()] ∧ (t.worker 0).asleep = true ∧
      t.pusher 0 = .idle := by simpa using hsum
  refine ⟨t, ht, fun hatt => ?_⟩
  rcases hatt (by simp [hcontent]) with ⟨i, hi⟩ | ⟨k, hk⟩
  · rw [Subsingleton.elim i 0, hworker] at hi
    cases hi
  · rw [Subsingleton.elim k 0, hpusher] at hk
    exact hk

end Pool

end ThreadPool
end Scaner
