/-
# What becomes of a job

The jobs of a pool, over `thread_pool::push`, `pull`, `stop`, `start` and `thread_run`
(`Scaner.ThreadPool.Counters`) and the `thread_work_queue` of
`scaner_test/thread_work_queue.h`, with any number of threads that call and any number of
workers.

A record follows every job from `pushback` on: it leaves the queue because a worker pulls it or
because `clear` drops it, and a worker that has pulled it comes to its end or is broken off by
`interrupt`.  `jobs_conserved`: in every interleaving the jobs that were pushed are, in this
order, those that have left the queue and those that are in it, and each of them is finished,
broken off, in the hands of a worker, dropped by `clear`, or in the queue.  So no job is lost
without a `stop`, none is run twice, and they leave the queue in the order in which they came.
-/

import Scaner.Lib.History
import Scaner.ThreadPool.Counters

namespace Scaner
namespace ThreadPool

open Trace

/-- The job that a worker has pulled and not come to the end of. -/
def RunPc.job {φ : Type} : RunPc φ → Option φ
  | increment f => some f
  | execute f => some f
  | _ => none

/-- What has become of the jobs: those that were pushed, those that have left the queue, each
with whether a worker has pulled it, and those that were run to their end or broken off. -/
structure Fates (φ : Type) where
  pushed : List φ
  taken : List (φ × Bool)
  finished : List φ
  broken : List φ

namespace Fates

variable {φ : Type}

/-- No job has been taken. -/
def none : Fates φ := ⟨[], [], [], []⟩

/-- The jobs that workers have pulled. -/
def pulled (f : Fates φ) : List φ := (f.taken.filter Prod.snd).map Prod.fst

/-- The jobs that `clear` has dropped. -/
def dropped (f : Fates φ) : List φ := (f.taken.filter fun x => !x.2).map Prod.fst

/-- The jobs that were taken from the queue were pulled or dropped. -/
theorem taken_perm (f : Fates φ) : (f.taken.map Prod.fst).Perm (f.pulled ++ f.dropped) := by
  rw [pulled, dropped, ← List.map_append]
  exact (List.filter_append_perm Prod.snd f.taken).symm.map Prod.fst

end Fates

namespace Counters

variable {κ φ : Type}

/-- The jobs in the hands of workers. -/
def held (s : Counters κ φ) : List φ := s.workers.filterMap RunPc.job

/-- What a step of a worker does to the jobs. -/
def noteRun (content : List φ) : RunPc φ → Fates φ → Fates φ
  | .pull =>
      match content with
      | [] => id
      | job :: _ => fun f => { f with taken := f.taken ++ [(job, true)] }
  | .execute job => fun f => { f with finished := f.finished ++ [job] }
  | _ => id

/-- What a step of a call does to the jobs. -/
def noteCall (content : List φ) : CallPc φ → Fates φ → Fates φ
  | .pushback func => fun f => { f with pushed := f.pushed ++ [func] }
  | .clearContent _ => fun f => { f with taken := f.taken ++ content.map fun job => (job, false) }
  | _ => id

/-- What the end of a worker that was interrupted does to the jobs. -/
def noteBreak : RunPc φ → Fates φ → Fates φ
  | .execute job => fun f => { f with broken := f.broken ++ [job] }
  | _ => id

/-- What an event does to the jobs. -/
def note (s : Counters κ φ) : Event κ φ → Fates φ → Fates φ
  | .call k => noteCall s.content (s.caller k)
  | .worker i => (s.workers[i]?.map (noteRun s.content)).getD id
  | .breakOff i => (s.workers[i]?.map noteBreak).getD id
  | _ => id

/-- The ways of a job. -/
inductive Move (s t : Counters κ φ) : (Fates φ → Fates φ) → Prop
  | keep (hcontent : t.content = s.content) (hheld : t.held.Perm s.held) : Move s t id
  | push (func : φ) (hcontent : t.content = s.content ++ [func]) (hheld : t.held.Perm s.held) :
      Move s t fun f => { f with pushed := f.pushed ++ [func] }
  | drop (hcontent : t.content = []) (hheld : t.held.Perm s.held) :
      Move s t fun f => { f with taken := f.taken ++ s.content.map fun job => (job, false) }
  | pull (job : φ) (hcontent : s.content = job :: t.content) (hheld : t.held.Perm (job :: s.held)) :
      Move s t fun f => { f with taken := f.taken ++ [(job, true)] }
  | finish (job : φ) (hcontent : t.content = s.content) (hheld : s.held.Perm (job :: t.held)) :
      Move s t fun f => { f with finished := f.finished ++ [job] }
  | breakOff (job : φ) (hcontent : t.content = s.content) (hheld : s.held.Perm (job :: t.held)) :
      Move s t fun f => { f with broken := f.broken ++ [job] }

variable {s t : Counters κ φ} {f : Fates φ} {i : ℕ} {pc : RunPc φ}

/-- What the worker `i` has in its hands, and what the others have. -/
theorem held_perm (h : s.workers[i]? = some pc) (pc' : RunPc φ) :
    ∃ rest, s.held.Perm (pc.job.toList ++ rest) ∧
      (s.setWorker i pc').held.Perm (pc'.job.toList ++ rest) :=
  ⟨_, filterMap_perm RunPc.job h, filterMap_set_perm RunPc.job h pc'⟩

/-- A worker that has the same in its hands as before. -/
theorem Move.setWorker (h : s.workers[i]? = some pc) (pc' : RunPc φ) (hjob : pc'.job = pc.job)
    (hcontent : t.content = s.content) (hworkers : t.workers = s.workers.set i pc') :
    Move s t id := by
  obtain ⟨rest, hbefore, hafter⟩ := held_perm h pc'
  refine .keep hcontent ?_
  rw [hjob] at hafter
  rw [held, hworkers]
  exact hafter.trans hbefore.symm

/-- A worker that is rid of its job. -/
theorem held_setWorker_none (h : s.workers[i]? = some pc) {job : φ} (hjob : pc.job = some job)
    {pc' : RunPc φ} (hnone : pc'.job = none) : s.held.Perm (job :: (s.setWorker i pc').held) := by
  obtain ⟨rest, hbefore, hafter⟩ := held_perm h pc'
  rw [hjob] at hbefore
  rw [hnone] at hafter
  exact hbefore.trans (hafter.symm.cons job)

/-- What a step of a worker does to the jobs. -/
theorem stepRun_move (hst : s.stepRun i = some t) : Move s t (note s (.worker i)) := by
  cases hpc : s.workers[i]? with
  | none => simp [stepRun, hpc] at hst
  | some pc =>
      rw [note, hpc]
      cases pc with
      | test =>
          simp only [stepRun, hpc] at hst
          split_ifs at hst <;> obtain rfl := Option.some.inj hst
          · exact .setWorker hpc .pull rfl rfl rfl
          · exact .setWorker hpc .ended rfl rfl rfl
      | pull =>
          simp only [stepRun, hpc] at hst
          cases hcontent : s.content with
          | nil =>
              rw [hcontent] at hst
              obtain rfl := Option.some.inj hst
              exact .setWorker hpc .wait rfl rfl rfl
          | cons job rest =>
              rw [hcontent] at hst
              obtain rfl := Option.some.inj hst
              obtain ⟨others, hbefore, hafter⟩ := held_perm hpc (.increment job)
              exact .pull job hcontent (hafter.trans (hbefore.symm.cons job))
      | wait =>
          simp only [stepRun, hpc] at hst
          obtain rfl := Option.some.inj hst
          exact .setWorker hpc .pull rfl rfl rfl
      | increment job =>
          simp only [stepRun, hpc] at hst
          obtain rfl := Option.some.inj hst
          exact .setWorker hpc (.execute job) rfl rfl rfl
      | execute job =>
          simp only [stepRun, hpc] at hst
          obtain rfl := Option.some.inj hst
          exact .finish job rfl (held_setWorker_none hpc rfl rfl)
      | decrement =>
          simp only [stepRun, hpc] at hst
          have hcontent : t.content = s.content := by
            rw [← Option.some.inj hst, setWorker]
          have hworkers : t.workers = s.workers.set i .test := by
            rw [← Option.some.inj hst, setWorker]
          exact .setWorker hpc .test rfl hcontent hworkers
      | ended => simp [stepRun, hpc] at hst

/-- What breaking off does to the jobs. -/
theorem breakOff_move (hst : s.breakOff i = some t) : Move s t (note s (.breakOff i)) := by
  rw [breakOff] at hst
  split_ifs at hst
  cases hpc : s.workers[i]? with
  | none => simp [hpc] at hst
  | some pc =>
      rw [note, hpc]
      cases pc with
      | wait =>
          simp only [hpc] at hst
          obtain rfl := Option.some.inj hst
          exact .setWorker hpc .ended rfl rfl rfl
      | execute job =>
          simp only [hpc] at hst
          obtain rfl := Option.some.inj hst
          exact .breakOff job rfl (held_setWorker_none hpc rfl rfl)
      | _ => simp [hpc] at hst

/-- Every job is accounted for. -/
structure Accounted (s : Counters κ φ) (f : Fates φ) : Prop where
  order : f.pushed = f.taken.map Prod.fst ++ s.content
  hands : f.pulled.Perm (f.finished ++ f.broken ++ s.held)

/-- **A move keeps the account of the jobs.** -/
theorem Accounted.move {g : Fates φ → Fates φ} (h : s.Accounted f) (hm : Move s t g) :
    t.Accounted (g f) := by
  obtain ⟨horder, hhands⟩ := h
  cases hm with
  | keep hcontent hheld =>
      exact ⟨by rw [hcontent]; exact horder, hhands.trans (hheld.symm.append_left _)⟩
  | push func hcontent hheld =>
      refine ⟨?_, hhands.trans (hheld.symm.append_left _)⟩
      simp only [horder, hcontent, List.append_assoc]
  | drop hcontent hheld =>
      refine ⟨?_, ?_⟩
      · simp [horder, hcontent, Function.comp_def]
      · have hpulled : (f.taken ++ s.content.map fun job => (job, false)).filter Prod.snd =
            f.taken.filter Prod.snd := by
          simp [List.filter_append, List.filter_eq_nil_iff]
        rw [Fates.pulled, hpulled]
        exact hhands.trans (hheld.symm.append_left _)
  | pull job hcontent hheld =>
      refine ⟨by simp [horder, hcontent], ?_⟩
      have hpulled : Fates.pulled { f with taken := f.taken ++ [(job, true)] } =
          f.pulled ++ [job] := by simp [Fates.pulled, List.filter_append]
      rw [hpulled]
      calc f.pulled ++ [job]
          _ |>.Perm (f.finished ++ f.broken ++ s.held ++ [job]) := hhands.append_right [job]
          _ |>.Perm (f.finished ++ f.broken ++ (job :: s.held)) := by
            rw [List.append_assoc (f.finished ++ f.broken)]
            exact (List.perm_append_singleton job s.held).append_left _
          _ |>.Perm (f.finished ++ f.broken ++ t.held) := hheld.symm.append_left _
  | finish job hcontent hheld =>
      refine ⟨by rw [hcontent]; exact horder, hhands.trans ?_⟩
      calc f.finished ++ f.broken ++ s.held
          _ |>.Perm (f.finished ++ f.broken ++ (job :: t.held)) := hheld.append_left _
          _ |>.Perm (f.finished ++ [job] ++ f.broken ++ t.held) := by
            simp only [List.append_assoc, List.singleton_append]
            exact List.perm_middle.append_left _
  | breakOff job hcontent hheld =>
      refine ⟨by rw [hcontent]; exact horder, hhands.trans ?_⟩
      calc f.finished ++ f.broken ++ s.held
          _ |>.Perm (f.finished ++ f.broken ++ (job :: t.held)) := hheld.append_left _
          _ |>.Perm (f.finished ++ (f.broken ++ [job]) ++ t.held) := by
            simp only [List.append_assoc, List.singleton_append]
            exact List.Perm.refl _

variable [DecidableEq κ]

/-- What a step of a caller does to the jobs. -/
theorem stepCall_move {k : κ} (hst : s.stepCall k = some t) : Move s t (note s (.call k)) := by
  rw [note]
  cases hpc : s.caller k with
  | idle => simp [stepCall, hpc] at hst
  | pushback func =>
      simp only [stepCall, hpc] at hst
      obtain rfl := Option.some.inj hst
      exact .push func rfl (List.Perm.refl _)
  | clearContent start =>
      simp only [stepCall, hpc] at hst
      obtain rfl := Option.some.inj hst
      exact .drop rfl (List.Perm.refl _)
  | spawn total =>
      simp only [stepCall, hpc] at hst
      obtain rfl := Option.some.inj hst
      refine .keep rfl ?_
      -- workers that start have nothing in their hands
      have hnew : (List.replicate (total : ℕ) (RunPc.test : RunPc φ)).filterMap RunPc.job = [] := by
        rw [List.filterMap_eq_nil_iff]
        intro pc hpc
        rw [List.eq_of_mem_replicate hpc]
        rfl
      change ((s.workers ++ List.replicate (total : ℕ) RunPc.test).filterMap RunPc.job).Perm _
      rw [List.filterMap_append, hnew, List.append_nil]
      exact List.Perm.refl _
  | interrupt start =>
      simp only [stepCall, hpc] at hst
      split_ifs at hst
      obtain rfl := Option.some.inj hst
      exact .keep rfl (List.Perm.refl _)
  | lock total =>
      simp only [stepCall, hpc] at hst
      split_ifs at hst
      obtain rfl := Option.some.inj hst
      exact .keep rfl (List.Perm.refl _)
  | test func =>
      simp only [stepCall, hpc] at hst
      split_ifs at hst <;> obtain rfl := Option.some.inj hst <;> exact .keep rfl (List.Perm.refl _)
  | _ =>
      simp only [stepCall, hpc] at hst
      obtain rfl := Option.some.inj hst
      exact .keep rfl (List.Perm.refl _)

/-- A call that begins moves no job. -/
theorem begin_move {k : κ} {pc : CallPc φ}
    (hst : (match s.caller k with | .idle => some (s.setCaller k pc) | _ => none) = some t) :
    Move s t id := by
  split at hst
  · obtain rfl := Option.some.inj hst
    exact .keep rfl (List.Perm.refl _)
  · cases hst

/-- **What an event does to the jobs.** -/
theorem step_move {a : Event κ φ} (hst : s.step a = some t) : Move s t (note s a) := by
  cases a with
  | start k total => exact begin_move hst
  | stop k => exact begin_move hst
  | push k func => exact begin_move hst
  | call k => exact stepCall_move hst
  | worker i => exact stepRun_move hst
  | breakOff i => exact breakOff_move hst

/-! ### Runs -/

/-- The record of a run from the construction of the pool on. -/
def fates (as : List (Event κ φ)) : Fates φ := history step note init Fates.none as

/-- **No job is lost, none is run twice, and they leave the queue in the order in which they
came into it**, in every interleaving of the calls and the workers: what has been pushed has left
the queue or is in it, and all of it is finished, broken off, in the hands of a worker, dropped by
`clear`, or in the queue. -/
theorem jobs_conserved (as : List (Event κ φ)) (t : Counters κ φ)
    (h : exec step init as = some t) :
    (fates as).pushed = (fates as).taken.map Prod.fst ++ t.content ∧
      (fates as).pushed.Perm ((fates as).finished ++ (fates as).broken ++ t.held ++
        (fates as).dropped ++ t.content) := by
  have hinit : (init : Counters κ φ).Accounted Fates.none := ⟨rfl, List.Perm.refl _⟩
  have hstep : ∀ (s : Counters κ φ) a t f, s.Accounted f → s.step a = some t →
      t.Accounted (note s a f) := fun s a t f hf hst => hf.move (step_move hst)
  have hend : t.Accounted (fates as) := history_of_exec hinit hstep h
  refine ⟨hend.order, ?_⟩
  rw [hend.order]
  exact ((Fates.taken_perm _).trans (hend.hands.append_right _)).append_right _

/-- `start`, a `push`, the steps of the worker that comes to the end of the job, and a `stop` with
a second job in the queue. -/
def twoJobs : List (Event Unit ℕ) :=
  [.start () ⟨1, by decide⟩, .call (), .call (), .call (), .call (), .call (), .call (), .call (),
    .call (), .push () 7, .call (), .call (), .worker 0, .worker 0, .worker 0, .worker 0,
    .push () 8, .call (), .call (), .stop (), .call (), .call (), .call (), .call ()]

/-- One job that has been run, and one that is in the queue when `stop` is called. -/
theorem jobs_conserved_twoJobs : ∃ t : Counters Unit ℕ, exec step init twoJobs = some t ∧
    [7, 8] = (fates twoJobs).taken.map Prod.fst ++ t.content ∧
      [7, 8].Perm ((fates twoJobs).finished ++ (fates twoJobs).broken ++ t.held ++
        (fates twoJobs).dropped ++ t.content) :=
  ⟨_, rfl, jobs_conserved twoJobs _ rfl⟩

end Counters

end ThreadPool
end Scaner
