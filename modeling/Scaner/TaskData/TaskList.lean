/-
# The list of tasks

`task_map_list` in `scaner_test/task_data.cpp`: the tasks that are running.  A task that
has completed calls `finished_one` with its union id, which takes the first task with that
id out of `m_list` and sets its `start_ptr` to null.

The union id of a task is the domain of its main URL and the date of its start
(`make_union_id`), so two tasks for one domain that are started on one day have the same.
When the second of them completes first, the first one is taken away, while its threads go
on using `start_ptr`.  `always_kept_iff`: no task is taken away by another one, exactly in
the runs in which the first task with the id of the one that has completed is that one
itself, or another that has completed.  So it is when no two tasks for one domain that were
started on one day are in the list at one time, and none completes twice
(`always_kept_of_oneADay`).

A task is a pointer `i : ι`, with the main URL and the date that its constructor reads.
-/

import Mathlib.Data.List.Basic
import Scaner.HttpTools.Url
import Scaner.Lib.Trace

namespace Scaner
namespace TaskData

open Trace Bytes

/-- `%0wd` of a number that is not negative. -/
def padded (w n : ℕ) : Bytes :=
  List.replicate (w - (str (toString n)).length) 48 ++ str (toString n)

/-- The main URL of a task, and the local date of its start: `tm_year`, `tm_mon` and
`tm_mday`. -/
structure StartData where
  mainUrl : Bytes
  year : ℕ
  mon : ℕ
  mday : ℕ

/-- `make_union_id(main_url)`. -/
def StartData.makeUnionId (d : StartData) : Bytes :=
  HttpTools.getDomain d.mainUrl ++ (str "_" ++ padded 4 (d.year + 1900)) ++
    (str "_" ++ padded 2 d.mon) ++ (str "_" ++ padded 2 d.mday)

/-! ### When two tasks have one id -/

/-- A padded number stands for the number. -/
theorem isDecimal_padded (w n : ℕ) : IsDecimal (padded w n) n := by
  have hdigits := isDecimal_toString n
  refine ⟨List.append_ne_nil_of_right_ne_nil _ hdigits.ne_nil, ?_, ?_⟩
  · intro b hb
    rcases List.mem_append.1 hb with hb | hb
    · rw [List.eq_of_mem_replicate hb]
      rfl
    · exact hdigits.digits b hb
  · have hzeros : ∀ k, (List.replicate k (48 : UInt8)).foldl
        (fun n b => n * 10 + digitVal b) 0 = 0 := by
      intro k
      induction k with
      | zero => rfl
      | succ k ih =>
          rw [List.replicate_succ, List.foldl_cons]
          exact ih
    rw [padded, ofDigits, List.foldl_append, hzeros]
    exact hdigits.value

/-- Padding makes no two numbers the same. -/
theorem padded_inj {w n m : ℕ} (h : padded w n = padded w m) : n = m := by
  rw [← (isDecimal_padded w n).value, h, (isDecimal_padded w m).value]

/-- The number behind the last `'_'` of an id can be read from it. -/
theorem append_padded_inj {x y : Bytes} {w n m : ℕ}
    (h : x ++ (str "_" ++ padded w n) = y ++ (str "_" ++ padded w m)) : x = y ∧ n = m := by
  have hnot : ∀ k, (95 : UInt8) ∉ (padded w k).reverse := fun k hk =>
    (isDecimal_padded w k).ne_of_mem (by decide) (List.mem_reverse.1 hk) rfl
  -- seen from its end, the id begins with the digits
  have hrev : (padded w n).reverse ++ 95 :: x.reverse =
      (padded w m).reverse ++ 95 :: y.reverse := by
    simpa [str] using congrArg List.reverse h
  obtain ⟨hdigits, hfront⟩ := append_cons_inj (hnot n) (hnot m) hrev
  exact ⟨List.reverse_injective hfront, padded_inj (List.reverse_injective hdigits)⟩

/-- The main URLs have one domain, and the tasks were started on one day. -/
def StartData.SameDay (d e : StartData) : Prop :=
  HttpTools.getDomain d.mainUrl = HttpTools.getDomain e.mainUrl ∧
    d.year = e.year ∧ d.mon = e.mon ∧ d.mday = e.mday

/-- One domain and one day, the other way round. -/
theorem StartData.SameDay.symm {d e : StartData} (h : d.SameDay e) : e.SameDay d :=
  ⟨h.1.symm, h.2.1.symm, h.2.2.1.symm, h.2.2.2.symm⟩

/-- **Two tasks have one id exactly if they are for one domain and were started on one
day.** -/
theorem StartData.makeUnionId_eq_iff (d e : StartData) :
    d.makeUnionId = e.makeUnionId ↔ d.SameDay e := by
  constructor
  · intro h
    obtain ⟨h, hmday⟩ := append_padded_inj h
    obtain ⟨h, hmon⟩ := append_padded_inj h
    obtain ⟨hdomain, hyear⟩ := append_padded_inj h
    exact ⟨hdomain, by omega, hmon, hmday⟩
  · rintro ⟨hdomain, hyear, hmon, hmday⟩
    rw [makeUnionId, makeUnionId, hdomain, hyear, hmon, hmday]

/-! ### The list -/

/-- `m_list`, whether a task has its `start_ptr`, and the tasks that were inserted and
those that have completed. -/
structure TaskMapList (ι : Type) where
  mList : List ι
  startPtr : ι → Bool
  inserted : List ι
  completed : List ι

/-- A call of `insert_new`, and one of `finished_one` by a task that has completed. -/
inductive ListOp (ι : Type)
  | insertNew (i : ι)
  | finishedOne (i : ι)

namespace TaskMapList

variable {ι : Type}

/-- No tasks in the list. -/
def init (startPtr : ι → Bool) : TaskMapList ι := ⟨[], startPtr, [], []⟩

/-- A task that was inserted and has not completed is in the list, with its `start_ptr`. -/
def Kept (s : TaskMapList ι) : Prop :=
  ∀ i ∈ s.inserted, i ∉ s.completed → i ∈ s.mList ∧ s.startPtr i = true

section Step

variable [DecidableEq ι] (task : ι → StartData)

/-- The task at which the loop of `finished_one` stops. -/
def first (s : TaskMapList ι) (taskUnionId : Bytes) : Option ι :=
  s.mList.find? fun j => (task j).makeUnionId = taskUnionId

/-- `insert_new(i)`. -/
def insertNew (s : TaskMapList ι) (i : ι) : TaskMapList ι :=
  if s.startPtr i = false ∨ (task i).makeUnionId = [] then s
  else { s with mList := s.mList ++ [i], inserted := s.inserted ++ [i] }

/-- `finished_one(task_union_id)`. -/
def finishedOne (s : TaskMapList ι) (taskUnionId : Bytes) : TaskMapList ι :=
  match s.first task taskUnionId with
  | none => s
  | some j => { s with startPtr := Function.update s.startPtr j false, mList := s.mList.erase j }

/-- What a call does.  Only a task that was inserted runs, and completes. -/
def step (s : TaskMapList ι) : ListOp ι → Option (TaskMapList ι)
  | .insertNew i => some (s.insertNew task i)
  | .finishedOne i =>
      if i ∈ s.inserted then
        some { s.finishedOne task (task i).makeUnionId with completed := s.completed ++ [i] }
      else none

/-- The first task with the id of the one that has completed is that one, or has completed
as well. -/
def TakesDone (s : TaskMapList ι) : ListOp ι → Prop
  | .insertNew _ => True
  | .finishedOne i =>
      ∀ j, s.first task (task i).makeUnionId = some j → j = i ∨ j ∈ s.completed

instance (s : TaskMapList ι) (op : ListOp ι) : Decidable (s.TakesDone task op) :=
  match op with
  | .insertNew _ => isTrue trivial
  | .finishedOne i =>
      match h : s.first task (task i).makeUnionId with
      | none => isTrue fun j hj => by simp [h] at hj
      | some j => decidable_of_iff (j = i ∨ j ∈ s.completed) (by simp [TakesDone, h])

end Step

/-! ### What every call keeps -/

/-- The tasks are kept, and only tasks that were inserted are in the list. -/
structure Inv (s : TaskMapList ι) : Prop where
  kept : s.Kept
  listed : ∀ i ∈ s.mList, i ∈ s.inserted

/-- At the start there are no tasks. -/
theorem inv_init (startPtr : ι → Bool) : (init startPtr).Inv := ⟨nofun, nofun⟩

variable {task : ι → StartData} {s t : TaskMapList ι}

/-- `insert_new` puts a task in the list, with its `start_ptr`. -/
theorem Inv.insertNew (h : s.Inv) (i : ι) : (s.insertNew task i).Inv := by
  unfold TaskMapList.insertNew
  split_ifs with hrefuse
  · exact h
  · rw [not_or, Bool.not_eq_false] at hrefuse
    constructor
    case kept =>
      intro j hj hdone
      rcases List.mem_append.1 hj with hj | hj
      · obtain ⟨hlist, hstart⟩ := h.kept j hj hdone
        exact ⟨List.mem_append_left _ hlist, hstart⟩
      · obtain rfl := List.mem_singleton.1 hj
        exact ⟨List.mem_append_right _ hj, hrefuse.1⟩
    case listed =>
      intro j hj
      rcases List.mem_append.1 hj with hj | hj
      · exact List.mem_append_left _ (h.listed j hj)
      · exact List.mem_append_right _ hj

variable [DecidableEq ι]

/-- A call that takes a task which has completed keeps the others. -/
theorem Inv.step {op : ListOp ι} (h : s.Inv) (hdone : s.TakesDone task op)
    (hst : s.step task op = some t) : t.Inv := by
  cases op with
  | insertNew i =>
      obtain rfl := Option.some.inj hst
      exact h.insertNew i
  | finishedOne i =>
      simp only [TaskMapList.step] at hst
      split_ifs at hst with hi
      obtain rfl := Option.some.inj hst
      unfold TaskMapList.finishedOne
      split
      · refine ⟨fun j hj hnot => h.kept j hj fun hc => hnot (List.mem_append_left _ hc), h.listed⟩
      · rename_i j hj
        constructor
        case kept =>
          intro k hk hnot
          rw [List.mem_append, not_or] at hnot
          have hkj : k ≠ j := by
            rintro rfl
            rcases hdone k hj with rfl | hc
            · exact hnot.2 (List.mem_singleton_self k)
            · exact hnot.1 hc
          obtain ⟨hlist, hstart⟩ := h.kept k hk hnot.1
          exact ⟨(List.mem_erase_of_ne hkj).2 hlist, by simpa [hkj] using hstart⟩
        case listed =>
          intro k hk
          exact h.listed k (List.mem_of_mem_erase hk)

/-- A running task that is taken for another one has lost its `start_ptr`. -/
theorem not_kept_of_takes {op : ListOp ι} (h : s.Inv) (htakes : ¬ s.TakesDone task op)
    (hst : s.step task op = some t) : ¬ t.Kept := by
  cases op with
  | insertNew i => exact absurd trivial htakes
  | finishedOne i =>
      simp only [TakesDone, not_forall, not_or] at htakes
      obtain ⟨j, hj, hji, hrunning⟩ := htakes
      simp only [TaskMapList.step, TaskMapList.finishedOne, hj] at hst
      split_ifs at hst with hi
      obtain rfl := Option.some.inj hst
      intro hkept
      have hins : j ∈ s.inserted := h.listed j (List.mem_of_find?_eq_some hj)
      have hstart := (hkept j hins (by simp [hrunning, hji])).2
      simp at hstart

/-- **No running task is taken away by another one, exactly in the runs in which every call
of `finished_one` finds the task that has completed**, or another that has completed,
before any other task with its id. -/
theorem always_kept_iff (task : ι → StartData) (startPtr : ι → Bool) (ops : List (ListOp ι)) :
    Always (step task) Kept (init startPtr) ops ↔
      Along (step task) (TakesDone task) (init startPtr) ops :=
  always_iff_along (inv_init startPtr) (fun _ _ _ => Inv.step) (fun _ => Inv.kept)
    (fun _ _ _ => not_kept_of_takes) ops

/-- `insert_new` is called for a task while no other one for its domain and its day is in the
list, and `finished_one` by a task that has not completed before. -/
def OneADay (task : ι → StartData) (s : TaskMapList ι) : ListOp ι → Prop
  | .insertNew i => ∀ j ∈ s.mList, (task j).SameDay (task i) → j = i
  | .finishedOne i => i ∉ s.completed

/-- No two tasks in the list are for one domain and one day. -/
def Distinct (task : ι → StartData) (s : TaskMapList ι) : Prop :=
  ∀ i ∈ s.mList, ∀ j ∈ s.mList, (task i).SameDay (task j) → i = j

/-- A task that completes is found under its id when no other one has it. -/
theorem takesDone_of_distinct {op : ListOp ι} (h : s.Inv) (hdist : s.Distinct task)
    (hday : s.OneADay task op) (hst : s.step task op = some t) : s.TakesDone task op := by
  cases op with
  | insertNew i => trivial
  | finishedOne i =>
      intro j hj
      have hins : i ∈ s.inserted := by
        by_contra hnot
        simp [TaskMapList.step, hnot] at hst
      have hid : (task j).makeUnionId = (task i).makeUnionId := by
        simpa using List.find?_some hj
      exact Or.inl (hdist j (List.mem_of_find?_eq_some hj) i (h.kept i hins hday).1
        ((StartData.makeUnionId_eq_iff _ _).1 hid))

/-- A list with one task for a domain and a day stays one. -/
theorem Distinct.step {op : ListOp ι} (h : s.Distinct task) (hday : s.OneADay task op)
    (hst : s.step task op = some t) : t.Distinct task := by
  cases op with
  | insertNew i =>
      obtain rfl := Option.some.inj hst
      unfold TaskMapList.insertNew
      split_ifs
      · exact h
      · intro j hj k hk hsame
        rw [List.mem_append, List.mem_singleton] at hj hk
        rcases hj with hj | rfl
        · rcases hk with hk | rfl
          · exact h j hj k hk hsame
          · exact hday j hj hsame
        · rcases hk with hk | rfl
          · exact (hday k hk hsame.symm).symm
          · rfl
  | finishedOne i =>
      simp only [TaskMapList.step] at hst
      split_ifs at hst
      obtain rfl := Option.some.inj hst
      unfold TaskMapList.finishedOne
      split
      · exact h
      · exact fun j hj k hk => h j (List.mem_of_mem_erase hj) k (List.mem_of_mem_erase hk)

/-- **No running task is taken away when no two tasks for one domain and one day are in the
list at one time.** -/
theorem always_kept_of_oneADay (startPtr : ι → Bool) {ops : List (ListOp ι)}
    (h : Along (step task) (OneADay task) (init startPtr) ops) :
    Always (step task) Kept (init startPtr) ops := by
  have hinv : Always (step task) (fun s => s.Inv ∧ s.Distinct task) (init startPtr) ops := by
    refine always_of_along ⟨inv_init startPtr, nofun⟩ (fun s op t hs hday hst => ?_) h
    exact ⟨hs.1.step (takesDone_of_distinct hs.1 hs.2 hday hst) hst, hs.2.step hday hst⟩
  exact hinv.mono fun s hs => hs.1.kept

example : Along (step fun i : Bool => ⟨str "http://a:80/", 126, 10, if i then 17 else 16⟩)
    (TakesDone fun i : Bool => ⟨str "http://a:80/", 126, 10, if i then 17 else 16⟩)
    (init fun _ => true) [.insertNew false, .insertNew true, .finishedOne true] := by decide

/-- Two tasks for one domain on one day: the second one completes, and the first one, which
is running, is taken out of the list. -/
theorem exists_not_kept :
    ∃ t, exec (step fun i : Bool =>
          ⟨if i then str "http://a:80/b" else str "http://a:80/", 126, 10, 16⟩)
        (init fun _ => true) [.insertNew false, .insertNew true, .finishedOne true] = some t ∧
      t.mList = [true] ∧ t.startPtr false = false ∧ ¬ t.Kept := by
  refine ⟨_, rfl, rfl, rfl, fun h => ?_⟩
  have hstart := (h false (by decide) (by decide)).2
  exact absurd hstart (by decide)

end TaskMapList

end TaskData
end Scaner
