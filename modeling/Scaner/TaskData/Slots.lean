/-
# Slots and the end of a task

`insert_new_url`, `fresh_one_url` and `finished_one_url` of `task_map`
(`scaner_test/task_data.cpp`), each as a whole and in any order, used as
`pull_and_download_url` and `run_policy_name` (`scaner_test/task_work.cpp`) use
them: a URL that is handed out gets one `finished_one_url` while its
`running_thread` is still `-2`, or a store of `n + 1` and then `n + 1` calls of
`finished_one_url`, between which those of other URLs may fall.

`running_thread` is a new, a running and a finished URL in one number.  `Stage`
is what it stands for, with the calls that are still to come.

`always_accounted`: the slots that are counted are those of the URLs that were
handed out and are not finished.  `along_declaresRight`: the task is declared
finished by a call of `finished_one_url` exactly when no URL is left, in every run
with fewer than `2 ^ 32` insertions.  With as many, `next_no` comes round to the
numbers that `test_task_finished_quit` has still to look at, and the task is declared
finished before its time (`not_along_declaresRight`).
-/

import Mathlib.Data.Finset.Card
import Scaner.Lib.Trace
import Scaner.TaskData.TaskMap

namespace Scaner
namespace TaskData

open Trace

/-- How far a URL has come: it is new, or handed out, or has `n` calls of
`finished_one_url` to come. -/
inductive Stage
  | new
  | held
  | owes (n : ℕ)
  deriving DecidableEq

/-- `running_thread`. -/
def Stage.thread : Stage → ℤ
  | new => -2
  | held => -2
  | owes 0 => -1
  | owes (n + 1) => n + 1

/-- The map, how far each URL has come, and the URLs that were handed out. -/
structure Slots where
  map : TaskMap
  stage : ℕ → Stage
  handed : Finset ℕ

/-- An insertion, a call of `fresh_one_url`, the end of a download that failed, the
start of `n` policies, and the end of one call. -/
inductive Op
  | insert (url : Bytes)
  | fresh
  | fail (no : ℕ)
  | store (no n : ℕ)
  | finish (no : ℕ)

/-- A call of `insert_new_url`. -/
def Op.isInsert : Op → Bool
  | insert _ => true
  | _ => false

/-- A call of `finished_one_url`. -/
def Op.isFinish : Op → Bool
  | fail _ => true
  | finish _ => true
  | _ => false

namespace Slots

/-- `finished_one_url(no)`, with `n` calls to come behind it. -/
def finishedOneUrl (s : Slots) (no n : ℕ) : Slots :=
  { s with map := (s.map.finishedOneUrl no).1, stage := Function.update s.stage no (.owes n) }

/-- What an operation does. -/
def step (formatUrlParams : Bytes → Bytes) (s : Slots) : Op → Option Slots
  | .insert url => some { s with map := s.map.insertNewUrl formatUrlParams url }
  | .fresh =>
      match s.map.freshOneUrl with
      | (m, none) => some { s with map := m }
      | (m, some no) =>
          some ⟨m, Function.update s.stage no .held, insert no s.handed⟩
  | .fail no =>
      match s.stage no with
      | .held => some (s.finishedOneUrl no 0)
      | _ => none
  | .store no n =>
      match s.stage no with
      | .held =>
          if 1 ≤ n then
            some { s with
              map := s.map.setRunningThread no (n + 1)
              stage := Function.update s.stage no (.owes (n + 1)) }
          else none
      | _ => none
  | .finish no =>
      match s.stage no with
      | .owes (n + 1) => some (s.finishedOneUrl no n)
      | _ => none

/-- No URLs. -/
def init : Slots := ⟨.empty, fun _ => .new, ∅⟩

/-- The URLs that were handed out and do not have `running_thread == -1`. -/
def unfinished (s : Slots) : Finset ℕ :=
  s.handed.filter fun no => (s.map.urlList no).map (·.runningThread) ≠ some (-1)

/-- `running_url_count` is the number of these URLs, and not above the maximum; so it
has not been counted down from `0` either. -/
def Accounted (s : Slots) : Prop :=
  s.map.runningUrlCount = s.unfinished.card ∧ s.map.runningUrlCount ≤ runningUrlMax

/-- Every URL has `running_thread == -1`. -/
def AllFinished (s : Slots) : Prop := ∀ no, s.map.IsFinished no

/-- An operation calls `finished_one` of the list of tasks. -/
def declares (s : Slots) : Op → Bool
  | .fail no => (s.map.finishedOneUrl no).2
  | .finish no => (s.map.finishedOneUrl no).2
  | _ => false

/-- An operation declares the task finished when it is a call of `finished_one_url`
behind which every URL is finished. -/
def DeclaresRight (formatUrlParams : Bytes → Bytes) (s : Slots) (op : Op) : Prop :=
  ∀ t, s.step formatUrlParams op = some t →
    (s.declares op = true ↔ op.isFinish = true ∧ t.AllFinished)

/-! ### What every operation keeps -/

/-- `running_thread` follows the stage of its URL, and the slots are accounted for. -/
structure Inv (s : Slots) : Prop where
  handed_lt : ∀ no ∈ s.handed, no < s.map.nextWorkNo
  handed_iff : ∀ no, no ∈ s.handed ↔ s.stage no ≠ .new
  listed : ∀ no ∈ s.handed, s.map.urlList no ≠ none
  thread : ∀ no url, s.map.urlList no = some url → url.runningThread = (s.stage no).thread
  accounted : s.Accounted

/-- All numbers are below `next_no`, and those below `finished_no` are finished. -/
structure InOrder (s : Slots) : Prop where
  bounded : s.map.Bounded
  finished : ∀ no < s.map.finishedNo, s.map.IsFinished no
  finishedNo_le : s.map.finishedNo ≤ s.map.nextNo

variable {formatUrlParams : Bytes → Bytes} {s t : Slots} {no n : ℕ}

/-- Only a page whose policies are all done has -1 as its `running_thread`. -/
theorem thread_eq_neg_one {a : Stage} : a.thread = -1 ↔ a = .owes 0 := by
  cases a with
  | new => simp [Stage.thread]
  | held => simp [Stage.thread]
  | owes n =>
      cases n with
      | zero => simp [Stage.thread]
      | succ n =>
          simp only [Stage.thread, Stage.owes.injEq, Nat.succ_ne_zero, iff_false]
          omega

/-- What `finished_one_url` makes of a stage with `n + 1` calls to come. -/
theorem finishedThread_owes (n : ℕ) :
    TaskMap.finishedThread (Stage.owes (n + 1)).thread = (Stage.owes n).thread := by
  cases n with
  | zero => rfl
  | succ n =>
      have hpos : ¬ ((n + 1 : ℕ) : ℤ) + 1 - 1 ≤ 0 := by omega
      rw [TaskMap.finishedThread, Stage.thread, if_neg hpos, Stage.thread]
      omega

/-- A URL that was handed out is finished exactly if its page owes no policy. -/
theorem Inv.isFinished_iff (h : s.Inv) (hno : no ∈ s.handed) :
    s.map.IsFinished no ↔ s.stage no = .owes 0 := by
  obtain ⟨url, hurl⟩ := Option.ne_none_iff_exists'.1 (h.listed no hno)
  rw [← thread_eq_neg_one, ← h.thread no url hurl]
  exact ⟨fun hfin => hfin url hurl, TaskMap.isFinished_of_some hurl⟩

/-- At the start no URL has been handed out. -/
theorem inv_init : init.Inv where
  handed_lt _ h := by simp [init] at h
  handed_iff _ := by simp [init]
  listed _ h := by simp [init] at h
  thread _ _ h := by cases h
  accounted := ⟨rfl, Nat.zero_le _⟩

/-- At the start the map is empty. -/
theorem inOrder_init : init.InOrder where
  bounded _ _ h := by cases h
  finished _ h := absurd h (Nat.not_lt_zero _)
  finishedNo_le := le_rfl

/-- The URLs that hold a slot, by their stage. -/
theorem Inv.mem_unfinished (h : s.Inv) (no : ℕ) :
    no ∈ s.unfinished ↔ no ∈ s.handed ∧ s.stage no ≠ .owes 0 := by
  rw [unfinished, Finset.mem_filter, and_congr_right_iff]
  intro hno
  obtain ⟨url, hurl⟩ := Option.ne_none_iff_exists'.1 (h.listed no hno)
  rw [hurl, Option.map_some, ne_eq, Option.some.injEq, h.thread no url hurl, thread_eq_neg_one]

/-- A step that moves no URL that was handed out moves no slot. -/
theorem unfinished_congr (hhanded : t.handed = s.handed)
    (hurls : ∀ no ∈ s.handed, t.map.urlList no = s.map.urlList no) :
    t.unfinished = s.unfinished := by
  unfold unfinished
  rw [hhanded]
  exact Finset.filter_congr fun no hno => by rw [hurls no hno]

/-- A URL that is entered has not been handed out. -/
theorem Inv.insertNewUrl (formatUrlParams : Bytes → Bytes) (h : s.Inv) (url : Bytes) :
    Inv { s with map := s.map.insertNewUrl formatUrlParams url } := by
  have hgrow := TaskMap.grows_insertNewUrl formatUrlParams s.map url
  have hold : ∀ no ∈ s.handed,
      (s.map.insertNewUrl formatUrlParams url).urlList no = s.map.urlList no := by
    intro no hno
    obtain ⟨u, hu⟩ := Option.ne_none_iff_exists'.1 (h.listed no hno)
    rw [hu]
    exact hgrow.old no u hu
  constructor
  case handed_lt => exact fun no hno => hgrow.nextWorkNo_eq ▸ h.handed_lt no hno
  case handed_iff => exact h.handed_iff
  case listed =>
    intro no hno
    rw [hold no hno]
    exact h.listed no hno
  case thread =>
    intro no u hu
    cases hno : s.map.urlList no with
    | some u' =>
        obtain rfl := Option.some.inj ((hgrow.old no u' hno).symm.trans hu)
        exact h.thread no u' hno
    | none =>
        -- a number that has just been given out is new
        have hnew : s.stage no = .new := by
          by_contra hne
          exact h.listed no ((h.handed_iff no).2 hne) hno
        rw [hnew]
        exact hgrow.new no u hno hu
  case accounted =>
    have hsame : unfinished { s with map := s.map.insertNewUrl formatUrlParams url } =
        s.unfinished := unfinished_congr rfl hold
    rw [Accounted, hsame, hgrow.runningUrlCount_eq]
    exact h.accounted

/-- An insertion that does not take `next_no` round keeps the numbers in order. -/
theorem InOrder.insertNewUrl (h : s.InOrder) (hno : s.map.nextNo + 1 < 2 ^ 32)
    (formatUrlParams : Bytes → Bytes) (url : Bytes) :
    InOrder { s with map := s.map.insertNewUrl formatUrlParams url } := by
  obtain ⟨hnext, -, -, hfinished⟩ := TaskMap.insertNewUrl_fields formatUrlParams s.map url
  have hle := h.finishedNo_le
  refine ⟨h.bounded.insertNewUrl hno formatUrlParams url, fun no hlt u hu => ?_, ?_⟩
  · rw [hfinished] at hlt
    rw [TaskMap.urlList_insertNewUrl, if_neg fun heq => by omega] at hu
    exact h.finished no hlt u hu
  · simp only [hfinished, hnext, incSize_of_lt hno]
    omega

/-- A call of `fresh_one_url` that returns nothing leaves the stages. -/
theorem Inv.fresh_none (h : s.Inv) {m : TaskMap} (hf : s.map.freshOneUrl = (m, none)) :
    Inv { s with map := m } := by
  rcases TaskMap.freshOneUrl_none hf with ⟨rfl, -⟩ | ⟨-, -, rfl⟩
  · exact h
  · exact ⟨fun no hno => (h.handed_lt no hno).trans_le (le_max_left _ _), h.handed_iff,
      h.listed, h.thread, h.accounted⟩

/-- A call of `fresh_one_url` leaves the numbers in order. -/
theorem InOrder.congr (h : s.InOrder) {t : Slots} (hlist : t.map.urlList = s.map.urlList)
    (hnext : t.map.nextNo = s.map.nextNo) (hfinished : t.map.finishedNo = s.map.finishedNo) :
    t.InOrder where
  bounded i u hu := hnext ▸ h.bounded i u (hlist ▸ hu)
  finished i hi u hu := h.finished i (hfinished ▸ hi) u (hlist ▸ hu)
  finishedNo_le := by
    rw [hfinished, hnext]
    exact h.finishedNo_le

/-- A URL that is handed out takes a free slot. -/
theorem Inv.fresh_some (h : s.Inv) {m : TaskMap} (hf : s.map.freshOneUrl = (m, some no)) :
    Inv ⟨m, Function.update s.stage no .held, insert no s.handed⟩ := by
  obtain ⟨hslot, hle, -, ⟨url, hurl, hrt⟩, -, hlt, rfl⟩ := TaskMap.freshOneUrl_some hf
  have hno : no ∉ s.handed := fun hmem => absurd (h.handed_lt no hmem) (not_lt.2 hle)
  have hmem : no ∉ s.unfinished := fun hmem => hno (Finset.mem_filter.1 hmem).1
  constructor
  case handed_lt =>
    intro i hi
    rcases Finset.mem_insert.1 hi with rfl | hi
    · exact Nat.lt_succ_self i
    · exact Nat.lt_succ_of_lt ((h.handed_lt i hi).trans_le hle)
  case handed_iff =>
    intro i
    by_cases hi : i = no
    · subst hi
      simp
    · simp [hi, h.handed_iff i]
  case listed =>
    intro i hi
    rcases Finset.mem_insert.1 hi with rfl | hi
    · simp [hurl]
    · exact h.listed i hi
  case thread =>
    intro i u hu
    by_cases hi : i = no
    · subst hi
      obtain rfl := Option.some.inj (hurl.symm.trans hu)
      simpa [Stage.thread] using hrt
    · simpa [Function.update_of_ne hi] using h.thread i u hu
  case accounted =>
    have hset : (Slots.mk { s.map with
        nextWorkNo := no + 1, nextWorkNo_lt := hlt
        runningUrlCount := incSize s.map.runningUrlCount }
        (Function.update s.stage no .held) (insert no s.handed)).unfinished =
          insert no s.unfinished := by
      unfold unfinished
      rw [Finset.filter_insert, if_pos (by simp [hurl, hrt])]
    rw [Accounted, hset, Finset.card_insert_of_notMem hmem, ← h.accounted.1]
    unfold runningUrlMax at hslot ⊢
    unfold incSize
    constructor
    · simp only
      omega
    · simp only
      omega

/-- The map `m` is that of `s` with the URL `no` moved on: its `running_thread` says that `n`
calls are to come, and its slot is freed when there are none. -/
structure MovesOn (s : Slots) (m : TaskMap) (no n : ℕ) : Prop where
  handed : no ∈ s.handed
  stage : s.stage no ≠ .owes 0
  nextNo : m.nextNo = s.map.nextNo
  nextWorkNo : m.nextWorkNo = s.map.nextWorkNo
  count : m.runningUrlCount =
    if n = 0 then decSize s.map.runningUrlCount else s.map.runningUrlCount
  self : (m.urlList no).map (·.runningThread) = some (Stage.owes n).thread
  other : ∀ i ≠ no, m.urlList i = s.map.urlList i
  advances : s.map.Advances m

/-- The state with the URL moved on. -/
def moved (s : Slots) (m : TaskMap) (no n : ℕ) : Slots :=
  ⟨m, Function.update s.stage no (.owes n), s.handed⟩

/-- A page that owes no more policies is no longer unfinished. -/
theorem MovesOn.unfinished_moved {m : TaskMap} (hm : s.MovesOn m no n) (h : s.Inv) :
    (s.moved m no n).unfinished = if n = 0 then s.unfinished.erase no else s.unfinished := by
  have hmem : no ∈ s.unfinished := (h.mem_unfinished no).2 ⟨hm.handed, hm.stage⟩
  ext i
  have hi : i ∈ (s.moved m no n).unfinished ↔
      i ∈ s.handed ∧ (m.urlList i).map (·.runningThread) ≠ some (-1) := Finset.mem_filter
  rw [hi]
  by_cases hin : i = no
  · subst hin
    rw [hm.self, ne_eq, Option.some.injEq, thread_eq_neg_one, Stage.owes.injEq]
    split_ifs with hn
    · simp [hn]
    · simp [hn, hmem, hm.handed]
  · rw [hm.other i hin]
    split_ifs
    · simp [unfinished, hin]
    · simp [unfinished]

/-- The account of the unfinished pages after one has moved on. -/
theorem MovesOn.accounted {m : TaskMap} (hm : s.MovesOn m no n) (h : s.Inv) :
    (s.moved m no n).Accounted := by
  obtain ⟨hcard, hle⟩ := h.accounted
  have hmem : no ∈ s.unfinished := (h.mem_unfinished no).2 ⟨hm.handed, hm.stage⟩
  have hpos : 0 < s.unfinished.card := Finset.card_pos.2 ⟨no, hmem⟩
  have hcount : (s.moved m no n).map.runningUrlCount = _ := hm.count
  unfold runningUrlMax at hle
  rw [Accounted, hm.unfinished_moved h, hcount]
  unfold runningUrlMax decSize
  split_ifs
  · rw [Finset.card_erase_of_mem hmem]
    omega
  · omega

/-- What was finished stays so. -/
theorem MovesOn.finished {m : TaskMap} (hm : s.MovesOn m no n) (h : s.Inv) (ho : s.InOrder) :
    ∀ i < m.finishedNo, m.IsFinished i := by
  have hkept : ∀ i < s.map.finishedNo, m.IsFinished i := by
    intro i hi u hu
    have hin : i ≠ no := by
      rintro rfl
      exact hm.stage ((h.isFinished_iff hm.handed).1 (ho.finished i hi))
    exact ho.finished i hi u ((hm.other i hin).symm.trans hu)
  intro i hi
  rcases hm.advances with hsame | ⟨-, -, hpass⟩
  · exact hkept i (hsame ▸ hi)
  · by_cases hlt : i < s.map.finishedNo
    · exact hkept i hlt
    · exact hpass i (not_lt.1 hlt) hi.le

/-- **A URL that moves on** keeps the invariant. -/
theorem Inv.moveOn (h : s.Inv) {m : TaskMap} (hm : s.MovesOn m no n) : (s.moved m no n).Inv := by
  constructor
  case handed_lt => exact fun i hi => lt_of_lt_of_eq (h.handed_lt i hi) hm.nextWorkNo.symm
  case handed_iff =>
    intro i
    by_cases hi : i = no
    · subst hi
      simp [moved, hm.handed]
    · simp [moved, Function.update_of_ne hi, h.handed_iff i]
  case listed =>
    intro i hi
    by_cases hin : i = no
    · subst hin
      obtain ⟨u, hu, -⟩ := Option.map_eq_some_iff.1 hm.self
      simp [moved, hu]
    · exact hm.other i hin ▸ h.listed i hi
  case thread =>
    intro i u hu
    by_cases hi : i = no
    · subst hi
      obtain ⟨u', hu', hthread⟩ := Option.map_eq_some_iff.1 hm.self
      obtain rfl := Option.some.inj (hu'.symm.trans hu)
      simpa [moved] using hthread
    · simpa [moved, Function.update_of_ne hi] using h.thread i u ((hm.other i hi).symm.trans hu)
  case accounted => exact hm.accounted h

/-- A page that moves on leaves the numbers in order. -/
theorem InOrder.moveOn (ho : s.InOrder) (h : s.Inv) {m : TaskMap} (hm : s.MovesOn m no n) :
    (s.moved m no n).InOrder := by
  obtain ⟨old, hold⟩ := Option.ne_none_iff_exists'.1 (h.listed no hm.handed)
  constructor
  case bounded =>
    intro i u hu
    refine lt_of_lt_of_eq ?_ hm.nextNo.symm
    by_cases hi : i = no
    · exact hi ▸ ho.bounded no old hold
    · exact ho.bounded i u ((hm.other i hi).symm.trans hu)
  case finished => exact hm.finished h ho
  case finishedNo_le =>
    have hle := ho.finishedNo_le
    have hnext := hm.nextNo
    rcases hm.advances with hsame | ⟨-, hlt, -⟩
    · simp only [moved]
      omega
    · simp only [moved]
      omega

/-- A URL that starts its policies moves on, and keeps its slot. -/
theorem Inv.movesOn_store (h : s.Inv) (hheld : s.stage no = .held) (n : ℕ) :
    s.MovesOn (s.map.setRunningThread no (n + 1)) no (n + 1) := by
  have hno : no ∈ s.handed := (h.handed_iff no).2 (by simp [hheld])
  obtain ⟨url, hurl⟩ := Option.ne_none_iff_exists'.1 (h.listed no hno)
  have hset : s.map.setRunningThread no (n + 1) = { s.map with
      urlList := Function.update s.map.urlList no (some { url with runningThread := n + 1 }) } := by
    simp only [TaskMap.setRunningThread, hurl]
  rw [hset]
  refine ⟨hno, by simp [hheld], rfl, rfl, by simp, ?_, fun i hi => ?_, Or.inl rfl⟩
  · simp [Stage.thread]
  · simp [hi]

/-- A call of `finished_one_url` moves a URL on that is not finished. -/
theorem Inv.movesOn_finishedOneUrl (h : s.Inv) (hno : no ∈ s.handed) (hstage : s.stage no ≠ .owes 0)
    (hn : TaskMap.finishedThread (s.stage no).thread = (Stage.owes n).thread) :
    s.MovesOn (s.map.finishedOneUrl no).1 no n := by
  obtain ⟨url, hurl⟩ := Option.ne_none_iff_exists'.1 (h.listed no hno)
  obtain ⟨k, hfin⟩ := TaskMap.finishedOneUrl_eq hurl
  have hadv := (TaskMap.finishedOneUrl_declares hurl).2
  rw [h.thread no url hurl, hn] at hfin
  refine ⟨hno, hstage, ?_, ?_, ?_, ?_, fun i hi => ?_, hadv⟩
  · rw [hfin]
  · rw [hfin]
  · rw [hfin]
    simp only [thread_eq_neg_one, Stage.owes.injEq]
  · rw [hfin]
    simp
  · rw [hfin]
    simp [hi]

/-- **When a call of `finished_one_url` declares the task finished.** -/
theorem Inv.declares_iff (h : s.Inv) (ho : s.InOrder) (hno : no ∈ s.handed)
    (hstage : s.stage no ≠ .owes 0)
    (hn : TaskMap.finishedThread (s.stage no).thread = (Stage.owes n).thread) :
    (s.map.finishedOneUrl no).2 = true ↔ (s.finishedOneUrl no n).AllFinished := by
  obtain ⟨url, hurl⟩ := Option.ne_none_iff_exists'.1 (h.listed no hno)
  obtain ⟨hiff, hadv⟩ := TaskMap.finishedOneUrl_declares hurl
  rw [h.thread no url hurl, hn] at hiff
  have hmoves := h.movesOn_finishedOneUrl hno hstage hn
  have hinv : (s.finishedOneUrl no n).Inv := h.moveOn hmoves
  have horder : (s.finishedOneUrl no n).InOrder := ho.moveOn h hmoves
  refine hiff.trans ⟨fun hall i => ?_, fun hall => ⟨?_, fun i _ _ => hall i⟩⟩
  · by_cases hlt : i < s.map.finishedNo
    · refine horder.finished i (hlt.trans_le ?_)
      rcases hadv with hsame | ⟨hle, -, -⟩
      · exact hsame.ge
      · exact hle
    · intro u hu
      exact hall.2 i (not_lt.1 hlt) (hmoves.nextNo ▸ horder.bounded i u hu) u hu
  · have hself := (hinv.isFinished_iff hno).1 (hall no)
    simp only [Slots.finishedOneUrl, Function.update_self] at hself
    rw [hself]
    rfl

/-- **What an operation does**: it inserts, hands out, moves a URL to its policies, or is a
call of `finished_one_url` for a URL that is not finished. -/
theorem step_cases {op : Op} (h : s.step formatUrlParams op = some t) :
    (∃ url, op = .insert url ∧ t = { s with map := s.map.insertNewUrl formatUrlParams url }) ∨
    (∃ m, op = .fresh ∧ s.map.freshOneUrl = (m, none) ∧ t = { s with map := m }) ∨
    (∃ m no, op = .fresh ∧ s.map.freshOneUrl = (m, some no) ∧
      t = ⟨m, Function.update s.stage no .held, insert no s.handed⟩) ∨
    (∃ no n, op = .store no n ∧ s.stage no = .held ∧ t = { s with
      map := s.map.setRunningThread no (n + 1)
      stage := Function.update s.stage no (.owes (n + 1)) }) ∨
    (∃ no n, (op = .fail no ∨ op = .finish no) ∧ s.stage no ≠ .new ∧ s.stage no ≠ .owes 0 ∧
      TaskMap.finishedThread (s.stage no).thread = (Stage.owes n).thread ∧
      t = s.finishedOneUrl no n) := by
  cases op with
  | insert url => exact Or.inl ⟨url, rfl, (Option.some.inj h).symm⟩
  | fresh =>
      simp only [step] at h
      split at h
      · rename_i m hm
        exact Or.inr (Or.inl ⟨m, rfl, hm, (Option.some.inj h).symm⟩)
      · rename_i m no hm
        exact Or.inr (Or.inr (Or.inl ⟨m, no, rfl, hm, (Option.some.inj h).symm⟩))
  | fail no =>
      simp only [step] at h
      split at h
      · rename_i hheld
        refine Or.inr (Or.inr (Or.inr (Or.inr
          ⟨no, 0, Or.inl rfl, ?_, ?_, ?_, (Option.some.inj h).symm⟩)))
        · simp [hheld]
        · simp [hheld]
        · rw [hheld]
          rfl
      · cases h
  | store no n =>
      simp only [step] at h
      split at h
      · rename_i hheld
        split_ifs at h
        exact Or.inr (Or.inr (Or.inr (Or.inl ⟨no, n, rfl, hheld, (Option.some.inj h).symm⟩)))
      · cases h
  | finish no =>
      simp only [step] at h
      split at h
      · rename_i n howes
        refine Or.inr (Or.inr (Or.inr (Or.inr
          ⟨no, n, Or.inr rfl, ?_, ?_, ?_, (Option.some.inj h).symm⟩)))
        · simp [howes]
        · simp [howes]
        · rw [howes, finishedThread_owes]
      · cases h

/-- **Every call keeps the account of the pages.** -/
theorem Inv.step {op : Op} (h : s.Inv) (hstep : s.step formatUrlParams op = some t) : t.Inv := by
  rcases step_cases hstep with ⟨url, -, rfl⟩ | ⟨m, -, hm, rfl⟩ | ⟨m, no, -, hm, rfl⟩ |
    ⟨no, n, -, hheld, rfl⟩ | ⟨no, n, -, hnew, hstage, hn, rfl⟩
  · exact h.insertNewUrl formatUrlParams url
  · exact h.fresh_none hm
  · exact h.fresh_some hm
  · exact h.moveOn (h.movesOn_store hheld n)
  · exact h.moveOn (h.movesOn_finishedOneUrl ((h.handed_iff no).2 hnew) hstage hn)

/-- An operation keeps the numbers in order, unless it takes `next_no` round; and only an
insertion counts `next_no` up. -/
theorem InOrder.step {op : Op} (ho : s.InOrder) (h : s.Inv)
    (hno : op.isInsert = true → s.map.nextNo + 1 < 2 ^ 32)
    (hstep : s.step formatUrlParams op = some t) :
    t.InOrder ∧ t.map.nextNo = s.map.nextNo + if op.isInsert then 1 else 0 := by
  rcases step_cases hstep with ⟨url, rfl, rfl⟩ | ⟨m, rfl, hm, rfl⟩ | ⟨m, no, rfl, hm, rfl⟩ |
    ⟨no, n, rfl, hheld, rfl⟩ | ⟨no, n, hop, hnew, hstage, hn, rfl⟩
  · have hlt := hno rfl
    refine ⟨ho.insertNewUrl hlt formatUrlParams url, ?_⟩
    exact (TaskMap.insertNewUrl_fields formatUrlParams s.map url).1.trans (incSize_of_lt hlt)
  · obtain ⟨hnext, -, hfinished, -, -, -, hlist⟩ := TaskMap.freshOneUrl_none_fields hm
    exact ⟨ho.congr hlist hnext hfinished, hnext⟩
  · obtain ⟨-, -, -, -, -, -, rfl⟩ := TaskMap.freshOneUrl_some hm
    exact ⟨ho.congr rfl rfl rfl, rfl⟩
  · have hmoves := h.movesOn_store hheld n
    exact ⟨ho.moveOn h hmoves, hmoves.nextNo⟩
  · have hmoves := h.movesOn_finishedOneUrl ((h.handed_iff no).2 hnew) hstage hn
    have hop' : op.isInsert = false := by rcases hop with rfl | rfl <;> rfl
    rw [hop']
    exact ⟨ho.moveOn h hmoves, hmoves.nextNo⟩

/-! ### Whole runs -/

/-- **Slot accounting.**  Whatever is inserted, handed out and finished in whatever order,
`running_url_count` is the number of URLs that were handed out and are not finished, and
it stays below the maximum. -/
theorem always_accounted (formatUrlParams : Bytes → Bytes) (ops : List Op) :
    Always (step formatUrlParams) Accounted init ops :=
  (always_of_step inv_init (fun _ _ _ => Inv.step) ops).mono fun _ h => h.accounted

/-- What `is_all_finished` declares is right while the numbers are in order. -/
theorem Inv.declaresRight (h : s.Inv) (ho : s.InOrder) (op : Op) :
    s.DeclaresRight formatUrlParams op := by
  intro t hstep
  rcases step_cases hstep with ⟨url, rfl, -⟩ | ⟨m, rfl, -⟩ | ⟨m, no, rfl, -⟩ |
    ⟨no, n, rfl, -⟩ | ⟨no, n, rfl | rfl, hnew, hstage, hn, rfl⟩
  · simp [declares, Op.isFinish]
  · simp [declares, Op.isFinish]
  · simp [declares, Op.isFinish]
  · simp [declares, Op.isFinish]
  · rw [declares, h.declares_iff ho ((h.handed_iff no).2 hnew) hstage hn]
    simp [Op.isFinish]
  · rw [declares, h.declares_iff ho ((h.handed_iff no).2 hnew) hstage hn]
    simp [Op.isFinish]

/-- From any state in order, as long as the insertions do not take `next_no` round. -/
theorem along_declaresRight_of_inOrder (h : s.Inv) (ho : s.InOrder) {ops : List Op}
    (hops : s.map.nextNo + ops.countP Op.isInsert < 2 ^ 32) :
    Along (step formatUrlParams) (DeclaresRight formatUrlParams) s ops := by
  induction ops generalizing s with
  | nil => trivial
  | cons op ops ih =>
      intro t hstep
      rw [List.countP_cons] at hops
      have hno : op.isInsert = true → s.map.nextNo + 1 < 2 ^ 32 := fun hop => by
        rw [if_pos hop] at hops
        omega
      obtain ⟨horder, hnext⟩ := ho.step h hno hstep
      exact ⟨h.declaresRight ho op, ih (h.step hstep) horder (by rw [hnext]; omega)⟩

/-- **A task is declared finished when its work is done**: along every run with fewer than
`2 ^ 32` insertions, by the calls of `finished_one_url` that leave every URL finished, and by
nothing else. -/
theorem along_declaresRight (formatUrlParams : Bytes → Bytes) {ops : List Op}
    (hops : ops.countP Op.isInsert < 2 ^ 32) :
    Along (step formatUrlParams) (DeclaresRight formatUrlParams) init ops :=
  along_declaresRight_of_inOrder inv_init inOrder_init (by rwa [init, TaskMap.empty, Nat.zero_add])

/-- Two URLs, the second found on the page of the first: one with a policy, one whose download
fails. -/
def twoUrls : List Op :=
  [.insert (Bytes.str "a"), .fresh, .insert (Bytes.str "b"), .insert (Bytes.str "a"), .store 0 1,
    .finish 0, .fresh, .finish 0]

/-- The end of the second one is the end of the task. -/
theorem along_declaresRight_twoUrls :
    ∃ s t, exec (step id) init twoUrls = some s ∧ s.step id (.fail 1) = some t ∧
      (s.declares (.fail 1) = true ↔ t.AllFinished) ∧ s.declares (.fail 1) = true := by
  have hcount : (twoUrls ++ [Op.fail 1]).countP Op.isInsert < 2 ^ 32 := by decide
  have hall := along_declaresRight id hcount
  have hrun : ((exec (step id) init twoUrls).bind fun s => (s.step id (.fail 1)).map fun _ =>
      s.declares (.fail 1)) = some true := by
    decide +kernel
  obtain ⟨s, hs, hnext⟩ := Option.bind_eq_some_iff.1 hrun
  obtain ⟨t, ht, hdeclares⟩ := Option.map_eq_some_iff.1 hnext
  have hright := ((hall.drop hs) t ht).1 t ht
  exact ⟨s, t, hs, ht, hright.trans (and_iff_right rfl), hdeclares⟩

/-! ### The numbers come round -/

/-- A URL that is known takes a number each time it is inserted. -/
theorem exec_replicate_insert {url : Bytes} (hurl : s.map.urlNoMap (formatUrlParams url) ≠ none)
    (n : ℕ) :
    ∃ m : TaskMap, exec (step formatUrlParams) s (List.replicate n (.insert url)) =
        some { s with map := m } ∧
      m.nextNo = (s.map.nextNo + n) % 2 ^ 32 ∧ m.urlList = s.map.urlList := by
  induction n generalizing s with
  | zero => exact ⟨s.map, rfl, (Nat.mod_eq_of_lt s.map.nextNo_lt).symm, rfl⟩
  | succ n ih =>
      obtain ⟨m, hm, hnext, hlist⟩ := ih (s := { s with map := s.map.incNextNo }) hurl
      have hinc : s.map.incNextNo.nextNo = (s.map.nextNo + 1) % 2 ^ 32 := rfl
      refine ⟨m, ?_, ?_, hlist⟩
      · rw [List.replicate_succ, exec_cons]
        exact ⟨_, by rw [step, TaskMap.insertNewUrl_known hurl], hm⟩
      · rw [hnext, hinc, Nat.mod_add_mod, Nat.add_assoc, Nat.add_comm 1 n]

/-- Another URL is found on the page of the first one, and then the first one itself until
`next_no` has come round to `0`. -/
def comesRound : List Op :=
  [.insert (Bytes.str "a"), .fresh, .insert (Bytes.str "b")] ++
    List.replicate (2 ^ 32 - 2) (.insert (Bytes.str "a"))

/-- The end of the first URL is then taken for the end of the task, and the other one has not
been handed out. -/
theorem not_along_declaresRight :
    ¬ Along (step id) (DeclaresRight id) init (comesRound ++ [.fail 0]) := by
  intro hall
  have hstart : ((exec (step id) init [.insert (Bytes.str "a"), .fresh,
      .insert (Bytes.str "b")]).map fun s => (s.map.nextNo, s.map.urlNoMap (Bytes.str "a"),
        (s.map.urlList 0).map (·.runningThread), (s.map.urlList 1).map (·.runningThread),
        s.stage 0)) = some (2, some 0, some (-2), some (-2), .held) := by
    decide +kernel
  obtain ⟨s, hs, hfields⟩ := Option.map_eq_some_iff.1 hstart
  simp only [Prod.mk.injEq, Option.map_eq_some_iff] at hfields
  obtain ⟨hnext, hknown, ⟨a, ha, hat⟩, ⟨b, hb, hbt⟩, hstage⟩ := hfields
  have hknown' : s.map.urlNoMap (id (Bytes.str "a")) ≠ none := by simp [hknown]
  obtain ⟨m, hm, hnext', hlist⟩ := exec_replicate_insert hknown' (2 ^ 32 - 2)
  have hrun := hall.drop (exec_append.2 ⟨s, hs, hm⟩)
  have hzero : m.nextNo = 0 := by
    rw [hnext', hnext]
    rfl
  obtain ⟨t, ht⟩ : ∃ t, step id { s with map := m } (.fail 0) = some t := by
    simp only [step, hstage]
    exact ⟨_, rfl⟩
  have ha' : m.urlList 0 = some a := hlist ▸ ha
  have hlast : TaskMap.finishedThread a.runningThread = -1 := by
    rw [hat]
    rfl
  have hdeclares : (Slots.mk m s.stage s.handed).declares (.fail 0) = true := by
    rw [declares, (TaskMap.finishedOneUrl_declares ha').1]
    refine ⟨hlast, fun j _ hj => ?_⟩
    rw [hzero] at hj
    omega
  obtain ⟨-, hfin⟩ := ((hrun t ht).1 t ht).1 hdeclares
  have hb' : t.map.urlList 1 = some b := by
    obtain ⟨k, hk⟩ := TaskMap.finishedOneUrl_eq ha'
    simp only [step, hstage, Option.some.injEq] at ht
    rw [← ht, finishedOneUrl, hk]
    simp [hlist, hb]
  have := hfin 1 b hb'
  omega

end Slots

end TaskData
end Scaner
