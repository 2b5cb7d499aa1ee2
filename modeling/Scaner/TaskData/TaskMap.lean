/-
# The map of a task

`task_map` in `scaner_test/task_data.cpp`: the URLs of one task, numbered in the
order in which they came in, and the cursor `next_work_no` behind the last one
handed out.  Here every member function is one atomic operation; the steps that
they consist of are those of `Scaner.TaskData.Finish` and
`Scaner.TaskData.Handout`.

Of a URL only `url_origin` and `running_thread` are kept: `-2` while it is new,
`-1` when it is finished, else the number of calls of `finished_one_url` that are
still to come.  `http_tools::format_url_params` is declared in the repository
and not defined; it is a parameter here.

All counters are of type `size_t`, which has 32 bits, and wrap: `running_url_count`
when it is counted down from `0`, and `next_no`, which every insertion counts up,
after `2 ^ 32` insertions.  The bounds of `next_no` and `next_work_no` are fields of
the map.
-/

import Mathlib.Logic.Function.Basic
import Mathlib.Tactic.Common
import Scaner.Lib.Bytes

namespace Scaner
namespace TaskData

/-- `class task_url_struct`. -/
structure TaskUrlStruct where
  urlOrigin : Bytes
  runningThread : ℤ := -2

/-- `std::map::insert`: a key that is there keeps its value. -/
def mapInsert {α β : Type} [DecidableEq α] (map : α → Option β) (key : α) (value : β) :
    α → Option β :=
  match map key with
  | some _ => map
  | none => Function.update map key (some value)

/-- `x++` of a `size_t`. -/
def incSize (x : ℕ) : ℕ := (x + 1) % 2 ^ 32

/-- `x--` of a `size_t`. -/
def decSize (x : ℕ) : ℕ := (x + (2 ^ 32 - 1)) % 2 ^ 32

/-- A `size_t` stays one. -/
theorem incSize_lt (x : ℕ) : incSize x < 2 ^ 32 := Nat.mod_lt _ (by decide)

/-- Below the last number the counter does not wrap. -/
theorem incSize_of_lt {x : ℕ} (h : x + 1 < 2 ^ 32) : incSize x = x + 1 := Nat.mod_eq_of_lt h

/-- `class task_map`. -/
structure TaskMap where
  nextNo : ℕ
  nextWorkNo : ℕ
  finishedNo : ℕ
  runningUrlCount : ℕ
  urlNoMap : Bytes → Option ℕ
  noUrlMap : ℕ → Option Bytes
  urlList : ℕ → Option TaskUrlStruct
  nextNo_lt : nextNo < 2 ^ 32
  nextWorkNo_lt : nextWorkNo < 2 ^ 32

/-- The map of a new task. -/
def TaskMap.empty : TaskMap where
  nextNo := 0
  nextWorkNo := 0
  finishedNo := 0
  runningUrlCount := 0
  urlNoMap _ := none
  noUrlMap _ := none
  urlList _ := none
  nextNo_lt := by decide
  nextWorkNo_lt := by decide

/-- `running_url_max`. -/
def runningUrlMax : ℕ := 30

/-- A `size_t` that is stored in an `int`, given as any number of its class. -/
def toInt (x : ℤ) : ℤ := (x + 2 ^ 31) % 2 ^ 32 - 2 ^ 31

namespace TaskMap

/-- `next_no++`. -/
def incNextNo (m : TaskMap) : TaskMap :=
  { m with nextNo := incSize m.nextNo, nextNo_lt := incSize_lt _ }

/-- `next_work_no++`. -/
def incNextWorkNo (m : TaskMap) : TaskMap :=
  { m with nextWorkNo := incSize m.nextWorkNo, nextWorkNo_lt := incSize_lt _ }

/-- `insert_new_url(url)`. -/
def insertNewUrl (formatUrlParams : Bytes → Bytes) (m : TaskMap) (url : Bytes) : TaskMap :=
  let url := formatUrlParams url
  let no := m.nextNo
  let m := m.incNextNo
  match m.urlNoMap url with
  | some _ => m
  | none => { m with
      urlNoMap := Function.update m.urlNoMap url (some no)
      noUrlMap := mapInsert m.noUrlMap no url
      urlList := mapInsert m.urlList no { urlOrigin := url } }

/-- The loop of `fresh_one_url`, with the number of turns that are left before
`next_work_no` comes to `next_no`. -/
def freshLoop (m : TaskMap) : ℕ → TaskMap × Option ℕ
  | 0 => (m, none)
  | k + 1 =>
      let urlNo := m.nextWorkNo
      let m := m.incNextWorkNo
      match m.urlList urlNo with
      | some url =>
          if url.runningThread = -2 then
            ({ m with runningUrlCount := incSize m.runningUrlCount }, some urlNo)
          else freshLoop m k
      | none => freshLoop m k

/-- `fresh_one_url`: the number that it returns, if it returns true. -/
def freshOneUrl (m : TaskMap) : TaskMap × Option ℕ :=
  if m.nextNo ≤ m.nextWorkNo ∨ runningUrlMax ≤ m.runningUrlCount then (m, none)
  else freshLoop m (m.nextNo - m.nextWorkNo)

/-- A store to `running_thread`. -/
def setRunningThread (m : TaskMap) (urlNo : ℕ) (n : ℤ) : TaskMap :=
  match m.urlList urlNo with
  | some url =>
      { m with urlList := Function.update m.urlList urlNo (some { url with runningThread := n }) }
  | none => m

/-- The loop of `test_task_finished_quit`, with the number of turns left and `i`;
true when the task is declared finished. -/
def finishedLoop (m : TaskMap) : ℕ → ℕ → TaskMap × Bool
  | 0, _ => (m, true)
  | k + 1, i =>
      match m.urlList i with
      | none => finishedLoop m k (i + 1)
      | some url =>
          if url.runningThread ≠ -1 then (m, false)
          else finishedLoop
            { m with finishedNo := if m.finishedNo < i then i else m.finishedNo } k (i + 1)

/-- `test_task_finished_quit`. -/
def testTaskFinishedQuit (m : TaskMap) : TaskMap × Bool :=
  finishedLoop m (m.nextNo - m.finishedNo) m.finishedNo

/-- What `finished_one_url` leaves in `running_thread`. -/
def finishedThread (runningThread : ℤ) : ℤ :=
  if runningThread - 1 ≤ 0 then -1 else runningThread - 1

/-- `finished_one_url(url_no)`; true when the task is declared finished. -/
def finishedOneUrl (m : TaskMap) (urlNo : ℕ) : TaskMap × Bool :=
  match m.urlList urlNo with
  | none => (m, false)
  | some url =>
      let m := m.setRunningThread urlNo (finishedThread url.runningThread)
      if finishedThread url.runningThread = -1 then
        { m with runningUrlCount := decSize m.runningUrlCount }.testTaskFinishedQuit
      else (m, false)

/-- `url_list_remain`. -/
def urlListRemain (m : TaskMap) : ℤ :=
  min (toInt (m.nextNo - m.nextWorkNo)) (toInt (runningUrlMax - m.runningUrlCount))

/-! ### Handing out -/

/-- The URL with the number `no` is new. -/
def IsNew (m : TaskMap) (no : ℕ) : Prop := ∃ url, m.urlList no = some url ∧ url.runningThread = -2

variable {m m' : TaskMap} {no k : ℕ}

/-- The cursor does not wrap below `next_no`. -/
theorem incSize_nextWorkNo (h : m.nextWorkNo < m.nextNo) :
    incSize m.nextWorkNo = m.nextWorkNo + 1 :=
  incSize_of_lt (lt_of_le_of_lt h m.nextNo_lt)

/-- The loop of `fresh_one_url` stops at a URL that has not been handed out. -/
theorem freshLoop_of_isNew (h : m.IsNew m.nextWorkNo) :
    m.freshLoop (k + 1) = ({ m.incNextWorkNo with
      runningUrlCount := incSize m.runningUrlCount }, some m.nextWorkNo) := by
  obtain ⟨url, hurl, hrt⟩ := h
  simp only [freshLoop, incNextWorkNo, hurl, hrt, if_true]

/-- The loop passes over a number with no URL, or one that has been handed out. -/
theorem freshLoop_of_not_isNew (h : ¬ m.IsNew m.nextWorkNo) :
    m.freshLoop (k + 1) = freshLoop m.incNextWorkNo k := by
  simp only [freshLoop]
  split
  · rename_i url hurl
    rw [if_neg fun hrt => h ⟨url, hurl, hrt⟩]
  · rfl

/-- Two maps with the cursor at the same place. -/
theorem cursor_congr {i j : ℕ} (h : i = j) (hi : i < 2 ^ 32) (hj : j < 2 ^ 32) :
    ({ m with nextWorkNo := i, nextWorkNo_lt := hi } : TaskMap) =
      { m with nextWorkNo := j, nextWorkNo_lt := hj } := by
  subst h
  rfl

/-- A loop that returns a number passes over numbers that are not new. -/
theorem freshLoop_some (hk : m.nextWorkNo + k ≤ m.nextNo) (h : m.freshLoop k = (m', some no)) :
    m.nextWorkNo ≤ no ∧ no < m.nextWorkNo + k ∧ m.IsNew no ∧
      (∀ i, m.nextWorkNo ≤ i → i < no → ¬ m.IsNew i) ∧
      ∃ hlt, m' = { m with
        nextWorkNo := no + 1
        nextWorkNo_lt := hlt
        runningUrlCount := incSize m.runningUrlCount } := by
  induction k generalizing m with
  | zero => simp [freshLoop] at h
  | succ k ih =>
      have hinc : m.incNextWorkNo.nextWorkNo = m.nextWorkNo + 1 := incSize_nextWorkNo (by omega)
      by_cases hnew : m.IsNew m.nextWorkNo
      · rw [freshLoop_of_isNew hnew] at h
        obtain ⟨rfl, hno⟩ := Prod.mk.inj h
        obtain rfl := Option.some.inj hno
        exact ⟨le_rfl, by omega, hnew, fun i hi hlt => by omega,
          hinc.symm.trans_lt m.incNextWorkNo.nextWorkNo_lt,
          cursor_congr (m := { m with runningUrlCount := incSize m.runningUrlCount }) hinc _ _⟩
      · rw [freshLoop_of_not_isNew hnew] at h
        have hle : m.incNextWorkNo.nextWorkNo + k ≤ m.incNextWorkNo.nextNo := by
          rw [hinc]
          exact (Nat.add_right_comm _ 1 k).trans_le hk
        obtain ⟨hle, hlt, hno, hpass, hlt', rfl⟩ := ih hle h
        rw [hinc] at hle hlt hpass
        refine ⟨by omega, by omega, hno, fun i hi hino => ?_, hlt', rfl⟩
        rcases Nat.lt_or_eq_of_le hi with hi | rfl
        · exact hpass i hi hino
        · exact hnew

/-- A loop that returns none has seen no new number. -/
theorem freshLoop_none (hk : m.nextWorkNo + k ≤ m.nextNo) (h : m.freshLoop k = (m', none)) :
    (∀ i, m.nextWorkNo ≤ i → i < m.nextWorkNo + k → ¬ m.IsNew i) ∧
      ∃ hlt, m' = { m with nextWorkNo := m.nextWorkNo + k, nextWorkNo_lt := hlt } := by
  induction k generalizing m with
  | zero =>
      obtain ⟨rfl, -⟩ := Prod.mk.inj h
      exact ⟨fun i hi hlt => by omega, m.nextWorkNo_lt, rfl⟩
  | succ k ih =>
      have hinc : m.incNextWorkNo.nextWorkNo = m.nextWorkNo + 1 := incSize_nextWorkNo (by omega)
      by_cases hnew : m.IsNew m.nextWorkNo
      · rw [freshLoop_of_isNew hnew] at h
        cases (Prod.mk.inj h).2
      · rw [freshLoop_of_not_isNew hnew] at h
        have hsum : m.incNextWorkNo.nextWorkNo + k = m.nextWorkNo + (k + 1) := by
          rw [hinc]
          omega
        obtain ⟨hpass, hlt, rfl⟩ := ih (hsum.trans_le hk) h
        rw [hinc] at hpass
        refine ⟨fun i hi hlt => ?_, hsum.symm.trans_lt hlt, cursor_congr (m := m) hsum _ _⟩
        rcases Nat.lt_or_eq_of_le hi with hi | rfl
        · exact hpass i hi (by omega)
        · exact hnew

/-- **What `fresh_one_url` hands out**: the first new number from the cursor on,
while a slot is free. -/
theorem freshOneUrl_some (h : m.freshOneUrl = (m', some no)) :
    m.runningUrlCount < runningUrlMax ∧ m.nextWorkNo ≤ no ∧ no < m.nextNo ∧ m.IsNew no ∧
      (∀ i, m.nextWorkNo ≤ i → i < no → ¬ m.IsNew i) ∧
      ∃ hlt, m' = { m with
        nextWorkNo := no + 1
        nextWorkNo_lt := hlt
        runningUrlCount := incSize m.runningUrlCount } := by
  unfold freshOneUrl at h
  split_ifs at h with hguard
  · cases (Prod.mk.inj h).2
  · rw [not_or, not_le, not_le] at hguard
    obtain ⟨hle, hlt, hrest⟩ := freshLoop_some (by omega) h
    exact ⟨hguard.2, hle, by omega, hrest⟩

/-- What handing out a URL changes beside the URL: the two counters. -/
theorem freshOneUrl_fields (h : m.freshOneUrl = (m', some no)) :
    m'.nextNo = m.nextNo ∧ m'.nextWorkNo = no + 1 ∧
      m'.runningUrlCount = incSize m.runningUrlCount ∧ m'.urlNoMap = m.urlNoMap ∧
      m'.urlList = m.urlList := by
  obtain ⟨-, -, -, -, -, -, rfl⟩ := freshOneUrl_some h
  exact ⟨rfl, rfl, rfl, rfl, rfl⟩

/-- `fresh_one_url` hands out nothing when all slots are taken, or when no number
from the cursor on is new. -/
theorem freshOneUrl_none (h : m.freshOneUrl = (m', none)) :
    (m' = m ∧ runningUrlMax ≤ m.runningUrlCount) ∨
      ((∀ i, m.nextWorkNo ≤ i → i < m.nextNo → ¬ m.IsNew i) ∧
        ∃ hlt, m' = { m with nextWorkNo := max m.nextWorkNo m.nextNo, nextWorkNo_lt := hlt }) := by
  have hmax : max m.nextWorkNo m.nextNo < 2 ^ 32 := max_lt m.nextWorkNo_lt m.nextNo_lt
  unfold freshOneUrl at h
  split_ifs at h with hguard
  · obtain ⟨rfl, -⟩ := Prod.mk.inj h
    rcases hguard with hle | hfull
    · exact Or.inr ⟨fun i hi hlt => by omega, hmax,
        cursor_congr (max_eq_left hle).symm m.nextWorkNo_lt _⟩
    · exact Or.inl ⟨rfl, hfull⟩
  · rw [not_or, not_le, not_le] at hguard
    obtain ⟨hpass, -, rfl⟩ := freshLoop_none (by omega) h
    exact Or.inr ⟨fun i hi hlt => hpass i hi (by omega), hmax, cursor_congr (by omega) _ _⟩

/-- A call that hands out nothing leaves the tables as they are. -/
theorem freshOneUrl_none_fields (h : m.freshOneUrl = (m', none)) :
    m'.nextNo = m.nextNo ∧ m.nextWorkNo ≤ m'.nextWorkNo ∧ m'.finishedNo = m.finishedNo ∧
      m'.runningUrlCount = m.runningUrlCount ∧ m'.urlNoMap = m.urlNoMap ∧
      m'.noUrlMap = m.noUrlMap ∧ m'.urlList = m.urlList := by
  rcases freshOneUrl_none h with ⟨rfl, -⟩ | ⟨-, -, rfl⟩
  · exact ⟨rfl, le_rfl, rfl, rfl, rfl, rfl, rfl⟩
  · exact ⟨rfl, le_max_left _ _, rfl, rfl, rfl, rfl, rfl⟩

/-! ### Finishing -/

/-- The loop over the finished numbers changes `finished_no` only. -/
theorem exists_finishedLoop (m : TaskMap) (k i : ℕ) :
    ∃ n, (m.finishedLoop k i).1 = { m with finishedNo := n } := by
  induction k generalizing m i with
  | zero => exact ⟨m.finishedNo, rfl⟩
  | succ k ih =>
      simp only [finishedLoop]
      split
      · exact ih m (i + 1)
      · split_ifs
        · exact ⟨m.finishedNo, rfl⟩
        · exact ih _ (i + 1)
        · exact ih _ (i + 1)

/-- **What `finished_one_url` changes**: `running_thread` of its URL, and the slot
count when that comes to `-1`. -/
theorem finishedOneUrl_eq {url : TaskUrlStruct} (h : m.urlList no = some url) :
    ∃ n, (m.finishedOneUrl no).1 = { m with
      finishedNo := n
      runningUrlCount := if finishedThread url.runningThread = -1 then decSize m.runningUrlCount
        else m.runningUrlCount
      urlList := Function.update m.urlList no
        (some { url with runningThread := finishedThread url.runningThread }) } := by
  simp only [finishedOneUrl, h, setRunningThread]
  split_ifs with hrt
  · rw [hrt, testTaskFinishedQuit]
    exact exists_finishedLoop _ _ _
  · exact ⟨m.finishedNo, rfl⟩

/-- The URL with the number `no` is finished, if there is one. -/
def IsFinished (m : TaskMap) (no : ℕ) : Prop :=
  ∀ url, m.urlList no = some url → url.runningThread = -1

/-- A URL whose `running_thread` is -1 is finished. -/
theorem isFinished_of_some {url : TaskUrlStruct} (h : m.urlList no = some url)
    (hrt : url.runningThread = -1) : m.IsFinished no := by
  intro url' hurl'
  obtain rfl := Option.some.inj (h.symm.trans hurl')
  exact hrt

/-- The task is declared finished when the loop meets no URL that is not. -/
theorem finishedLoop_iff (i : ℕ) :
    (m.finishedLoop k i).2 = true ↔ ∀ j, i ≤ j → j < i + k → m.IsFinished j := by
  induction k generalizing m i with
  | zero =>
      simp only [finishedLoop, true_iff]
      intro j hj hlt
      omega
  | succ k ih =>
      have hsplit : (∀ j, i ≤ j → j < i + (k + 1) → m.IsFinished j) ↔
          m.IsFinished i ∧ ∀ j, i + 1 ≤ j → j < i + 1 + k → m.IsFinished j := by
        constructor
        · intro h
          exact ⟨h i le_rfl (by omega), fun j hj hlt => h j (by omega) (by omega)⟩
        · rintro ⟨hi, h⟩ j hj hlt
          rcases Nat.lt_or_eq_of_le hj with hj | rfl
          · exact h j hj (by omega)
          · exact hi
      rw [hsplit]
      simp only [finishedLoop]
      split
      · rename_i hnone
        have hi : m.IsFinished i := fun url hurl => by simp [hnone] at hurl
        rw [ih, and_iff_right hi]
      · rename_i url hurl
        by_cases hrt : url.runningThread = -1
        · have hi : m.IsFinished i := isFinished_of_some hurl hrt
          rw [if_neg (not_not.2 hrt), and_iff_right hi]
          exact ih (i + 1)
        · rw [if_pos hrt]
          exact iff_of_false Bool.false_ne_true fun h => hrt (h.1 url hurl)

/-- `finished_no` moves over finished numbers only. -/
theorem finishedNo_finishedLoop (i : ℕ) :
    (m.finishedLoop k i).1.finishedNo = m.finishedNo ∨
      (i ≤ (m.finishedLoop k i).1.finishedNo ∧ (m.finishedLoop k i).1.finishedNo < i + k ∧
        ∀ j, i ≤ j → j ≤ (m.finishedLoop k i).1.finishedNo → m.IsFinished j) := by
  induction k generalizing m i with
  | zero => exact Or.inl rfl
  | succ k ih =>
      -- what a turn at `i` adds to the numbers that the other turns pass
      have hturn : ∀ m' : TaskMap, m'.urlList = m.urlList → m.IsFinished i →
          (m'.finishedNo = m.finishedNo ∨ m'.finishedNo = i) →
          (m'.finishedLoop k (i + 1)).1.finishedNo = m.finishedNo ∨
            (i ≤ (m'.finishedLoop k (i + 1)).1.finishedNo ∧
              (m'.finishedLoop k (i + 1)).1.finishedNo < i + (k + 1) ∧
              ∀ j, i ≤ j → j ≤ (m'.finishedLoop k (i + 1)).1.finishedNo → m.IsFinished j) := by
        intro m' hurls hi hno
        rcases ih (m := m') (i + 1) with hsame | ⟨hle, hlt, hpass⟩
        · rw [hsame]
          rcases hno with hno | hno
          · exact Or.inl hno
          · refine Or.inr ⟨hno.ge, by omega, fun j hj hle => ?_⟩
            obtain rfl : j = i := by omega
            exact hi
        · refine Or.inr ⟨by omega, by omega, fun j hj hle' => ?_⟩
          rcases Nat.lt_or_eq_of_le hj with hj | rfl
          · intro url hurl
            exact hpass j hj hle' url (hurls ▸ hurl)
          · exact hi
      simp only [finishedLoop]
      split
      · rename_i hnone
        exact hturn m rfl (fun url hurl => by simp [hnone] at hurl) (Or.inl rfl)
      · rename_i url hurl
        by_cases hrt : url.runningThread = -1
        · rw [if_neg (not_not.2 hrt)]
          refine hturn _ rfl (isFinished_of_some hurl hrt) ?_
          by_cases hlt : m.finishedNo < i
          · exact Or.inr (if_pos hlt)
          · exact Or.inl (if_neg hlt)
        · rw [if_pos hrt]
          exact Or.inl rfl

/-- `finished_no` stays, or moves on to a number below `next_no` with all numbers on
the way finished. -/
def Advances (m m' : TaskMap) : Prop :=
  m'.finishedNo = m.finishedNo ∨
    (m.finishedNo ≤ m'.finishedNo ∧ m'.finishedNo < m.nextNo ∧
      ∀ j, m.finishedNo ≤ j → j ≤ m'.finishedNo → m'.IsFinished j)

/-- **When `test_task_finished_quit` declares the task finished.** -/
theorem testTaskFinishedQuit_spec (m : TaskMap) :
    (m.testTaskFinishedQuit.2 = true ↔ ∀ j, m.finishedNo ≤ j → j < m.nextNo → m.IsFinished j) ∧
      m.Advances m.testTaskFinishedQuit.1 := by
  have hiff := finishedLoop_iff (m := m) (k := m.nextNo - m.finishedNo) m.finishedNo
  have hmove := finishedNo_finishedLoop (m := m) (k := m.nextNo - m.finishedNo) m.finishedNo
  obtain ⟨n, hn⟩ := exists_finishedLoop m (m.nextNo - m.finishedNo) m.finishedNo
  unfold testTaskFinishedQuit
  constructor
  · rw [hiff]
    exact forall_congr' fun j => forall_congr' fun hj => imp_congr_left (by omega)
  · rw [hn] at hmove ⊢
    rcases hmove with hsame | ⟨hle, hlt, hpass⟩
    · exact Or.inl hsame
    · have hle' : m.finishedNo ≤ n := hle
      have hlt' : n < m.finishedNo + (m.nextNo - m.finishedNo) := hlt
      refine Or.inr ⟨hle, ?_, hpass⟩
      show n < m.nextNo
      omega

/-- **When `finished_one_url` declares the task finished**: its URL is finished, and so
is every other one from `finished_no` on. -/
theorem finishedOneUrl_declares {url : TaskUrlStruct} (h : m.urlList no = some url) :
    ((m.finishedOneUrl no).2 = true ↔ finishedThread url.runningThread = -1 ∧
        ∀ j, m.finishedNo ≤ j → j < m.nextNo → (m.finishedOneUrl no).1.IsFinished j) ∧
      m.Advances (m.finishedOneUrl no).1 := by
  by_cases hrt : finishedThread url.runningThread = -1
  · simp only [finishedOneUrl, h, if_pos hrt, setRunningThread]
    generalize hm₁ : ({ m with
      runningUrlCount := decSize m.runningUrlCount
      urlList := Function.update m.urlList no (some { url with
        runningThread := finishedThread url.runningThread }) } : TaskMap) = m₁
    have hfields : m₁.finishedNo = m.finishedNo ∧ m₁.nextNo = m.nextNo := by
      rw [← hm₁]
      exact ⟨rfl, rfl⟩
    obtain ⟨hiff, hmove⟩ := testTaskFinishedQuit_spec m₁
    obtain ⟨n, hn⟩ := exists_finishedLoop m₁ (m₁.nextNo - m₁.finishedNo) m₁.finishedNo
    have hurls : m₁.testTaskFinishedQuit.1.urlList = m₁.urlList := by
      rw [testTaskFinishedQuit, hn]
    rw [hfields.1, hfields.2] at hiff
    unfold Advances at hmove ⊢
    unfold IsFinished at hiff hmove ⊢
    rw [hurls] at hmove ⊢
    rw [hfields.1, hfields.2] at hmove
    exact ⟨hiff.trans (and_iff_right hrt).symm, hmove⟩
  · simp only [finishedOneUrl, h, if_neg hrt]
    refine ⟨by simp [hrt], Or.inl ?_⟩
    rw [setRunningThread]
    simp only [h]

/-- Setting `running_thread` leaves the counters. -/
theorem setRunningThread_fields (m : TaskMap) (urlNo : ℕ) (n : ℤ) :
    (m.setRunningThread urlNo n).nextNo = m.nextNo ∧
      (m.setRunningThread urlNo n).nextWorkNo = m.nextWorkNo := by
  unfold setRunningThread
  split <;> exact ⟨rfl, rfl⟩

/-- A store to `running_thread` leaves the other URLs alone, and the numbers. -/
theorem urlList_setRunningThread (m : TaskMap) (urlNo : ℕ) (n : ℤ) (i : ℕ) :
    (i ≠ urlNo → (m.setRunningThread urlNo n).urlList i = m.urlList i) ∧
      ((m.setRunningThread urlNo n).urlList i = none ↔ m.urlList i = none) := by
  unfold setRunningThread
  split
  · rename_i url hurl
    by_cases hi : i = urlNo
    · subst hi
      exact ⟨fun h => absurd rfl h, by simp [hurl]⟩
    · simp [Function.update_of_ne hi]
  · exact ⟨fun _ => rfl, Iff.rfl⟩

/-! ### Inserting -/

/-- Numbers are given out below `next_no` only. -/
def Bounded (m : TaskMap) : Prop := ∀ i url, m.urlList i = some url → i < m.nextNo

/-- `m'` has the URLs of `m`, and new ones. -/
structure Grows (m m' : TaskMap) : Prop where
  nextWorkNo_eq : m'.nextWorkNo = m.nextWorkNo
  runningUrlCount_eq : m'.runningUrlCount = m.runningUrlCount
  finishedNo_eq : m'.finishedNo = m.finishedNo
  old : ∀ i url, m.urlList i = some url → m'.urlList i = some url
  new : ∀ i url, m.urlList i = none → m'.urlList i = some url → url.runningThread = -2

variable {formatUrlParams : Bytes → Bytes}

/-- A URL that is known takes a number and is not entered. -/
theorem insertNewUrl_known {url : Bytes} (h : m.urlNoMap (formatUrlParams url) ≠ none) :
    m.insertNewUrl formatUrlParams url = m.incNextNo := by
  obtain ⟨no, hno⟩ := Option.ne_none_iff_exists'.1 h
  simp only [insertNewUrl, incNextNo, hno]

/-- A URL that is not known is entered under `next_no`. -/
theorem insertNewUrl_unknown {url : Bytes} (h : m.urlNoMap (formatUrlParams url) = none) :
    m.insertNewUrl formatUrlParams url = { m.incNextNo with
      urlNoMap := Function.update m.urlNoMap (formatUrlParams url) (some m.nextNo)
      noUrlMap := mapInsert m.noUrlMap m.nextNo (formatUrlParams url)
      urlList := mapInsert m.urlList m.nextNo { urlOrigin := formatUrlParams url } } := by
  simp only [insertNewUrl, incNextNo, h]

/-- Every call of `insert_new_url` increments `next_no`, and no other counter. -/
theorem insertNewUrl_fields (formatUrlParams : Bytes → Bytes) (m : TaskMap) (url : Bytes) :
    (m.insertNewUrl formatUrlParams url).nextNo = incSize m.nextNo ∧
      (m.insertNewUrl formatUrlParams url).nextWorkNo = m.nextWorkNo ∧
      (m.insertNewUrl formatUrlParams url).runningUrlCount = m.runningUrlCount ∧
      (m.insertNewUrl formatUrlParams url).finishedNo = m.finishedNo := by
  by_cases hurl : m.urlNoMap (formatUrlParams url) = none
  · rw [insertNewUrl_unknown hurl]
    exact ⟨rfl, rfl, rfl, rfl⟩
  · rw [insertNewUrl_known hurl]
    exact ⟨rfl, rfl, rfl, rfl⟩

/-- `std::map::insert` leaves an entry that is there. -/
theorem mapInsert_apply {α β : Type} [DecidableEq α] (map : α → Option β) (key i : α) (value : β) :
    mapInsert map key value i = if i = key ∧ map key = none then some value else map i := by
  unfold mapInsert
  cases hkey : map key with
  | none => simp [Function.update_apply]
  | some v => simp

/-- **A URL that is not known is entered under `next_no`**, unless that number is taken. -/
theorem urlList_insertNewUrl (formatUrlParams : Bytes → Bytes) (m : TaskMap) (url : Bytes)
    (i : ℕ) :
    (m.insertNewUrl formatUrlParams url).urlList i =
      if i = m.nextNo ∧ m.urlNoMap (formatUrlParams url) = none ∧ m.urlList m.nextNo = none then
        some { urlOrigin := formatUrlParams url }
      else m.urlList i := by
  by_cases hurl : m.urlNoMap (formatUrlParams url) = none
  · rw [insertNewUrl_unknown hurl]
    simp only [mapInsert_apply, hurl, true_and]
  · rw [insertNewUrl_known hurl, if_neg fun h => hurl h.2.1]
    rfl

/-- The URLs that are known after a call. -/
theorem urlNoMap_insertNewUrl (formatUrlParams : Bytes → Bytes) (m : TaskMap) (url u : Bytes) :
    (m.insertNewUrl formatUrlParams url).urlNoMap u ≠ none ↔
      m.urlNoMap u ≠ none ∨ u = formatUrlParams url := by
  by_cases hurl : m.urlNoMap (formatUrlParams url) = none
  · rw [insertNewUrl_unknown hurl]
    by_cases hu : u = formatUrlParams url
    · simp [hu]
    · simp [hu]
  · rw [insertNewUrl_known hurl]
    constructor
    · exact Or.inl
    · rintro (hu | rfl)
      · exact hu
      · exact hurl

/-- A call of `insert_new_url` adds to the map and leaves what is there. -/
theorem grows_insertNewUrl (formatUrlParams : Bytes → Bytes) (m : TaskMap) (url : Bytes) :
    m.Grows (m.insertNewUrl formatUrlParams url) := by
  obtain ⟨-, hwork, hcount, hfinished⟩ := insertNewUrl_fields formatUrlParams m url
  refine ⟨hwork, hcount, hfinished, fun i u h => ?_, fun i u h hu => ?_⟩
  · rw [urlList_insertNewUrl, if_neg, h]
    rintro ⟨rfl, -, hnone⟩
    rw [hnone] at h
    cases h
  · rw [urlList_insertNewUrl] at hu
    split_ifs at hu
    · obtain rfl := Option.some.inj hu
      rfl
    · rw [h] at hu
      cases hu

/-- As long as `next_no` has not wrapped, the numbers stay below it. -/
theorem Bounded.insertNewUrl (hm : m.Bounded) (hno : m.nextNo + 1 < 2 ^ 32)
    (formatUrlParams : Bytes → Bytes) (url : Bytes) :
    (m.insertNewUrl formatUrlParams url).Bounded := by
  intro i u h
  rw [(insertNewUrl_fields formatUrlParams m url).1, incSize_of_lt hno]
  rw [urlList_insertNewUrl] at h
  split_ifs at h with hi
  · omega
  · have := hm i u h
    omega

/-- There is no URL from `next_no` on. -/
theorem Bounded.eq_none (hm : m.Bounded) (h : m.nextNo ≤ no) : m.urlList no = none := by
  cases hno : m.urlList no with
  | none => rfl
  | some url => exact absurd (hm _ _ hno) (not_lt.2 h)

/-- A map grows by nothing. -/
theorem Grows.refl (m : TaskMap) : m.Grows m where
  nextWorkNo_eq := rfl
  runningUrlCount_eq := rfl
  finishedNo_eq := rfl
  old _ _ h := h
  new i url hnone h := by
    rw [hnone] at h
    cases h

/-- Growing twice is growing. -/
theorem Grows.trans {m₁ m₂ m₃ : TaskMap} (h : m₁.Grows m₂) (h' : m₂.Grows m₃) : m₁.Grows m₃ where
  nextWorkNo_eq := h'.nextWorkNo_eq.trans h.nextWorkNo_eq
  runningUrlCount_eq := h'.runningUrlCount_eq.trans h.runningUrlCount_eq
  finishedNo_eq := h'.finishedNo_eq.trans h.finishedNo_eq
  old i url hurl := h'.old i url (h.old i url hurl)
  new i url hnone hurl := by
    cases hi : m₂.urlList i with
    | none => exact h'.new i url hi hurl
    | some url' =>
        obtain rfl := Option.some.inj ((h'.old i url' hi).symm.trans hurl)
        exact h.new i url' hnone hi

/-- Any number of insertions. -/
theorem grows_foldl_insertNewUrl (formatUrlParams : Bytes → Bytes) (m : TaskMap)
    (urls : List Bytes) : m.Grows (urls.foldl (insertNewUrl formatUrlParams) m) := by
  induction urls generalizing m with
  | nil => exact .refl m
  | cons url urls ih => exact (grows_insertNewUrl formatUrlParams m url).trans (ih _)

/-- Every insertion takes a number. -/
theorem nextNo_foldl_insertNewUrl (formatUrlParams : Bytes → Bytes) (m : TaskMap)
    (urls : List Bytes) :
    (urls.foldl (insertNewUrl formatUrlParams) m).nextNo =
      (m.nextNo + urls.length) % 2 ^ 32 := by
  induction urls generalizing m with
  | nil => exact (Nat.mod_eq_of_lt m.nextNo_lt).symm
  | cons url urls ih =>
      rw [List.foldl_cons, ih, (insertNewUrl_fields formatUrlParams m url).1, incSize,
        List.length_cons, Nat.mod_add_mod]
      congr 1
      omega

/-- None of the URLs is entered in `url_list`: each is known, or one of the others before it is
the same, or `next_no` has come to a number that is taken. -/
def EntersNone (formatUrlParams : Bytes → Bytes) (m : TaskMap) (urls : List Bytes) : Prop :=
  ∀ k url, urls[k]? = some url → m.urlNoMap (formatUrlParams url) ≠ none ∨
    (∃ j < k, ∃ u, urls[j]? = some u ∧ formatUrlParams u = formatUrlParams url) ∨
      m.urlList ((m.nextNo + k) % 2 ^ 32) ≠ none

/-- Whether none of a list of URLs is entered, said of the first and of the others. -/
theorem entersNone_cons {url : Bytes} {urls : List Bytes} :
    m.EntersNone formatUrlParams (url :: urls) ↔
      (m.urlNoMap (formatUrlParams url) ≠ none ∨ m.urlList m.nextNo ≠ none) ∧
        ∀ k u, urls[k]? = some u →
          (m.urlNoMap (formatUrlParams u) ≠ none ∨ formatUrlParams u = formatUrlParams url) ∨
            (∃ j < k, ∃ v, urls[j]? = some v ∧ formatUrlParams v = formatUrlParams u) ∨
              m.urlList ((m.nextNo + (k + 1)) % 2 ^ 32) ≠ none := by
  have hfirst : (m.nextNo + 0) % 2 ^ 32 = m.nextNo := Nat.mod_eq_of_lt m.nextNo_lt
  constructor
  · intro h
    constructor
    · rcases h 0 url rfl with hknown | ⟨j, hj, -⟩ | htaken
      · exact Or.inl hknown
      · omega
      · exact Or.inr (hfirst ▸ htaken)
    · intro k u hu
      rcases h (k + 1) u hu with hknown | ⟨j, hj, v, hv, heq⟩ | htaken
      · exact Or.inl (Or.inl hknown)
      · cases j with
        | zero =>
            obtain rfl := Option.some.inj hv
            exact Or.inl (Or.inr heq.symm)
        | succ j => exact Or.inr (Or.inl ⟨j, by omega, v, hv, heq⟩)
      · exact Or.inr (Or.inr htaken)
  · rintro ⟨hhead, htail⟩ k u hu
    cases k with
    | zero =>
        obtain rfl := Option.some.inj hu
        exact hhead.imp id fun htaken => Or.inr (hfirst.symm ▸ htaken)
    | succ k =>
        rcases htail k u hu with (hknown | heq) | ⟨j, hj, v, hv, heq⟩ | htaken
        · exact Or.inl hknown
        · exact Or.inr (Or.inl ⟨0, by omega, url, rfl, heq.symm⟩)
        · exact Or.inr (Or.inl ⟨j + 1, by omega, v, hv, heq⟩)
        · exact Or.inr (Or.inr htaken)

/-- **Insertions that enter none leave `url_list` as it is, and only these.** -/
theorem urlList_foldl_eq_iff {urls : List Bytes} :
    (urls.foldl (insertNewUrl formatUrlParams) m).urlList = m.urlList ↔
      m.EntersNone formatUrlParams urls := by
  induction urls generalizing m with
  | nil => exact iff_of_true rfl fun k url h => by simp at h
  | cons url urls ih =>
      rw [List.foldl_cons, entersNone_cons]
      by_cases hadds : m.urlNoMap (formatUrlParams url) = none ∧ m.urlList m.nextNo = none
      · -- the entry that is made here stays
        refine iff_of_false (fun heq => ?_) fun h => h.1.elim (fun hk => hk hadds.1) fun ht =>
          ht hadds.2
        have hentry : (m.insertNewUrl formatUrlParams url).urlList m.nextNo =
            some { urlOrigin := formatUrlParams url } := by
          rw [urlList_insertNewUrl, if_pos ⟨rfl, hadds⟩]
        have hkept := (grows_foldl_insertNewUrl formatUrlParams _ urls).old _ _ hentry
        rw [heq, hadds.2] at hkept
        cases hkept
      · have hsame : (m.insertNewUrl formatUrlParams url).urlList = m.urlList := by
          funext i
          rw [urlList_insertNewUrl, if_neg fun h => hadds h.2]
        have hhead : m.urlNoMap (formatUrlParams url) ≠ none ∨ m.urlList m.nextNo ≠ none := by
          by_contra hnot
          rw [not_or, not_not, not_not] at hnot
          exact hadds hnot
        rw [and_iff_right hhead, ← hsame, ih, EntersNone, hsame]
        refine forall_congr' fun k => forall_congr' fun u => imp_congr_right fun _ => ?_
        rw [urlNoMap_insertNewUrl, (insertNewUrl_fields formatUrlParams m url).1, incSize,
          Nat.mod_add_mod, Nat.add_assoc, Nat.add_comm 1 k]

/-- A number that the insertions enter was free before. -/
theorem exists_urlList_foldl {urls : List Bytes} (h : ¬ m.EntersNone formatUrlParams urls) :
    ∃ i, m.urlList i = none ∧ (urls.foldl (insertNewUrl formatUrlParams) m).urlList i ≠ none := by
  rw [← urlList_foldl_eq_iff, funext_iff, not_forall] at h
  obtain ⟨i, hi⟩ := h
  cases hold : m.urlList i with
  | none => exact ⟨i, hold, fun hnone => hi (hnone.trans hold.symm)⟩
  | some url =>
      have hkept := (grows_foldl_insertNewUrl formatUrlParams m urls).old i url hold
      exact absurd (hkept.trans hold.symm) hi

end TaskMap

end TaskData
end Scaner
