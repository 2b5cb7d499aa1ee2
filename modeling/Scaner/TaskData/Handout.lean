/-
# Handing out URLs to several threads

`task_map::fresh_one_url` and `task_map::insert_new_url` in
`scaner_test/task_data.cpp` run on any number of threads.  An insertion holds
`url_mutex` and is one step.  `fresh_one_url` takes the mutex for its lookup
only; each of its accesses to `next_no`, `next_work_no`, `running_url_count` and
`running_thread` is a step of its own, in the order of the text.  A thread that
has been handed a URL may store to its `running_thread`, and free a slot.

The loop tests `next_work_no < next_no` and then counts `next_work_no` up.  Two
threads that pass the test before either of them counts take `next_work_no` past
`next_no`, and the URL that is inserted next gets a number that no call will ever
look at.  And `next_no` wraps after `2 ^ 32` insertions, which leaves it below
`next_work_no`.  `always_noneLost_iff`: no URL is lost, exactly in the runs in which
neither happens.

As long as `next_work_no` does not wrap, a number that is lost is never handed out
(`always_lost`), and no number is handed out twice (`always_distinct`).
`exec_call_alone`: a call that runs alone does what `TaskMap.freshOneUrl` does in one
step.
-/

import Scaner.Lib.Tickets
import Scaner.Lib.Trace
import Scaner.TaskData.TaskMap

namespace Scaner
namespace TaskData

open Trace

/-- The next step of a call of `fresh_one_url`: the three reads of the guard, the
two of the loop test, the fetch, the lookup, the read of `running_thread`, the
increment of `running_url_count`.  `idle` is a thread that is in no call. -/
inductive FreshPc
  | idle
  | guardNo
  | guardWork (nextNo : ℕ)
  | guardSlot
  | testWork
  | testNo (nextWorkNo : ℕ)
  | fetch
  | lookup (urlNo : ℕ)
  | status (urlNo : ℕ)
  | count (urlNo : ℕ)
  deriving DecidableEq

/-- The number that a call has fetched and not yet returned or given up. -/
def FreshPc.held : FreshPc → Option ℕ
  | lookup urlNo => some urlNo
  | status urlNo => some urlNo
  | count urlNo => some urlNo
  | _ => none

/-- The map, the numbers that calls have returned, and the threads. -/
structure Handout (ι : Type) where
  map : TaskMap
  returned : List ℕ
  pc : ι → FreshPc

/-- An insertion, the start of a call of `fresh_one_url`, a step of one, a store to
`running_thread` of a URL that was handed out, and the release of a slot. -/
inductive HandoutAction (ι : Type)
  | insert (url : Bytes)
  | call (i : ι)
  | move (i : ι)
  | store (no : ℕ) (n : ℤ)
  | release

namespace Handout

/-- A step of a call, with the number if it returns one. -/
def move (m : TaskMap) : FreshPc → Option (TaskMap × FreshPc × Option ℕ)
  | .idle => none
  | .guardNo => some (m, .guardWork m.nextNo, none)
  | .guardWork nextNo => some (m, if nextNo ≤ m.nextWorkNo then .idle else .guardSlot, none)
  | .guardSlot =>
      some (m, if runningUrlMax ≤ m.runningUrlCount then .idle else .testWork, none)
  | .testWork => some (m, .testNo m.nextWorkNo, none)
  | .testNo nextWorkNo => some (m, if nextWorkNo < m.nextNo then .fetch else .idle, none)
  | .fetch => some (m.incNextWorkNo, .lookup m.nextWorkNo, none)
  | .lookup urlNo =>
      match m.urlList urlNo with
      | some _ => some (m, .status urlNo, none)
      | none => some (m, .testWork, none)
  | .status urlNo =>
      match m.urlList urlNo with
      | some url => some (m, if url.runningThread = -2 then .count urlNo else .testWork, none)
      | none => none
  | .count urlNo =>
      some ({ m with runningUrlCount := incSize m.runningUrlCount }, .idle, some urlNo)

variable {ι : Type}

/-- What an action does. -/
def step [DecidableEq ι] (formatUrlParams : Bytes → Bytes) (s : Handout ι) :
    HandoutAction ι → Option (Handout ι)
  | .insert url => some { s with map := s.map.insertNewUrl formatUrlParams url }
  | .call i =>
      if s.pc i = .idle then some { s with pc := Function.update s.pc i .guardNo } else none
  | .move i =>
      match move s.map (s.pc i) with
      | some (map, pc, no) => some ⟨map, s.returned ++ no.toList, Function.update s.pc i pc⟩
      | none => none
  | .store no n =>
      if no ∈ s.returned then some { s with map := s.map.setRunningThread no n } else none
  | .release =>
      some { s with map := { s.map with runningUrlCount := decSize s.map.runningUrlCount } }

/-- An empty map, and no calls. -/
def init : Handout ι := ⟨.empty, [], fun _ => .idle⟩

/-- The cursor is not past `next_no`, and every URL below it has been returned or
is held by a call. -/
def NoneLost (s : Handout ι) : Prop :=
  s.map.nextWorkNo ≤ s.map.nextNo ∧
    ∀ no < s.map.nextWorkNo, s.map.urlList no ≠ none →
      no ∈ s.returned ∨ ∃ i, (s.pc i).held = some no

/-- The cursor is counted up while it is below `next_no`, or comes round to `0`; and
`next_no` does not come round to `0` when the cursor has been counted up. -/
def FetchesInTime (s : Handout ι) : HandoutAction ι → Prop
  | .move i => s.pc i = .fetch → s.map.nextWorkNo < s.map.nextNo ∨ s.map.nextWorkNo + 1 = 2 ^ 32
  | .insert _ => s.map.nextNo + 1 = 2 ^ 32 → s.map.nextWorkNo = 0
  | _ => True

/-- The cursor is not taken round. -/
def FetchesInRange (s : Handout ι) : HandoutAction ι → Prop
  | .move i => s.pc i = .fetch → s.map.nextWorkNo + 1 < 2 ^ 32
  | _ => True

/-- What the calls hold and have returned. -/
def tickets (s : Handout ι) : Tickets ι := ⟨s.map.nextWorkNo, fun i => (s.pc i).held, s.returned⟩

/-- The tickets do not depend on `running_url_count`. -/
theorem tickets_slots (s : Handout ι) (count : ℕ) :
    tickets { s with map := { s.map with runningUrlCount := count } } = s.tickets := rfl

/-! ### What a step can do -/

variable {formatUrlParams : Bytes → Bytes} {s t : Handout ι} {m m' : TaskMap}
  {p p' : FreshPc} {r : Option ℕ}

/-- A number with no URL is passed over. -/
theorem move_lookup_none {no : ℕ} (h : m.urlList no = none) :
    move m (.lookup no) = some (m, .testWork, none) := by
  simp only [move, h]

/-- A number with a URL is looked at. -/
theorem move_lookup_some {no : ℕ} {url : TaskUrlStruct} (h : m.urlList no = some url) :
    move m (.lookup no) = some (m, .status no, none) := by
  simp only [move, h]

/-- A URL that has been handed out is passed over. -/
theorem move_status {no : ℕ} {url : TaskUrlStruct} (h : m.urlList no = some url) :
    move m (.status no) =
      some (m, if url.runningThread = -2 then .count no else .testWork, none) := by
  simp only [move, h]

/-- **What a step of a call does to the numbers**: it counts the cursor up and
holds the number, keeps the number it holds, gives it up when it is not new, or
returns it. -/
theorem move_cases (h : move m p = some (m', p', r)) :
    m'.nextNo = m.nextNo ∧ m'.urlList = m.urlList ∧
      ((p = .fetch ∧ p' = .lookup m.nextWorkNo ∧ r = none ∧
          m'.nextWorkNo = incSize m.nextWorkNo) ∨
        (p ≠ .fetch ∧ m'.nextWorkNo = m.nextWorkNo ∧
          ((p'.held = p.held ∧ r = none) ∨
            ∃ no, p.held = some no ∧ p'.held = none ∧
              (r = none ∧ ¬ m.IsNew no ∨ r = some no)))) := by
  cases p with
  | idle => cases h
  | fetch =>
      obtain ⟨rfl, rfl, rfl⟩ : _ ∧ _ ∧ _ := by simpa [move] using h
      exact ⟨rfl, rfl, Or.inl ⟨rfl, rfl, rfl, rfl⟩⟩
  | lookup no =>
      cases hno : m.urlList no with
      | none =>
          obtain ⟨rfl, rfl, rfl⟩ : _ ∧ _ ∧ _ := by simpa [move_lookup_none hno] using h
          refine ⟨rfl, rfl, Or.inr ⟨by simp, rfl, Or.inr ⟨no, rfl, rfl, Or.inl ⟨rfl, ?_⟩⟩⟩⟩
          rintro ⟨url, hurl, -⟩
          simp [hno] at hurl
      | some url =>
          obtain ⟨rfl, rfl, rfl⟩ : _ ∧ _ ∧ _ := by simpa [move_lookup_some hno] using h
          exact ⟨rfl, rfl, Or.inr ⟨by simp, rfl, Or.inl ⟨rfl, rfl⟩⟩⟩
  | status no =>
      cases hno : m.urlList no with
      | none => simp [move, hno] at h
      | some url =>
          obtain ⟨rfl, rfl, rfl⟩ : _ ∧ _ ∧ _ := by simpa [move_status hno] using h
          by_cases hnew : url.runningThread = -2
          · rw [if_pos hnew]
            exact ⟨rfl, rfl, Or.inr ⟨by simp, rfl, Or.inl ⟨rfl, rfl⟩⟩⟩
          · rw [if_neg hnew]
            refine ⟨rfl, rfl, Or.inr ⟨by simp, rfl, Or.inr ⟨no, rfl, rfl, Or.inl ⟨rfl, ?_⟩⟩⟩⟩
            rintro ⟨url', hurl, hnew'⟩
            obtain rfl := Option.some.inj (hno.symm.trans hurl)
            exact hnew hnew'
  | count no =>
      obtain ⟨rfl, rfl, rfl⟩ : _ ∧ _ ∧ _ := by simpa [move] using h
      exact ⟨rfl, rfl, Or.inr ⟨by simp, rfl, Or.inr ⟨no, rfl, rfl, Or.inr rfl⟩⟩⟩
  | _ =>
      obtain ⟨rfl, rfl, rfl⟩ : _ ∧ _ ∧ _ := by simpa [move] using h
      refine ⟨rfl, rfl, Or.inr ⟨by simp, rfl, Or.inl ⟨?_, rfl⟩⟩⟩
      first | rfl | split_ifs <;> rfl

/-! ### No URL is lost -/

/-- No URL is lost, and those that have not been returned are new. -/
structure Inv (s : Handout ι) : Prop where
  noneLost : s.NoneLost
  isNew : ∀ no, s.map.urlList no ≠ none → no ∉ s.returned → s.map.IsNew no

/-- At the start no number has been fetched and none is lost. -/
theorem inv_init : (init : Handout ι).Inv where
  noneLost := ⟨le_rfl, fun _ h => absurd h (Nat.not_lt_zero _)⟩
  isNew _ h := absurd rfl h

/-- A URL that is entered takes a number that has not been fetched. -/
theorem Inv.insert (h : s.Inv) (hin : s.map.nextNo + 1 = 2 ^ 32 → s.map.nextWorkNo = 0)
    (url : Bytes) : Inv { s with map := s.map.insertNewUrl formatUrlParams url } := by
  have hgrows := TaskMap.grows_insertNewUrl formatUrlParams s.map url
  have hnext := (TaskMap.insertNewUrl_fields formatUrlParams s.map url).1
  have hnext_lt := s.map.nextNo_lt
  obtain ⟨hcursor, hkept⟩ := h.noneLost
  refine ⟨⟨?_, ?_⟩, ?_⟩
  · simp only [hgrows.nextWorkNo_eq, hnext]
    by_cases hlast : s.map.nextNo + 1 = 2 ^ 32
    · rw [hin hlast]
      exact Nat.zero_le _
    · rw [incSize_of_lt (by omega)]
      omega
  · intro no hno hurl
    have hno' := hno.trans_eq hgrows.nextWorkNo_eq
    simp only [TaskMap.urlList_insertNewUrl] at hurl
    rw [if_neg fun heq => by omega] at hurl
    exact hkept no hno' hurl
  · intro no hurl hret
    cases hno : s.map.urlList no with
    | some url =>
        obtain ⟨url', hurl', hnew⟩ := h.isNew no (by simp [hno]) hret
        exact ⟨url', hgrows.old no url' hurl', hnew⟩
    | none =>
        obtain ⟨url, hurl'⟩ := Option.ne_none_iff_exists'.1 hurl
        exact ⟨url, hurl', hgrows.new no url hno hurl'⟩

/-- Only a URL that was returned gets a `running_thread`. -/
theorem Inv.store {no : ℕ} (h : s.Inv) (hno : no ∈ s.returned) (n : ℤ) :
    Inv { s with map := s.map.setRunningThread no n } := by
  obtain ⟨hnext, hwork⟩ := TaskMap.setRunningThread_fields s.map no n
  have hurls := TaskMap.urlList_setRunningThread s.map no n
  obtain ⟨hcursor, hkept⟩ := h.noneLost
  refine ⟨⟨?_, ?_⟩, ?_⟩
  · simp only
    omega
  · intro i hi hurl
    exact hkept i (hwork ▸ hi) (mt (hurls i).2.2 hurl)
  · intro i hurl hret
    obtain ⟨url, hurl', hnew⟩ := h.isNew i (mt (hurls i).2.2 hurl) hret
    exact ⟨url, ((hurls i).1 fun hi => hret (hi ▸ hno)).trans hurl', hnew⟩

/-- `running_url_count` plays no part. -/
theorem Inv.slots (h : s.Inv) (count : ℕ) :
    Inv { s with map := { s.map with runningUrlCount := count } } :=
  ⟨h.noneLost, h.isNew⟩

variable [DecidableEq ι]

/-- A number stays held when the thread that steps still holds it. -/
theorem exists_held_update {pc : ι → FreshPc} {i j : ι} {no : ℕ} (hj : (pc j).held = some no)
    (hi : j = i → p'.held = some no) : ∃ j, (Function.update pc i p' j).held = some no := by
  by_cases hji : j = i
  · exact ⟨i, by rw [Function.update_self]; exact hi hji⟩
  · exact ⟨j, by rw [Function.update_of_ne hji]; exact hj⟩

/-- A cursor that is in time is counted up to `next_no` at most, or comes round. -/
theorem incSize_cursor (h : m.nextWorkNo < m.nextNo ∨ m.nextWorkNo + 1 = 2 ^ 32) :
    incSize m.nextWorkNo = m.nextWorkNo + 1 ∧ m.nextWorkNo < m.nextNo ∨
      incSize m.nextWorkNo = 0 := by
  by_cases hlast : m.nextWorkNo + 1 = 2 ^ 32
  · exact Or.inr (by rw [incSize, hlast, Nat.mod_self])
  · have hlt := h.resolve_right hlast
    exact Or.inl ⟨TaskMap.incSize_nextWorkNo hlt, hlt⟩

/-- A move of a thread in `fresh_one_url` keeps the account of the numbers. -/
theorem Inv.move {i : ι} (h : s.Inv)
    (hin : s.pc i = .fetch → s.map.nextWorkNo < s.map.nextNo ∨ s.map.nextWorkNo + 1 = 2 ^ 32)
    (hmove : move s.map (s.pc i) = some (m', p', r)) :
    Inv ⟨m', s.returned ++ r.toList, Function.update s.pc i p'⟩ := by
  obtain ⟨hno, hurls, hcases⟩ := move_cases hmove
  obtain ⟨hcursor, hkept⟩ := h.noneLost
  refine ⟨⟨?_, ?_⟩, ?_⟩
  · rcases hcases with ⟨hpc, -, -, hwork⟩ | ⟨-, hwork, -⟩
    · simp only [hwork]
      rcases incSize_cursor (hin hpc) with ⟨heq, hlt⟩ | heq
      · omega
      · omega
    · simp only
      omega
  · intro no hlt hurl
    simp only [hurls, List.mem_append, Option.mem_toList] at hlt hurl ⊢
    rcases hcases with ⟨hpc, rfl, rfl, hwork⟩ | ⟨-, hwork, hcases⟩
    · rw [hwork] at hlt
      have hlt' : no < s.map.nextWorkNo + 1 := by
        rcases incSize_cursor (hin hpc) with ⟨heq, -⟩ | heq
        · exact heq ▸ hlt
        · omega
      rcases Nat.lt_succ_iff_lt_or_eq.1 hlt' with hlt | rfl
      · rcases hkept no hlt hurl with hret | ⟨j, hj⟩
        · exact Or.inl (Or.inl hret)
        · refine Or.inr (exists_held_update hj ?_)
          rintro rfl
          simp [hpc, FreshPc.held] at hj
      · exact Or.inr ⟨i, by simp [FreshPc.held]⟩
    · rcases hkept no (hwork ▸ hlt) hurl with hret | ⟨j, hj⟩
      · exact Or.inl (Or.inl hret)
      · rcases hcases with ⟨hheld, rfl⟩ | ⟨no', hheld, -, hr⟩
        · exact Or.inr (exists_held_update hj fun hji => by rw [hheld, ← hji, hj])
        · by_cases hji : j = i
          · subst hji
            obtain rfl := Option.some.inj (hj.symm.trans hheld)
            rcases hr with ⟨-, hnew⟩ | rfl
            · -- a number that is given up is not new, so it was handed out before
              exact Or.inl (Or.inl (by_contra fun hret => hnew (h.isNew no hurl hret)))
            · exact Or.inl (Or.inr rfl)
          · exact Or.inr (exists_held_update hj fun hij => absurd hij hji)
  · intro no hurl hret
    simp only [hurls, List.mem_append, not_or] at hurl hret
    obtain ⟨url, hurl', hnew⟩ := h.isNew no hurl hret.1
    exact ⟨url, hurls ▸ hurl', hnew⟩

/-- **Every action that is in time keeps the account**: a fetched number is held by one thread,
was returned, or has no URL to hand out. -/
theorem Inv.step {a : HandoutAction ι} (h : s.Inv) (hin : s.FetchesInTime a)
    (hst : s.step formatUrlParams a = some t) : t.Inv := by
  cases a with
  | insert url =>
      obtain rfl := Option.some.inj hst
      exact h.insert hin url
  | call i =>
      simp only [Handout.step] at hst
      split_ifs at hst with hidle
      obtain rfl := Option.some.inj hst
      refine ⟨⟨h.noneLost.1, fun no hno hurl => ?_⟩, h.isNew⟩
      refine (h.noneLost.2 no hno hurl).imp id fun ⟨j, hj⟩ => exists_held_update hj ?_
      rintro rfl
      simp [hidle, FreshPc.held] at hj
  | move i =>
      simp only [Handout.step] at hst
      split at hst
      · rename_i hmove
        obtain rfl := Option.some.inj hst
        exact h.move hin hmove
      · cases hst
  | store no n =>
      simp only [Handout.step] at hst
      split_ifs at hst with hno
      obtain rfl := Option.some.inj hst
      exact h.store hno n
  | release =>
      simp only [Handout.step, Option.some.injEq] at hst
      rw [← hst]
      exact h.slots _

/-- A fetch that is not in time takes the cursor past `next_no`, and so does an insertion that
takes `next_no` round. -/
theorem not_noneLost_of_late {a : HandoutAction ι} (hlate : ¬ s.FetchesInTime a)
    (hst : s.step formatUrlParams a = some t) : ¬ t.NoneLost := by
  cases a with
  | insert url =>
      obtain ⟨hlast, hpos⟩ := Classical.not_imp.1 hlate
      obtain ⟨hnext, hwork, -⟩ := TaskMap.insertNewUrl_fields formatUrlParams s.map url
      obtain rfl := Option.some.inj hst
      intro h
      have hle := h.1
      simp only [hwork, hnext, incSize, hlast, Nat.mod_self] at hle
      omega
  | move i =>
      obtain ⟨hpc, hnot⟩ := Classical.not_imp.1 hlate
      rw [not_or] at hnot
      have hlt := s.map.nextWorkNo_lt
      have hinc : incSize s.map.nextWorkNo = s.map.nextWorkNo + 1 := incSize_of_lt (by omega)
      simp only [step, hpc, move] at hst
      obtain rfl := Option.some.inj hst
      intro h
      have hle : incSize s.map.nextWorkNo ≤ s.map.nextNo := h.1
      omega
  | _ => exact absurd trivial hlate

/-- **No URL is lost, exactly in the runs in which the cursor is counted up only while it is
below `next_no`, and `next_no` does not come round behind it.** -/
theorem always_noneLost_iff (formatUrlParams : Bytes → Bytes) (as : List (HandoutAction ι)) :
    Always (step formatUrlParams) NoneLost init as ↔
      Along (step formatUrlParams) FetchesInTime init as :=
  always_iff_along inv_init (fun _ _ _ => Inv.step) (fun _ => Inv.noneLost)
    (fun _ _ _ _ => not_noneLost_of_late) as

/-! ### A call that runs alone -/

section Alone

variable {returned : List ℕ} {pc : ι → FreshPc} {i : ι}

/-- A run of moves of one thread, with one more in front. -/
theorem exec_move (h : move m p = some (m', p', r))
    (hrest : ∃ n, exec (step formatUrlParams) ⟨m', returned ++ r.toList, Function.update pc i p'⟩
      (List.replicate n (.move i)) = some t) :
    ∃ n, exec (step formatUrlParams) ⟨m, returned, Function.update pc i p⟩
      (List.replicate n (.move i)) = some t := by
  obtain ⟨n, hn⟩ := hrest
  refine ⟨n + 1, ?_⟩
  rw [List.replicate_succ]
  exact exec_cons.2 ⟨_, by simp [step, h], hn⟩

/-- The loop of a call that runs alone is `TaskMap.freshLoop`. -/
theorem exec_loop (formatUrlParams : Bytes → Bytes) (returned : List ℕ) (pc : ι → FreshPc) (i : ι)
    {k : ℕ} (hk : m.nextNo - m.nextWorkNo = k) :
    ∃ n, exec (step formatUrlParams) ⟨m, returned, Function.update pc i .testWork⟩
        (List.replicate n (.move i)) =
      some ⟨(m.freshLoop k).1, returned ++ (m.freshLoop k).2.toList,
        Function.update pc i .idle⟩ := by
  induction k generalizing m with
  | zero =>
      have hnot : ¬ m.nextWorkNo < m.nextNo := by omega
      refine exec_move rfl (exec_move (by rw [move, if_neg hnot]) ⟨0, ?_⟩)
      simp [exec, TaskMap.freshLoop]
  | succ k ih =>
      have hlt : m.nextWorkNo < m.nextNo := by omega
      have hinc : m.incNextWorkNo.nextWorkNo = m.nextWorkNo + 1 := TaskMap.incSize_nextWorkNo hlt
      have hleft : m.nextNo - m.incNextWorkNo.nextWorkNo = k := by omega
      have hrest := ih (m := m.incNextWorkNo) hleft
      refine exec_move rfl (exec_move (by rw [move, if_pos hlt]) (exec_move rfl ?_))
      cases hurl : m.urlList m.nextWorkNo with
      | none =>
          have hnot : ¬ m.IsNew m.nextWorkNo := by
            rintro ⟨_, h, -⟩
            simp [hurl] at h
          rw [TaskMap.freshLoop_of_not_isNew hnot]
          refine exec_move (move_lookup_none hurl) ?_
          simpa using hrest
      | some url =>
          refine exec_move (move_lookup_some hurl) (exec_move (move_status hurl) ?_)
          by_cases hnew : url.runningThread = -2
          · rw [TaskMap.freshLoop_of_isNew ⟨url, hurl, hnew⟩, if_pos hnew]
            refine exec_move rfl ⟨0, ?_⟩
            simp [exec, TaskMap.incNextWorkNo]
          · have hnot : ¬ m.IsNew m.nextWorkNo := by
              rintro ⟨_, h, hrt⟩
              obtain rfl := Option.some.inj (hurl.symm.trans h)
              exact hnew hrt
            rw [TaskMap.freshLoop_of_not_isNew hnot, if_neg hnew]
            simpa using hrest

/-- **A call that runs alone does what `TaskMap.freshOneUrl` does.** -/
theorem exec_call_alone (hidle : s.pc i = .idle) :
    ∃ n, exec (step formatUrlParams) s (.call i :: List.replicate n (.move i)) =
      some ⟨s.map.freshOneUrl.1, s.returned ++ s.map.freshOneUrl.2.toList, s.pc⟩ := by
  have hcall : step formatUrlParams s (.call i) =
      some ⟨s.map, s.returned, Function.update s.pc i .guardNo⟩ := by
    simp [step, hidle]
  have hend : Function.update s.pc i .idle = s.pc := by rw [← hidle, Function.update_eq_self]
  suffices hguard : ∃ n, exec (step formatUrlParams)
      ⟨s.map, s.returned, Function.update s.pc i .guardNo⟩ (List.replicate n (.move i)) =
      some ⟨s.map.freshOneUrl.1, s.returned ++ s.map.freshOneUrl.2.toList, s.pc⟩ by
    obtain ⟨n, hn⟩ := hguard
    exact ⟨n, exec_cons.2 ⟨_, hcall, hn⟩⟩
  unfold TaskMap.freshOneUrl
  by_cases hwork : s.map.nextNo ≤ s.map.nextWorkNo
  · rw [if_pos (Or.inl hwork)]
    refine exec_move rfl (exec_move (by rw [move, if_pos hwork]) ⟨0, ?_⟩)
    simp [exec, hend]
  · by_cases hslot : runningUrlMax ≤ s.map.runningUrlCount
    · rw [if_pos (Or.inr hslot)]
      refine exec_move rfl (exec_move (by rw [move, if_neg hwork])
        (exec_move (by rw [move, if_pos hslot]) ⟨0, ?_⟩))
      simp [exec, hend]
    · rw [if_neg (not_or.2 ⟨hwork, hslot⟩)]
      refine exec_move rfl (exec_move (by rw [move, if_neg hwork])
        (exec_move (by rw [move, if_neg hslot]) ?_))
      simpa [hend] using exec_loop formatUrlParams s.returned s.pc i (m := s.map) rfl

/-- The call and its tests. -/
def untilFetch {ι : Type} (i : ι) : List (HandoutAction ι) := .call i :: List.replicate 5 (.move i)

/-- A call that finds a number and a free slot comes to the fetch. -/
theorem exec_to_fetch (hidle : pc i = .idle) (hwork : m.nextWorkNo < m.nextNo)
    (hslot : m.runningUrlCount < runningUrlMax) :
    exec (step formatUrlParams) ⟨m, returned, pc⟩ (untilFetch i) =
      some ⟨m, returned, Function.update pc i .fetch⟩ := by
  simp [untilFetch, exec, step, move, hidle, hwork, not_le.2 hwork, not_le.2 hslot, List.replicate]

end Alone

/-! ### A lost URL -/

/-- Two threads that pass the test for the last URL before either of them counts
the cursor up. -/
theorem exec_race {returned : List ℕ} {pc : ι → FreshPc} {i j : ι} (hij : j ≠ i)
    (hi : pc i = .idle) (hj : pc j = .idle) (hm : m.Bounded) (hlast : m.nextNo = m.nextWorkNo + 1)
    (hslot : m.runningUrlCount < runningUrlMax) :
    exec (step formatUrlParams) ⟨m, returned, pc⟩
        (untilFetch i ++ (untilFetch j ++ [.move i, .move j, .move j])) =
      some ⟨m.incNextWorkNo.incNextWorkNo, returned,
        Function.update (Function.update pc i (.lookup m.nextWorkNo)) j .testWork⟩ := by
  have hinc : m.incNextWorkNo.nextWorkNo = m.nextWorkNo + 1 :=
    TaskMap.incSize_nextWorkNo (by omega)
  have hnone : m.incNextWorkNo.incNextWorkNo.urlList m.incNextWorkNo.nextWorkNo = none :=
    hm.eq_none (by omega)
  refine exec_append.2 ⟨_, exec_to_fetch hi (by omega) hslot,
    exec_append.2 ⟨_, exec_to_fetch (by rw [Function.update_of_ne hij, hj]) (by omega) hslot, ?_⟩⟩
  simp only [exec, step, move, Function.update_self, Function.update_of_ne hij.symm,
    Function.update_of_ne hij, hnone, Option.toList_none, List.append_nil]
  rw [Function.update_comm hij, Function.update_idem, Function.update_idem, Function.update_idem]

/-- Two threads pass the test for one URL, and both count the cursor up.  The URL
that is inserted then is lost. -/
theorem exists_not_noneLost :
    ∃ t : Handout (Fin 2), exec (step id) init
        (.insert (Bytes.str "a") :: (((.call 0 :: List.replicate 5 (.move 0)) ++
          ((.call 1 :: List.replicate 5 (.move 1)) ++ [.move 0, .move 1, .move 1])) ++
            [.insert (Bytes.str "b")])) = some t ∧
      (t.map.urlList 1).isSome ∧ ¬ t.NoneLost := by
  have hempty : TaskMap.empty.Bounded := nofun
  refine ⟨_, exec_cons.2 ⟨_, rfl, exec_append.2 ⟨_,
    exec_race (by decide) rfl rfl (hempty.insertNewUrl (by decide) id _) rfl (by decide), rfl⟩⟩,
    rfl, fun h => ?_⟩
  rcases h.2 1 (by decide) (by decide) with h | ⟨i, hi⟩
  · cases h
  · revert i
    decide

/-! ### The numbers that are handed out -/

/-- The tickets after a thread has moved. -/
theorem tickets_update (m : TaskMap) (returned : List ℕ) (pc : ι → FreshPc) (i : ι) (p : FreshPc) :
    tickets ⟨m, returned, Function.update pc i p⟩ =
      ⟨m.nextWorkNo, Function.update (fun j => (pc j).held) i p.held, returned⟩ := by
  simp only [tickets, Function.apply_update fun _ => FreshPc.held]

/-- A step of a call draws a number, gives it up or uses it, or leaves the numbers alone. -/
theorem move_tickets (held : ι → Option ℕ) {i : ι} (hi : held i = p.held) (returned : List ℕ)
    (hin : p = .fetch → m.nextWorkNo + 1 < 2 ^ 32) (hmove : move m p = some (m', p', r)) :
    (⟨m'.nextWorkNo, Function.update held i p'.held, returned ++ r.toList⟩ : Tickets ι) =
        ⟨m.nextWorkNo, held, returned⟩ ∨
      Tickets.Step ⟨m.nextWorkNo, held, returned⟩
        ⟨m'.nextWorkNo, Function.update held i p'.held, returned ++ r.toList⟩ := by
  obtain ⟨-, -, ⟨rfl, rfl, rfl, hwork⟩ | ⟨-, hwork, ⟨hheld, rfl⟩ |
    ⟨no, hheld, hfree, ⟨rfl, -⟩ | rfl⟩⟩⟩ := move_cases hmove
  · right
    rw [hwork, incSize_of_lt (hin rfl), Option.toList_none, List.append_nil]
    exact .draw i hi
  · left
    simp [hwork, hheld, ← hi]
  · right
    rw [hwork, hfree, Option.toList_none, List.append_nil]
    exact .giveUp i no (hi.trans hheld)
  · right
    rw [hwork, hfree]
    exact .use i no (hi.trans hheld)

/-- **The calls draw numbers from a counter**, or leave the numbers alone. -/
theorem step_tickets {a : HandoutAction ι} (hin : s.FetchesInRange a)
    (hst : s.step formatUrlParams a = some t) :
    t.tickets = s.tickets ∨ Tickets.Step s.tickets t.tickets := by
  cases a with
  | insert url =>
      obtain rfl := Option.some.inj hst
      left
      simp only [tickets, (TaskMap.insertNewUrl_fields formatUrlParams s.map url).2.1]
  | call i =>
      simp only [step] at hst
      split_ifs at hst with hidle
      obtain rfl := Option.some.inj hst
      left
      rw [tickets_update]
      simp [tickets, FreshPc.held, hidle]
  | move i =>
      simp only [step] at hst
      split at hst
      · rename_i m' p' r hmove
        obtain rfl := Option.some.inj hst
        rw [tickets_update]
        exact move_tickets (fun j => (s.pc j).held) rfl s.returned hin hmove
      · cases hst
  | store no n =>
      simp only [step] at hst
      split_ifs at hst
      obtain rfl := Option.some.inj hst
      left
      simp only [tickets, (TaskMap.setRunningThread_fields s.map no n).2]
  | release =>
      simp only [step, Option.some.injEq] at hst
      rw [← hst]
      exact Or.inl (tickets_slots s _)

/-- **No number is handed out twice** while the cursor does not come round. -/
theorem always_distinct {as : List (HandoutAction ι)}
    (hin : Along (step formatUrlParams) FetchesInRange init as) :
    Always (step formatUrlParams) (fun s : Handout ι => s.tickets.Distinct) init as := by
  have hinit : (init : Handout ι).tickets.Distinct :=
    ⟨nofun, nofun, nofun, nofun, List.nodup_nil⟩
  refine always_of_along (I := fun s : Handout ι => s.tickets.Distinct) hinit
    (fun s a t h hin hst => ?_) hin
  rcases step_tickets hin hst with heq | hdraw
  · exact heq ▸ h
  · exact h.step hdraw

/-- **A number that is lost is never handed out** while the cursor does not come round. -/
theorem always_lost {no : ℕ} (h : s.tickets.Lost no) {as : List (HandoutAction ι)}
    (hin : Along (step formatUrlParams) FetchesInRange s as) :
    Always (step formatUrlParams) (fun s : Handout ι => s.tickets.Lost no) s as := by
  refine always_of_along (I := fun s : Handout ι => s.tickets.Lost no) h
    (fun s a t h hin hst => ?_) hin
  rcases step_tickets hin hst with heq | hdraw
  · exact heq ▸ h
  · exact h.step hdraw

end Handout

end TaskData
end Scaner
