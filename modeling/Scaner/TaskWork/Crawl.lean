/-
# The crawl

`pull_and_download_url` and `run_policy_name` in `scaner_test/task_work.cpp`, as
the jobs of a thread pool: the jobs that are pending are run in any order, each
as a whole.

A pull job takes a URL from the map of the task, inserts the URLs it finds on
its page, starts the policies for the page, and pushes as many pull jobs as
`url_list_remain` says: as many as there are numbers left, but no more than
there are slots.  A policy job frees its slot, and pushes nothing.  So when all
slots are taken at the end of the last pull job, nobody will come back for the
URLs that are left.

`allDone_iff`: a crawl that has come to rest has visited all URLs exactly when
every pull job passed its work on (`PassesOn`).
-/

import Mathlib.Data.Multiset.AddSub
import Mathlib.Data.Multiset.Count
import Mathlib.Data.Finset.Basic
import Mathlib.Data.Finset.Card
import Scaner.Lib.Trace
import Scaner.TaskData.TaskMap

namespace Scaner
namespace TaskWork

open Trace TaskData

/-- The map of the task, the jobs that are pending, and the numbers that
`fresh_one_url` has returned so far. -/
structure Crawl where
  map : TaskMap
  pulls : ℕ
  policies : Multiset ℕ
  handed : Finset ℕ

/-- The run of one job: of a pull job, with the URLs found on the page and the
number of policies started (none where the job breaks off before), or of a
policy job for a URL. -/
inductive Job
  | pull (urls : List Bytes) (policies : ℕ)
  | policy (urlNo : ℕ)

namespace Crawl

variable (formatUrlParams : Bytes → Bytes)

/-- What a pull job does with the URL it has been given, up to and with
`finished_one_url`. -/
def work (m : TaskMap) (urlNo : ℕ) (urls : List Bytes) (policies : ℕ) : TaskMap :=
  let m := urls.foldl (TaskMap.insertNewUrl formatUrlParams) m
  let m := if 0 < policies then m.setRunningThread urlNo (policies + 1) else m
  (m.finishedOneUrl urlNo).1

/-- `pull_and_download_url`. -/
def pullAndDownloadUrl (s : Crawl) (urls : List Bytes) (policies : ℕ) : Crawl :=
  match s.map.freshOneUrl with
  | (m, none) => { s with map := m, pulls := s.pulls - 1 }
  | (m, some urlNo) =>
      let m := work formatUrlParams m urlNo urls policies
      { map := m
        pulls := s.pulls - 1 + m.urlListRemain.toNat
        policies := s.policies + Multiset.replicate policies urlNo
        handed := insert urlNo s.handed }

/-- `run_policy_name`. -/
def runPolicyName (s : Crawl) (urlNo : ℕ) : Crawl :=
  { s with
    map := (s.map.finishedOneUrl urlNo).1
    policies := s.policies.erase urlNo }

/-- A pending job is run. -/
def step (s : Crawl) : Job → Option Crawl
  | .pull urls policies =>
      if 0 < s.pulls then some (s.pullAndDownloadUrl formatUrlParams urls policies) else none
  | .policy urlNo => if urlNo ∈ s.policies then some (s.runPolicyName urlNo) else none

/-- One URL has been inserted, and one pull job is pending. -/
def init (url : Bytes) : Crawl :=
  { map := TaskMap.insertNewUrl formatUrlParams .empty url, pulls := 1, policies := 0, handed := ∅ }

/-- No job is pending. -/
def Idle (s : Crawl) : Prop := s.pulls = 0 ∧ s.policies = 0

/-- Every URL has been handed out, and is finished. -/
def AllDone (s : Crawl) : Prop :=
  ∀ no url, s.map.urlList no = some url → no ∈ s.handed ∧ url.runningThread = -1

/-- Every URL has been handed out. -/
def AllHanded (s : Crawl) : Prop := ∀ no url, s.map.urlList no = some url → no ∈ s.handed

/-- At the end of a pull job for the URL `no`, numbers are left, and a slot is free
for one of them. -/
def SlotLeft (s : Crawl) (urls : List Bytes) (policies no : ℕ) : Prop :=
  s.map.runningUrlCount + (if policies = 0 then 0 else 1) < runningUrlMax ∧
    0 < toInt (s.map.nextNo + urls.length - (no + 1))

/-- `no` is the last URL that has not been handed out, and none of those that are
found on its page is entered. -/
def IsLast (s : Crawl) (urls : List Bytes) (no : ℕ) : Prop :=
  (∀ i url, s.map.urlList i = some url → i ∈ s.handed ∨ i = no) ∧
    s.map.EntersNone formatUrlParams urls

/-- A pull job passes its work on: it is not the last one that is pending, or it
leaves a slot for a further URL, or there is no further URL. -/
def PassesOn (s : Crawl) : Job → Prop
  | .pull urls policies =>
      1 < s.pulls ∨
        match s.map.freshOneUrl.2 with
        | some no => s.SlotLeft urls policies no ∨ s.IsLast formatUrlParams urls no
        | none => s.AllHanded
  | .policy _ => True

/-! ### What every job keeps -/

/-- The URLs that have not been handed out are new; those that have been wait for their
policies, and hold a slot as long as they do.  Nothing is said about the counters
`next_no` and `next_work_no`, which wrap. -/
structure Inv (s : Crawl) : Prop where
  new : ∀ no url, s.map.urlList no = some url → no ∉ s.handed → url.runningThread = -2
  handed : ∀ no ∈ s.handed, ∃ url, s.map.urlList no = some url ∧
    url.runningThread = if s.policies.count no = 0 then -1 else (s.policies.count no : ℤ)
  policies : ∀ no ∈ s.policies, no ∈ s.handed
  slots : s.map.runningUrlCount = s.policies.toFinset.card
  slots_le : s.map.runningUrlCount ≤ runningUrlMax

variable {formatUrlParams} {s t : Crawl} {no : ℕ}

/-- At the start the first URL is entered and nothing has been done. -/
theorem inv_init (url : Bytes) : (init formatUrlParams url).Inv := by
  have hgrow := TaskMap.grows_insertNewUrl formatUrlParams .empty url
  have hslots : (init formatUrlParams url).map.runningUrlCount = 0 := hgrow.runningUrlCount_eq
  refine ⟨fun no u h _ => ?_, fun no h => ?_, fun no h => ?_, hslots,
    hslots.trans_le (Nat.zero_le _)⟩
  · exact hgrow.new no u rfl h
  · simp [init] at h
  · simp [init] at h

/-- A new URL has not been handed out, and the other way round. -/
theorem Inv.not_mem_of_isNew (h : s.Inv) (hno : s.map.IsNew no) : no ∉ s.handed := by
  intro hmem
  obtain ⟨url, hurl, hrt⟩ := hno
  obtain ⟨url', hurl', hrt'⟩ := h.handed no hmem
  obtain rfl := Option.some.inj (hurl.symm.trans hurl')
  rw [hrt] at hrt'
  split_ifs at hrt'
  omega

/-- What `finished_one_url` leaves behind a count of `n` policies. -/
theorem finishedThread_policies (n : ℕ) :
    TaskMap.finishedThread (n + 1) = if n = 0 then -1 else (n : ℤ) := by
  unfold TaskMap.finishedThread
  split_ifs <;> omega

/-- **The work of a pull job on its URL**: new URLs behind the others,
`running_thread` at the number of policies, and the slot freed if there are none. -/
theorem work_spec (formatUrlParams : Bytes → Bytes) {m : TaskMap} (hno : m.IsNew no)
    (urls : List Bytes) (policies : ℕ) :
    (work formatUrlParams m no urls policies).nextNo = (m.nextNo + urls.length) % 2 ^ 32 ∧
      (work formatUrlParams m no urls policies).nextWorkNo = m.nextWorkNo ∧
      (work formatUrlParams m no urls policies).runningUrlCount =
        (if policies = 0 then decSize m.runningUrlCount else m.runningUrlCount) ∧
      ∃ url : TaskUrlStruct, url.runningThread = (if policies = 0 then -1 else (policies : ℤ)) ∧
        (work formatUrlParams m no urls policies).urlList =
          Function.update (urls.foldl (TaskMap.insertNewUrl formatUrlParams) m).urlList no
            (some url) := by
  have hgrow := TaskMap.grows_foldl_insertNewUrl formatUrlParams m urls
  have hnext := TaskMap.nextNo_foldl_insertNewUrl formatUrlParams m urls
  obtain ⟨url, hurl, hrt⟩ := hno
  rw [work]
  generalize urls.foldl (TaskMap.insertNewUrl formatUrlParams) m = m₁ at hgrow hnext ⊢
  have hurl₁ : m₁.urlList no = some url := hgrow.old no url hurl
  rw [← hgrow.nextWorkNo_eq, ← hgrow.runningUrlCount_eq, ← hnext]
  by_cases hpos : 0 < policies
  · have hset : (m₁.setRunningThread no (policies + 1)).urlList no =
        some { url with runningThread := policies + 1 } := by
      simp [TaskMap.setRunningThread, hurl₁]
    obtain ⟨n, hfin⟩ := TaskMap.finishedOneUrl_eq hset
    have hthread := finishedThread_policies policies
    rw [if_neg hpos.ne'] at hthread
    have hne : TaskMap.finishedThread ((policies : ℤ) + 1) ≠ -1 := by omega
    simp only [if_pos hpos, hfin, if_neg hne, if_neg hpos.ne']
    simp only [TaskMap.setRunningThread, hurl₁]
    exact ⟨trivial, trivial, trivial, _, hthread, Function.update_idem _ _ _⟩
  · obtain ⟨n, hfin⟩ := TaskMap.finishedOneUrl_eq hurl₁
    obtain rfl : policies = 0 := by omega
    have hthread : TaskMap.finishedThread url.runningThread = -1 := by rw [hrt]; rfl
    simp only [lt_irrefl, if_false, hfin, if_true, hthread]
    exact ⟨trivial, trivial, trivial, _, rfl, rfl⟩

/-- A URL that starts policies holds one slot, whatever their number. -/
theorem card_toFinset_add_replicate {s : Multiset ℕ} (hno : no ∉ s) (n : ℕ) :
    (s + Multiset.replicate n no).toFinset.card = s.toFinset.card + if n = 0 then 0 else 1 := by
  by_cases hn : n = 0
  · simp [hn]
  · have hinsert : (s + Multiset.replicate n no).toFinset = insert no s.toFinset := by
      ext i
      simp [hn]
    rw [if_neg hn, hinsert, Finset.card_insert_of_notMem (by simpa using hno)]

/-- The slot is held until the last policy has ended. -/
theorem card_toFinset_erase {s : Multiset ℕ} (hno : no ∈ s) :
    (s.erase no).toFinset.card + (if s.count no = 1 then 1 else 0) = s.toFinset.card := by
  by_cases hone : s.count no = 1
  · have herase : (s.erase no).toFinset = s.toFinset.erase no := by
      ext i
      by_cases hi : i = no
      · subst hi
        simp [← Multiset.count_pos, hone]
      · simp [Multiset.mem_erase_of_ne hi, hi]
    rw [if_pos hone, herase, Finset.card_erase_add_one (by simpa using hno)]
  · have hpos := Multiset.count_pos.2 hno
    have herase : (s.erase no).toFinset = s.toFinset := by
      ext i
      by_cases hi : i = no
      · subst hi
        simp only [Multiset.mem_toFinset, ← Multiset.count_pos, Multiset.count_erase_self]
        omega
      · simp [Multiset.mem_erase_of_ne hi]
    rw [if_neg hone, herase, Nat.add_zero]

/-- A pull job that is given nothing leaves the URLs as they are. -/
theorem Inv.pull_none (h : s.Inv) {m : TaskMap} (hf : s.map.freshOneUrl = (m, none)) (pulls : ℕ) :
    ({ s with map := m, pulls := pulls } : Crawl).Inv := by
  obtain ⟨-, -, -, hslots, -, -, hlist⟩ := TaskMap.freshOneUrl_none_fields hf
  refine ⟨?_, ?_, h.policies, hslots.trans h.slots, hslots.trans_le h.slots_le⟩
  · rw [hlist]
    exact h.new
  · rw [hlist]
    exact h.handed

/-- The slots at the end of a pull job. -/
theorem slots_work (count policies : ℕ) (h : count < runningUrlMax) :
    (if policies = 0 then decSize (incSize count) else incSize count) =
      count + if policies = 0 then 0 else 1 := by
  unfold runningUrlMax at h
  unfold decSize incSize
  split_ifs <;> omega

/-- The map at the end of a pull job for the URL `no`. -/
theorem exists_work (formatUrlParams : Bytes → Bytes) {m : TaskMap}
    (hf : s.map.freshOneUrl = (m, some no)) (urls : List Bytes) (policies : ℕ) :
    ∃ m₁ : TaskMap, m₁ = urls.foldl (TaskMap.insertNewUrl formatUrlParams) m ∧ m.Grows m₁ ∧
      (work formatUrlParams m no urls policies).nextNo =
        (s.map.nextNo + urls.length) % 2 ^ 32 ∧
      (work formatUrlParams m no urls policies).nextWorkNo = no + 1 ∧
      (work formatUrlParams m no urls policies).runningUrlCount =
        s.map.runningUrlCount + (if policies = 0 then 0 else 1) ∧
      ∃ url : TaskUrlStruct, url.runningThread = (if policies = 0 then -1 else (policies : ℤ)) ∧
        (work formatUrlParams m no urls policies).urlList =
          Function.update m₁.urlList no (some url) := by
  obtain ⟨hslot, -, -, hnew, -, -⟩ := TaskMap.freshOneUrl_some hf
  obtain ⟨hmno, hmwork, hmslots, -, hmlist⟩ := TaskMap.freshOneUrl_fields hf
  have hmnew : m.IsNew no := by
    obtain ⟨url, hurl, hrt⟩ := hnew
    exact ⟨url, hmlist ▸ hurl, hrt⟩
  obtain ⟨hnext, hwork, hslots, hurl⟩ := work_spec formatUrlParams hmnew urls policies
  rw [hmslots, slots_work _ _ hslot] at hslots
  exact ⟨_, rfl, TaskMap.grows_foldl_insertNewUrl formatUrlParams m urls, hmno ▸ hnext,
    hwork.trans hmwork, hslots, hurl⟩

/-- A pull job that is given a URL leaves it with its policies. -/
theorem Inv.pull_some (h : s.Inv) {m : TaskMap} (hf : s.map.freshOneUrl = (m, some no))
    (urls : List Bytes) (policies pulls : ℕ) :
    (Crawl.mk (work formatUrlParams m no urls policies) pulls
      (s.policies + Multiset.replicate policies no) (insert no s.handed)).Inv := by
  obtain ⟨hslot, -, -, hnew, -, -⟩ := TaskMap.freshOneUrl_some hf
  obtain ⟨-, -, -, -, hmlist⟩ := TaskMap.freshOneUrl_fields hf
  have hno : no ∉ s.handed := h.not_mem_of_isNew hnew
  have hpol : no ∉ s.policies := fun hmem => hno (h.policies no hmem)
  have hcount : s.policies.count no = 0 := Multiset.count_eq_zero.2 hpol
  obtain ⟨m₁, -, hgrow, -, -, hslots, url, hrt, hlist⟩ :=
    exists_work formatUrlParams hf urls policies
  constructor
  case new =>
    intro i u hu hi
    simp only [hlist, Finset.mem_insert, not_or] at hu hi
    rw [Function.update_of_ne hi.1] at hu
    cases hold : m.urlList i with
    | none => exact hgrow.new i u hold hu
    | some old =>
        obtain rfl := Option.some.inj ((hgrow.old i old hold).symm.trans hu)
        exact h.new i old (hmlist ▸ hold) hi.2
  case handed =>
    intro i hi
    simp only [hlist, Finset.mem_insert, Multiset.count_add] at hi ⊢
    by_cases hin : i = no
    · subst hin
      refine ⟨url, Function.update_self _ _ _, ?_⟩
      rw [hcount, Multiset.count_replicate_self, Nat.zero_add]
      exact hrt
    · obtain ⟨u, hu, hrt'⟩ := h.handed i (hi.resolve_left hin)
      refine ⟨u, ?_, ?_⟩
      · rw [Function.update_of_ne hin]
        exact hgrow.old i u (hmlist ▸ hu)
      · rw [Multiset.count_replicate, if_neg (Ne.symm hin), Nat.add_zero]
        exact hrt'
  case policies =>
    intro i hi
    simp only [Multiset.mem_add, Finset.mem_insert] at hi ⊢
    rcases hi with hi | hi
    · exact Or.inr (h.policies i hi)
    · exact Or.inl (Multiset.eq_of_mem_replicate hi)
  case slots => simp only [hslots, card_toFinset_add_replicate hpol, h.slots]
  case slots_le =>
    simp only [hslots]
    split_ifs <;> omega

/-- **The work of a policy job**: `running_thread` at the number of policies that are
left for its URL, and the slot freed if there are none. -/
theorem Inv.runPolicyName_spec (h : s.Inv) (hno : no ∈ s.policies) :
    (s.runPolicyName no).map.runningUrlCount = (s.policies.erase no).toFinset.card ∧
      ∃ url : TaskUrlStruct, url.runningThread = (if (s.policies.erase no).count no = 0 then -1
          else ((s.policies.erase no).count no : ℤ)) ∧
        (s.runPolicyName no).map.urlList = Function.update s.map.urlList no (some url) := by
  obtain ⟨url, hurl, hrt⟩ := h.handed no (h.policies no hno)
  have hpos : 0 < s.policies.count no := Multiset.count_pos.2 hno
  have hcard := card_toFinset_erase hno
  have hle := h.slots_le
  obtain ⟨n, hfin⟩ := TaskMap.finishedOneUrl_eq hurl
  have hthread : TaskMap.finishedThread url.runningThread =
      if s.policies.count no - 1 = 0 then -1 else ((s.policies.count no - 1 : ℕ) : ℤ) := by
    rw [hrt, if_neg (by omega), ← finishedThread_policies]
    congr 1
    omega
  rw [runPolicyName, hfin, Multiset.count_erase_self]
  refine ⟨?_, _, hthread, rfl⟩
  rw [← h.slots] at hcard
  by_cases hone : s.policies.count no = 1
  · have hlast : TaskMap.finishedThread url.runningThread = -1 := by rw [hthread, hone]; rfl
    rw [if_pos hone] at hcard
    simp only [if_pos hlast, decSize]
    unfold runningUrlMax at hle
    omega
  · have hmore : TaskMap.finishedThread url.runningThread ≠ -1 := by
      rw [hthread, if_neg (by omega)]
      omega
    rw [if_neg hone] at hcard
    simp only [if_neg hmore]
    exact hcard.symm

/-- A policy job is one policy less for its URL. -/
theorem Inv.policy (h : s.Inv) (hno : no ∈ s.policies) : (s.runPolicyName no).Inv := by
  have hmem := h.policies no hno
  obtain ⟨hslots, url, hrt, hlist⟩ := h.runPolicyName_spec hno
  constructor
  case new =>
    intro i u hu hi
    have hin : i ≠ no := fun hin => hi (hin ▸ hmem)
    rw [hlist, Function.update_of_ne hin] at hu
    exact h.new i u hu hi
  case handed =>
    intro i hi
    rw [hlist]
    by_cases hin : i = no
    · subst hin
      exact ⟨url, Function.update_self _ _ _, hrt⟩
    · obtain ⟨u, hu, hrt'⟩ := h.handed i hi
      refine ⟨u, by rw [Function.update_of_ne hin]; exact hu, ?_⟩
      rw [runPolicyName, Multiset.count_erase_of_ne hin]
      exact hrt'
  case policies =>
    intro i hi
    exact h.policies i (Multiset.mem_of_mem_erase hi)
  case slots => exact hslots
  case slots_le =>
    have hcard := card_toFinset_erase hno
    have hle := h.slots_le
    rw [h.slots] at hle
    omega

/-- What a step can be. -/
theorem step_cases {a : Job} (hst : s.step formatUrlParams a = some t) :
    (∃ urls policies, a = .pull urls policies ∧ 0 < s.pulls ∧
        t = s.pullAndDownloadUrl formatUrlParams urls policies) ∨
      ∃ no, a = .policy no ∧ no ∈ s.policies ∧ t = s.runPolicyName no := by
  cases a with
  | pull urls policies =>
      simp only [step] at hst
      split_ifs at hst with hpulls
      exact Or.inl ⟨urls, policies, rfl, hpulls, (Option.some.inj hst).symm⟩
  | policy no =>
      simp only [step] at hst
      split_ifs at hst with hno
      exact Or.inr ⟨no, rfl, hno, (Option.some.inj hst).symm⟩

/-- **Every job keeps the invariant.** -/
theorem Inv.step {a : Job} (h : s.Inv) (hst : s.step formatUrlParams a = some t) : t.Inv := by
  rcases step_cases hst with ⟨urls, policies, -, -, rfl⟩ | ⟨no, -, hno, rfl⟩
  · unfold pullAndDownloadUrl
    split
    · rename_i m hf
      exact h.pull_none hf _
    · rename_i m no hf
      exact h.pull_some hf urls policies _
  · exact h.policy hno

/-! ### Coming to rest -/

/-- A policy job hands out nothing, and finds no new URL. -/
theorem allHanded_runPolicyName (h : s.Inv) (hno : no ∈ s.policies) :
    (s.runPolicyName no).AllHanded ↔ s.AllHanded := by
  obtain ⟨-, url, -, hlist⟩ := h.runPolicyName_spec hno
  have hmem := h.policies no hno
  constructor
  · intro hall i u hu
    by_cases hin : i = no
    · exact hin ▸ hmem
    · exact hall i u (by rw [hlist, Function.update_of_ne hin]; exact hu)
  · intro hall i u hu
    by_cases hin : i = no
    · exact hin ▸ hmem
    · rw [hlist, Function.update_of_ne hin] at hu
      exact hall i u hu

/-- Work is left over only with a job to do it. -/
def Covered (s : Crawl) : Prop := s.Inv ∧ (0 < s.pulls ∨ s.AllHanded)

/-- Work is left over, and there is no job to do it. -/
def Stalled (s : Crawl) : Prop := s.Inv ∧ s.pulls = 0 ∧ ¬ s.AllHanded

/-- `url_list_remain` asks for a pull job when numbers are left, and a slot. -/
theorem urlListRemain_pos_iff {m : TaskMap} (h : m.runningUrlCount ≤ runningUrlMax) :
    0 < m.urlListRemain ↔
      m.runningUrlCount < runningUrlMax ∧ 0 < toInt (m.nextNo - m.nextWorkNo) := by
  unfold runningUrlMax at h
  have hslots : toInt (runningUrlMax - m.runningUrlCount) = runningUrlMax - m.runningUrlCount := by
    unfold toInt runningUrlMax
    omega
  unfold TaskMap.urlListRemain
  rw [hslots, lt_min_iff]
  unfold runningUrlMax
  omega

/-- What a pull job leaves that is given nothing. -/
theorem pull_none_spec (formatUrlParams : Bytes → Bytes) {m : TaskMap}
    (hf : s.map.freshOneUrl = (m, none)) (urls : List Bytes) (policies : ℕ) :
    (s.pullAndDownloadUrl formatUrlParams urls policies).pulls = s.pulls - 1 ∧
      ((s.pullAndDownloadUrl formatUrlParams urls policies).AllHanded ↔ s.AllHanded) := by
  obtain ⟨-, -, -, -, -, -, hlist⟩ := TaskMap.freshOneUrl_none_fields hf
  simp only [pullAndDownloadUrl, hf, AllHanded, hlist, and_self]

/-- A pull job for `no` pushes a pull job when it leaves a slot for one. -/
theorem Inv.pulls_pull_some (formatUrlParams : Bytes → Bytes) (h : s.Inv) {m : TaskMap}
    (hf : s.map.freshOneUrl = (m, some no)) (urls : List Bytes) (policies : ℕ) :
    0 < (s.pullAndDownloadUrl formatUrlParams urls policies).pulls ↔
      1 < s.pulls ∨ s.SlotLeft urls policies no := by
  obtain ⟨m₁, -, -, hnext, hwork, hslots, -⟩ := exists_work formatUrlParams hf urls policies
  have hend : (Crawl.mk (work formatUrlParams m no urls policies) 0
    (s.policies + Multiset.replicate policies no) (insert no s.handed)).Inv :=
    h.pull_some hf urls policies 0
  have hremain := urlListRemain_pos_iff hend.slots_le
  have hleft : toInt (((s.map.nextNo + urls.length) % 2 ^ 32 : ℕ) - (no + 1 : ℕ)) =
      toInt (s.map.nextNo + urls.length - (no + 1)) := by
    unfold toInt
    omega
  simp only [hnext, hwork, hslots, hleft] at hremain
  simp only [pullAndDownloadUrl, hf]
  unfold SlotLeft
  rw [← hremain]
  omega

/-- A pull job for `no` leaves no URL, when `no` is the last one. -/
theorem Inv.allHanded_pull_some (formatUrlParams : Bytes → Bytes) (h : s.Inv) {m : TaskMap}
    (hf : s.map.freshOneUrl = (m, some no)) (urls : List Bytes) (policies : ℕ) :
    (s.pullAndDownloadUrl formatUrlParams urls policies).AllHanded ↔
      s.IsLast formatUrlParams urls no := by
  obtain ⟨-, -, -, hnew, -, -⟩ := TaskMap.freshOneUrl_some hf
  obtain ⟨hmno, -, -, hmmap, hmlist⟩ := TaskMap.freshOneUrl_fields hf
  obtain ⟨m₁, hm₁, hgrow, -, -, -, url, -, hlist⟩ :=
    exists_work formatUrlParams hf urls policies
  have henters : m.EntersNone formatUrlParams urls ↔ s.map.EntersNone formatUrlParams urls := by
    rw [TaskMap.EntersNone, TaskMap.EntersNone, hmno, hmmap, hmlist]
  simp only [pullAndDownloadUrl, hf, AllHanded, IsLast, hlist, Finset.mem_insert, ← henters]
  constructor
  · intro hall
    constructor
    · intro i u hu
      by_cases hi : i = no
      · exact Or.inr hi
      · refine (hall i u ?_).symm
        rw [Function.update_of_ne hi]
        exact hgrow.old i u (hmlist ▸ hu)
    · -- a number that is entered was free before, and so it has not been handed out
      by_contra hsome
      obtain ⟨i, hfree, hne⟩ := TaskMap.exists_urlList_foldl hsome
      obtain ⟨u, hu⟩ := Option.ne_none_iff_exists'.1 hne
      rw [hmlist] at hfree
      have hin : i ≠ no := by
        rintro rfl
        obtain ⟨v, hv, -⟩ := hnew
        simp [hfree] at hv
      rcases hall i u (by rw [Function.update_of_ne hin, hm₁]; exact hu) with hmem | hmem
      · exact hin hmem
      · obtain ⟨v, hv, -⟩ := h.handed i hmem
        simp [hfree] at hv
  · rintro ⟨hold, hnone⟩ i u hu
    have hsame : m₁.urlList = s.map.urlList := by
      rw [hm₁, TaskMap.urlList_foldl_eq_iff.2 hnone, hmlist]
    by_cases hi : i = no
    · exact Or.inl hi
    · rw [Function.update_of_ne hi, hsame] at hu
      exact (hold i u hu).symm

/-- **A pull job leaves its work to another one, or leaves none, exactly when it
passes it on.** -/
theorem Inv.passesOn_iff (h : s.Inv) (urls : List Bytes) (policies : ℕ) :
    s.PassesOn formatUrlParams (.pull urls policies) ↔
      0 < (s.pullAndDownloadUrl formatUrlParams urls policies).pulls ∨
        (s.pullAndDownloadUrl formatUrlParams urls policies).AllHanded := by
  unfold PassesOn
  cases hf : s.map.freshOneUrl with
  | mk m r =>
      cases r with
      | none =>
          obtain ⟨hpulls, hall⟩ := pull_none_spec formatUrlParams hf urls policies
          rw [hpulls, hall]
          exact or_congr_left (by omega)
      | some no =>
          rw [h.pulls_pull_some formatUrlParams hf, h.allHanded_pull_some formatUrlParams hf,
            or_assoc]

/-- A job that passes on keeps the URLs covered. -/
theorem Covered.step {a : Job} (h : s.Covered) (ha : s.PassesOn formatUrlParams a)
    (hst : s.step formatUrlParams a = some t) : t.Covered := by
  refine ⟨h.1.step hst, ?_⟩
  rcases step_cases hst with ⟨urls, policies, rfl, -, rfl⟩ | ⟨no, -, hno, rfl⟩
  · exact (h.1.passesOn_iff urls policies).1 ha
  · exact h.2.imp id (allHanded_runPolicyName h.1 hno).2

/-- A job that does not pass on leaves the crawl stalled. -/
theorem Covered.stalled {a : Job} (h : s.Covered) (ha : ¬ s.PassesOn formatUrlParams a)
    (hst : s.step formatUrlParams a = some t) : t.Stalled := by
  refine ⟨h.1.step hst, ?_⟩
  rcases step_cases hst with ⟨urls, policies, rfl, -, rfl⟩ | ⟨no, rfl, -, -⟩
  · rw [h.1.passesOn_iff, not_or, Nat.not_lt, Nat.le_zero] at ha
    exact ha
  · exact absurd trivial ha

/-- A crawl that is stalled stays so. -/
theorem Stalled.step {a : Job} (h : s.Stalled) (hst : s.step formatUrlParams a = some t) :
    t.Stalled := by
  obtain ⟨hinv, hpulls, hleft⟩ := h
  refine ⟨hinv.step hst, ?_⟩
  rcases step_cases hst with ⟨urls, policies, -, hpos, -⟩ | ⟨no, -, hno, rfl⟩
  · omega
  · exact ⟨hpulls, fun hall => hleft ((allHanded_runPolicyName hinv hno).1 hall)⟩

/-- **A crawl that has come to rest has visited every URL, exactly when every pull
job passed its work on.** -/
theorem allDone_iff {url : Bytes} {jobs : List Job}
    (hrun : exec (step formatUrlParams) (init formatUrlParams url) jobs = some t)
    (hidle : t.Idle) :
    t.AllDone ↔ Along (step formatUrlParams) (PassesOn formatUrlParams)
      (init formatUrlParams url) jobs := by
  rcases along_or_doomed (I := Covered) (D := Stalled) ⟨inv_init url, Or.inl Nat.one_pos⟩
    (fun _ _ _ => Covered.step) (fun _ _ _ => Covered.stalled) (fun _ _ _ => Stalled.step) hrun
    with ⟨halong, hinv, hcov⟩ | ⟨halong, -, -, hall⟩
  · refine iff_of_true (fun no u hu => ?_) halong
    have hmem := hcov.resolve_left (by rw [hidle.1]; exact lt_irrefl 0) no u hu
    obtain ⟨u', hu', hrt⟩ := hinv.handed no hmem
    obtain rfl := Option.some.inj (hu.symm.trans hu')
    rw [hidle.2, Multiset.count_zero, if_pos rfl] at hrt
    exact ⟨hmem, hrt⟩
  · exact iff_of_false (fun hdone => hall fun no u hu => (hdone no u hu).1) halong

/-- Two pages that link to each other, with one policy and two policies. -/
def twoPages : List Job :=
  [.pull [Bytes.str "b"] 1, .policy 0, .pull [Bytes.str "a"] 2, .policy 1, .policy 1, .pull [] 0]

/-- Both are visited, and every pull job passes its work on. -/
theorem allDone_iff_twoPages :
    ∃ t, exec (step id) (init id (Bytes.str "a")) twoPages = some t ∧ t.Idle ∧
      t.handed = {0, 1} ∧ t.AllDone ∧
      Along (step id) (PassesOn id) (init id (Bytes.str "a")) twoPages := by
  have hdone : ∃ t, exec (step id) (init id (Bytes.str "a")) twoPages = some t ∧ t.Idle ∧
      t.handed = {0, 1} ∧ t.AllDone := by
    refine ⟨_, rfl, ⟨rfl, rfl⟩, by decide, fun no url h => ?_⟩
    match no, h with
    | 0, h =>
        obtain rfl := Option.some.inj h
        exact ⟨by decide, rfl⟩
    | 1, h =>
        obtain rfl := Option.some.inj h
        exact ⟨by decide, rfl⟩
    | n + 2, h => cases h
  obtain ⟨t, hrun, hidle, hhanded, hall⟩ := hdone
  exact ⟨t, hrun, hidle, hhanded, hall, (allDone_iff hrun hidle).1 hall⟩

/-- Thirty pages in a row, each with one policy to run and a link to the next one;
then the thirty policies. -/
def longChain : List Job :=
  (List.range 30).map (fun k => .pull [[UInt8.ofNat (k + 1)]] 1) ++ (List.range 30).map .policy

/-- The page behind them is never visited: its number is left in the map, with no
job pending. -/
theorem longChain_stalls :
    ∃ t, exec (step id) (init id [0]) longChain = some t ∧ t.Idle ∧ ¬ t.AllDone := by
  have hend : ((exec (step id) (init id [0]) longChain).map fun t =>
      (t.pulls, t.policies, (t.map.urlList 30).map (·.runningThread), decide (30 ∈ t.handed))) =
        some (0, 0, some (-2), false) := by
    decide +kernel
  obtain ⟨t, ht, hsum⟩ := Option.map_eq_some_iff.1 hend
  simp only [Prod.mk.injEq, Option.map_eq_some_iff, decide_eq_false_iff_not] at hsum
  obtain ⟨hpulls, hpolicies, ⟨url, hurl, -⟩, hno⟩ := hsum
  exact ⟨t, ht, ⟨hpulls, hpolicies⟩, fun hdone => hno (hdone 30 url hurl).1⟩

end Crawl

end TaskWork
end Scaner
