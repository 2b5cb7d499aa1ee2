/-
# The start of a task

`task_work::start` in `scaner_test/task_work.cpp`, with `format_start`
(`scaner_test/task_data.cpp`) and the texts that it returns (`scaner_test/system_log.h`).

The new task is put into the list of tasks before anything is known about its URL.  The
checks that follow (the download of the main page, its decoding, the links on it, the
first insertion and the push to the thread pool) return an error text and leave the list
as it is then (`start_mList`).  So a start that fails leaves no trace only if there was no
start structure at all (`start_noTrace_iff`).

What other threads and the network decide is given: the bytes of the two downloads, what
the decoder and the crawler make of them, whether the tables of the task take its first
URL, and whether the pool takes the job.  `get_globle_task_map` makes the list when there
is none, so the error with the number 7 is not returned; nor is the one with the number 1
of `insert_new`, as the id of a task is not empty (`makeUnionId_ne_nil`).
-/

import Scaner.HttpTools.Completed
import Scaner.HttpTools.Cookie
import Scaner.TaskData.TaskList

namespace Scaner
namespace TaskWork

open Bytes TaskData HttpTools PolicyApi

/-! ### The texts -/

/-- `system_err(n)`. -/
def systemErr (n : ℕ) : ℕ := 0xFFFFFFFF &&& (0x80010000 ||| (n &&& 0xFFFF))

/-- `op_err(n)`. -/
def opErr (n : ℕ) : ℕ := 0xFFFFFFFF &&& (0x40010000 ||| (n &&& 0xFFFF))

/-- `ss << std::hex << n`. -/
def hex (n : ℕ) : Bytes := (Nat.toDigits 16 n).map fun c => c.toNat.toUInt8

/-- `err_ret`.  The last named case falls through. -/
def errRet (n : ℕ) : Bytes :=
  (if 0xFFFF0000 &&& n = 0x80010000 then str "System err "
    else if 0xFFFF0000 &&& n = 0x80020000 then str "Function err "
    else if 0xFFFF0000 &&& n = 0x80030000 then str "Data err "
    else if 0xFFFF0000 &&& n = 0x40010000 then str "Operator refused " ++ str "Err "
    else str "Err ") ++ hex n ++ str "."

/-- `success_ret`. -/
def successRet : Bytes := str "success."

example : errRet (opErr 2) = str "Operator refused Err 40010002." := by decide

/-! ### The start structure -/

/-- `class task_start_struct`, as far as `start` uses it. -/
structure TaskStartStruct where
  mainUrl : Bytes
  baseHead : Bytes
  baseTrigger : Bytes
  runningTrigger : Bytes := []
  runningCookie : Bytes := []
  runningHead : Bytes := []
  domainSubLevelMin : ℕ := 2

/-- `format_start`. -/
def TaskStartStruct.formatStart (p : TaskStartStruct) : TaskStartStruct :=
  let baseHead := formatHead p.baseHead
  let baseTrigger := formatText p.baseTrigger
  { mainUrl := formatUrl p.mainUrl
    baseHead := baseHead
    baseTrigger := baseTrigger
    runningTrigger := baseTrigger
    runningCookie := getNewCookie baseHead []
    runningHead := baseHead
    domainSubLevelMin :=
      if p.domainSubLevelMin = 0 ∨ p.domainSubLevelMin > 255 then 2 else p.domainSubLevelMin }

/-- `make_err_url`. -/
def makeErrUrl (url : Bytes) : Bytes :=
  match getUrlInfo url with
  | none => []
  | some info => info.protocal ++ str "://" ++ info.domain ++ info.port ++
      str "/nowaytobeexistpage301.html"

/-- `enum err_page_type`, as far as `start` uses it. -/
inductive ErrPageType
  | basic404
  | self200
  deriving DecidableEq

/-- `class task_err_page`. -/
structure TaskErrPage where
  failedType : ErrPageType := .basic404
  recvData : List UInt16 := []
  deriving DecidableEq

/-- What is decided elsewhere. -/
structure Outcomes where
  /-- `http::download_one(false, url, head, ..)`, the call with the given number: what it has
  received, when it returns true. -/
  downloadOne : ℕ → Bytes → Bytes → Option Bytes
  /-- `http_reponse_completed(recv, v_list, trigger)` with an empty `v_list`. -/
  httpReponseCompleted : Bytes → Bytes → CompletedResult
  /-- `crawl_page(body, size, nullptr, page_url, domain_sub_level)`. -/
  crawlPage : Bytes → Bytes → ℕ → ℕ
  /-- `insert_new_url(url_point)`, which returns false when the tables throw. -/
  insertNewUrl : Bool
  /-- `push_into_thread_pool(..)`. -/
  push : Bool

variable (o : Outcomes)

/-- A page with links. -/
def hasLinks (p : TaskStartStruct) (h : HttpInfo) : Bool :=
  h.status == 200 &&
    decide (0 < o.crawlPage h.bodyOrigin (getPage p.mainUrl) p.domainSubLevelMin)

/-- The check of the main page: the start structure behind it, and the number of the error. -/
def checkMain (p : TaskStartStruct) : TaskStartStruct × Option ℕ :=
  match o.downloadOne 0 p.mainUrl p.baseHead with
  | none => (p, some 2)
  | some recvRaw =>
      let r := o.httpReponseCompleted recvRaw p.baseTrigger
      let p := { p with baseTrigger := r.2.2 }
      if r.1 = false then (p, some 3)
      else if r.2.1.any (hasLinks o p) then (p, none)
      else (p, some 4)

/-- The page that stands for a failure, and the trigger behind its decoding. -/
def checkErr (p : TaskStartStruct) : TaskErrPage × Bytes :=
  match o.downloadOne 1 (makeErrUrl p.mainUrl) p.runningHead with
  | none => ({}, p.baseTrigger)
  | some recvRaw =>
      match o.httpReponseCompleted recvRaw p.baseTrigger with
      | (true, vErr, trigger) =>
          match vErr.getLast? with
          | some a =>
              (if a.status ≥ 300 then {} else ⟨.self200, a.translateWstrBody⟩, trigger)
          | none => ({}, trigger)
      | (false, _, trigger) => ({}, trigger)

/-- What `start` leaves: its value, the list of tasks, and of the new task the start
structure, the error page, and the first URL with its trigger. -/
structure StartResult (ι : Type) where
  ret : Bytes
  list : TaskMapList ι
  startPtr : Option TaskStartStruct := none
  errPage : TaskErrPage := {}
  url : Option (Bytes × Bytes) := none

variable {ι : Type} [DecidableEq ι]

/-- The value that `insert_new(i)` returns. -/
def insertNewOk (task : ι → StartData) (s : TaskMapList ι) (i : ι) : Bool :=
  s.startPtr i && !(task i).makeUnionId.isEmpty

/-- What follows `insert_new`. -/
def afterInsert (s : TaskMapList ι) (p : TaskStartStruct) : StartResult ι :=
  match checkMain o p with
  | (p, some n) => { ret := errRet (opErr n), list := s, startPtr := some p }
  | (p, none) =>
      let errPage := (checkErr o p).1
      let p := { p with baseTrigger := (checkErr o p).2 }
      let url := (p.mainUrl, formatTrigger p.baseTrigger (str "domain"))
      if o.insertNewUrl = false then
        { ret := errRet (opErr 5), list := s, startPtr := some p, errPage := errPage }
      else if o.push = false then
        { ret := errRet (opErr 6), list := s, startPtr := some p, errPage := errPage
          url := some url }
      else
        { ret := successRet, list := s, startPtr := some p, errPage := errPage, url := some url }

/-- `start(start_ptr)`, on the date whose year, month and day are given.  The new `task_map`
is the pointer `i`. -/
def start (task : ι → StartData) (year mon mday : ℕ) (i : ι) (s : TaskMapList ι) :
    Option TaskStartStruct → StartResult ι
  | none => { ret := errRet (systemErr 1), list := s }
  | some p =>
      let p := p.formatStart
      let task := Function.update task i ⟨p.mainUrl, year, mon, mday⟩
      let s := { s with startPtr := Function.update s.startPtr i true }
      if insertNewOk task s i = false then
        { ret := errRet (opErr 1), list := s.insertNew task i, startPtr := some p }
      else afterInsert o (s.insertNew task i) p

/-! ### What the list holds -/

variable {o} {task : ι → StartData} {s : TaskMapList ι} {i : ι} {p : TaskStartStruct}

/-- The id of a task is not empty, whatever its URL. -/
theorem makeUnionId_ne_nil (d : StartData) : d.makeUnionId ≠ [] := by
  have hmark : str "_" ≠ [] := by decide
  simp [StartData.makeUnionId, hmark]

/-- No error text is the text of a success. -/
theorem errRet_ne_successRet (n : ℕ) : errRet n ≠ successRet := by
  have hhead : ∀ text rest : Bytes, text ∈ [str "System err ", str "Function err ",
      str "Data err ", str "Operator refused " ++ str "Err ", str "Err "] →
      (text ++ rest).head? ≠ successRet.head? := by
    intro text rest htext
    simp only [List.mem_cons, List.not_mem_nil, or_false] at htext
    rcases htext with rfl | rfl | rfl | rfl | rfl <;>
      exact fun h => absurd (Option.some.inj h) (by decide)
  intro h
  unfold errRet at h
  rw [List.append_assoc] at h
  refine hhead _ _ ?_ (congrArg List.head? h)
  split_ifs <;> simp

omit [DecidableEq ι] in
/-- What follows `insert_new` leaves the list. -/
theorem afterInsert_list (s : TaskMapList ι) (p : TaskStartStruct) :
    (afterInsert o s p).list = s := by
  unfold afterInsert
  split
  · rfl
  · simp only
    split_ifs <;> rfl

/-- `insert_new` takes every new task. -/
theorem insertNewOk_new (task : ι → StartData) (s : TaskMapList ι) (i : ι) (d : StartData) :
    insertNewOk (Function.update task i d)
      { s with startPtr := Function.update s.startPtr i true } i = true := by
  simp [insertNewOk, makeUnionId_ne_nil]

/-- **The list behind a call**: with a start structure the new task is in it, whatever is
returned. -/
theorem start_mList (year mon mday : ℕ) (startPtr : Option TaskStartStruct) :
    (start o task year mon mday i s startPtr).list.mList =
      match startPtr with
      | none => s.mList
      | some _ => s.mList ++ [i] := by
  cases startPtr with
  | none => rfl
  | some p =>
      have hid : ∀ d : StartData, d.makeUnionId.isEmpty = false := by
        intro d
        simpa using makeUnionId_ne_nil d
      simp [start, insertNewOk, hid, afterInsert_list, TaskMapList.insertNew, makeUnionId_ne_nil]

/-! ### When an error is returned -/

/-- The main page is downloaded and decoded, a page of it with the status 200 has links, the
task takes its first URL, and the pool takes the job. -/
def Succeeds (o : Outcomes) (p : TaskStartStruct) : Prop :=
  ∃ recvRaw, o.downloadOne 0 p.mainUrl p.baseHead = some recvRaw ∧
    (o.httpReponseCompleted recvRaw p.baseTrigger).1 = true ∧
    (∃ h ∈ (o.httpReponseCompleted recvRaw p.baseTrigger).2.1, h.status = 200 ∧
      0 < o.crawlPage h.bodyOrigin (getPage p.mainUrl) p.domainSubLevelMin) ∧
    o.insertNewUrl = true ∧ o.push = true

/-- The main page is taken exactly if it is downloaded, parsed, and has a 200 response with
links. -/
theorem checkMain_snd_eq_none_iff :
    (checkMain o p).2 = none ↔ ∃ recvRaw, o.downloadOne 0 p.mainUrl p.baseHead = some recvRaw ∧
      (o.httpReponseCompleted recvRaw p.baseTrigger).1 = true ∧
      ∃ h ∈ (o.httpReponseCompleted recvRaw p.baseTrigger).2.1, h.status = 200 ∧
        0 < o.crawlPage h.bodyOrigin (getPage p.mainUrl) p.domainSubLevelMin := by
  unfold checkMain
  cases o.downloadOne 0 p.mainUrl p.baseHead with
  | none => simp
  | some recvRaw =>
      simp only [Option.some.injEq, exists_eq_left']
      cases (o.httpReponseCompleted recvRaw p.baseTrigger).1 with
      | false => simp
      | true =>
          simp only [Bool.true_eq_false, if_false, true_and]
          split_ifs with hlinks
          · simpa [hasLinks] using hlinks
          · simpa [hasLinks] using hlinks

omit [DecidableEq ι] in
/-- What follows `insert_new` succeeds exactly if the task does. -/
theorem afterInsert_ret_iff : (afterInsert o s p).ret = successRet ↔ Succeeds o p := by
  have hmain : (checkMain o p).2 = none ∧ o.insertNewUrl = true ∧ o.push = true ↔ Succeeds o p := by
    rw [checkMain_snd_eq_none_iff, Succeeds]
    simp only [← exists_and_right, and_assoc]
  rw [← hmain, afterInsert]
  rcases checkMain o p with ⟨q, _ | n⟩
  · cases o.insertNewUrl <;> cases o.push <;> simp [errRet_ne_successRet]
  · simp [errRet_ne_successRet]

/-- **`start` returns success exactly if the task can be started.** -/
theorem start_ret_iff (year mon mday : ℕ) :
    (start o task year mon mday i s (some p)).ret = successRet ↔ Succeeds o p.formatStart := by
  rw [start, insertNewOk_new]
  exact afterInsert_ret_iff

/-- **When a failed start leaves no trace**: there was no start structure, or nothing has
failed. -/
theorem start_noTrace_iff (o : Outcomes) (task : ι → StartData) (year mon mday : ℕ) (i : ι)
    (s : TaskMapList ι) (startPtr : Option TaskStartStruct) :
    ((start o task year mon mday i s startPtr).ret ≠ successRet →
        (start o task year mon mday i s startPtr).list.mList = s.mList) ↔
      ∀ p, startPtr = some p → Succeeds o p.formatStart := by
  rw [start_mList]
  cases startPtr with
  | none => simp
  | some p =>
      have hret : (start o task year mon mday i s (some p)).ret = successRet ↔
          Succeeds o p.formatStart := start_ret_iff year mon mday
      simp [hret]

/-- The download of the main page fails, and the new task stays in the list. -/
theorem start_leaves_task :
    let o : Outcomes :=
      { downloadOne := fun _ _ _ => none
        httpReponseCompleted := fun _ trigger => (false, [], trigger)
        crawlPage := fun _ _ _ => 0
        insertNewUrl := true
        push := true }
    let r := start o (fun _ => ⟨[], 0, 0, 0⟩) 113 5 7 0 (TaskMapList.init fun _ => false)
      (some ⟨str "http://a.com/", [], [], [], [], [], 2⟩)
    r.ret = str "Operator refused Err 40010002." ∧ r.list.mList = [0] := by
  decide

end TaskWork
end Scaner
