/-
# The tables of a task under several threads

`task_map` (`scaner_test/task_data.cpp`) keeps its URLs in three tables:
`url_no_map`, `no_url_map` and `url_list`.  `insert_new_url` draws its number from
`next_no` under `url_mutex`; `insert_new_url_params` draws it before it takes the
mutex.  Both then enter the URL in all three tables, which is one step.  The steps of
`fresh_one_url` are those of `Scaner.TaskData.Handout`, its lookup under the mutex.

`always_consistent`: whatever calls are made on however many threads, the three tables
say the same, and no number is handed out twice, as long as neither counter is taken
round.  The mutex has no part in that: a number that was drawn is entered at most once,
whoever draws it and when.  Every insertion draws a number, also one of a URL that is
there already, and after `2 ^ 32` of them the numbers start again
(`not_always_consistent`).  `exec_insertNewUrl_alone`: a call that runs alone does what
`TaskMap.insertNewUrl` does in one step.
-/

import Scaner.TaskData.Handout

namespace Scaner
namespace TaskData

open Trace

namespace TaskMap

/-- The updates of one insertion under `url_mutex`: a URL that is there already
changes nothing. -/
def enter (m : TaskMap) (url : Bytes) (no : ℕ) : TaskMap :=
  match m.urlNoMap url with
  | some _ => m
  | none => { m with
      urlNoMap := Function.update m.urlNoMap url (some no)
      noUrlMap := mapInsert m.noUrlMap no url
      urlList := mapInsert m.urlList no { urlOrigin := url } }

/-- The three tables say the same, about numbers that were drawn. -/
structure Consistent (m : TaskMap) : Prop where
  inverse : ∀ url no, m.urlNoMap url = some no ↔ m.noUrlMap no = some url
  listed : ∀ no, (m.urlList no).map (·.urlOrigin) = m.noUrlMap no
  lt_nextNo : ∀ no url, m.noUrlMap no = some url → no < m.nextNo

/-- There is nothing in the tables of a new task. -/
theorem consistent_empty : TaskMap.empty.Consistent where
  inverse _ _ := iff_of_false nofun nofun
  listed _ := rfl
  lt_nextNo _ _ h := nomatch h

variable {m m' : TaskMap} {url : Bytes} {no : ℕ}

/-- `insert_new_url` draws a number and enters the URL under it. -/
theorem insertNewUrl_eq_enter (formatUrlParams : Bytes → Bytes) (m : TaskMap) (url : Bytes) :
    m.insertNewUrl formatUrlParams url =
      m.incNextNo.enter (formatUrlParams url) m.nextNo := rfl

/-- Entering a URL leaves the counters. -/
theorem enter_fields (m : TaskMap) (url : Bytes) (no : ℕ) :
    (m.enter url no).nextNo = m.nextNo ∧ (m.enter url no).nextWorkNo = m.nextWorkNo := by
  unfold enter
  split <;> exact ⟨rfl, rfl⟩

/-- The numbers that are in the tables after an insertion. -/
theorem noUrlMap_enter (i : ℕ) (u : Bytes) (h : (m.enter url no).noUrlMap i = some u) :
    m.noUrlMap i = some u ∨ i = no := by
  unfold enter at h
  split at h
  · exact Or.inl h
  · unfold mapInsert at h
    split at h
    · exact Or.inl h
    · by_cases hi : i = no
      · exact Or.inr hi
      · simp only [Function.update_of_ne hi] at h
        exact Or.inl h

/-- Only the tables and `next_no` count. -/
theorem Consistent.congr (h : m.Consistent) (hurl : m'.urlNoMap = m.urlNoMap)
    (hno : m'.noUrlMap = m.noUrlMap) (hlist : m'.urlList = m.urlList)
    (hnext : m.nextNo ≤ m'.nextNo) : m'.Consistent where
  inverse u i := by rw [hurl, hno, h.inverse]
  listed i := by rw [hno, hlist, h.listed]
  lt_nextNo i u hi := (h.lt_nextNo i u (hno ▸ hi)).trans_le hnext

/-- **A URL that is entered under a number of its own keeps the tables consistent.** -/
theorem Consistent.enter (h : m.Consistent) (hlt : no < m.nextNo) (hfree : m.noUrlMap no = none) :
    (m.enter url no).Consistent := by
  have hunlisted : m.urlList no = none := by
    rw [← Option.map_eq_none_iff (f := (·.urlOrigin)), h.listed no, hfree]
  unfold TaskMap.enter
  split
  · exact h
  · rename_i hnew
    simp only [mapInsert, hfree, hunlisted]
    constructor
    case inverse =>
      intro u i
      by_cases hu : u = url
      · subst hu
        by_cases hi : i = no
        · subst hi
          simp
        · have hother : m.noUrlMap i ≠ some u := by
            rw [ne_eq, ← h.inverse, hnew]
            simp
          simp [Function.update_of_ne hi, hother, Ne.symm hi]
      · by_cases hi : i = no
        · subst hi
          have hother : m.urlNoMap u ≠ some i := by
            rw [ne_eq, h.inverse, hfree]
            simp
          simp [Function.update_of_ne hu, hother, Ne.symm hu]
        · simp only [Function.update_of_ne hu, Function.update_of_ne hi]
          exact h.inverse u i
    case listed =>
      intro i
      by_cases hi : i = no
      · subst hi
        simp
      · simp only [Function.update_of_ne hi]
        exact h.listed i
    case lt_nextNo =>
      intro i u hi
      by_cases hin : i = no
      · exact hin ▸ hlt
      · simp only [Function.update_of_ne hin] at hi
        exact h.lt_nextNo i u hi

/-- The next number is in no table. -/
theorem Consistent.noUrlMap_nextNo (h : m.Consistent) : m.noUrlMap m.nextNo = none := by
  by_contra hne
  obtain ⟨u, hu⟩ := Option.ne_none_iff_exists'.1 hne
  exact lt_irrefl _ (h.lt_nextNo _ u hu)

/-- A number that is drawn before the counter wraps leaves the tables consistent. -/
theorem Consistent.incNextNo (h : m.Consistent) (hno : m.nextNo + 1 < 2 ^ 32) :
    m.incNextNo.Consistent ∧ m.nextNo < m.incNextNo.nextNo := by
  have hinc : m.incNextNo.nextNo = m.nextNo + 1 := incSize_of_lt hno
  exact ⟨h.congr rfl rfl rfl (by omega), by omega⟩

/-- A call of `insert_new_url` keeps the tables consistent, as long as its number is new. -/
theorem Consistent.insertNewUrl (formatUrlParams : Bytes → Bytes) (h : m.Consistent)
    (hno : m.nextNo + 1 < 2 ^ 32) (url : Bytes) :
    (m.insertNewUrl formatUrlParams url).Consistent := by
  obtain ⟨hdrawn, hlt⟩ := h.incNextNo hno
  rw [insertNewUrl_eq_enter]
  exact hdrawn.enter hlt h.noUrlMap_nextNo

/-- A URL whose `url_origin` stays keeps the tables consistent. -/
theorem Consistent.update {old : TaskUrlStruct} (h : m.Consistent) (new : TaskUrlStruct)
    (hold : m.urlList no = some old) (horigin : new.urlOrigin = old.urlOrigin)
    (hurl : m'.urlNoMap = m.urlNoMap) (hno : m'.noUrlMap = m.noUrlMap)
    (hlist : m'.urlList = Function.update m.urlList no (some new))
    (hnext : m'.nextNo = m.nextNo) : m'.Consistent where
  inverse u i := by rw [hurl, hno, h.inverse]
  listed i := by
    rw [hno, hlist, ← h.listed]
    by_cases hi : i = no
    · subst hi
      simp [hold, horigin]
    · rw [Function.update_of_ne hi]
  lt_nextNo i u hi := hnext ▸ h.lt_nextNo i u (hno ▸ hi)

/-- The URLs of the list are those that are known. -/
theorem Consistent.known_iff (h : m.Consistent) (u : Bytes) :
    (∃ no entry, m.urlList no = some entry ∧ entry.urlOrigin = u) ↔ m.urlNoMap u ≠ none := by
  rw [Option.ne_none_iff_exists']
  constructor
  · rintro ⟨no, entry, hentry, rfl⟩
    refine ⟨no, (h.inverse _ _).2 ?_⟩
    rw [← h.listed, hentry]
    rfl
  · rintro ⟨no, hno⟩
    rw [h.inverse, ← h.listed, Option.map_eq_some_iff] at hno
    exact ⟨no, hno⟩

end TaskMap

/-- The calls that a thread makes. -/
inductive TableCall
  | insertNewUrl (url : Bytes)
  | insertNewUrlParams (page : Bytes)
  | freshOneUrl

/-- The next step of a thread: one of `fresh_one_url`, to take `url_mutex`, to draw a
number, or to enter the URL under it; `locked` when the thread holds the mutex then. -/
inductive TablePc
  | fresh (pc : FreshPc)
  | lock (url : Bytes)
  | draw (url : Bytes) (locked : Bool)
  | enter (url : Bytes) (no : ℕ) (locked : Bool)
  deriving DecidableEq

/-- The lookup of `fresh_one_url`, which takes `url_mutex`. -/
def FreshPc.isLookup : FreshPc → Bool
  | lookup _ => true
  | _ => false

namespace TablePc

/-- A thread that is in no call. -/
def idle : TablePc := fresh .idle

/-- The number that an insertion has drawn and not yet entered. -/
def drawn : TablePc → Option ℕ
  | enter _ no _ => some no
  | _ => none

/-- The number that a call of `fresh_one_url` holds. -/
def fetched : TablePc → Option ℕ
  | fresh pc => pc.held
  | _ => none

/-- The thread is about to draw a number. -/
def isDraw : TablePc → Bool
  | draw _ _ => true
  | _ => false

/-- The first step of a call. -/
def start (formatUrlParams : Bytes → Bytes) : TableCall → TablePc
  | .insertNewUrl url => lock (formatUrlParams url)
  | .insertNewUrlParams page => if page = [] then idle else draw (formatUrlParams page) false
  | .freshOneUrl => fresh .guardNo

/-- A call begins with no number. -/
theorem drawn_start (formatUrlParams : Bytes → Bytes) (c : TableCall) :
    (start formatUrlParams c).drawn = none ∧ (start formatUrlParams c).fetched = none := by
  cases c with
  | insertNewUrlParams page =>
      rw [start]
      split_ifs <;> exact ⟨rfl, rfl⟩
  | _ => exact ⟨rfl, rfl⟩

end TablePc

/-- The map, the thread that holds `url_mutex`, the numbers that calls of
`fresh_one_url` have returned, and the threads. -/
structure Tables (ι : Type) where
  map : TaskMap
  urlMutex : Option ι
  returned : List ℕ
  pc : ι → TablePc

/-- The start of a call and a step of one. -/
inductive TableAction (ι : Type)
  | call (i : ι) (c : TableCall)
  | move (i : ι)

namespace Tables

variable {ι : Type}

/-- The step of the thread `i` does not take a counter round. -/
def InRange (s : Tables ι) : TableAction ι → Prop
  | .call _ _ => True
  | .move i => ((s.pc i).isDraw = true → s.map.nextNo + 1 < 2 ^ 32) ∧
      (s.pc i = .fresh .fetch → s.map.nextWorkNo + 1 < 2 ^ 32)

instance (s : Tables ι) : ∀ a, Decidable (s.InRange a)
  | .call _ _ => inferInstanceAs (Decidable True)
  | .move _ => inferInstanceAs (Decidable ((_ → _) ∧ (_ → _)))

variable [DecidableEq ι]

/-- A step of the thread `i`. -/
def move (s : Tables ι) (i : ι) : Option (Tables ι) :=
  match s.pc i with
  | .lock url =>
      if s.urlMutex = none then
        some { s with urlMutex := some i, pc := Function.update s.pc i (.draw url true) }
      else none
  | .draw url locked =>
      some { s with
        map := s.map.incNextNo
        pc := Function.update s.pc i (.enter url s.map.nextNo locked) }
  | .enter url no locked =>
      if locked = true ∨ s.urlMutex = none then
        some { s with
          map := s.map.enter url no, urlMutex := none, pc := Function.update s.pc i .idle }
      else none
  | .fresh pc =>
      if pc.isLookup = true ∧ s.urlMutex ≠ none then none
      else
        match Handout.move s.map pc with
        | some (map, pc, no) =>
            some ⟨map, s.urlMutex, s.returned ++ no.toList, Function.update s.pc i (.fresh pc)⟩
        | none => none

/-- What an action does. -/
def step (formatUrlParams : Bytes → Bytes) (s : Tables ι) : TableAction ι → Option (Tables ι)
  | .call i c =>
      if s.pc i = .idle then
        some { s with pc := Function.update s.pc i (.start formatUrlParams c) }
      else none
  | .move i => s.move i

/-- An empty map, and no calls. -/
def init : Tables ι := ⟨.empty, none, [], fun _ => .idle⟩

variable {formatUrlParams : Bytes → Bytes} {s t : Tables ι}

/-- **What an action does**: it starts a call, takes the mutex, draws a number, enters a
URL under the number that was drawn, or takes a step of `fresh_one_url`. -/
theorem step_cases {a : TableAction ι} (h : s.step formatUrlParams a = some t) :
    ∃ i p, t.pc = Function.update s.pc i p ∧
      ((t.map = s.map ∧ t.returned = s.returned ∧ (s.pc i).drawn = none ∧ p.drawn = none ∧
          (s.pc i).fetched = none ∧ p.fetched = none) ∨
        (∃ url locked, a = .move i ∧ s.pc i = .draw url locked ∧
          p = .enter url s.map.nextNo locked ∧
          t.map = s.map.incNextNo ∧ t.returned = s.returned) ∨
        (∃ url no locked, s.pc i = .enter url no locked ∧ p = .idle ∧
          t.map = s.map.enter url no ∧ t.returned = s.returned) ∨
        ∃ q q' r, a = .move i ∧ s.pc i = .fresh q ∧ p = .fresh q' ∧
          Handout.move s.map q = some (t.map, q', r) ∧ t.returned = s.returned ++ r.toList) := by
  cases a with
  | call i c =>
      simp only [step] at h
      split_ifs at h with hidle
      obtain rfl := Option.some.inj h
      obtain ⟨hdrawn, hfetched⟩ := TablePc.drawn_start formatUrlParams c
      exact ⟨i, _, rfl, Or.inl ⟨rfl, rfl, by rw [hidle]; rfl, hdrawn, by rw [hidle]; rfl, hfetched⟩⟩
  | move i =>
      simp only [step, move] at h
      split at h
      · rename_i url hpc
        split_ifs at h
        obtain rfl := Option.some.inj h
        exact ⟨i, _, rfl, Or.inl ⟨rfl, rfl, by rw [hpc]; rfl, rfl, by rw [hpc]; rfl, rfl⟩⟩
      · rename_i url locked hpc
        obtain rfl := Option.some.inj h
        exact ⟨i, _, rfl, Or.inr (Or.inl ⟨url, locked, rfl, hpc, rfl, rfl, rfl⟩)⟩
      · rename_i url no locked hpc
        split_ifs at h
        obtain rfl := Option.some.inj h
        exact ⟨i, _, rfl, Or.inr (Or.inr (Or.inl ⟨url, no, locked, hpc, rfl, rfl, rfl⟩))⟩
      · rename_i q hpc
        split_ifs at h
        split at h
        · rename_i m q' r hmove
          obtain rfl := Option.some.inj h
          exact ⟨i, _, rfl, Or.inr (Or.inr (Or.inr ⟨_, q', r, rfl, hpc, rfl, hmove, rfl⟩))⟩
        · cases h

/-! ### Two counters -/

/-- The numbers of the insertions, of which those in `entered` were used. -/
def inserts (s : Tables ι) (entered : List ℕ) : Tickets ι :=
  ⟨s.map.nextNo, fun i => (s.pc i).drawn, entered⟩

/-- The numbers that are handed out. -/
def fetches (s : Tables ι) : Tickets ι :=
  ⟨s.map.nextWorkNo, fun i => (s.pc i).fetched, s.returned⟩

/-- The numbers drawn by the threads, after one has moved. -/
theorem inserts_update {i : ι} {p : TablePc} (hpc : t.pc = Function.update s.pc i p)
    (entered : List ℕ) : t.inserts entered =
      ⟨t.map.nextNo, Function.update (fun j => (s.pc j).drawn) i p.drawn, entered⟩ := by
  simp only [inserts, hpc, Function.apply_update fun _ => TablePc.drawn]

/-- The numbers fetched by the threads, after one has moved. -/
theorem fetches_update {i : ι} {p : TablePc} (hpc : t.pc = Function.update s.pc i p) :
    t.fetches =
      ⟨t.map.nextWorkNo, Function.update (fun j => (s.pc j).fetched) i p.fetched, t.returned⟩ := by
  simp only [fetches, hpc, Function.apply_update fun _ => TablePc.fetched]

/-- **The calls of `fresh_one_url` draw numbers from a counter**, or leave them alone. -/
theorem step_fetches {a : TableAction ι} (hin : s.InRange a)
    (hst : s.step formatUrlParams a = some t) :
    t.fetches = s.fetches ∨ Tickets.Step s.fetches t.fetches := by
  obtain ⟨i, p, hpc, hcases⟩ := step_cases hst
  rw [fetches_update hpc]
  rcases hcases with ⟨hmap, hret, -, -, hf, hf'⟩ | ⟨url, locked, -, hi, rfl, hmap, hret⟩ |
    ⟨url, no, locked, hi, rfl, hmap, hret⟩ | ⟨q, q', r, rfl, hi, rfl, hmove, hret⟩
  · left
    simp [fetches, hmap, hret, hf', ← hf]
  · left
    simp [fetches, hmap, hret, TablePc.fetched, hi, TaskMap.incNextNo]
  · left
    simp [fetches, hmap, hret, TablePc.fetched, TablePc.idle, FreshPc.held, hi,
      (s.map.enter_fields url no).2]
  · rw [hret]
    exact Handout.move_tickets (fun j => (s.pc j).fetched) (congrArg TablePc.fetched hi)
      s.returned (fun hq => hin.2 (hq ▸ hi)) hmove

/-- The tables are consistent, and hold numbers that were drawn for them. -/
structure Inv (s : Tables ι) : Prop where
  consistent : s.map.Consistent
  drawn : ∃ entered, (s.inserts entered).Distinct ∧
    ∀ no url, s.map.noUrlMap no = some url → no ∈ entered

/-- A step of `fresh_one_url` leaves the tables alone. -/
theorem move_tables {m m' : TaskMap} {q q' : FreshPc} {r : Option ℕ}
    (h : Handout.move m q = some (m', q', r)) :
    m'.urlNoMap = m.urlNoMap ∧ m'.noUrlMap = m.noUrlMap := by
  unfold Handout.move at h
  split at h
  all_goals try split at h
  all_goals simp only [Option.some.injEq, Prod.mk.injEq, reduceCtorEq] at h
  all_goals
    obtain ⟨rfl, -⟩ := h
    exact ⟨rfl, rfl⟩

/-- **Every action in range keeps the tables consistent and the numbers apart.** -/
theorem Inv.step {a : TableAction ι} (h : s.Inv) (hin : s.InRange a)
    (hst : s.step formatUrlParams a = some t) : t.Inv := by
  obtain ⟨i, p, hpc, hcases⟩ := step_cases hst
  obtain ⟨entered, hdistinct, hentered⟩ := h.drawn
  rcases hcases with ⟨hmap, -, hd, hd', -, -⟩ | ⟨url, locked, rfl, hi, rfl, hmap, -⟩ |
    ⟨url, no, locked, hi, rfl, hmap, -⟩ | ⟨q, q', r, -, hi, rfl, hmove, -⟩
  · have hsame : t.inserts entered = s.inserts entered := by
      rw [inserts_update hpc]
      simp [inserts, hmap, hd', ← hd]
    exact ⟨hmap ▸ h.consistent, entered, hsame ▸ hdistinct, hmap ▸ hentered⟩
  · have hlt : s.map.nextNo + 1 < 2 ^ 32 := hin.1 (congrArg TablePc.isDraw hi)
    have hinc : t.map.nextNo = s.map.nextNo + 1 := by
      rw [hmap]
      exact incSize_of_lt hlt
    have hdraw : Tickets.Step (s.inserts entered) (t.inserts entered) := by
      rw [inserts_update hpc, hinc]
      exact .draw i (congrArg TablePc.drawn hi)
    refine ⟨?_, entered, hdistinct.step hdraw, ?_⟩
    · rw [hmap]
      exact (h.consistent.incNextNo hlt).1
    · rw [hmap]
      exact hentered
  · have hheld : (s.inserts entered).held i = some no := congrArg TablePc.drawn hi
    have huse : Tickets.Step (s.inserts entered) (t.inserts (entered ++ [no])) := by
      rw [inserts_update hpc, hmap, (s.map.enter_fields url no).1]
      exact .use i no hheld
    have hfree : s.map.noUrlMap no = none := by
      by_contra hne
      obtain ⟨u, hu⟩ := Option.ne_none_iff_exists'.1 hne
      exact hdistinct.not_used i no hheld (hentered no u hu)
    refine ⟨hmap ▸ h.consistent.enter (hdistinct.held_lt i no hheld) hfree, entered ++ [no],
      hdistinct.step huse, fun j u hj => ?_⟩
    rw [hmap] at hj
    rcases TaskMap.noUrlMap_enter j u hj with hj | rfl
    · exact List.mem_append_left _ (hentered j u hj)
    · exact List.mem_append_right _ (List.mem_singleton_self j)
  · obtain ⟨hnext, hlist, -⟩ := Handout.move_cases hmove
    obtain ⟨hurl, hno⟩ := move_tables hmove
    have hsame : t.inserts entered = s.inserts entered := by
      rw [inserts_update hpc]
      simp [inserts, hnext, TablePc.drawn, hi]
    exact ⟨h.consistent.congr hurl hno hlist hnext.ge, entered, hsame ▸ hdistinct,
      hno ▸ hentered⟩

/-- **The tables stay consistent under concurrency**: in every state of every interleaving
of the calls, on any number of threads, in which no counter is taken round. -/
theorem always_consistent (formatUrlParams : Bytes → Bytes) {as : List (TableAction ι)}
    (hin : Along (step formatUrlParams) InRange init as) :
    Always (step formatUrlParams) (fun s : Tables ι => s.map.Consistent ∧ s.returned.Nodup)
      init as := by
  have hinit : (init : Tables ι).Inv ∧ (init : Tables ι).fetches.Distinct :=
    ⟨⟨TaskMap.consistent_empty,
      [], ⟨nofun, nofun, nofun, nofun, List.nodup_nil⟩, nofun⟩,
      ⟨nofun, nofun, nofun, nofun, List.nodup_nil⟩⟩
  refine (always_of_along (I := fun s : Tables ι => s.Inv ∧ s.fetches.Distinct) hinit
    (fun s a t h hin hst => ⟨h.1.step hin hst, ?_⟩) hin).mono
      fun s h => ⟨h.1.consistent, h.2.nodup⟩
  rcases step_fetches hin hst with heq | hdraw
  · exact heq ▸ h.2
  · exact h.2.step hdraw

/-- A call of `insert_new_url` on the thread `i`, from its start to its end. -/
def insertCall {ι : Type} (i : ι) (url : Bytes) : List (TableAction ι) :=
  .call i (.insertNewUrl url) :: List.replicate 3 (.move i)

/-- **A call of `insert_new_url` that runs alone does what `TaskMap.insertNewUrl` does.** -/
theorem exec_insertNewUrl_alone {i : ι} (hidle : s.pc i = .idle) (hfree : s.urlMutex = none)
    (url : Bytes) :
    exec (step formatUrlParams) s (insertCall i url) =
      some { s with map := s.map.insertNewUrl formatUrlParams url } := by
  have hend : Function.update s.pc i .idle = s.pc := by rw [← hidle, Function.update_eq_self]
  simp [insertCall, exec, step, move, hidle, TablePc.start, hfree, List.replicate,
    TaskMap.insertNewUrl_eq_enter, hend]

/-- Two threads insert, the one without the mutex in the middle of the other's call, and both
take a URL. -/
def twoThreads : List (TableAction (Fin 2)) :=
  [.call 0 (.insertNewUrl (Bytes.str "a")), .call 1 (.insertNewUrlParams (Bytes.str "b")), .move 0,
    .move 1, .move 0, .move 0, .move 1] ++
  (.call 0 .freshOneUrl :: .call 1 .freshOneUrl :: List.replicate 9 (.move 0)) ++
  List.replicate 9 (.move 1)

/-- Two threads enter a URL each and fetch them, with their steps mixed. -/
theorem always_consistent_twoThreads :
    ∃ t : Tables (Fin 2), exec (step id) init twoThreads = some t ∧ t.returned = [0, 1] ∧
      t.map.noUrlMap 0 = some (Bytes.str "b") ∧ t.map.Consistent ∧ t.returned.Nodup := by
  have hin : Along (step id) InRange (init : Tables (Fin 2)) twoThreads := by decide +kernel
  have hrun : (exec (step id) (init : Tables (Fin 2)) twoThreads).map
      (fun t => (t.returned, t.map.noUrlMap 0)) = some ([0, 1], some (Bytes.str "b")) := by
    decide +kernel
  obtain ⟨t, ht, hfields⟩ := Option.map_eq_some_iff.1 hrun
  obtain ⟨hreturned, hno⟩ := Prod.mk.inj hfields
  exact ⟨t, ht, hreturned, hno, (always_consistent id hin).last ht⟩

/-! ### The numbers come round -/

/-- A URL that is known takes a number each time it is inserted. -/
theorem exec_insertCalls (formatUrlParams : Bytes → Bytes) {i : ι} {url : Bytes}
    (hidle : s.pc i = .idle) (hfree : s.urlMutex = none)
    (hurl : s.map.urlNoMap (formatUrlParams url) ≠ none) (n : ℕ) :
    ∃ m : TaskMap, exec (step formatUrlParams) s (List.replicate n (insertCall i url)).flatten =
        some { s with map := m } ∧
      m.nextNo = (s.map.nextNo + n) % 2 ^ 32 ∧ m.noUrlMap = s.map.noUrlMap := by
  induction n generalizing s with
  | zero => exact ⟨s.map, rfl, (Nat.mod_eq_of_lt s.map.nextNo_lt).symm, rfl⟩
  | succ n ih =>
      obtain ⟨m, hm, hnext, hno⟩ :=
        ih (s := { s with map := s.map.incNextNo }) hidle hfree hurl
      have hinc : s.map.incNextNo.nextNo = (s.map.nextNo + 1) % 2 ^ 32 := rfl
      refine ⟨m, ?_, ?_, hno⟩
      · rw [List.replicate_succ, List.flatten_cons]
        refine exec_append.2 ⟨_, exec_insertNewUrl_alone hidle hfree url, ?_⟩
        rw [TaskMap.insertNewUrl_known hurl]
        exact hm
      · rw [hnext, hinc, Nat.mod_add_mod, Nat.add_assoc, Nat.add_comm 1 n]

/-- One thread that inserts the same URL again and again takes `next_no` round to its number. -/
theorem not_always_consistent :
    ¬ Always (step id) (fun s : Tables Unit => s.map.Consistent ∧ s.returned.Nodup) init
      (insertCall () (Bytes.str "a") ++
        (List.replicate (2 ^ 32 - 1) (insertCall () (Bytes.str "a"))).flatten) := by
  intro hall
  have hfirst : exec (step id) (init : Tables Unit) (insertCall () (Bytes.str "a")) =
      some ⟨TaskMap.insertNewUrl id .empty (Bytes.str "a"), none, [], fun _ => .idle⟩ :=
    exec_insertNewUrl_alone rfl rfl _
  have hknown :
      (TaskMap.insertNewUrl id .empty (Bytes.str "a")).urlNoMap (Bytes.str "a") ≠ none := by
    decide
  obtain ⟨m, hm, hnext, hno⟩ := exec_insertCalls id
    (s := ⟨TaskMap.insertNewUrl id .empty (Bytes.str "a"), none, [], fun _ : Unit => .idle⟩)
    (i := ()) rfl rfl hknown (2 ^ 32 - 1)
  obtain ⟨hcons, -⟩ := hall.last (exec_append.2 ⟨_, hfirst, hm⟩)
  have hentry : m.noUrlMap 0 = some (Bytes.str "a") := hno ▸ rfl
  have hlt : 0 < m.nextNo := hcons.lt_nextNo 0 _ hentry
  have hzero : m.nextNo = 0 := hnext
  omega

end Tables

end TaskData
end Scaner
