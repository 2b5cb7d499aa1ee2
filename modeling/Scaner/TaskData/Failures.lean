/-
# Insertions that run out of memory

`insert_new_url` and `insert_new_url_params` of `task_map` (`scaner_test/task_data.cpp`), when
an allocation fails at one of the statements that enter a URL in the three tables.  A
`std::map` that cannot allocate a node is as it was.

`insert_new_url` catches the exception and erases the URL and the number, without asking
whether this call has entered them: a URL that was there before loses its entry in
`url_no_map`.  `insert_new_url_params` catches nothing, and leaves the tables half filled.
`allOrNothing_iff` says when the tables are as they were.  When nothing fails, the calls are
those of `Scaner.TaskData.Tables` (`insertNewUrl_of_noFailure`).
-/

import Scaner.TaskData.Tables

namespace Scaner
namespace TaskData
namespace Failures

open Bytes

/-- The allocations of an insertion: the pair for `url_no_map` and its node, the pair for
`no_url_map` and its node, the new `task_url_struct`, and the node of `url_list`. -/
inductive Point
  | urlPair
  | urlNode
  | noPair
  | noNode
  | entry
  | listNode
  deriving DecidableEq

variable (formatUrlParams : Bytes → Bytes) (fails : Point → Bool)

/-- The statements that enter a URL, which fail at the points where `fails` says so; an
exception comes with the map at that moment.  `builds` if they make the `task_url_struct` too,
and are not given it. -/
def enterTables (builds : Bool) (m : TaskMap) (url : Bytes) (no : ℕ) : Except TaskMap TaskMap :=
  if fails .urlPair ∨ fails .urlNode then .error m
  else
    match m.urlNoMap url with
    | some _ => .ok m
    | none =>
        let m := { m with urlNoMap := Function.update m.urlNoMap url (some no) }
        if fails .noPair ∨ fails .noNode then .error m
        else
          let m := { m with noUrlMap := mapInsert m.noUrlMap no url }
          if builds ∧ fails .entry then .error m
          else if fails .listNode then .error m
          else .ok { m with urlList := mapInsert m.urlList no { urlOrigin := url } }

/-- The handler of `insert_new_url`. -/
def eraseEntered (m : TaskMap) (url : Bytes) (no : ℕ) : TaskMap :=
  { m with
    urlNoMap := Function.update m.urlNoMap url none
    noUrlMap := Function.update m.noUrlMap no none
    urlList := Function.update m.urlList no none }

/-- `insert_new_url`: its value, and the map behind it. -/
def insertNewUrl (m : TaskMap) (url : Bytes) : Bool × TaskMap :=
  let url := formatUrlParams url
  let no := m.nextNo
  let m := m.incNextNo
  match enterTables fails false m url no with
  | .ok m => (true, m)
  | .error m => (false, eraseEntered m url no)

/-- `insert_new_url_params`, which lets the exception pass. -/
def insertNewUrlParams (m : TaskMap) (page : Bytes) : Except TaskMap TaskMap :=
  if page = [] then .ok m
  else
    let page := formatUrlParams page
    let no := m.nextNo
    let m := m.incNextNo
    enterTables fails true m page no

/-- The two calls. -/
inductive Call
  | insertNewUrl
  | insertNewUrlParams

/-- What a call leaves; false when an exception was raised. -/
def Call.run (m : TaskMap) (url : Bytes) : Call → Bool × TaskMap
  | insertNewUrl => Failures.insertNewUrl formatUrlParams fails m url
  | insertNewUrlParams =>
      match Failures.insertNewUrlParams formatUrlParams fails m url with
      | .ok m => (true, m)
      | .error m => (false, m)

/-- The table invariant: two tables are inverse, and the third has the same numbers. -/
structure TablesAgree (m : TaskMap) : Prop where
  inverse : ∀ url no, m.urlNoMap url = some no ↔ m.noUrlMap no = some url
  listed : ∀ no, (m.urlList no).isSome = (m.noUrlMap no).isSome

/-- The three tables are the same. -/
structure SameTables (m m' : TaskMap) : Prop where
  urlNoMap : m'.urlNoMap = m.urlNoMap
  noUrlMap : m'.noUrlMap = m.noUrlMap
  urlList : m'.urlList = m.urlList

/-- The exception does no harm.  `insert_new_url` is given a URL and a number that are in no
table; `insert_new_url_params` fails before it has entered anything. -/
def Harmless (m : TaskMap) (url : Bytes) : Call → Prop
  | .insertNewUrl => m.urlNoMap (formatUrlParams url) = none ∧ m.noUrlMap m.nextNo = none
  | .insertNewUrlParams => fails .urlPair ∨ fails .urlNode

variable {formatUrlParams fails} {builds : Bool} {m m' : TaskMap} {url : Bytes} {no : ℕ}

/-- In a consistent map the tables agree. -/
theorem tablesAgree_of_consistent (h : m.Consistent) : TablesAgree m where
  inverse := h.inverse
  listed i := by rw [← h.listed i, Option.isSome_map]

/-! ### When nothing fails -/

/-- With no failure a URL is entered in all the tables. -/
theorem enterTables_of_noFailure (h : ∀ p, fails p = false) :
    enterTables fails builds m url no = .ok (m.enter url no) := by
  unfold enterTables TaskMap.enter
  cases m.urlNoMap url <;> simp [h]

/-- With memory enough, `insert_new_url` does what it does in one step. -/
theorem insertNewUrl_of_noFailure (h : ∀ p, fails p = false) (m : TaskMap) (url : Bytes) :
    insertNewUrl formatUrlParams fails m url = (true, m.insertNewUrl formatUrlParams url) := by
  rw [insertNewUrl]
  simp only [enterTables_of_noFailure h]
  rfl

/-- With no failure `insert_new_url_params` enters the page. -/
theorem insertNewUrlParams_of_noFailure (h : ∀ p, fails p = false) {page : Bytes}
    (hpage : page ≠ []) (m : TaskMap) :
    insertNewUrlParams formatUrlParams fails m page =
      .ok (m.incNextNo.enter (formatUrlParams page) m.nextNo) := by
  rw [insertNewUrlParams, if_neg hpage]
  exact enterTables_of_noFailure h

/-! ### Where an exception leaves the tables -/

/-- **The tables at the moment of the exception.** Nothing is entered, or the URL is new and
entered in the first table, and perhaps in the second. -/
theorem enterTables_error (h : enterTables fails builds m url no = .error m') :
    ((fails .urlPair ∨ fails .urlNode) ∧ m' = m) ∨
      (¬ (fails .urlPair ∨ fails .urlNode) ∧ m.urlNoMap url = none ∧
        m'.urlNoMap = Function.update m.urlNoMap url (some no) ∧
        (m'.noUrlMap = m.noUrlMap ∨ m'.noUrlMap = mapInsert m.noUrlMap no url) ∧
        m'.urlList = m.urlList) := by
  unfold enterTables at h
  by_cases hurl : fails .urlPair ∨ fails .urlNode
  · rw [if_pos hurl] at h
    exact Or.inl ⟨hurl, (Except.error.inj h).symm⟩
  · rw [if_neg hurl] at h
    cases hnew : m.urlNoMap url with
    | some i => simp [hnew] at h
    | none =>
        simp only [hnew] at h
        right
        split_ifs at h <;> obtain rfl := Except.error.inj h
        · exact ⟨hurl, rfl, rfl, Or.inl rfl, rfl⟩
        · exact ⟨hurl, rfl, rfl, Or.inr rfl, rfl⟩
        · exact ⟨hurl, rfl, rfl, Or.inr rfl, rfl⟩

/-- Erasing a key undoes the insertion under it. -/
theorem update_mapInsert {α β : Type} [DecidableEq α] (map : α → Option β) (key : α) (value : β) :
    Function.update (mapInsert map key value) key none = Function.update map key none := by
  unfold mapInsert
  split
  · rfl
  · exact Function.update_idem _ _ _

/-- The handler leaves what it would leave of the tables before the call. -/
theorem eraseEntered_error (h : enterTables fails builds m url no = .error m') :
    SameTables (eraseEntered m url no) (eraseEntered m' url no) := by
  obtain ⟨-, rfl⟩ | ⟨-, -, hurl, hno, hlist⟩ := enterTables_error h
  · exact ⟨rfl, rfl, rfl⟩
  · refine ⟨?_, ?_, ?_⟩
    · simp only [eraseEntered, hurl, Function.update_idem]
    · obtain hno | hno := hno
      · simp only [eraseEntered, hno]
      · simp only [eraseEntered, hno, update_mapInsert]
    · simp only [eraseEntered, hlist]

/-- Erasing changes nothing when there is nothing to erase. -/
theorem sameTables_eraseEntered (h : TablesAgree m) :
    SameTables m (eraseEntered m url no) ↔ m.urlNoMap url = none ∧ m.noUrlMap no = none := by
  constructor
  · rintro ⟨hurl, hno, -⟩
    exact ⟨(Function.update_eq_self_iff.1 hurl).symm, (Function.update_eq_self_iff.1 hno).symm⟩
  · rintro ⟨hurl, hno⟩
    have hlist : m.urlList no = none := by
      simpa [hno] using h.listed no
    exact ⟨Function.update_eq_self_iff.2 hurl.symm, Function.update_eq_self_iff.2 hno.symm,
      Function.update_eq_self_iff.2 hlist.symm⟩

/-- To have the same tables is transitive. -/
theorem SameTables.trans {m₁ m₂ m₃ : TaskMap} (h : SameTables m₁ m₂) (h' : SameTables m₂ m₃) :
    SameTables m₁ m₃ :=
  ⟨h'.urlNoMap.trans h.urlNoMap, h'.noUrlMap.trans h.noUrlMap, h'.urlList.trans h.urlList⟩

/-- To have the same tables is symmetric. -/
theorem SameTables.symm {m₁ m₂ : TaskMap} (h : SameTables m₁ m₂) : SameTables m₂ m₁ :=
  ⟨h.urlNoMap.symm, h.noUrlMap.symm, h.urlList.symm⟩

/-- A failed `insert_new_url` leaves the tables exactly if the URL and the number are in none of
them. -/
theorem insertNewUrl_sameTables_iff (h : TablesAgree m)
    (hraised : (insertNewUrl formatUrlParams fails m url).1 = false) :
    SameTables m (insertNewUrl formatUrlParams fails m url).2 ↔
      m.urlNoMap (formatUrlParams url) = none ∧ m.noUrlMap m.nextNo = none := by
  rw [← sameTables_eraseEntered h]
  unfold insertNewUrl at hraised ⊢
  cases henter : enterTables fails false m.incNextNo
      (formatUrlParams url) m.nextNo with
  | ok m' => simp [henter] at hraised
  | error m' =>
      simp only [henter]
      have hdrawn : SameTables (eraseEntered m (formatUrlParams url) m.nextNo)
          (eraseEntered m.incNextNo (formatUrlParams url) m.nextNo) :=
        ⟨rfl, rfl, rfl⟩
      have herased := hdrawn.trans (eraseEntered_error henter)
      exact ⟨fun hs => hs.trans herased.symm, fun hs => hs.trans herased⟩

/-- In the map of a task the next number is free, so that all depends on the URL. -/
theorem insertNewUrl_sameTables_iff_new (h : m.Consistent)
    (hraised : (insertNewUrl formatUrlParams fails m url).1 = false) :
    SameTables m (insertNewUrl formatUrlParams fails m url).2 ↔
      m.urlNoMap (formatUrlParams url) = none := by
  rw [insertNewUrl_sameTables_iff (tablesAgree_of_consistent h) hraised,
    and_iff_left h.noUrlMap_nextNo]

/-- A failed `insert_new_url_params` leaves the tables exactly if nothing has been entered yet. -/
theorem enterTables_sameTables_iff (h : enterTables fails builds m url no = .error m') :
    SameTables m m' ↔ fails .urlPair ∨ fails .urlNode := by
  obtain ⟨hfirst, rfl⟩ | ⟨hfirst, hnew, hurl, -⟩ := enterTables_error h
  · exact iff_of_true ⟨rfl, rfl, rfl⟩ hfirst
  · refine iff_of_false (fun hs => ?_) hfirst
    have hentered := congrFun (hurl.symm.trans hs.urlNoMap) url
    rw [Function.update_self, hnew] at hentered
    cases hentered

/-- **Insertion is all or nothing exactly when the exception is harmless.** -/
theorem allOrNothing_iff {call : Call} (h : TablesAgree m)
    (hraised : (call.run formatUrlParams fails m url).1 = false) :
    SameTables m (call.run formatUrlParams fails m url).2 ↔
      Harmless formatUrlParams fails m url call := by
  cases call with
  | insertNewUrl => exact insertNewUrl_sameTables_iff h hraised
  | insertNewUrlParams =>
      unfold Call.run insertNewUrlParams at hraised ⊢
      by_cases hpage : url = []
      · simp [hpage] at hraised
      · simp only [if_neg hpage] at hraised ⊢
        cases henter : enterTables fails true m.incNextNo
            (formatUrlParams url) m.nextNo with
        | ok m' => simp [henter] at hraised
        | error m' =>
            have hdrawn : SameTables m m.incNextNo := ⟨rfl, rfl, rfl⟩
            have hiff := enterTables_sameTables_iff henter
            exact ⟨fun hs => hiff.1 (hdrawn.symm.trans hs), fun hs => hdrawn.trans (hiff.2 hs)⟩

/-- The map with one URL. -/
def oneUrl : TaskMap := TaskMap.insertNewUrl id .empty (str "a")

/-- The tables of one URL agree. -/
theorem tablesAgree_oneUrl : TablesAgree oneUrl :=
  tablesAgree_of_consistent
    (TaskMap.consistent_empty.insertNewUrl id (by decide) (str "a"))

/-- Behind one URL, a new one that cannot be entered in `url_list`, and a page for which no
pair can be built. -/
theorem allOrNothing_newUrl :
    SameTables oneUrl (Call.insertNewUrl.run id (· = .listNode) oneUrl (str "b")).2 ∧
      SameTables oneUrl (Call.insertNewUrlParams.run id (· = .urlPair) oneUrl (str "a")).2 :=
  ⟨(allOrNothing_iff tablesAgree_oneUrl rfl).2 ⟨rfl, rfl⟩,
    (allOrNothing_iff tablesAgree_oneUrl rfl).2 (Or.inl rfl)⟩

/-- A URL that is there is lost from `url_no_map`, and a new page is left in `url_no_map`
only. -/
theorem exists_halfDone :
    (∃ m url, TablesAgree m ∧ (Call.insertNewUrl.run id (· = .urlPair) m url).1 = false ∧
      ¬ SameTables m (Call.insertNewUrl.run id (· = .urlPair) m url).2) ∧
    ∃ m page, TablesAgree m ∧ (Call.insertNewUrlParams.run id (· = .noPair) m page).1 = false ∧
      ¬ SameTables m (Call.insertNewUrlParams.run id (· = .noPair) m page).2 := by
  refine ⟨⟨oneUrl, str "a", tablesAgree_oneUrl, rfl, fun h => ?_⟩,
    ⟨.empty, str "a", tablesAgree_of_consistent TaskMap.consistent_empty, rfl, fun h => ?_⟩⟩
  · exact absurd (congrFun h.urlNoMap (str "a")) (by decide)
  · exact absurd (congrFun h.urlNoMap (str "a")) (by decide)

end Failures
end TaskData
end Scaner
