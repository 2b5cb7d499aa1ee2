/-
# The scope of a crawl

A task crawls from its main URL, with a level `domain_sub_level_min` that says how far the
domain of a URL may be from that of the main URL.  `pull_and_download_url`
(`scaner_test/task_work.cpp`) takes the links of its pages with `crawl_page`, and these are
the URLs that the job of `Scaner.TaskWork.Crawl` inserts.  Here a job is given the documents
instead.

The links of a page are compared with the page, not with the main URL, and at the default
level of `crawl_page`, which is `2`.  A link that is no URL is added to the URL of the page,
which need not have anything that ends its domain.  `always_inScope_iff`: the crawl stays in
its scope in the runs in which every `href` that is followed `StaysInScope`; and in these
only, as long as `next_no` is not taken round, when a URL may not be entered in `url_list`
for want of a number.

`plugins_server::html_parser` is declared in the repository and not defined; here it hands
its arguments to `API_html_parser`.
-/

import Scaner.HtmlParser.Links
import Scaner.TaskData.Tables
import Scaner.TaskWork.Crawl

namespace Scaner

/-! ### The URLs that a task has -/

namespace TaskData
namespace TaskMap

variable {m m' : TaskMap} {no : ℕ}

/-- The URL `u` is in the list of the task. -/
def Lists (m : TaskMap) (u : Bytes) : Prop :=
  ∃ no entry, m.urlList no = some entry ∧ entry.urlOrigin = u

/-- `m'` is `m` with the URLs `urls`.  If there are numbers for all of them, they are all
there. -/
structure Adds (m : TaskMap) (urls : List Bytes) (m' : TaskMap) : Prop where
  nextNo : m'.nextNo = (m.nextNo + urls.length) % 2 ^ 32
  lists : ∀ u, m'.Lists u → m.Lists u ∨ u ∈ urls
  known : m.Consistent → m.nextNo + urls.length < 2 ^ 32 →
    m'.Consistent ∧ ∀ u, m'.urlNoMap u ≠ none ↔ m.urlNoMap u ≠ none ∨ u ∈ urls

/-- URLs that are added in two steps. -/
theorem Adds.trans {m₁ m₂ m₃ : TaskMap} {us vs : List Bytes} (h : m₁.Adds us m₂)
    (h' : m₂.Adds vs m₃) : m₁.Adds (us ++ vs) m₃ where
  nextNo := by
    rw [h'.nextNo, h.nextNo, Nat.mod_add_mod, List.length_append, Nat.add_assoc]
  lists u hu := by
    rw [List.mem_append, ← or_assoc]
    exact (h'.lists u hu).imp (h.lists u) id
  known hcons hlen := by
    rw [List.length_append] at hlen
    obtain ⟨hcons₂, hknown₂⟩ := h.known hcons (by omega)
    have hnext : m₂.nextNo = m₁.nextNo + us.length :=
      h.nextNo.trans (Nat.mod_eq_of_lt (by omega))
    obtain ⟨hcons₃, hknown₃⟩ := h'.known hcons₂ (by omega)
    refine ⟨hcons₃, fun u => ?_⟩
    rw [hknown₃, hknown₂, List.mem_append, or_assoc]

/-- The same tables. -/
theorem Adds.of_eq (hurl : m'.urlNoMap = m.urlNoMap) (hno : m'.noUrlMap = m.noUrlMap)
    (hlist : m'.urlList = m.urlList) (hnext : m'.nextNo = m.nextNo) : m.Adds [] m' where
  nextNo := hnext.trans (Nat.mod_eq_of_lt m.nextNo_lt).symm
  lists u hu := by
    rw [Lists, hlist] at hu
    exact Or.inl hu
  known hcons _ := ⟨hcons.congr hurl hno hlist hnext.ge, fun u => by simp [hurl]⟩

/-- A URL whose `url_origin` stays. -/
theorem Adds.of_update {old : TaskUrlStruct} (new : TaskUrlStruct)
    (hold : m.urlList no = some old) (horigin : new.urlOrigin = old.urlOrigin)
    (hurl : m'.urlNoMap = m.urlNoMap) (hno : m'.noUrlMap = m.noUrlMap)
    (hlist : m'.urlList = Function.update m.urlList no (some new))
    (hnext : m'.nextNo = m.nextNo) : m.Adds [] m' where
  nextNo := hnext.trans (Nat.mod_eq_of_lt m.nextNo_lt).symm
  lists u := by
    rintro ⟨i, entry, hentry, rfl⟩
    rw [hlist] at hentry
    by_cases hi : i = no
    · subst hi
      obtain rfl : new = entry := by simpa using hentry
      exact Or.inl ⟨i, old, hold, horigin.symm⟩
    · rw [Function.update_of_ne hi] at hentry
      exact Or.inl ⟨i, entry, hentry, rfl⟩
  known hcons _ :=
    ⟨hcons.update new hold horigin hurl hno hlist hnext, fun u => by simp [hurl]⟩

/-- One call of `insert_new_url` adds one URL. -/
theorem adds_insertNewUrl (m : TaskMap) (url : Bytes) : m.Adds [url] (m.insertNewUrl id url) where
  nextNo := (insertNewUrl_fields id m url).1
  lists u := by
    rintro ⟨i, entry, hentry, rfl⟩
    rw [urlList_insertNewUrl] at hentry
    split_ifs at hentry
    · obtain rfl := Option.some.inj hentry
      exact Or.inr (List.mem_singleton.2 rfl)
    · exact Or.inl ⟨i, entry, hentry, rfl⟩
  known hcons hlen := by
    refine ⟨hcons.insertNewUrl id hlen url, fun u => ?_⟩
    rw [urlNoMap_insertNewUrl, List.mem_singleton, id]

/-- The loop over the URLs of a page adds them all. -/
theorem adds_foldl (m : TaskMap) (urls : List Bytes) :
    m.Adds urls (urls.foldl (insertNewUrl id) m) := by
  induction urls generalizing m with
  | nil => exact .of_eq rfl rfl rfl rfl
  | cons url urls ih => exact (adds_insertNewUrl m url).trans (ih _)

/-- Setting `running_thread` adds no URL. -/
theorem adds_setRunningThread (m : TaskMap) (no : ℕ) (n : ℤ) :
    m.Adds [] (m.setRunningThread no n) := by
  unfold setRunningThread
  split
  · rename_i old hold
    exact .of_update { old with runningThread := n } hold rfl rfl rfl rfl rfl
  · exact .of_eq rfl rfl rfl rfl

/-- Finishing a URL adds none. -/
theorem adds_finishedOneUrl (m : TaskMap) (no : ℕ) : m.Adds [] (m.finishedOneUrl no).1 := by
  cases hold : m.urlList no with
  | none =>
      simp only [finishedOneUrl, hold]
      exact .of_eq rfl rfl rfl rfl
  | some old =>
      obtain ⟨n, hfin⟩ := finishedOneUrl_eq hold
      rw [hfin]
      exact .of_update { old with runningThread := finishedThread old.runningThread } hold
        rfl rfl rfl rfl rfl

/-- Handing out a URL adds none. -/
theorem adds_freshOneUrl (m : TaskMap) : m.Adds [] m.freshOneUrl.1 := by
  cases hf : m.freshOneUrl with
  | mk m' r =>
      cases r with
      | none =>
          obtain ⟨hnext, -, -, -, hurl, hno, hlist⟩ := freshOneUrl_none_fields hf
          exact .of_eq hurl hno hlist hnext
      | some no =>
          obtain ⟨-, -, -, -, -, -, rfl⟩ := freshOneUrl_some hf
          exact .of_eq rfl rfl rfl rfl

end TaskMap
end TaskData

namespace TaskWork

open Trace TaskData Bytes HttpTools HtmlParser

/-- `crawl_page`: the links of a document, and their number. -/
def crawlPage (root : GumboNode) (pageUrl : Bytes) (domainSubLevel : ℕ) : LinkSet × ℕ :=
  apiHtmlParser root ∅ pageUrl domainSubLevel

/-- The default argument of `crawl_page`. -/
def defaultSubLevel : ℕ := 2

/-- The URLs that a pull job inserts for one document. -/
def foundUrls (url : Bytes) (root : GumboNode) : List Bytes :=
  let found := crawlPage root (getPage url) defaultSubLevel
  if 0 < found.2 then found.1.toList else []

/-- The run of one job, as in `Job`, with the documents of the packages that a pull job has
received, as far as they are not empty. -/
inductive PageJob
  | pull (documents : List GumboNode) (policies : ℕ)
  | policy (urlNo : ℕ)

namespace Crawl

/-- The URL that a pull job will be given. -/
def nextUrl (s : Crawl) : Option Bytes :=
  s.map.freshOneUrl.2.bind fun no => (s.map.urlList no).map (·.urlOrigin)

/-- The URLs that the documents of a pull job hold. -/
def job (s : Crawl) : PageJob → Job
  | .pull documents policies =>
      match s.nextUrl with
      | some url => .pull (documents.flatMap (foundUrls url)) policies
      | none => .pull [] policies
  | .policy urlNo => .policy urlNo

/-- A pending job is run, on its documents.  `format_url_params` leaves a URL as it is. -/
def pageStep (s : Crawl) (a : PageJob) : Option Crawl := s.step id (s.job a)

/-- The domain of every URL of the task matches the base domain. -/
def InScope (base : Bytes) (level : ℕ) (s : Crawl) : Prop :=
  ∀ no url, s.map.urlList no = some url →
    matchDomain base (getDomain url.urlOrigin) level = true

/-- A `href` on the page of a URL that is in scope leads to one that is.  One with a
protocol does, if it is followed, when its domain ends with the base domain, or when it
matches that of the page at the level of the task and is not only an end of the base domain;
one without a protocol does when something ends the domain in the URL of the page, or else
when the domain of the page with its text behind it is in scope. -/
def StaysInScope (base : Bytes) (level : ℕ) (url href : Bytes) : Prop :=
  if str "://" <:+: href then
    matchDomain (getDomain url) (getDomain href) defaultSubLevel = true →
      base <:+ getDomain href ∨
        matchDomain (getDomain url) (getDomain href) level = true ∧ ¬ getDomain href <:+ base
  else
    (∃ b ∈ (splitHost url).2, b ∈ str ":/?#") ∨
      matchDomain base (getDomain url ++ untilAny (str ":/?#") href) level = true

/-- Every `href` in the documents of a job stays in scope. -/
def FollowsScope (base : Bytes) (level : ℕ) (s : Crawl) : PageJob → Prop
  | .pull documents _ =>
      ∀ url, s.nextUrl = some url → ∀ root ∈ documents, ∀ href ∈ hrefs root,
        StaysInScope base level url href
  | .policy _ => True

/-- The URLs that a job finds do not take `next_no` round. -/
def Numbered (s : Crawl) : PageJob → Prop
  | .pull documents _ => ∀ url, s.nextUrl = some url →
      s.map.nextNo + (documents.flatMap (foundUrls url)).length < 2 ^ 32
  | .policy _ => True

/-! ### The links of one page -/

variable {base url : Bytes} {level : ℕ} {s t : Crawl}

/-- The URLs found on a page are its links that the filter lets through. -/
theorem mem_foundUrls_iff {root : GumboNode} {l : Bytes} :
    l ∈ foundUrls url root ↔
      ∃ href ∈ hrefs root, link (getPage url) defaultSubLevel href = some l := by
  have hmem : l ∈ searchForLinks (getPage url) defaultSubLevel ∅ root ↔
      ∃ href ∈ hrefs root, link (getPage url) defaultSubLevel href = some l := by
    rw [mem_searchForLinks_iff]
    simp
  simp only [foundUrls, crawlPage, apiHtmlParser, Std.ExtTreeSet.size_empty, Nat.sub_zero]
  rw [← hmem, ← Std.ExtTreeSet.mem_toList, ← Std.ExtTreeSet.length_toList]
  split_ifs with hpos
  · rfl
  · rw [Nat.pos_iff_ne_zero, not_not, List.length_eq_zero_iff] at hpos
    rw [hpos]

/-- A link with a protocol is taken when it matches the domain of the page. -/
theorem link_absolute (hmark : str "://" <:+: url) {href : Bytes} (habs : str "://" <:+: href) :
    link (getPage url) defaultSubLevel href =
      if matchDomain (getDomain url) (getDomain href) defaultSubLevel = true then some href
      else none := by
  have hne : ∀ {x : Bytes}, str "://" <:+: x → x ≠ [] := by
    rintro x hx rfl
    exact absurd (List.infix_nil.1 hx) (by decide)
  have hpage : str "://" <:+: getPage url := by
    simpa using (getDomain_getPage_append hmark []).1
  rw [link, if_neg (hne habs), if_neg (hne hpage), if_neg (by simp [containsSub_iff, habs]),
    getDomain_getPage hmark]
  cases matchDomain (getDomain url) (getDomain href) defaultSubLevel <;> rfl

/-- A link without a protocol is added to the page. -/
theorem link_relative (hmark : str "://" <:+: url) {href : Bytes} (hrel : ¬ str "://" <:+: href) :
    link (getPage url) defaultSubLevel href =
      if href = [] then none else some (getPage url ++ href) := by
  have hpage : getPage url ≠ [] := by
    intro hnil
    have hin := (getDomain_getPage_append hmark []).1
    rw [hnil] at hin
    exact absurd (List.infix_nil.1 hin) (by decide)
  have hfind : containsSub (str "://") href = false := by
    rw [← Bool.not_eq_true, containsSub_iff]
    exact hrel
  rw [link, if_neg hpage, if_pos hfind]

/-- **When the link of a `href` is in scope**, on the page of a URL that is. -/
theorem staysInScope_iff (hmark : str "://" <:+: url)
    (hurl : matchDomain base (getDomain url) level = true) (href : Bytes) :
    (StaysInScope base level url href ↔ ∀ l, link (getPage url) defaultSubLevel href = some l →
        matchDomain base (getDomain l) level = true) ∧
      ∀ l, link (getPage url) defaultSubLevel href = some l → str "://" <:+: l := by
  unfold StaysInScope
  by_cases habs : str "://" <:+: href
  · rw [link_absolute hmark habs, if_pos habs]
    by_cases hmatch : matchDomain (getDomain url) (getDomain href) defaultSubLevel = true
    · simp only [hmatch, if_true, Option.some.injEq, forall_eq', true_implies, habs, and_true]
      exact (matchDomain_trans_iff hurl hmatch).symm
    · simp [hmatch]
  · rw [link_relative hmark habs, if_neg habs]
    by_cases hnil : href = []
    · simp [hnil, untilAny, hurl]
    · obtain ⟨hmark', hdomain⟩ := getDomain_getPage_append hmark href
      simp only [if_neg hnil, Option.some.injEq, forall_eq', hmark', and_true, hdomain]
      split_ifs with hend
      · simp [hend, hurl]
      · simp [hend]

/-! ### The URLs of a crawl -/

/-- Every URL of the task has a protocol and is in scope. -/
structure Scoped (base : Bytes) (level : ℕ) (s : Crawl) : Prop where
  mark : ∀ u, s.map.Lists u → str "://" <:+: u
  scope : ∀ u, s.map.Lists u → matchDomain base (getDomain u) level = true

/-- A task is in its scope exactly if every URL in its lists is. -/
theorem inScope_iff :
    s.InScope base level ↔ ∀ u, s.map.Lists u → matchDomain base (getDomain u) level = true := by
  constructor
  · rintro hscope u ⟨no, entry, hentry, rfl⟩
    exact hscope no entry hentry
  · intro hscope no entry hentry
    exact hscope _ ⟨no, entry, hentry, rfl⟩

/-- The URL that is handed out is one of the task. -/
theorem lists_of_nextUrl (hnext : s.nextUrl = some url) : s.map.Lists url := by
  simp only [nextUrl, Option.bind_eq_some_iff, Option.map_eq_some_iff] at hnext
  obtain ⟨no, -, entry, hentry, rfl⟩ := hnext
  exact ⟨no, entry, hentry, rfl⟩

/-- The work of a pull job adds the URLs that it has found. -/
theorem adds_work (m : TaskMap) (no : ℕ) (urls : List Bytes) (policies : ℕ) :
    m.Adds urls (work id m no urls policies) := by
  have hinserts := TaskMap.adds_foldl m urls
  unfold work
  split_ifs
  · have hset := TaskMap.adds_setRunningThread
      (urls.foldl (TaskMap.insertNewUrl id) m) no (policies + 1)
    simpa only [List.append_nil] using
      hinserts.trans (hset.trans (TaskMap.adds_finishedOneUrl _ no))
  · simpa only [List.append_nil] using hinserts.trans (TaskMap.adds_finishedOneUrl _ no)

/-- The URLs that a job finds on the page of the URL that it is given. -/
def found (s : Crawl) : PageJob → List Bytes
  | .pull documents _ =>
      match s.nextUrl with
      | some url => documents.flatMap (foundUrls url)
      | none => []
  | .policy _ => []

/-- The URLs that an action finds: only a page that is pulled has any. -/
theorem mem_found_iff {a : PageJob} {u : Bytes} :
    u ∈ s.found a ↔ ∃ documents policies url root, a = .pull documents policies ∧
      s.nextUrl = some url ∧ root ∈ documents ∧ u ∈ foundUrls url root := by
  cases a with
  | policy no => simp [found]
  | pull documents policies => cases hnext : s.nextUrl <;> simp [found, hnext]

/-- Where the numbers suffice, those of the URLs that are found do not wrap. -/
theorem Numbered.length_found {a : PageJob} (h : s.Numbered a) :
    s.map.nextNo + (s.found a).length < 2 ^ 32 := by
  cases a with
  | policy no => exact s.map.nextNo_lt
  | pull documents policies =>
      cases hnext : s.nextUrl with
      | none => simpa [found, hnext] using s.map.nextNo_lt
      | some url => simpa only [found, hnext] using h url hnext

/-- A pull job that is given no URL adds none. -/
theorem adds_pull (s : Crawl) (documents : List GumboNode) (policies : ℕ) :
    s.map.Adds (s.found (.pull documents policies))
      (s.pullAndDownloadUrl id (s.found (.pull documents policies)) policies).map := by
  have hfresh := TaskMap.adds_freshOneUrl s.map
  unfold pullAndDownloadUrl
  cases hf : s.map.freshOneUrl with
  | mk m r =>
      rw [hf] at hfresh
      cases r with
      | none =>
          have hnext : s.nextUrl = none := by simp [nextUrl, hf]
          simp only [found, hnext]
          exact hfresh
      | some no => exact hfresh.trans (adds_work m no _ policies)

/-- **What a job does to the URLs of the task**: it adds those that it has found. -/
theorem adds_pageStep {a : PageJob} (hst : s.pageStep a = some t) :
    s.map.Adds (s.found a) t.map := by
  unfold pageStep at hst
  cases a with
  | policy no =>
      rcases step_cases hst with ⟨urls, policies, ha, -, -⟩ | ⟨no', -, -, rfl⟩
      · cases ha
      · exact TaskMap.adds_finishedOneUrl s.map no'
  | pull documents policies =>
      have hjob : s.job (.pull documents policies) =
          .pull (s.found (.pull documents policies)) policies := by
        cases hnext : s.nextUrl <;> simp only [job, found, hnext]
      rw [hjob] at hst
      rcases step_cases hst with ⟨urls, policies', ha, -, rfl⟩ | ⟨no', ha, -, -⟩
      · obtain ⟨rfl, rfl⟩ := Job.pull.inj ha
        exact adds_pull s documents policies
      · cases ha

/-- The links of the documents of a job are in scope, when its `href`s stay there. -/
theorem Scoped.followsScope_iff {a : PageJob} (h : s.Scoped base level) :
    s.FollowsScope base level a ↔
      ∀ l ∈ s.found a, matchDomain base (getDomain l) level = true := by
  simp only [mem_found_iff]
  cases a with
  | policy no => simp [FollowsScope]
  | pull documents policies =>
      constructor
      · rintro hfollows l ⟨documents, policies, url, root, ha, hnext, hroot, hl⟩
        obtain ⟨rfl, rfl⟩ := PageJob.pull.inj ha
        obtain ⟨href, hhref, hlink⟩ := mem_foundUrls_iff.1 hl
        have hlists := lists_of_nextUrl hnext
        exact (staysInScope_iff (h.mark url hlists) (h.scope url hlists) href).1.1
          (hfollows url hnext root hroot href hhref) l hlink
      · intro hfound url hnext root hroot href hhref
        have hlists := lists_of_nextUrl hnext
        refine (staysInScope_iff (h.mark url hlists) (h.scope url hlists) href).1.2 ?_
        intro l hlink
        exact hfound l ⟨documents, policies, url, root, rfl, hnext, hroot,
          mem_foundUrls_iff.2 ⟨href, hhref, hlink⟩⟩

/-- A step that follows the scope keeps the task in it. -/
theorem Scoped.step {a : PageJob} (h : s.Scoped base level) (ha : s.FollowsScope base level a)
    (hst : s.pageStep a = some t) : t.Scoped base level := by
  have hadds := adds_pageStep hst
  refine ⟨fun u hu => ?_, fun u hu => ?_⟩
  · rcases hadds.lists u hu with hu | hfound
    · exact h.mark u hu
    · obtain ⟨documents, policies, url, root, -, hnext, -, hfound⟩ := mem_found_iff.1 hfound
      obtain ⟨href, -, hlink⟩ := mem_foundUrls_iff.1 hfound
      have hurl := lists_of_nextUrl hnext
      exact (staysInScope_iff (h.mark url hurl) (h.scope url hurl) href).2 u hlink
  · rcases hadds.lists u hu with hu | hfound
    · exact h.scope u hu
    · exact h.followsScope_iff.1 ha u hfound

/-- A link that leaves the scope is in the list of the task at once, if there is a number for
it. -/
theorem Scoped.not_inScope {a : PageJob} (h : s.Scoped base level) (hcons : s.map.Consistent)
    (hno : s.Numbered a) (ha : ¬ s.FollowsScope base level a) (hst : s.pageStep a = some t) :
    ¬ t.InScope base level := by
  obtain ⟨hcons', hknown⟩ := (adds_pageStep hst).known hcons hno.length_found
  rw [inScope_iff]
  intro hscope
  refine ha (h.followsScope_iff.2 fun l hl => ?_)
  exact hscope l ((hcons'.known_iff l).2 ((hknown l).2 (Or.inr hl)))

/-- A domain matches itself. -/
theorem matchDomain_self (base : Bytes) : matchDomain base base level = true :=
  matchDomain_iff.2 (Or.inl (List.prefix_refl _))

/-- With no base domain, every domain matches. -/
theorem matchDomain_nil (domain : Bytes) : matchDomain [] domain level = true :=
  matchDomain_iff.2 (Or.inl List.nil_prefix)

/-- A new map is consistent. -/
theorem consistent_init (url : Bytes) : (init id url).map.Consistent :=
  TaskMap.consistent_empty.insertNewUrl id (by decide) url

/-- A task starts with its main URL, which is in scope. -/
theorem scoped_init {mainUrl : Bytes} (h : mainUrl ≠ []) :
    (init id (formatUrl mainUrl)).Scoped (getDomain mainUrl) level := by
  have hlists : ∀ u, (init id (formatUrl mainUrl)).map.Lists u → u = formatUrl mainUrl := by
    intro u hu
    rcases (TaskMap.adds_insertNewUrl .empty _).lists u hu with ⟨no, entry, hentry, -⟩ | hu
    · cases hentry
    · exact List.mem_singleton.1 hu
  refine ⟨fun u hu => ?_, fun u hu => ?_⟩
  · have hinfo : getUrlInfo mainUrl = some (urlInfo mainUrl) := if_neg h
    rw [hlists u hu, (getUrlInfo_eq_some hinfo).2, UrlInfo.text, ← List.append_assoc]
    exact List.infix_append _ _ _
  · rw [hlists u hu, getDomain_formatUrl]
    exact matchDomain_self _

/-- Every URL is in the scope of an empty domain. -/
theorem followsScope_nil (s : Crawl) (a : PageJob) : s.FollowsScope [] level a := by
  cases a with
  | policy no => trivial
  | pull documents policies =>
      intro url _ root _ href _
      unfold StaysInScope
      split_ifs
      · exact fun _ => Or.inl (List.nil_suffix)
      · exact Or.inr (matchDomain_nil _)

/-- **The crawl stays in its scope in the runs in which every `href` that is followed does**,
and in these only, as long as there are numbers for the URLs that are found. -/
theorem always_inScope_iff (mainUrl : Bytes) (level : ℕ) (jobs : List PageJob) :
    (Along pageStep (FollowsScope (getDomain mainUrl) level) (init id (formatUrl mainUrl)) jobs →
        Always pageStep (InScope (getDomain mainUrl) level) (init id (formatUrl mainUrl)) jobs) ∧
      (Along pageStep Numbered (init id (formatUrl mainUrl)) jobs →
        Always pageStep (InScope (getDomain mainUrl) level) (init id (formatUrl mainUrl)) jobs →
          Along pageStep (FollowsScope (getDomain mainUrl) level) (init id (formatUrl mainUrl))
            jobs) := by
  by_cases hmain : mainUrl = []
  · subst hmain
    have htrue : Always pageStep (fun _ => True) (init id (formatUrl [])) jobs :=
      always_of_step trivial (fun _ _ _ _ _ => trivial) jobs
    exact ⟨fun _ => htrue.mono fun s _ no entry _ => matchDomain_nil _, fun _ _ =>
      along_of_step (I := fun _ => True) trivial (fun _ _ _ _ _ => trivial)
        (fun s a _ => followsScope_nil s a) jobs⟩
  · constructor
    · intro hfollows
      exact (always_of_along (scoped_init hmain) (fun _ _ _ => Scoped.step) hfollows).mono
        fun _ h => inScope_iff.2 h.scope
    · intro hnumbered hscope
      refine along_of_always
        (I := fun s => s.Scoped (getDomain mainUrl) level ∧ s.map.Consistent)
        ⟨scoped_init hmain, consistent_init _⟩ (fun s a t h hno ha hst => ?_)
        (fun s a t h hno ha hst => h.1.not_inScope h.2 hno ha hst) hnumbered hscope
      exact ⟨h.1.step ha hst, ((adds_pageStep hst).known h.2 hno.length_found).1⟩

/-- A first page with a link to a domain below that of the main URL, and one without a
protocol. -/
def pageInScope : GumboNode :=
  .element .other [] [.element .a [(str "href", str "http://x.a.b/")] [],
    .element .a [(str "href", str "y")] []]

/-- Both links are followed, and the task stays in its scope. -/
theorem always_inScope_pageInScope :
    Always pageStep (InScope (getDomain (str "http://a.b/")) 3)
        (init id (formatUrl (str "http://a.b/"))) [.pull [pageInScope] 0] ∧
      (exec pageStep (init id (formatUrl (str "http://a.b/"))) [.pull [pageInScope] 0]).map
        (fun t => t.map.nextNo) = some 3 := by
  refine ⟨(always_inScope_iff (str "http://a.b/") 3 [.pull [pageInScope] 0]).1 ?_, ?_⟩
  · refine fun t _ => ⟨fun url hurl root hroot href hhref => ?_, trivial⟩
    have hnext : (init id (formatUrl (str "http://a.b/"))).nextUrl =
        some (str "http://a.b:80/") := by
      decide +kernel
    obtain rfl : str "http://a.b:80/" = url := Option.some.inj (hnext.symm.trans hurl)
    obtain rfl := List.mem_singleton.1 hroot
    have hhrefs : hrefs pageInScope = [str "http://x.a.b/", str "y"] := by decide +kernel
    rw [hhrefs, List.mem_cons, List.mem_singleton] at hhref
    rcases hhref with rfl | rfl
    · rw [StaysInScope, if_pos (by decide)]
      exact fun _ => Or.inl (by decide)
    · rw [StaysInScope, if_neg (by decide)]
      exact Or.inl ⟨0x2f, by decide, by decide⟩
  · decide +kernel

/-- A task with the level `3`: a link of its first page has two dots in common with the main
URL, which is enough for the level `2` at which it is compared. -/
theorem exists_not_inScope :
    ∃ t, exec pageStep (init id (formatUrl (str "http://a.b.c.d/")))
        [.pull [.element .a [(str "href", str "http://q.r.c.d/")] []] 0] = some t ∧
      (t.map.urlList 1).map (·.urlOrigin) = some (str "http://q.r.c.d/") ∧
      matchDomain (str "a.b.c.d") (str "q.r.c.d") 3 = false ∧
      ¬ t.InScope (getDomain (str "http://a.b.c.d/")) 3 := by
  have hrun : ((exec pageStep (init id (formatUrl (str "http://a.b.c.d/")))
      [.pull [.element .a [(str "href", str "http://q.r.c.d/")] []] 0]).map fun t =>
        (t.map.urlList 1).map (·.urlOrigin)) = some (some (str "http://q.r.c.d/")) := by
    decide +kernel
  obtain ⟨t, ht, hurl⟩ := Option.map_eq_some_iff.1 hrun
  refine ⟨t, ht, hurl, by decide, fun hscope => ?_⟩
  obtain ⟨entry, hentry, horigin⟩ := Option.map_eq_some_iff.1 hurl
  have hmatch := hscope 1 entry hentry
  rw [horigin] at hmatch
  exact absurd hmatch (by decide)

end Crawl

end TaskWork
end Scaner
