/-
# The plugins that a trigger selects

`policy_base_server` in `scaner_test/policy_work.cpp`: `init` with the plugins that the first
script names, `clear`, `get_policy_count` and `get_policys`.

`insert_plugins_name` leaves an entry with no plugin, and only the script that `init` runs
calls it.  `init` then loads every entry, and erases those that fail, so when it returns true
no entry is without a plugin (`init_ready`).  `get_policy_count` relies on that: it looks into
every entry, where `get_policys` skips those with no plugin and the one with no name.  Both
select the plugins that share a token with the trigger (`getPolicys_exact`).
-/

import Scaner.Lib.OrderedMap
import Scaner.Lib.Trace
import Scaner.PolicyApi.TriggerText

namespace Scaner
namespace PolicyApi

open Bytes OrderedMap

/-- `class policy_base`, as far as the selection reads it. -/
structure PolicyBase where
  mTriggle : Bytes
  deriving Repr, DecidableEq

/-- `std::map<std::string, policy_base_ptr>`. -/
abbrev BaseMap := Std.ExtTreeMap Bytes (Option PolicyBase) compare

/-- What `init` gets from the files and from Lua: whether the first script is loaded, whether
there is a Lua state for it, the names that it inserts and whether its call succeeds, and what
becomes of the plugin of every name.  No file has the empty name. -/
structure Scripts where
  loadMain : Bool
  cloneMain : Bool
  inserted : List Bytes
  firstCall : Bool
  load : Bytes → Option PolicyBase
  load_nil : load [] = none

/-- `class policy_base_server`: whether `origin_base` is there, and `base_map`. -/
structure PolicyBaseServer where
  originBase : Bool
  baseMap : BaseMap

/-- A turn of the loop that loads the plugins: `base_map` and `eraser_v`. -/
def loadPlugin (load : Bytes → Option PolicyBase) (s : BaseMap × List Bytes)
    (it : Bytes × Option PolicyBase) : BaseMap × List Bytes :=
  match load it.1 with
  | some base => (s.1.insert it.1 (some base), s.2)
  | none => (s.1.insert it.1 none, s.2 ++ [it.1])

/-- The plugins are loaded, and the entries of those that fail are erased. -/
def loadPlugins (load : Bytes → Option PolicyBase) (baseMap : BaseMap) : BaseMap :=
  let loaded := baseMap.toList.foldl (loadPlugin load) (baseMap, [])
  loaded.2.foldl (fun m str => m.erase str) loaded.1

/-- The loops of `get_policys` over the entries that are left.  An entry with no plugin or
with no name is skipped. -/
def selectLoop (hit : PolicyBase → Bool) :
    List Bytes → List (Bytes × Option PolicyBase) → List Bytes
  | policyList, [] => policyList
  | policyList, (_, none) :: rest => selectLoop hit policyList rest
  | policyList, (name, some base) :: rest =>
      if name = [] then selectLoop hit policyList rest
      else if hit base = false then selectLoop hit policyList rest
      else selectLoop hit (policyList ++ [name]) rest

/-- The loop of `get_policy_count`, which fails at an entry with no plugin. -/
def countLoop (tr : TriggerBase) : ℕ → List (Bytes × Option PolicyBase) → Option ℕ
  | n, [] => some n
  | _, (_, none) :: _ => none
  | n, (_, some base) :: rest =>
      countLoop tr (if tr.hitTrigger base.mTriggle then n + 1 else n) rest

namespace PolicyBaseServer

/-- `insert_plugins_name`: an entry that is there stays as it is. -/
def insertPluginsName (self : PolicyBaseServer) (name : Bytes) : PolicyBaseServer :=
  { self with baseMap := self.baseMap.insertIfNew name none }

/-- `clear`, which fails when there is no `origin_base`. -/
def clear (self : PolicyBaseServer) : Option PolicyBaseServer :=
  if self.originBase then some ⟨false, ∅⟩ else none

/-- `init`: its value and the server behind it. -/
def init (self : PolicyBaseServer) (scripts : Scripts) : Option (Bool × PolicyBaseServer) :=
  let self := { self with originBase := true }
  if scripts.loadMain = false then self.clear.map (false, ·)
  else if scripts.cloneMain = false then self.clear.map (false, ·)
  else
    let self := scripts.inserted.foldl insertPluginsName self
    if scripts.firstCall = false then self.clear.map (false, ·)
    else some (true, { self with baseMap := loadPlugins scripts.load self.baseMap })

/-- `get_policy_count`. -/
def getPolicyCount (self : PolicyBaseServer) (trigger : Bytes) : Option ℕ :=
  if trigger = [] then some self.baseMap.size
  else countLoop (TriggerBase.ofTrigger trigger) 0 self.baseMap.toList

/-- `get_policys`: its value, and `policy_list` behind it. -/
def getPolicys (self : PolicyBaseServer) (trigger : Bytes) (policyList : List Bytes) :
    Bool × List Bytes :=
  if self.baseMap.isEmpty then (false, policyList)
  else
    let policyList :=
      if trigger = [] then selectLoop (fun _ => true) [] self.baseMap.toList
      else
        let tr := TriggerBase.ofTrigger trigger
        selectLoop (fun base => tr.hitTrigger base.mTriggle) [] self.baseMap.toList
    (!policyList.isEmpty, policyList)

end PolicyBaseServer

/-- The calls that change a server. -/
inductive ServerCall
  | init (scripts : Scripts)
  | clear

/-- What a call makes of the server. -/
def callServer (s : PolicyBaseServer) : ServerCall → Option PolicyBaseServer
  | .init scripts => (s.init scripts).map (·.2)
  | .clear => s.clear

/-- The server has been initialised at some time, from whatever state it was in. -/
def Initialised (s : PolicyBaseServer) : Prop :=
  ∃ (s₀ s₁ : PolicyBaseServer) (scripts : Scripts) (calls : List ServerCall),
    s₀.init scripts = some (true, s₁) ∧ Trace.exec callServer s₁ calls = some s

/-! ### What the selection is for -/

/-- The tokens of a text. -/
def IsToken (s t : Bytes) : Prop := ∃ p ∈ pieces s, p ≠ [] ∧ p.map toUpper = t

/-- The plugin is to be selected. -/
def Selected (m : BaseMap) (trigger name : Bytes) : Prop :=
  if trigger = [] then name ∈ m
  else ∃ base, m[name]? = some (some base) ∧ ∃ t, IsToken base.mTriggle t ∧ IsToken trigger t

/-- The same tokens, in whatever order and however often. -/
def SameTokens (a b : Bytes) : Prop := ∀ t, IsToken a t ↔ IsToken b t

/-- The same names, with plugins for the same tokens. -/
structure SamePlugins (m m' : BaseMap) : Prop where
  names : ∀ name : Bytes, name ∈ m ↔ name ∈ m'
  tokens : ∀ (name : Bytes) (base base' : PolicyBase), m[name]? = some (some base) →
    m'[name]? = some (some base') → SameTokens base.mTriggle base'.mTriggle

/-- Every entry has a name and a plugin. -/
def Ready (m : BaseMap) : Prop :=
  ∀ (name : Bytes) (entry : Option PolicyBase), m[name]? = some entry →
    name ≠ [] ∧ ∃ base, entry = some base

variable {load : Bytes → Option PolicyBase} {m m' : BaseMap} {s s' : PolicyBaseServer}
  {trigger trigger' name : Bytes} {hit : PolicyBase → Bool} {tr : TriggerBase}
  {its : List (Bytes × Option PolicyBase)}

/-! ### Loading the plugins -/

/-- A plugin is loaded into the map, and put on the list of those to erase if it cannot be. -/
theorem loadPlugin_eq (load : Bytes → Option PolicyBase) (st : BaseMap × List Bytes)
    (it : Bytes × Option PolicyBase) :
    loadPlugin load st it =
      (st.1.insert it.1 (load it.1), st.2 ++ if load it.1 = none then [it.1] else []) := by
  unfold loadPlugin
  cases load it.1 <;> simp

/-- The map behind the loop has what loading each name gives. -/
theorem getElem?_foldl_loadPlugin (load : Bytes → Option PolicyBase) (m : BaseMap)
    (eraserV : List Bytes) (its : List (Bytes × Option PolicyBase)) (x : Bytes) :
    (its.foldl (loadPlugin load) (m, eraserV)).1[x]? =
      if x ∈ its.map (·.1) then some (load x) else m[x]? := by
  induction its generalizing m eraserV with
  | nil => simp
  | cons it its ih =>
      rw [List.foldl_cons, loadPlugin_eq, ih, getElem?_insert, List.map_cons]
      by_cases hx : x ∈ its.map (·.1)
      · rw [if_pos hx, if_pos (List.mem_cons_of_mem _ hx)]
      · by_cases hit : it.1 = x
        · rw [if_neg hx, if_pos hit, if_pos (by simp [hit]), hit]
        · rw [if_neg hx, if_neg hit, if_neg (by simpa [Ne.symm hit] using hx)]

/-- The list behind the loop has the names that cannot be loaded. -/
theorem mem_foldl_loadPlugin (load : Bytes → Option PolicyBase) (m : BaseMap)
    (eraserV : List Bytes) (its : List (Bytes × Option PolicyBase)) (x : Bytes) :
    x ∈ (its.foldl (loadPlugin load) (m, eraserV)).2 ↔
      x ∈ eraserV ∨ (x ∈ its.map (·.1) ∧ load x = none) := by
  induction its generalizing m eraserV with
  | nil => simp
  | cons it its ih =>
      rw [List.foldl_cons, loadPlugin_eq, ih, List.mem_append, or_assoc, List.map_cons,
        List.mem_cons, or_and_right]
      refine or_congr_right (or_congr_left ?_)
      by_cases hload : load it.1 = none
      · simp only [hload, if_true, List.mem_singleton]
        exact ⟨fun h => ⟨h, h ▸ hload⟩, fun h => h.1⟩
      · simp only [hload, if_false, List.not_mem_nil, false_iff]
        rintro ⟨rfl, hx⟩
        exact hload hx

/-- **What is in the map when the plugins are loaded**: the entries whose plugin is. -/
theorem getElem?_loadPlugins (load : Bytes → Option PolicyBase) (m : BaseMap) (x : Bytes) :
    (loadPlugins load m)[x]? = if x ∈ m then (load x).map some else none := by
  have hkeys : x ∈ m.toList.map (·.1) ↔ x ∈ m := by
    rw [Std.ExtTreeMap.map_fst_toList_eq_keys, Std.ExtTreeMap.mem_keys]
  rw [loadPlugins, getElem?_foldl_erase, getElem?_foldl_loadPlugin]
  simp only [mem_foldl_loadPlugin, hkeys, List.not_mem_nil, false_or]
  by_cases hx : x ∈ m
  · cases load x <;> simp [hx]
  · simp [hx]

/-- **After loading, every entry has a name and a plugin.** -/
theorem ready_loadPlugins (hload : load [] = none) : Ready (loadPlugins load m) := by
  intro name entry h
  rw [getElem?_loadPlugins] at h
  split_ifs at h with hmem
  obtain ⟨base, hbase, rfl⟩ := Option.map_eq_some_iff.1 h
  refine ⟨?_, base, rfl⟩
  rintro rfl
  simp [hload] at hbase

/-- There is nothing to check in an empty map. -/
theorem ready_empty : Ready ∅ := by
  intro name entry h
  simp at h

/-- What `init` leaves is ready, whatever there was before and whether it succeeds or not. -/
theorem init_ready {b : Bool} {scripts : Scripts} (h : s.init scripts = some (b, s')) :
    Ready s'.baseMap := by
  have hclear : ∀ t : PolicyBaseServer, t.clear.map (Prod.mk false) = some (b, s') →
      Ready s'.baseMap := by
    intro t ht
    unfold PolicyBaseServer.clear at ht
    split_ifs at ht
    · obtain ⟨-, rfl⟩ := Prod.mk.inj (Option.some.inj ht)
      exact ready_empty
    · simp at ht
  unfold PolicyBaseServer.init at h
  split_ifs at h
  · exact hclear _ h
  · exact hclear _ h
  · exact hclear _ h
  · obtain ⟨-, rfl⟩ := Prod.mk.inj (Option.some.inj h)
    exact ready_loadPlugins scripts.load_nil

/-- Every call leaves the map ready. -/
theorem callServer_ready {call : ServerCall} (h : callServer s call = some s') :
    Ready s'.baseMap := by
  cases call with
  | init scripts =>
      obtain ⟨⟨b, t⟩, ht, rfl⟩ := Option.map_eq_some_iff.1 h
      exact init_ready ht
  | clear =>
      unfold callServer PolicyBaseServer.clear at h
      split_ifs at h
      obtain rfl := Option.some.inj h
      exact ready_empty

/-- **Once initialised, a server has no entry that is not loaded.** -/
theorem Initialised.ready (h : Initialised s) : Ready s.baseMap := by
  obtain ⟨s₀, s₁, scripts, calls, hinit, hcalls⟩ := h
  have hrun : Trace.Always callServer (fun s => Ready s.baseMap) s₁ calls := by
    apply Trace.always_of_step
    · exact init_ready hinit
    · exact fun _ _ _ _ h => callServer_ready h
  exact hrun.last hcalls

/-! ### The two loops over the entries -/

/-- What the loops test in a plugin. -/
def hits (trigger : Bytes) (base : PolicyBase) : Bool :=
  trigger = [] || (TriggerBase.ofTrigger trigger).hitTrigger base.mTriggle

/-- The names of the plugins that are hit, in the order of the map. -/
def hitNames (m : BaseMap) (trigger : Bytes) : List Bytes :=
  (m.toList.filter fun it => it.2.any (hits trigger)).map (·.1)

/-- With no trigger every plugin is hit; otherwise one with a token of the trigger. -/
theorem hits_iff {base : PolicyBase} :
    hits trigger base = true ↔
      trigger = [] ∨ ∃ t, IsToken base.mTriggle t ∧ IsToken trigger t := by
  simp only [hits, Bool.or_eq_true, decide_eq_true_eq, TriggerBase.hitTrigger_iff, mem_tokens,
    IsToken]
  refine or_congr_right (exists_congr fun t => ?_)
  rw [and_comm]

/-- With no trigger, the loops test nothing. -/
theorem hits_nil : hits [] = fun _ => true := rfl

/-- With a trigger, the loops test whether it hits the plugin. -/
theorem hits_of_ne_nil (h : trigger ≠ []) :
    hits trigger = fun base => (TriggerBase.ofTrigger trigger).hitTrigger base.mTriggle := by
  funext base
  simp [hits, h]

/-- The entries of a map that is ready. -/
theorem Ready.mem_toList (hm : Ready m) {it : Bytes × Option PolicyBase} (h : it ∈ m.toList) :
    it.1 ≠ [] ∧ ∃ base, it.2 = some base :=
  hm it.1 it.2 (Std.ExtTreeMap.mem_toList_iff_getElem?_eq_some.1 h)

/-- The loop of `get_policys` adds the names of the plugins that are hit. -/
theorem selectLoop_eq (policyList : List Bytes)
    (hits : ∀ it ∈ its, it.1 ≠ [] ∧ ∃ base, it.2 = some base) :
    selectLoop hit policyList its =
      policyList ++ (its.filter fun it => it.2.any hit).map (·.1) := by
  induction its generalizing policyList with
  | nil => simp [selectLoop]
  | cons it its ih =>
      obtain ⟨name, entry⟩ := it
      obtain ⟨hname, base, rfl⟩ := hits _ List.mem_cons_self
      have hrest := fun list => ih list fun it h => hits it (List.mem_cons_of_mem _ h)
      rw [selectLoop, if_neg hname]
      split_ifs with hbase
      · rw [hrest, List.filter_cons_of_neg (by simp [hbase])]
      · rw [hrest, List.filter_cons_of_pos (by simpa using hbase)]
        simp

/-- The loop of `get_policy_count` counts the plugins that are hit. -/
theorem countLoop_eq (n : ℕ) (hits : ∀ it ∈ its, ∃ base, it.2 = some base) :
    countLoop tr n its =
      some (n + (its.filter fun it => it.2.any fun b => tr.hitTrigger b.mTriggle).length) := by
  induction its generalizing n with
  | nil => simp [countLoop]
  | cons it its ih =>
      obtain ⟨name, entry⟩ := it
      obtain ⟨base, rfl⟩ := hits _ List.mem_cons_self
      rw [countLoop, ih _ fun it h => hits it (List.mem_cons_of_mem _ h)]
      split_ifs with hbase
      · rw [List.filter_cons_of_pos (by simpa using hbase), List.length_cons]
        congr 1
        omega
      · rw [List.filter_cons_of_neg (by simpa using hbase)]

/-- On a ready map `get_policys` returns the names of the plugins that are hit. -/
theorem Ready.getPolicys_eq (h : Ready s.baseMap) (trigger : Bytes) :
    (s.getPolicys trigger []).2 = hitNames s.baseMap trigger := by
  unfold PolicyBaseServer.getPolicys hitNames
  split_ifs with hempty htrigger
  · rw [Std.ExtTreeMap.isEmpty_iff] at hempty
    simp [hempty]
  · rw [selectLoop_eq [] fun _ => h.mem_toList, htrigger, hits_nil]
    rfl
  · rw [selectLoop_eq [] fun _ => h.mem_toList, hits_of_ne_nil htrigger]
    rfl

/-- On a ready map `get_policy_count` returns the number of the plugins that are hit. -/
theorem Ready.getPolicyCount_eq (h : Ready s.baseMap) (trigger : Bytes) :
    s.getPolicyCount trigger = some (hitNames s.baseMap trigger).length := by
  unfold PolicyBaseServer.getPolicyCount hitNames
  rw [List.length_map]
  split_ifs with htrigger
  · have hall : ∀ it ∈ s.baseMap.toList, it.2.any (hits trigger) = true := by
      intro it hit
      obtain ⟨-, base, hbase⟩ := h.mem_toList hit
      simp [hbase, hits, htrigger]
    rw [List.filter_eq_self.2 hall, Std.ExtTreeMap.length_toList]
  · rw [countLoop_eq 0 fun _ hit => (h.mem_toList hit).2, Nat.zero_add, hits_of_ne_nil htrigger]

/-! ### The selection is exact -/

/-- The names come in the order of the map, none twice. -/
theorem ascending_hitNames (m : BaseMap) (trigger : Bytes) :
    Ascending compare (hitNames m trigger) :=
  List.pairwise_map.2 (Std.ExtTreeMap.ordered_keys_toList.filter _)

/-- Every name of a ready map has a plugin. -/
theorem Ready.mem_iff (h : Ready m) : name ∈ m ↔ ∃ base, m[name]? = some (some base) := by
  rw [Std.ExtTreeMap.mem_iff_isSome_getElem?, Option.isSome_iff_exists]
  constructor
  · rintro ⟨entry, hentry⟩
    obtain ⟨-, base, rfl⟩ := h name entry hentry
    exact ⟨base, hentry⟩
  · rintro ⟨base, hbase⟩
    exact ⟨some base, hbase⟩

/-- The plugins that are hit. -/
theorem mem_hitNames :
    name ∈ hitNames m trigger ↔ ∃ base, m[name]? = some (some base) ∧ hits trigger base = true := by
  simp only [hitNames, List.mem_map, List.mem_filter]
  constructor
  · rintro ⟨⟨name, entry⟩, ⟨hmem, hhit⟩, rfl⟩
    obtain ⟨base, rfl, hbase⟩ := (Option.any_eq_true _ _).1 hhit
    exact ⟨base, Std.ExtTreeMap.mem_toList_iff_getElem?_eq_some.1 hmem, hbase⟩
  · rintro ⟨base, hmem, hbase⟩
    exact ⟨(name, some base), ⟨Std.ExtTreeMap.mem_toList_iff_getElem?_eq_some.2 hmem, hbase⟩, rfl⟩

/-- **They are those to be selected.** -/
theorem Ready.mem_hitNames_iff (h : Ready m) :
    name ∈ hitNames m trigger ↔ Selected m trigger name := by
  rw [mem_hitNames, Selected]
  split_ifs with htrigger
  · simp only [hits_iff, htrigger, true_or, and_true, h.mem_iff]
  · simp only [hits_iff, htrigger, false_or]

/-- Plugins for the same tokens are selected by the same triggers. -/
theorem SamePlugins.selected (h : SamePlugins m m') (hm : Ready m) (hm' : Ready m')
    (hnil : trigger = [] ↔ trigger' = []) (htokens : SameTokens trigger trigger')
    (hsel : Selected m trigger name) : Selected m' trigger' name := by
  unfold Selected at hsel ⊢
  by_cases htrigger : trigger = []
  · rw [if_pos htrigger] at hsel
    rw [if_pos (hnil.1 htrigger)]
    exact (h.names name).1 hsel
  · rw [if_neg htrigger] at hsel
    rw [if_neg (mt hnil.2 htrigger)]
    obtain ⟨base, hbase, t, ht, htt⟩ := hsel
    obtain ⟨base', hbase'⟩ := hm'.mem_iff.1 ((h.names name).1 (hm.mem_iff.2 ⟨base, hbase⟩))
    exact ⟨base', hbase', t, (h.tokens name base base' hbase hbase' t).1 ht, (htokens t).1 htt⟩

/-- To have the same tokens is symmetric. -/
theorem SameTokens.symm {a b : Bytes} (h : SameTokens a b) : SameTokens b a :=
  fun t => (h t).symm

/-- To have the same plugins is symmetric. -/
theorem SamePlugins.symm (h : SamePlugins m m') : SamePlugins m' m :=
  ⟨fun name => (h.names name).symm,
    fun name base base' hbase hbase' => (h.tokens name base' base hbase' hbase).symm⟩

/-- **The selection is exact.** `get_policys` lists, in the order of the names, the plugins
that share a token with the trigger, or all of them when there is no trigger, and
`get_policy_count` is their number.  The order and repetition of tokens play no part. -/
theorem getPolicys_exact (h : Initialised s) (trigger : Bytes) :
    Ascending compare (s.getPolicys trigger []).2 ∧
      (∀ name, name ∈ (s.getPolicys trigger []).2 ↔ Selected s.baseMap trigger name) ∧
      s.getPolicyCount trigger = some (s.getPolicys trigger []).2.length ∧
      ∀ s' trigger', Initialised s' → SamePlugins s.baseMap s'.baseMap →
        (trigger = [] ↔ trigger' = []) → SameTokens trigger trigger' →
        (s'.getPolicys trigger' []).2 = (s.getPolicys trigger []).2 := by
  have hs := h.ready
  rw [hs.getPolicys_eq, hs.getPolicyCount_eq]
  refine ⟨ascending_hitNames _ _, fun name => hs.mem_hitNames_iff, rfl, ?_⟩
  intro s' trigger' h' hplugins hnil htokens
  have hs' := h'.ready
  rw [hs'.getPolicys_eq]
  apply ascending_ext (ascending_hitNames _ _) (ascending_hitNames _ _)
  intro name
  rw [hs'.mem_hitNames_iff, hs.mem_hitNames_iff]
  exact ⟨hplugins.symm.selected hs' hs hnil.symm htokens.symm,
    hplugins.selected hs hs' hnil htokens⟩

/-- Scripts that name two plugins, one of which can be loaded. -/
def oneScript : Scripts where
  loadMain := true
  cloneMain := true
  inserted := [str "b", str "a"]
  firstCall := true
  load name := if name = str "a" then some ⟨str "page||once"⟩ else none
  load_nil := by decide

/-- The server with the plugin of `oneScript`. -/
def oneServer : PolicyBaseServer :=
  ⟨true, loadPlugins oneScript.load (((∅ : BaseMap).insertIfNew (str "b") none).insertIfNew
    (str "a") none)⟩

/-- A trigger that names a token twice selects the plugin once. -/
theorem getPolicys_exact_oneServer :
    (oneServer.getPolicys (str "Once||once") []).2 = [str "a"] ∧
      oneServer.getPolicyCount (str "Once||once") =
        some (oneServer.getPolicys (str "Once||once") []).2.length :=
  ⟨by decide +kernel, (getPolicys_exact ⟨⟨false, ∅⟩, oneServer, oneScript, [], rfl, rfl⟩ _).2.2.1⟩

end PolicyApi
end Scaner
