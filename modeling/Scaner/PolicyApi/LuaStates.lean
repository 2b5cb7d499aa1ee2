/-
# The Lua states of the plugins

Who opens and who closes a `lua_State`: `policy_base::load` and `clone_one` in
`scaner_test/policy_base.cpp`, `policy_base_server::init`, `clear`, `clone_policy` and
`free_policy` in `scaner_test/policy_work.cpp`, and the jobs of `run_policy_name` in
`scaner_test/task_work.cpp`, which clone a plugin, call it and free it.  The jobs run in the pool,
so that `init` and `clear` of `system_api::run` may come between any two of their steps:
`thread_pool::stop` interrupts the workers and does not wait for them.

`load` closes its state only where it succeeds, and `init` never closes the one of the first
script, whose `policy_work` only forgets the pointer.  `open_states`: apart from those, a state
that is open is in the hands of exactly one job, so that none is closed twice and no job leaves
one behind.

`free_policy` looks for the plugin by name, and goes to `origin_base` where there is none; behind
`clear` that is a null pointer.  `always_freeable_iff`: every job can free what it has cloned,
exactly in the runs in which `clear`, and an `init` that fails, come when no job has a state.
-/

import Scaner.Lib.History
import Scaner.PolicyApi.Server

namespace Scaner
namespace PolicyApi

open Bytes Trace

/-! ### Loading a plugin -/

/-- What `policy_base::load` gets from the file and from Lua: the bytes, which are empty where
`load_file` fails, whether there is a Lua state, whether it takes and runs the script, and the
three global texts. -/
structure ScriptFile where
  content : Bytes
  newState : Bool
  runs : Bool
  version : Bytes
  unionId : Bytes
  triggle : Bytes

/-- `class policy_base`. -/
structure LoadedBase where
  mVersion : Bytes
  mVulUnionId : Bytes
  mTriggle : Bytes
  mName : Bytes
  mBuff : Bytes
  deriving DecidableEq

namespace LoadedBase

/-- A new one. -/
def new : LoadedBase := ⟨[], [], [], [], []⟩

/-- `clear`, which leaves the name. -/
def clear (self : LoadedBase) : LoadedBase :=
  { self with mVersion := [], mVulUnionId := [], mTriggle := [], mBuff := [] }

/-- What `load` returns, what it leaves, and whether a Lua state stays open. -/
structure Loaded where
  result : Bool
  base : LoadedBase
  leaks : Bool

/-- `load`.  `m_version` is tested three times, where the second and the third test are behind
`m_vul_union_id` and `m_triggle`. -/
def load (self : LoadedBase) (filePathName : Bytes) (file : ScriptFile) : Loaded :=
  let self := self.clear
  if file.content = [] then ⟨false, self.clear, false⟩
  else if file.newState = false then ⟨false, self.clear, false⟩
  else if file.runs = false then ⟨false, self.clear, true⟩
  else
    let self := { self with mVersion := file.version }
    if self.mVersion = [] then ⟨false, self.clear, true⟩
    else
      let self := { self with mVulUnionId := file.unionId }
      if self.mVersion = [] then ⟨false, self.clear, true⟩
      else
        let self := { self with mTriggle := file.triggle }
        if self.mVersion = [] then ⟨false, self.clear, true⟩
        else ⟨true, { self with mName := filePathName, mBuff := file.content }, false⟩

end LoadedBase

/-- The script can be loaded. -/
def ScriptFile.Loads (file : ScriptFile) : Prop :=
  file.content ≠ [] ∧ file.newState = true ∧ file.runs = true ∧ file.version ≠ []

instance (file : ScriptFile) : Decidable file.Loads := inferInstanceAs (Decidable (_ ∧ _))

/-- **`load` takes all or nothing.**  The id and the trigger of what it takes may be empty. -/
theorem LoadedBase.load_eq (self : LoadedBase) (filePathName : Bytes) (file : ScriptFile) :
    self.load filePathName file =
      if file.Loads then
        ⟨true, ⟨file.version, file.unionId, file.triggle, filePathName, file.content⟩, false⟩
      else ⟨false, self.clear, file.content ≠ [] && file.newState⟩ := by
  obtain ⟨content, newState, runs, version, unionId, triggle⟩ := file
  by_cases hcontent : content = []
  · simp [load, ScriptFile.Loads, hcontent, clear]
  · cases newState with
    | false => simp [load, ScriptFile.Loads, hcontent, clear]
    | true =>
        cases runs with
        | false => simp [load, ScriptFile.Loads, hcontent, clear]
        | true =>
            by_cases hversion : version = [] <;>
              simp [load, ScriptFile.Loads, hcontent, hversion, clear]

/-- What `init` gets from the files and from Lua. -/
structure Files where
  main : ScriptFile
  cloneMain : Bool
  inserted : List Bytes
  firstCall : Bool
  plugin : Bytes → ScriptFile
  plugin_nil : (plugin []).content = []

namespace Files

/-- A plugin that is loaded, as far as the selection reads it. -/
def loadPolicy (files : Files) (name : Bytes) : Option PolicyBase :=
  let loaded := LoadedBase.new.load name (files.plugin name)
  if loaded.result then some ⟨loaded.base.mTriggle⟩ else none

/-- An empty name cannot be loaded. -/
theorem loadPolicy_nil (files : Files) : files.loadPolicy [] = none := by
  simp [loadPolicy, LoadedBase.load_eq, ScriptFile.Loads, files.plugin_nil]

/-- The same, as far as the server looks at it; `main` is the path of the first script. -/
def scripts (files : Files) (main : Bytes) : Scripts where
  loadMain := (LoadedBase.new.load main files.main).result
  cloneMain := files.cloneMain
  inserted := files.inserted
  firstCall := files.firstCall
  load := files.loadPolicy
  load_nil := files.loadPolicy_nil

/-- The Lua states that `init` leaves open: that of a script that cannot be loaded, and that of
the first script. -/
def leaks (files : Files) (main : Bytes) (server : PolicyBaseServer) : ℕ :=
  let first := LoadedBase.new.load main files.main
  if first.result = false then if first.leaks then 1 else 0
  else if files.cloneMain = false then 0
  else if files.firstCall = false then 1
  else
    let server := files.inserted.foldl PolicyBaseServer.insertPluginsName server
    1 + server.baseMap.keys.countP fun name =>
      (LoadedBase.new.load name (files.plugin name)).leaks

/-- `init` comes to the call of the first script. -/
def comesToCall (files : Files) (main : Bytes) : Bool :=
  (LoadedBase.new.load main files.main).result && files.cloneMain

/-- A main file that is called leaves its own Lua state open. -/
theorem one_le_leaks {files : Files} {main : Bytes} (h : files.comesToCall main = true)
    (server : PolicyBaseServer) : 1 ≤ files.leaks main server := by
  obtain ⟨hload, hclone⟩ := Bool.and_eq_true_iff.1 h
  rw [leaks]
  simp only [hload, hclone, Bool.true_eq_false, if_false]
  split_ifs <;> omega

end Files

/-! ### The server and the jobs -/

/-- A job of `run_policy_name` between `clone_policy` and `free_policy`: the name of the plugin,
and the number of its Lua state unless `clone_one` has returned a null pointer. -/
inductive Job
  | running (name : Bytes) (lua : Option ℕ)
  | finished
  deriving DecidableEq

/-- The Lua state in the hands of a job. -/
def Job.lua : Job → Option ℕ
  | running _ lua => lua
  | finished => none

/-- The server, the number of the next Lua state, those that are open, and the jobs. -/
structure LuaStates where
  server : PolicyBaseServer
  fresh : ℕ
  live : List ℕ
  jobs : List Job

/-- `init`, `clear`, the `clone_policy` of a new job, where `lua` tells whether `clone_one` gives
a Lua state, and the `free_policy` of a job. -/
inductive LuaAction
  | init (files : Files)
  | clear
  | clone (name : Bytes) (lua : Bool)
  | free (i : ℕ)

namespace LuaStates

/-- Nothing has been opened. -/
def start : LuaStates := ⟨⟨false, ∅⟩, 0, [], []⟩

/-- The Lua states in the hands of jobs. -/
def held (s : LuaStates) : List ℕ := s.jobs.filterMap Job.lua

/-- `clone_policy`, at the start of a job: a null pointer where there is no plugin, and then the
job is finished. -/
def clone (s : LuaStates) (name : Bytes) (lua : Bool) : LuaStates :=
  match s.server.baseMap[name]? with
  | some (some _) =>
      if lua then
        { s with
          fresh := s.fresh + 1
          live := s.live ++ [s.fresh]
          jobs := s.jobs ++ [.running name (some s.fresh)] }
      else { s with jobs := s.jobs ++ [.running name none] }
  | _ => { s with jobs := s.jobs ++ [.finished] }

/-- `free_policy` does not go to a null pointer. -/
def canFree (server : PolicyBaseServer) (name : Bytes) : Bool :=
  match server.baseMap[name]? with
  | some (some _) => true
  | some none => false
  | none => server.originBase

/-- `free_policy`, at the end of a job. -/
def free (s : LuaStates) (i : ℕ) : Option LuaStates :=
  match s.jobs[i]? with
  | some (.running _ none) => some { s with jobs := s.jobs.set i .finished }
  | some (.running name (some lua)) =>
      if canFree s.server name then
        some { s with live := s.live.erase lua, jobs := s.jobs.set i .finished }
      else none
  | _ => none

/-- What an action does; `main` is the path of the first script. -/
def step (main : Bytes) (s : LuaStates) : LuaAction → Option LuaStates
  | .init files =>
      (s.server.init (files.scripts main)).map fun r =>
        { s with
          server := r.2
          fresh := s.fresh + files.leaks main s.server
          live := s.live ++ List.range' s.fresh (files.leaks main s.server) }
  | .clear => s.server.clear.map fun server => { s with server }
  | .clone name lua => some (s.clone name lua)
  | .free i => s.free i

/-! ### The states that are open -/

/-- What `init` has left open, and how often it has come to the call of the first script. -/
structure Leaked where
  states : List ℕ
  calls : ℕ

/-- What an action leaves open. -/
def note (main : Bytes) (s : LuaStates) (a : LuaAction) (leaked : Leaked) : Leaked :=
  match a with
  | .init files =>
      ⟨leaked.states ++ List.range' s.fresh (files.leaks main s.server),
        leaked.calls + if files.comesToCall main then 1 else 0⟩
  | _ => leaked

/-- Every open state is in the hands of one job, or has been left open by `init`. -/
structure Owned (s : LuaStates) (leaked : Leaked) : Prop where
  perm : s.live.Perm (s.held ++ leaked.states)
  nodup : s.live.Nodup
  lt : ∀ lua ∈ s.live, lua < s.fresh
  calls : leaked.calls ≤ leaked.states.length

variable {main : Bytes} {s t : LuaStates} {leaked : Leaked} {i : ℕ}

/-- At the start nobody has a Lua state. -/
theorem owned_start : start.Owned ⟨[], 0⟩ :=
  ⟨List.Perm.refl _, List.nodup_nil, fun _ h => absurd h List.not_mem_nil, Nat.le_refl _⟩

/-- New Lua states are different from each other and from those that are open. -/
theorem nodup_append_range' (h : s.Owned leaked) (n : ℕ) :
    (s.live ++ List.range' s.fresh n).Nodup := by
  refine List.nodup_append.2 ⟨h.nodup, List.nodup_range', fun a ha b hb => ?_⟩
  have hlow := h.lt a ha
  have hhigh := (List.mem_range'_1.1 hb).1
  omega

/-- `init` makes new states, of which those that it does not close are leaked. -/
theorem Owned.init (h : s.Owned leaked) {files : Files}
    (hst : s.step main (.init files) = some t) : t.Owned (note main s (.init files) leaked) := by
  obtain ⟨r, -, rfl⟩ := Option.map_eq_some_iff.1 hst
  refine ⟨?_, nodup_append_range' h _, fun lua hlua => ?_, ?_⟩
  · change (s.live ++ _).Perm (s.held ++ (leaked.states ++ _))
    rw [← List.append_assoc]
    exact h.perm.append_right _
  · rcases List.mem_append.1 hlua with hold | hnew
    · exact Nat.lt_add_right _ (h.lt lua hold)
    · exact (List.mem_range'_1.1 hnew).2
  · simp only [note, List.length_append, List.length_range']
    have hcalls := h.calls
    split_ifs with hcall
    · have hone := Files.one_le_leaks hcall s.server
      omega
    · omega

/-- A state that is cloned is owned by its job. -/
theorem Owned.clone (h : s.Owned leaked) (name : Bytes) (lua : Bool) :
    (s.clone name lua).Owned leaked := by
  have hquiet (job : Job) (hjob : job.lua = none) :
      ({ s with jobs := s.jobs ++ [job] } : LuaStates).Owned leaked := by
    refine ⟨?_, h.nodup, h.lt, h.calls⟩
    have hheld : ({ s with jobs := s.jobs ++ [job] } : LuaStates).held = s.held := by
      simp [held, List.filterMap_append, hjob]
    rw [hheld]
    exact h.perm
  rw [LuaStates.clone]
  split
  · split_ifs
    · -- a state with a number that is new
      refine ⟨?_, ?_, fun l hl => ?_, h.calls⟩
      · have hheld : (s.jobs ++ [Job.running name (some s.fresh)]).filterMap Job.lua =
            s.held ++ [s.fresh] := by simp [held, List.filterMap_append, Job.lua]
        change (s.live ++ [s.fresh]).Perm
          ((s.jobs ++ [Job.running name (some s.fresh)]).filterMap Job.lua ++ leaked.states)
        rw [hheld]
        calc s.live ++ [s.fresh]
            _ |>.Perm (s.held ++ leaked.states ++ [s.fresh]) := h.perm.append_right _
            _ |>.Perm (s.held ++ [s.fresh] ++ leaked.states) := by
              simp only [List.append_assoc]
              exact List.perm_append_comm.append_left _
      · exact nodup_append_range' h 1
      · rcases List.mem_append.1 hl with hold | hnew
        · exact Nat.lt_succ_of_lt (h.lt l hold)
        · rw [List.mem_singleton.1 hnew]
          exact Nat.lt_succ_self _
    · exact hquiet _ rfl
  · exact hquiet _ rfl

/-- A state that a job frees is closed. -/
theorem Owned.free (h : s.Owned leaked) (hst : s.free i = some t) : t.Owned leaked := by
  rw [LuaStates.free] at hst
  split at hst
  · rename_i name hjob
    obtain rfl := Option.some.inj hst
    refine ⟨h.perm.trans (List.Perm.append_right _ ?_), h.nodup, h.lt, h.calls⟩
    exact (filterMap_perm Job.lua hjob).trans (filterMap_set_perm Job.lua hjob .finished).symm
  · rename_i name lua hjob
    split_ifs at hst
    obtain rfl := Option.some.inj hst
    have hbefore := filterMap_perm Job.lua hjob
    have hafter := filterMap_set_perm Job.lua hjob .finished
    have hlive : s.live.Perm (lua :: ((s.jobs.set i .finished).filterMap Job.lua ++
        leaked.states)) := by
      refine h.perm.trans ?_
      rw [← List.cons_append]
      exact List.Perm.append_right _ (hbefore.trans (hafter.symm.cons lua))
    refine ⟨?_, h.nodup.erase lua, fun l hl => h.lt l (List.mem_of_mem_erase hl), h.calls⟩
    have herase := hlive.erase lua
    rwa [List.erase_cons_head] at herase
  · cases hst

/-- **Every call keeps the account of the states**: each is open and belongs to one job, or is
leaked. -/
theorem Owned.step {a : LuaAction} (h : s.Owned leaked) (hst : s.step main a = some t) :
    t.Owned (note main s a leaked) := by
  cases a with
  | init files => exact h.init hst
  | clear =>
      obtain ⟨server, -, rfl⟩ := Option.map_eq_some_iff.1 hst
      exact ⟨h.perm, h.nodup, h.lt, h.calls⟩
  | clone name lua =>
      obtain rfl := Option.some.inj hst
      exact h.clone name lua
  | free i => exact h.free hst

/-- What a run has left open. -/
def leakedBy (main : Bytes) (as : List LuaAction) : Leaked :=
  history (LuaStates.step main) (note main) start ⟨[], 0⟩ as

/-- **Every open Lua state is in the hands of exactly one job, or has been left open by `init`**,
whatever the order of the actions.  So no state is closed twice and no job leaves one behind;
`init` leaves one at every call of the first script. -/
theorem open_states (main : Bytes) (as : List LuaAction) (t : LuaStates)
    (h : exec (LuaStates.step main) start as = some t) :
    t.live.Perm (t.held ++ (leakedBy main as).states) ∧ t.live.Nodup ∧
      (leakedBy main as).calls ≤ (leakedBy main as).states.length := by
  have hstep : ∀ s a t leaked, s.Owned leaked → LuaStates.step main s a = some t →
      t.Owned (note main s a leaked) := fun s a t leaked hs hst => hs.step hst
  have hend : t.Owned (leakedBy main as) := history_of_exec owned_start hstep h
  exact ⟨hend.perm, hend.nodup, hend.calls⟩

/-- A first script that names the plugin `a`, which can be loaded. -/
def oneFile : Files where
  main := ⟨str "main", true, true, str "1", [], []⟩
  cloneMain := true
  inserted := [str "a", str "b"]
  firstCall := true
  plugin name := ⟨if name = [] then [] else str "x", true, name = str "a", str "1", [], str "page"⟩
  plugin_nil := rfl

/-- A job that has come to its end, one that has not, and two states that `init` has left open:
that of the first script, and that of the plugin `b`. -/
theorem open_states_oneFile : ∃ t, exec (LuaStates.step (str "main.lua")) start
      [.init oneFile, .clone (str "a") true, .clone (str "a") true, .free 0] = some t ∧
    t.live.Perm (t.held ++ [0, 1]) ∧ t.live.Nodup ∧ 1 ≤ 2 :=
  ⟨_, rfl, open_states (str "main.lua")
    [.init oneFile, .clone (str "a") true, .clone (str "a") true, .free 0] _ rfl⟩

/-! ### Freeing -/

/-- Every job can free the state that it has. -/
def Freeable (s : LuaStates) : Prop :=
  ∀ name lua, Job.running name (some lua) ∈ s.jobs → canFree s.server name = true

/-- `clear`, and an `init` that fails, come when no job has a state. -/
def ClearsIdle (main : Bytes) (s : LuaStates) : LuaAction → Prop
  | .clear => s.held = []
  | .init files => ∀ server, s.server.init (files.scripts main) = some (false, server) →
      s.held = []
  | _ => True

/-- What a state that every job can be freed in has besides. -/
structure FreeInv (s : LuaStates) : Prop where
  freeable : s.Freeable
  ready : Ready s.server.baseMap

/-- The state of a job that is running is held. -/
theorem mem_held {name : Bytes} {lua : ℕ} (h : Job.running name (some lua) ∈ s.jobs) :
    lua ∈ s.held := List.mem_filterMap.2 ⟨_, h, rfl⟩

/-- A state that is held belongs to a job that is running. -/
theorem exists_running_of_held (h : s.held ≠ []) :
    ∃ name lua, Job.running name (some lua) ∈ s.jobs := by
  obtain ⟨lua, hlua⟩ := List.exists_mem_of_ne_nil _ h
  obtain ⟨job, hjob, hheld⟩ := List.mem_filterMap.1 hlua
  cases job with
  | running name state =>
      obtain rfl : state = some lua := hheld
      exact ⟨name, lua, hjob⟩
  | finished => cases hheld

/-- Where there is a plugin for every entry, a server that has its `origin_base` frees all. -/
theorem canFree_of_ready {server : PolicyBaseServer} (h : Ready server.baseMap)
    (horigin : server.originBase = true) (name : Bytes) : canFree server name = true := by
  unfold canFree
  split
  · rfl
  · rename_i hnone
    obtain ⟨-, base, hbase⟩ := h name none hnone
    cases hbase
  · exact horigin

/-- A server that has been cleared knows no name. -/
theorem canFree_cleared (name : Bytes) : canFree ⟨false, ∅⟩ name = false := by
  simp [canFree]

/-- `init` gives the server its `origin_base`, or clears it. -/
theorem init_cases {server server' : PolicyBaseServer} {scripts : Scripts} {b : Bool}
    (h : server.init scripts = some (b, server')) :
    (b = true ∧ server'.originBase = true) ∨ (b = false ∧ server' = ⟨false, ∅⟩) := by
  have hclear : ∀ u : PolicyBaseServer, u.originBase = true →
      u.clear.map (Prod.mk false) = some (b, server') → b = false ∧ server' = ⟨false, ∅⟩ := by
    intro u hu hclear
    rw [PolicyBaseServer.clear, if_pos hu] at hclear
    obtain ⟨hb, hserver⟩ := Prod.mk.inj (Option.some.inj hclear)
    exact ⟨hb.symm, hserver.symm⟩
  have hinserted : ∀ (names : List Bytes) (u : PolicyBaseServer),
      (names.foldl PolicyBaseServer.insertPluginsName u).originBase = u.originBase := by
    intro names
    induction names with
    | nil => exact fun u => rfl
    | cons name names ih => exact fun u => ih _
  unfold PolicyBaseServer.init at h
  split_ifs at h
  · exact .inr (hclear _ rfl h)
  · exact .inr (hclear _ rfl h)
  · exact .inr (hclear _ (hinserted _ _) h)
  · obtain ⟨hb, rfl⟩ := Prod.mk.inj (Option.some.inj h)
    exact .inl ⟨hb.symm, hinserted _ _⟩

/-- `clear` leaves an empty server. -/
theorem clear_cases {server server' : PolicyBaseServer} (h : server.clear = some server') :
    server' = ⟨false, ∅⟩ := by
  rw [PolicyBaseServer.clear] at h
  split_ifs at h
  exact (Option.some.inj h).symm

/-- A server that is cleared while no job has a state. -/
theorem freeInv_cleared (h : s.held = []) : FreeInv { s with server := ⟨false, ∅⟩ } := by
  refine ⟨fun name lua hjob => ?_, ready_empty⟩
  have hmem : lua ∈ s.held := mem_held hjob
  rw [h] at hmem
  exact absurd hmem List.not_mem_nil

/-- A server that is cleared while a job has a state. -/
theorem not_freeable_cleared (h : s.held ≠ []) : ¬ Freeable { s with server := ⟨false, ∅⟩ } := by
  obtain ⟨name, lua, hjob⟩ := exists_running_of_held h
  intro hfree
  have hcan := hfree name lua hjob
  rw [canFree_cleared] at hcan
  cases hcan

/-- A new job can be freed while the server knows its name. -/
theorem FreeInv.clone (h : s.FreeInv) (name : Bytes) (lua : Bool) : (s.clone name lua).FreeInv := by
  have hjobs (job : Job) (hjob : ∀ n l, job = .running n (some l) → canFree s.server n = true) :
      ∀ n l, Job.running n (some l) ∈ s.jobs ++ [job] → canFree s.server n = true := by
    intro n l hmem
    rcases List.mem_append.1 hmem with hold | hnew
    · exact h.freeable n l hold
    · exact hjob n l (List.mem_singleton.1 hnew).symm
  rw [LuaStates.clone]
  split
  · rename_i base hbase
    have hcan : canFree s.server name = true := by simp [canFree, hbase]
    split_ifs
    · refine ⟨hjobs _ fun n l hjob => ?_, h.ready⟩
      cases hjob
      exact hcan
    · refine ⟨hjobs _ fun n l hjob => ?_, h.ready⟩
      cases hjob
  · refine ⟨hjobs _ fun n l hjob => ?_, h.ready⟩
    cases hjob

/-- Freeing one job leaves the others as they are. -/
theorem FreeInv.free (h : s.FreeInv) (hst : s.free i = some t) : t.FreeInv := by
  have hset : ∀ n l, Job.running n (some l) ∈ s.jobs.set i .finished →
      canFree s.server n = true := by
    intro n l hmem
    rcases List.mem_or_eq_of_mem_set hmem with hold | hnew
    · exact h.freeable n l hold
    · cases hnew
  rw [LuaStates.free] at hst
  split at hst
  · obtain rfl := Option.some.inj hst
    exact ⟨hset, h.ready⟩
  · split_ifs at hst
    obtain rfl := Option.some.inj hst
    exact ⟨hset, h.ready⟩
  · cases hst

/-- Every call that does not clear the server under a running job keeps the jobs freeable. -/
theorem FreeInv.step {a : LuaAction} (h : s.FreeInv) (hidle : s.ClearsIdle main a)
    (hst : s.step main a = some t) : t.FreeInv := by
  cases a with
  | init files =>
      obtain ⟨⟨b, server⟩, hinit, rfl⟩ := Option.map_eq_some_iff.1 hst
      rcases init_cases hinit with ⟨-, horigin⟩ | ⟨rfl, rfl⟩
      · exact ⟨fun name _ _ => canFree_of_ready (init_ready hinit) horigin name, init_ready hinit⟩
      · have hcleared := freeInv_cleared (hidle _ hinit)
        exact ⟨hcleared.freeable, hcleared.ready⟩
  | clear =>
      obtain ⟨server, hclear, rfl⟩ := Option.map_eq_some_iff.1 hst
      rw [clear_cases hclear]
      exact freeInv_cleared hidle
  | clone name lua =>
      obtain rfl := Option.some.inj hst
      exact h.clone name lua
  | free i => exact h.free hst

/-- **A server that is cleared under a running job leaves it with a state that cannot be freed.** -/
theorem not_freeable_of_busy {a : LuaAction} (hbusy : ¬ s.ClearsIdle main a)
    (hst : s.step main a = some t) : ¬ t.Freeable := by
  cases a with
  | init files =>
      simp only [ClearsIdle, Classical.not_forall] at hbusy
      obtain ⟨server, hinit, hheld⟩ := hbusy
      obtain ⟨r, hr, rfl⟩ := Option.map_eq_some_iff.1 hst
      obtain rfl : (false, server) = r := Option.some.inj (hinit.symm.trans hr)
      rcases init_cases hinit with ⟨hb, -⟩ | ⟨-, rfl⟩
      · cases hb
      · exact not_freeable_cleared hheld
  | clear =>
      obtain ⟨server, hclear, rfl⟩ := Option.map_eq_some_iff.1 hst
      rw [clear_cases hclear]
      exact not_freeable_cleared hbusy
  | clone name lua => exact absurd trivial hbusy
  | free i => exact absurd trivial hbusy

/-- **Every job can free the Lua state that it has cloned, throughout a run, exactly if `clear` and
every `init` that fails come when no job has a state.**  Otherwise `free_policy` goes through a
null pointer. -/
theorem always_freeable_iff (main : Bytes) (as : List LuaAction) :
    Always (LuaStates.step main) Freeable start as ↔
      Along (LuaStates.step main) (ClearsIdle main) start as := by
  have hstart : start.FreeInv := ⟨fun _ _ h => absurd h List.not_mem_nil, ready_empty⟩
  exact always_iff_along hstart (fun _ _ _ => FreeInv.step) (fun _ => FreeInv.freeable)
    (fun _ _ _ _ => not_freeable_of_busy) as

end LuaStates

end PolicyApi
end Scaner
