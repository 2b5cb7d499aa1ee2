/-
# The list of plugins

`globle_func_insert_load` in `scaner_test/policy_base.cpp`, which the first script calls as
`InsertNewPlugins` with the names of plugins, joined by `<|>`.  The loop takes the names off
the front of the text, one for each `<|>`, and what is left is a name too unless it is empty.
A name that is no full path is put behind the path of the application, `get_app_path` of
`scaner_test/file_base_tools.cpp`.

`<|>` does not overlap with itself, so no name is cut in the wrong place, whatever it ends with
(`pluginNames_joinNames`).  Two things remain (`exists_not_readsAll`).  The text is taken as a C
string, and so ends at a zero byte.  And only the last piece is dropped when it is empty: the
text `<|>` of no name at all is read as an empty name, which stands for the directory of the
application.
-/

import Mathlib.Data.List.DropRight
import Scaner.Lib.LuaStack
import Scaner.PolicyApi.Server

namespace Scaner
namespace PolicyApi

open Bytes OrderedMap LuaStack

/-- The text between two names. -/
def separator : Bytes := str "<|>"

/-- `get_app_path`, with what `GetModuleFileName` stores in `path`. -/
def getAppPath (path : Bytes) : Bytes :=
  let gAppPath := cString path
  if gAppPath.any (str "\\/").contains then gAppPath.rdropWhile fun b => !(str "\\/").contains b
  else gAppPath

/-- The loop over `str`, with `v_str`.  Every turn takes a separator off, so the length of the
text is enough for the number of turns. -/
def takeNames : ℕ → Bytes → List Bytes → List Bytes × Bytes
  | 0, str, vStr => (vStr, str)
  | n + 1, str, vStr =>
      match splitFirst separator str with
      | none => (vStr, str)
      | some (name, rest) => takeNames n rest (vStr ++ [name])

/-- `v_str`: the names in the text. -/
def pluginNames (str : Bytes) : List Bytes :=
  match takeNames str.length str [] with
  | (vStr, str) => if str = [] then vStr else vStr ++ [str]

/-- The path of a plugin. -/
def pluginPath (path name : Bytes) : Bytes :=
  if containsSub (str ":\\") name = false then getAppPath path ++ name else name

/-- `globle_func_insert_load`.  It fails when its argument is no text. -/
def globleFuncInsertLoad (path : Bytes) (server : PolicyBaseServer) (lua : List Value) :
    Option PolicyBaseServer :=
  match topString lua with
  | none => none
  | some str => some ((pluginNames str).foldl
      (fun server name => server.insertPluginsName (pluginPath path name)) server)

/-! ### What the call is for -/

/-- A name that can stand in a list. -/
structure PluginName where
  text : Bytes
  ne_nil : text ≠ []
  not_infix : ¬ separator <:+: text

/-- The text of a list of names, with or without a separator behind the last one. -/
def joinNames (names : List PluginName) (trailing : Bool) : Bytes :=
  separator.intercalate (names.map PluginName.text) ++ if trailing then separator else []

/-- The map has an entry with no plugin for every path that it did not have, and is as it was
otherwise. -/
structure Extended (m : BaseMap) (paths : List Bytes) (m' : BaseMap) : Prop where
  kept : ∀ key ∈ m, m'[key]? = m[key]?
  added : ∀ key ∉ m, key ∈ paths → m'[key]? = some none
  nothingElse : ∀ key ∉ m, key ∉ paths → m'[key]? = none

/-- The list is read completely. -/
def ReadsAll (path : Bytes) (server : PolicyBaseServer) (lua : List Value)
    (names : List PluginName) (trailing : Bool) : Prop :=
  ∃ server', globleFuncInsertLoad path server (lua ++ [.string (joinNames names trailing)]) =
      some server' ∧
    Extended server.baseMap (names.map fun name => pluginPath path name.text) server'.baseMap

variable {n : ℕ} {s last : Bytes} {front vStr : List Bytes} {names : List PluginName}

/-! ### The names in a text -/

/-- **The loop takes all pieces but the last.** -/
theorem takeNames_spec (n : ℕ) (s : Bytes) (vStr : List Bytes) :
    (takeNames n s vStr).1 = vStr ++ (cutFuel separator n s).dropLast ∧
      (cutFuel separator n s).getLast? = some (takeNames n s vStr).2 := by
  induction n generalizing s vStr with
  | zero => simp [takeNames, cutFuel]
  | succ n ih =>
      rw [takeNames, cutFuel]
      cases splitFirst separator s with
      | none => simp
      | some r =>
          obtain ⟨name, rest⟩ := r
          obtain ⟨hfront, hlast⟩ := ih rest (vStr ++ [name])
          have hne := cutFuel_ne_nil separator n rest
          refine ⟨?_, ?_⟩
          · simp [hfront, List.dropLast_cons_of_ne_nil hne]
          · rw [List.getLast?_cons_of_ne_nil hne, hlast]

/-- The names are the pieces of the text, without the last one if it is empty. -/
theorem pluginNames_eq (h : cut separator s = front ++ [last]) :
    pluginNames s = if last = [] then front else front ++ [last] := by
  obtain ⟨hfront, hlast⟩ := takeNames_spec s.length s []
  rw [cut] at h
  rw [h, List.dropLast_concat, List.nil_append] at hfront
  rw [h, List.getLast?_concat, Option.some.injEq] at hlast
  have hloop : takeNames s.length s [] = (front, last) := Prod.ext hfront hlast.symm
  rw [pluginNames, hloop]

/-- The separator begins with `<`. -/
theorem separator_eq : separator = 60 :: str "|>" := rfl

/-- The separator has its first byte nowhere else, so that it does not overlap with itself. -/
theorem first_not_mem : (60 : UInt8) ∉ str "|>" := by decide

/-- The names are read back from the text that joins them. -/
theorem cut_names (h : names ≠ []) :
    cut separator (separator.intercalate (names.map PluginName.text)) =
      names.map PluginName.text := by
  have hin : ∀ x ∈ names.map PluginName.text, ¬ separator <:+: x := by
    simpa using fun name _ => PluginName.not_infix name
  exact cut_intercalate first_not_mem (by simpa using h) hin

/-- **The names of a list are read back from its text**, if there is one in front of a separator
at the end. -/
theorem pluginNames_joinNames {trailing : Bool} (h : trailing = true → names ≠ []) :
    pluginNames (joinNames names trailing) = names.map PluginName.text := by
  rw [joinNames]
  cases trailing with
  | true =>
      have hcut : cut separator (separator.intercalate (names.map PluginName.text) ++
          (separator ++ [])) = names.map PluginName.text ++ [[]] := by
        rw [separator_eq, cut_append_of_not_mem first_not_mem, ← separator_eq, cut_names (h rfl)]
        rfl
      rw [List.append_nil] at hcut
      rw [if_pos rfl, pluginNames_eq hcut, if_pos rfl]
  | false =>
      rw [if_neg Bool.false_ne_true, List.append_nil]
      cases names using List.reverseRecOn with
      | nil => rfl
      | append_singleton front last =>
          -- The last piece is the last name, which is not empty.
          have hne : front ++ [last] ≠ [] := by simp
          have hcut := cut_names hne
          rw [List.map_append, List.map_singleton] at hcut ⊢
          rw [pluginNames_eq hcut, if_neg last.ne_nil]

/-! ### The entries that are made -/

/-- Inserting names puts their paths in the map, with no plugin yet. -/
theorem baseMap_foldl_insertPluginsName (f : Bytes → Bytes) (names : List Bytes)
    (server : PolicyBaseServer) :
    (names.foldl (fun server name => server.insertPluginsName (f name)) server).baseMap =
      (names.map f).foldl (fun m key => m.insertIfNew key none) server.baseMap := by
  induction names generalizing server with
  | nil => rfl
  | cons name names ih =>
      rw [List.foldl_cons, ih]
      rfl

/-- Entries for some paths, with those that are there left alone. -/
theorem extended_foldl_insertIfNew (m : BaseMap) (paths : List Bytes) :
    Extended m paths (paths.foldl (fun m key => m.insertIfNew key none) m) where
  kept key hmem := by
    rw [Std.ExtTreeMap.mem_iff_isSome_getElem?, Option.isSome_iff_exists] at hmem
    obtain ⟨entry, hentry⟩ := hmem
    rw [getElem?_foldl_insertIfNew, hentry, Option.some_or]
  added key hnew hpath := by
    rw [getElem?_foldl_insertIfNew, Std.ExtTreeMap.getElem?_eq_none hnew, Option.none_or,
      if_pos hpath]
  nothingElse key hnew hpath := by
    rw [getElem?_foldl_insertIfNew, Std.ExtTreeMap.getElem?_eq_none hnew, Option.none_or,
      if_neg hpath]

/-- **What a call does with a text**: an entry for every name up to the first zero byte. -/
theorem globleFuncInsertLoad_append (path : Bytes) (server : PolicyBaseServer) (lua : List Value)
    (text : Bytes) :
    globleFuncInsertLoad path server (lua ++ [.string text]) =
      some ((pluginNames (cString text)).foldl
        (fun server name => server.insertPluginsName (pluginPath path name)) server) := by
  rw [globleFuncInsertLoad, topString_append]

/-- There is no zero byte in the text if there is none in the names. -/
theorem zero_not_mem_joinNames {trailing : Bool} (h : ∀ name ∈ names, 0 ∉ name.text) :
    0 ∉ joinNames names trailing := by
  have hseparator : (0 : UInt8) ∉ separator := by decide
  rw [joinNames, List.mem_append, not_or]
  refine ⟨not_mem_intercalate hseparator (by simpa using h), ?_⟩
  split_ifs
  · exact hseparator
  · simp

/-- What it takes to read a list completely, in terms of the names that are found in its text. -/
theorem readsAll_iff {trailing : Bool} {path : Bytes} {server : PolicyBaseServer}
    {lua : List Value} :
    ReadsAll path server lua names trailing ↔
      Extended server.baseMap (names.map fun name => pluginPath path name.text)
        (((pluginNames (cString (joinNames names trailing))).map (pluginPath path)).foldl
          (fun m key => m.insertIfNew key none) server.baseMap) := by
  rw [ReadsAll, globleFuncInsertLoad_append, ← baseMap_foldl_insertPluginsName]
  constructor
  · rintro ⟨server', hrun, hextended⟩
    rw [Option.some.injEq] at hrun
    rwa [hrun]
  · intro hextended
    exact ⟨_, rfl, hextended⟩

/-- **The list of plugins is read completely**, if no name has a zero byte and a separator at the
end has a name in front of it. -/
theorem readsAll_of_zero_not_mem {trailing : Bool} (path : Bytes) (server : PolicyBaseServer)
    (lua : List Value) (hzero : ∀ name ∈ names, 0 ∉ name.text)
    (htrailing : trailing = true → names ≠ []) : ReadsAll path server lua names trailing := by
  rw [readsAll_iff, cString_eq_self_iff.2 (zero_not_mem_joinNames hzero),
    pluginNames_joinNames htrailing, List.map_map]
  exact extended_foldl_insertIfNew server.baseMap _

/-- The list `normal.lua<|>normal2.lua<|>` of `bin/main.lua`. -/
def normalNames : List PluginName :=
  [⟨str "normal.lua", by decide, by decide⟩, ⟨str "normal2.lua", by decide, by decide⟩]

/-- The names of the two plugins that the repository has. -/
theorem readsAll_normalNames :
    joinNames normalNames true = str "normal.lua<|>normal2.lua<|>" ∧
      ReadsAll (str "C:\\scan\\scaner_test.exe") ⟨true, ∅⟩ [] normalNames true :=
  ⟨by decide +kernel, readsAll_of_zero_not_mem _ _ _ (by decide) (by decide)⟩

/-- A name with a zero byte in it. -/
def zeroName : PluginName := ⟨str "a" ++ 0 :: str "b", by decide, by decide⟩

/-- A name that has a zero byte is cut off there; and no name with a separator behind it is
taken for the empty name. -/
theorem exists_not_readsAll :
    ¬ ReadsAll (str "C:\\x.exe") ⟨true, ∅⟩ [] [zeroName] false ∧
      ¬ ReadsAll (str "C:\\x.exe") ⟨true, ∅⟩ [] [] true := by
  constructor
  · rw [readsAll_iff]
    intro hextended
    exact absurd (hextended.nothingElse (str "C:\\a") (by simp) (by decide +kernel))
      (by decide +kernel)
  · rw [readsAll_iff]
    intro hextended
    exact absurd (hextended.nothingElse (str "C:\\") (by simp) (by simp)) (by decide +kernel)

/-! ### The calls of the first script -/

/-- The paths that calls of `InsertNewPlugins` with these texts insert. -/
def insertedPaths (path : Bytes) (texts : List Bytes) : List Bytes :=
  texts.flatMap fun text => (pluginNames (cString text)).map (pluginPath path)

/-- **The calls of a script insert these paths one after the other**, as `init` does with the
names of its script. -/
theorem exec_globleFuncInsertLoad (path : Bytes) (server : PolicyBaseServer) (texts : List Bytes) :
    Trace.exec (fun server text => globleFuncInsertLoad path server [.string text]) server texts =
      some ((insertedPaths path texts).foldl PolicyBaseServer.insertPluginsName server) := by
  induction texts generalizing server with
  | nil => rfl
  | cons text texts ih =>
      have hcall := globleFuncInsertLoad_append path server [] text
      rw [List.nil_append] at hcall
      rw [insertedPaths, List.flatMap_cons, List.foldl_append, List.foldl_map]
      simp only [Trace.exec, hcall]
      exact ih _

example : insertedPaths (str "C:\\scan\\scaner_test.exe")
    [str "domain.lua", str "normal.lua<|>normal2.lua<|>", str "D:\\db1.lua"] =
      [str "C:\\scan\\domain.lua", str "C:\\scan\\normal.lua", str "C:\\scan\\normal2.lua",
        str "D:\\db1.lua"] := by
  decide +kernel

end PolicyApi
end Scaner
