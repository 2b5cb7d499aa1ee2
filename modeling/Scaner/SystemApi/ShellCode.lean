/-
# The options of the command line

`system_api::shell_code` in `scaner_test/system.cpp`: the arguments behind the name of the
program are keys, which begin with a `'-'`, and values, which do not.  A key waits until the
next argument: a value is stored under it, and in front of another key it is stored with no
value.  The first value of a key stays, as `std::map::insert` has it.

Nothing is stored for a key that still waits when the arguments end
(`shellLoop_commandLine`).  So all options are in the map unless the last one has no value
and no other option has its key (`shellCode_options_iff`).

A `std::map` from strings to strings is a `Std.ExtTreeMap`, in the order of the bytes.
-/

import Scaner.Lib.Bytes
import Scaner.Lib.OrderedMap

namespace Scaner
namespace SystemApi

open Bytes OrderedMap

/-- `'-'`. -/
abbrev dash : UInt8 := 45

/-- `std::map<std::string, std::string>`. -/
abbrev OptionMap := Std.ExtTreeMap Bytes Bytes compare

/-- The loop of `shell_code` over the arguments that are left: `key` is the key that waits, if
it is not empty. -/
def shellLoop (bTransformLower : Bool) : List Bytes → Bytes → OptionMap → Bool × OptionMap
  | [], _, mapOut => (true, mapOut)
  | value :: argv, key, mapOut =>
      if value.take 1 ≠ [dash] then
        if key ≠ [] then shellLoop bTransformLower argv [] (mapOut.insertIfNew key value)
        else (false, mapOut)
      else
        let mapOut := if key ≠ [] then mapOut.insertIfNew key [] else mapOut
        shellLoop bTransformLower argv
          (if bTransformLower then value.map toLower else value) mapOut

/-- `shell_code`: its value, and `map_out` behind it. -/
def shellCode (argv : List Bytes) (mapOut : OptionMap) (bTransformLower : Bool) :
    Bool × OptionMap :=
  if argv.length < 2 then (false, mapOut) else shellLoop bTransformLower argv.tail [] mapOut

/-! ### Options -/

/-- An option: a key, and a value if there is one. -/
structure CommandOption where
  key : Bytes
  value : Option Bytes
  key_dash : key.take 1 = [dash]
  value_dash : ∀ v ∈ value, v.take 1 ≠ [dash]

namespace CommandOption

/-- The arguments of an option. -/
def args (o : CommandOption) : List Bytes := o.key :: o.value.toList

/-- The key under which the option is stored. -/
def lowerKey (o : CommandOption) : Bytes := o.key.map toLower

/-- The value of the option, empty if there is none. -/
def text (o : CommandOption) : Bytes := o.value.getD []

end CommandOption

/-- The arguments of several options. -/
def commandLine (opts : List CommandOption) : List Bytes := opts.flatMap CommandOption.args

/-- The value of a key: that of the first option that has it. -/
def firstValue (opts : List CommandOption) (key : Bytes) : Option Bytes :=
  (opts.find? (·.lowerKey = key)).map CommandOption.text

/-- The options that are stored: all but a last one with no value. -/
def kept : List CommandOption → List CommandOption
  | [] => []
  | [o] => if o.value = none then [] else [o]
  | o :: o' :: opts => o :: kept (o' :: opts)

/-- The options are stored in turn. -/
def storeOptions (opts : List CommandOption) (m : OptionMap) : OptionMap :=
  opts.foldl (fun m o => m.insertIfNew o.lowerKey o.text) m

variable {o : CommandOption} {opts : List CommandOption} {m : OptionMap}

/-- An option has a key. -/
theorem CommandOption.key_ne_nil (o : CommandOption) : o.key ≠ [] := by
  intro hnil
  have := o.key_dash
  simp [hnil] at this

/-- In lower case an option has a key too. -/
theorem CommandOption.lowerKey_ne_nil (o : CommandOption) : o.lowerKey ≠ [] := by
  simp [lowerKey, o.key_ne_nil]

/-- The first option is stored first. -/
theorem storeOptions_cons (o : CommandOption) (opts : List CommandOption) (m : OptionMap) :
    storeOptions (o :: opts) m = storeOptions opts (m.insertIfNew o.lowerKey o.text) := rfl

/-! ### The loop stores options -/

/-- A key begins to wait. -/
theorem shellLoop_key (o : CommandOption) (argv : List Bytes) (m : OptionMap) :
    shellLoop true (o.key :: argv) [] m = shellLoop true argv o.lowerKey m := by
  rw [shellLoop, if_neg (not_not.2 o.key_dash)]
  rfl

/-- A key ends the waiting of another one. -/
theorem shellLoop_flush {key : Bytes} (hkey : key ≠ []) (o : CommandOption) (argv : List Bytes)
    (m : OptionMap) :
    shellLoop true (o.key :: argv) key m =
      shellLoop true (o.key :: argv) [] (m.insertIfNew key []) := by
  rw [shellLoop_key, shellLoop, if_neg (not_not.2 o.key_dash)]
  simp only [if_pos hkey]
  rfl

/-- A value is stored under the key that waits. -/
theorem shellLoop_value {v key : Bytes} (hv : v.take 1 ≠ [dash]) (hkey : key ≠ [])
    (argv : List Bytes) (m : OptionMap) :
    shellLoop true (v :: argv) key m = shellLoop true argv [] (m.insertIfNew key v) := by
  rw [shellLoop, if_pos hv, if_pos hkey]

/-- **What `shell_code` stores of a list of options.** -/
theorem shellLoop_commandLine (opts : List CommandOption) (m : OptionMap) :
    shellLoop true (commandLine opts) [] m = (true, storeOptions (kept opts) m) := by
  induction opts generalizing m with
  | nil => rfl
  | cons o opts ih =>
      have hline : commandLine (o :: opts) = o.key :: (o.value.toList ++ commandLine opts) := rfl
      rw [hline, shellLoop_key]
      cases hvalue : o.value with
      | some v =>
          have hkept : kept (o :: opts) = o :: kept opts := by
            cases opts with
            | nil => simp [kept, hvalue]
            | cons o' opts => rfl
          have htext : o.text = v := by simp [CommandOption.text, hvalue]
          rw [Option.toList_some, List.singleton_append,
            shellLoop_value (o.value_dash v hvalue) o.lowerKey_ne_nil, ih, hkept,
            storeOptions_cons, htext]
      | none =>
          have htext : o.text = [] := by simp [CommandOption.text, hvalue]
          cases opts with
          | nil => simp [commandLine, shellLoop, kept, hvalue, storeOptions]
          | cons o' opts =>
              have hline' : commandLine (o' :: opts) =
                  o'.key :: (o'.value.toList ++ commandLine opts) := rfl
              rw [Option.toList_none, List.nil_append, hline',
                shellLoop_flush o.lowerKey_ne_nil, ← hline', ih, kept, storeOptions_cons, htext]

/-! ### What is in the map -/

/-- The first value of a key: that of the first option, or of those behind it. -/
theorem firstValue_cons (o : CommandOption) (opts : List CommandOption) (x : Bytes) :
    firstValue (o :: opts) x =
      (if o.lowerKey = x then some o.text else none).or (firstValue opts x) := by
  unfold firstValue
  by_cases hx : o.lowerKey = x
  · simp [hx]
  · simp [hx]

/-- The first value of a key in two lists of options. -/
theorem firstValue_append (opts opts' : List CommandOption) (x : Bytes) :
    firstValue (opts ++ opts') x = (firstValue opts x).or (firstValue opts' x) := by
  rw [firstValue, List.find?_append, Option.map_or]
  rfl

/-- A key has no value exactly if no option has it. -/
theorem firstValue_eq_none_iff {x : Bytes} :
    firstValue opts x = none ↔ ∀ o ∈ opts, o.lowerKey ≠ x := by
  simp [firstValue]

/-- **What is stored under a key**: the value that it had, or that of its first option. -/
theorem getElem?_storeOptions (opts : List CommandOption) (m : OptionMap) (x : Bytes) :
    (storeOptions opts m)[x]? = m[x]?.or (firstValue opts x) := by
  induction opts generalizing m with
  | nil => simp [storeOptions, firstValue]
  | cons o opts ih =>
      rw [storeOptions_cons, ih, getElem?_insertIfNew, firstValue_cons, Option.or_assoc]

/-- The options that are stored are all, or all but a last one with no value. -/
theorem kept_cases (opts : List CommandOption) :
    (kept opts = opts ∧ ∀ o ∈ opts.getLast?, o.value ≠ none) ∨
      ∃ o, o.value = none ∧ opts = kept opts ++ [o] := by
  induction opts with
  | nil => exact Or.inl ⟨rfl, by simp⟩
  | cons o opts ih =>
      cases opts with
      | nil =>
          rw [kept]
          split_ifs with hvalue
          · exact Or.inr ⟨o, hvalue, rfl⟩
          · exact Or.inl ⟨rfl, by simpa using hvalue⟩
      | cons o' opts =>
          rw [kept]
          rcases ih with ⟨heq, hlast⟩ | ⟨last, hvalue, heq⟩
          · exact Or.inl ⟨by rw [heq], by simpa using hlast⟩
          · exact Or.inr ⟨last, hvalue, by rw [List.cons_append, ← heq]⟩

/-- **When no option is dropped**: the last option has a value, or another option before it
has its key. -/
theorem shellCode_options_iff (program : Bytes) (opts : List CommandOption) :
    ((opts ≠ [] → (shellCode (program :: commandLine opts) ∅ true).1 = true) ∧
        ∀ key, (shellCode (program :: commandLine opts) ∅ true).2[key]? = firstValue opts key) ↔
      ∀ last ∈ opts.getLast?,
        last.value ≠ none ∨ ∃ o ∈ opts.dropLast, o.lowerKey = last.lowerKey := by
  cases hopts : opts with
  | nil => simp [shellCode, commandLine, firstValue]
  | cons o rest =>
      have hlen : ¬ (program :: commandLine (o :: rest)).length < 2 := by
        simp [commandLine, CommandOption.args]
      rw [shellCode, if_neg hlen, List.tail_cons, shellLoop_commandLine, ← hopts]
      simp only [implies_true, true_and, getElem?_storeOptions, Std.ExtTreeMap.getElem?_empty,
        Option.none_or]
      rcases kept_cases opts with ⟨heq, hlast⟩ | ⟨last, hvalue, heq⟩
      · rw [heq]
        exact iff_of_true (fun _ => rfl) fun last hl => Or.inl (hlast last hl)
      · -- the option that is dropped matters if its key is not stored without it
        have hget : opts.getLast? = some last := by rw [heq, List.getLast?_concat]
        have hdrop : opts.dropLast = kept opts := by rw [heq, List.dropLast_concat, ← heq]
        have hsplit : ∀ key, firstValue opts key =
            (firstValue (kept opts) key).or (firstValue [last] key) := by
          intro key
          rw [← firstValue_append, ← heq]
        rw [hget, hdrop]
        simp only [hsplit, Option.mem_some_iff, forall_eq', hvalue, ne_eq, not_true_eq_false,
          false_or]
        constructor
        · intro h
          by_contra hnone
          push Not at hnone
          have hlast := h last.lowerKey
          rw [firstValue_eq_none_iff.2 hnone] at hlast
          simp [firstValue] at hlast
        · rintro ⟨o', ho', hkey⟩ key
          cases hfirst : firstValue (kept opts) key with
          | some v => rfl
          | none =>
              have hne : last.lowerKey ≠ key := hkey ▸ firstValue_eq_none_iff.1 hfirst o' ho'
              simp [firstValue, hne]

/-- The option `-a` with no value at the end of the arguments is dropped. -/
theorem exists_shellCode_drops : ∃ opts : List CommandOption, opts ≠ [] ∧
    ∃ key, (shellCode (str "scaner_test" :: commandLine opts) ∅ true).2[key]? ≠
      firstValue opts key :=
  ⟨[⟨str "-a", none, rfl, by simp⟩], by simp, str "-a", by decide +kernel⟩

end SystemApi
end Scaner
