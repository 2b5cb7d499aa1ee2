/-
# Calls of Lua functions

`policy_work::call_function` and `policy_base::clone_one` in `scaner_test/policy_base.cpp`, and
the call that `run_policy_name` in `scaner_test/task_work.cpp` makes with three inputs and
three outputs.  `assert` does nothing in a release build.

`clone_one` runs the plugin with `LUA_MULTRET`, so what the plugin returns stays on the stack
(`exists_cloneOne`).  `call_function` reads its results with indices that count from the
bottom of the stack, and pops as many values as it reads: with something on the stack it
reads that, and after an error it pops some of it too.  Inputs and results are C strings, and
end at a zero byte.  `exact_iff` says when no harm comes of that.
-/

import Scaner.Lib.LuaStack

namespace Scaner
namespace PolicyApi

open Bytes LuaStack

/-- `enum init_environment_type`. -/
inductive InitEnvironmentType
  | initWhole
  | initWork

/-- What `clone_one` gets from Lua: whether there is a new state, and what the buffer returns
when it is loaded and run, if both succeed. -/
structure LuaLoader where
  newState : Bool
  run : Bytes → Option (List Value)

/-- `init_environment` sets a global function or nothing, and leaves the stack as it is. -/
def initEnvironment (stack : List Value) : InitEnvironmentType → Option (List Value)
  | .initWork => some stack
  | .initWhole => some stack

/-- `clone_one`: the stack of the new state. -/
def cloneOne (lua : LuaLoader) (mBuff : Bytes) (mType : InitEnvironmentType) :
    Option (List Value) :=
  if mBuff = [] then none
  else if lua.newState = false then none
  else
    match lua.run mBuff with
    | none => none
    | some stack => initEnvironment stack mType

/-- What `call_function` does: its value, `v_out` and the stack behind it, and the arguments
that the Lua function got. -/
structure CallResult where
  ret : Bool
  vOut : List Bytes
  luPtr : Option (List Value)
  passed : Option (List Value)

/-- The loop over the results, with the number of turns that are left and `i`. -/
def readLoop : ℕ → ℕ → List Value → List Bytes → List Value × List Bytes
  | 0, _, stack, vOut => (stack, vOut)
  | n + 1, i, stack, vOut =>
      readLoop n (i + 1) (toStringAt stack i).2 (vOut.set i (toStringAt stack i).1)

/-- `call_function`, when the call leads to `outcome`. -/
def callFunction (globals : Bytes → Value) (outcome : Outcome) (luPtr : Option (List Value))
    (vOut : List Bytes) (name : Bytes) (vIn : List Bytes) : CallResult :=
  match luPtr with
  | none => ⟨false, vOut, none, none⟩
  | some stack =>
      let stack := vIn.foldl pushString (stack ++ [globals name])
      let passed := arguments stack vIn.length
      let (b, stack) := pcall outcome stack vIn.length vOut.length
      let nret := min stack.length vOut.length
      let (stack, vOut) := readLoop nret 0 stack vOut
      ⟨b, vOut, some (pop stack nret), some passed⟩

/-- Whatever a plugin returns is on the stack of its state. -/
theorem exists_cloneOne (stack : List Value) (mBuff : Bytes) (hne : mBuff ≠ [])
    (mType : InitEnvironmentType) : ∃ lua, cloneOne lua mBuff mType = some stack := by
  refine ⟨⟨true, fun _ => some stack⟩, ?_⟩
  cases mType <;> simp [cloneOne, hne, initEnvironment]

/-! ### What a call does -/

/-- The values that a call leaves on the stack in place of the function and its arguments. -/
def answers (outcome : Outcome) (n : ℕ) : List Value :=
  match outcome with
  | .ok results => adjust results n
  | .error message => [message]

/-- The call succeeds. -/
def succeeds : Outcome → Bool
  | .ok _ => true
  | .error _ => false

/-- A stack from which the loop has read `n` values. -/
def convertFront (n : ℕ) (stack : List Value) : List Value :=
  (stack.take n).map Value.converted ++ stack.drop n

/-- What is read from the stack `whole` into `v_out`. -/
def collected (whole : List Value) (vOut : List Bytes) : List Bytes :=
  (whole.take (min whole.length vOut.length)).map (fun v => cString v.str) ++
    vOut.drop (min whole.length vOut.length)

/-- What is left of the stack `whole` then. -/
def leftOver (whole : List Value) (vOut : List Bytes) : List Value :=
  pop (convertFront (min whole.length vOut.length) whole) (min whole.length vOut.length)

/-- The loop reads the values from the bottom of the stack up. -/
theorem readLoop_append (below mid above : List Value) (outs front behind : List Bytes)
    (houts : outs.length = below.length) (hfront : front.length = mid.length) :
    readLoop mid.length below.length (below ++ (mid ++ above)) (outs ++ (front ++ behind)) =
      (below ++ (mid.map Value.converted ++ above),
        outs ++ (mid.map (fun v => cString v.str) ++ behind)) := by
  induction mid generalizing below outs front with
  | nil =>
      obtain rfl : front = [] := List.length_eq_zero_iff.1 hfront
      rfl
  | cons v mid ih =>
      obtain ⟨o, front, rfl⟩ := List.exists_cons_of_length_eq_add_one hfront
      have hset : (outs ++ (o :: front ++ behind)).set below.length (cString v.str) =
          (outs ++ [cString v.str]) ++ (front ++ behind) := by
        rw [← houts]
        simp
      have hstack : below ++ v.converted :: (mid ++ above) =
          (below ++ [v.converted]) ++ (mid ++ above) := by simp
      rw [List.length_cons, readLoop, List.cons_append, toStringAt_append, hset, hstack]
      have hrest := ih (below ++ [v.converted]) (outs ++ [cString v.str]) front (by simp [houts])
        (by simpa using hfront)
      rw [List.length_append, List.length_singleton] at hrest
      rw [hrest]
      simp

/-- The loop over the results converts the first values of the stack, wherever the results are. -/
theorem readLoop_eq {n : ℕ} {stack : List Value} {vOut : List Bytes} (hstack : n ≤ stack.length)
    (hvOut : n ≤ vOut.length) :
    readLoop n 0 stack vOut = (convertFront n stack,
      (stack.take n).map (fun v => cString v.str) ++ vOut.drop n) := by
  have hlen : (stack.take n).length = n := List.length_take_of_le hstack
  have hread := readLoop_append [] (stack.take n) (stack.drop n) [] (vOut.take n) (vOut.drop n) rfl
    (by rw [hlen, List.length_take_of_le hvOut])
  simpa only [convertFront, List.nil_append, List.take_append_drop, hlen, List.length_nil] using
    hread

/-- `lua_pcall` takes the function and its arguments from the stack, and leaves its answers. -/
theorem pcall_append (outcome : Outcome) (stack : List Value) (f : Value) (args : List Value)
    (n : ℕ) :
    pcall outcome (stack ++ [f] ++ args) args.length n =
      (succeeds outcome, stack ++ answers outcome n) := by
  have hpop := pop_append stack (f :: args)
  rw [List.length_cons] at hpop
  cases outcome <;> simp [pcall, answers, succeeds, hpop]

/-- **What a call does**: the inputs are passed up to their first zero bytes; the values at
the bottom of the stack are read, and as many are popped from its top. -/
theorem callFunction_eq (globals : Bytes → Value) (outcome : Outcome) (stack : List Value)
    (vOut : List Bytes) (name : Bytes) (vIn : List Bytes) :
    callFunction globals outcome (some stack) vOut name vIn =
      ⟨succeeds outcome, collected (stack ++ answers outcome vOut.length) vOut,
        some (leftOver (stack ++ answers outcome vOut.length) vOut),
        some (vIn.map fun s => .string (cString s))⟩ := by
  have hpush := foldl_pushString (stack ++ [globals name]) vIn
  have hargs := arguments_append (stack ++ [globals name]) (vIn.map fun s => .string (cString s))
  have hcall := pcall_append outcome stack (globals name)
    (vIn.map fun s => .string (cString s)) vOut.length
  rw [List.length_map] at hargs hcall
  generalize stack ++ answers outcome vOut.length = whole at hcall ⊢
  have hread := readLoop_eq (Nat.min_le_left whole.length vOut.length)
    (Nat.min_le_right whole.length vOut.length)
  simp only [callFunction, hpush, hargs, hcall, hread]
  rfl

/-! ### What is left on the stack -/

/-- Converting changes no length. -/
theorem length_convertFront (n : ℕ) (stack : List Value) :
    (convertFront n stack).length = stack.length := by
  rw [convertFront, List.length_append, List.length_map, ← List.length_append,
    List.take_append_drop]

/-- The first values are converted the same in a part of the stack. -/
theorem take_convertFront (n k : ℕ) (stack : List Value) :
    (convertFront n stack).take k = convertFront n (stack.take k) := by
  induction stack generalizing n k with
  | nil => simp [convertFront]
  | cons v stack ih =>
      cases n with
      | zero => simp [convertFront]
      | succ n =>
          cases k with
          | zero => simp [convertFront]
          | succ k => simpa [convertFront] using ih n k

/-- Nothing is converted exactly if there is no number among the values. -/
theorem convertFront_eq_self_iff {n : ℕ} {stack : List Value} :
    convertFront n stack = stack ↔ ∀ v ∈ stack.take n, v.isNumber = false := by
  have hsplit : convertFront n stack = stack ↔
      (stack.take n).map Value.converted = (stack.take n).map id := by
    conv_lhs => rhs; rw [← List.take_append_drop n stack]
    rw [convertFront, List.append_cancel_right_eq, List.map_id]
  rw [hsplit, List.map_inj_left]
  simp only [← Value.converted_eq_self_iff, id_eq]

/-- As many values are popped as were pushed: what was below them is left. -/
theorem leftOver_append {stack top : List Value} {vOut : List Bytes}
    (h : top.length = vOut.length) :
    leftOver (stack ++ top) vOut = convertFront vOut.length stack := by
  have hmin : min (stack ++ top).length vOut.length = vOut.length := by
    rw [List.length_append]
    omega
  have hlen : (stack ++ top).length - vOut.length = stack.length := by
    rw [List.length_append]
    omega
  rw [leftOver, hmin, pop, length_convertFront, hlen, take_convertFront, List.take_left]

/-- The number of values that are left on the stack. -/
theorem length_leftOver (whole : List Value) (vOut : List Bytes) :
    (leftOver whole vOut).length = whole.length - min whole.length vOut.length := by
  rw [leftOver, pop, List.length_take, length_convertFront]
  omega

/-- What is collected at each place. -/
theorem getElem?_collected {whole : List Value} {vOut : List Bytes} {i : ℕ}
    (h : i < min whole.length vOut.length) :
    (collected whole vOut)[i]? = whole[i]?.map fun v => cString v.str := by
  have hlen : i < ((whole.take (min whole.length vOut.length)).map fun v =>
      cString v.str).length := by
    rw [List.length_map, List.length_take]
    omega
  rw [collected, List.getElem?_append_left hlen, List.getElem?_map, List.getElem?_take_of_lt h]

/-! ### When the data are exact -/

/-- The text of the result `i` of a function, empty if it has none. -/
def resultText (results : List Value) (i : ℕ) : Bytes := (results[i]?.getD .nil).str

/-- What a call with three outputs is for: the function gets the inputs, the outputs are the
texts of its results or the message, and the stack is as before. -/
structure Exact (r : CallResult) (outcome : Outcome) (stack : List Value) (vIn : List Bytes) :
    Prop where
  passed : r.passed = some (vIn.map .string)
  results : ∀ results, outcome = .ok results →
    ∀ i < 3, r.vOut[i]? = some (resultText results i)
  message : ∀ message, outcome = .error message → r.vOut[0]? = some message.str
  luPtr : r.luPtr = some stack

/-- What the texts and the stack must be like: no text has a zero byte; nothing is on the stack
if the call fails; and if it does not, what is at the bottom of the stack is no number and has
the texts of the results. -/
structure Harmless (outcome : Outcome) (stack : List Value) (vIn : List Bytes) : Prop where
  inputs : ∀ s ∈ vIn, 0 ∉ s
  results : ∀ results, outcome = .ok results →
    (∀ i < 3, 0 ∉ resultText results i) ∧
    (∀ i < 3, ∀ v, stack[i]? = some v →
      v.isNumber = false ∧ cString v.str = resultText results i) ∧
    ∀ i < 3, stack.length ≤ i → resultText results (i - stack.length) = resultText results i
  message : ∀ message, outcome = .error message → stack = [] ∧ 0 ∉ message.str

/-- The arguments arrive as they are exactly if none has a zero byte. -/
theorem map_string_cString_iff {vIn : List Bytes} :
    vIn.map (fun s => Value.string (cString s)) = vIn.map .string ↔ ∀ s ∈ vIn, 0 ∉ s := by
  rw [List.map_inj_left]
  simp only [Value.string.injEq, cString_eq_self_iff]

/-- What is read at the place `i` of a stack with three results on it. -/
theorem getElem?_results (results stack : List Value) {i : ℕ} (hi : i < 3) :
    (stack ++ adjust results 3)[i]?.map (fun v => cString v.str) = some (cString
      (if i < stack.length then (stack[i]?.getD .nil).str
        else resultText results (i - stack.length))) := by
  split_ifs with hlt
  · rw [List.getElem?_append_left hlt]
    simp [hlt]
  · rw [List.getElem?_append_right (by omega), getElem?_adjust _ (by omega)]
    rfl

/-- The values that are read are the results. -/
theorem results_iff (results stack : List Value) :
    (∀ i < 3, (stack ++ adjust results 3)[i]?.map (fun v => cString v.str) =
        some (resultText results i)) ↔
      (∀ i < 3, 0 ∉ resultText results i) ∧
      (∀ i < 3, ∀ v, stack[i]? = some v → cString v.str = resultText results i) ∧
      ∀ i < 3, stack.length ≤ i →
        resultText results (i - stack.length) = resultText results i := by
  constructor
  · intro h
    have hread : ∀ i < 3, cString (if i < stack.length then (stack[i]?.getD .nil).str
        else resultText results (i - stack.length)) = resultText results i := fun i hi =>
      Option.some.inj ((getElem?_results results stack hi).symm.trans (h i hi))
    have hzero : ∀ i < 3, 0 ∉ resultText results i := fun i hi =>
      hread i hi ▸ zero_not_mem_cString _
    refine ⟨hzero, fun i hi v hv => ?_, fun i hi hle => ?_⟩
    · have hlt := (List.getElem?_eq_some_iff.1 hv).1
      have hi' := hread i hi
      rwa [if_pos hlt, hv] at hi'
    · have hi' := hread i hi
      rwa [if_neg (by omega), cString_eq_self_iff.2 (hzero _ (by omega))] at hi'
  · rintro ⟨hzero, hbelow, habove⟩ i hi
    rw [getElem?_results results stack hi]
    split_ifs with hlt
    · rw [← hbelow i hi _ (List.getElem?_eq_getElem hlt), List.getElem?_eq_getElem hlt]
      rfl
    · rw [cString_eq_self_iff.2 (hzero _ (by omega)), habove i hi (by omega)]

/-- A call that fails: the first value is the message, and the stack is left alone, only if
there was nothing on it. -/
theorem message_iff (message : Value) (stack : List Value) {vOut : List Bytes}
    (hvOut : vOut.length = 3) :
    (collected (stack ++ [message]) vOut)[0]? = some message.str ∧
        leftOver (stack ++ [message]) vOut = stack ↔
      stack = [] ∧ 0 ∉ message.str := by
  constructor
  · rintro ⟨htext, hstack⟩
    have hlen := congrArg List.length hstack
    rw [length_leftOver, List.length_append, List.length_singleton, hvOut] at hlen
    obtain rfl : stack = [] := List.length_eq_zero_iff.1 (by omega)
    refine ⟨rfl, cString_eq_self_iff.1 ?_⟩
    rw [getElem?_collected (by simp [hvOut])] at htext
    simpa using htext
  · rintro ⟨rfl, hzero⟩
    constructor
    · rw [getElem?_collected (by simp [hvOut])]
      simp [cString_eq_self_iff.2 hzero]
    · simp [leftOver, hvOut, convertFront, pop]

/-- A call that succeeds: what is read are the results, and the stack is left alone. -/
theorem success_iff (results stack : List Value) {vOut : List Bytes} (hvOut : vOut.length = 3) :
    (∀ i < 3, (collected (stack ++ adjust results 3) vOut)[i]? =
          some (resultText results i)) ∧
        leftOver (stack ++ adjust results 3) vOut = stack ↔
      (∀ i < 3, 0 ∉ resultText results i) ∧
      (∀ i < 3, ∀ v, stack[i]? = some v →
        v.isNumber = false ∧ cString v.str = resultText results i) ∧
      ∀ i < 3, stack.length ≤ i →
        resultText results (i - stack.length) = resultText results i := by
  have hread : ∀ i < 3, (collected (stack ++ adjust results 3) vOut)[i]? =
      (stack ++ adjust results 3)[i]?.map fun v => cString v.str := by
    intro i hi
    apply getElem?_collected
    rw [List.length_append, length_adjust, hvOut]
    omega
  have hleft : leftOver (stack ++ adjust results 3) vOut = stack ↔
      ∀ i < 3, ∀ v, stack[i]? = some v → v.isNumber = false := by
    rw [leftOver_append ((length_adjust results 3).trans hvOut.symm), hvOut,
      convertFront_eq_self_iff]
    simp only [List.mem_iff_getElem?, List.getElem?_take]
    grind
  have hall : (∀ i < 3, (collected (stack ++ adjust results 3) vOut)[i]? =
      some (resultText results i)) ↔ ∀ i < 3,
        (stack ++ adjust results 3)[i]?.map (fun v => cString v.str) =
          some (resultText results i) :=
    forall₂_congr fun i hi => by rw [hread i hi]
  rw [hall, results_iff, hleft]
  grind

/-- **When a call passes and returns its data as they are**: when no text has a zero byte and
nothing is on the stack that the call reads instead of a result. -/
theorem exact_iff (globals : Bytes → Value) (outcome : Outcome) (stack : List Value)
    (name : Bytes) (in₀ in₁ in₂ out₀ out₁ out₂ : Bytes) :
    Exact (callFunction globals outcome (some stack) [out₀, out₁, out₂] name [in₀, in₁, in₂])
        outcome stack [in₀, in₁, in₂] ↔
      Harmless outcome stack [in₀, in₁, in₂] := by
  rw [callFunction_eq]
  generalize [in₀, in₁, in₂] = vIn
  have hthree : [out₀, out₁, out₂].length = 3 := rfl
  generalize [out₀, out₁, out₂] = vOut at hthree ⊢
  rw [hthree]
  cases outcome with
  | ok results =>
      have hsuccess := success_iff results stack hthree
      constructor
      · intro h
        refine ⟨map_string_cString_iff.1 (Option.some.inj h.passed), ?_, nofun⟩
        rintro _ ⟨⟩
        exact hsuccess.1 ⟨h.results results rfl, Option.some.inj h.luPtr⟩
      · intro h
        obtain ⟨htexts, hstack⟩ := hsuccess.2 (h.results results rfl)
        refine ⟨congrArg some (map_string_cString_iff.2 h.inputs), ?_, nofun,
          congrArg some hstack⟩
        rintro _ ⟨⟩
        exact htexts
  | error message =>
      have hmessage := message_iff message stack hthree
      constructor
      · intro h
        refine ⟨map_string_cString_iff.1 (Option.some.inj h.passed), nofun, ?_⟩
        rintro _ ⟨⟩
        exact hmessage.1 ⟨h.message message rfl, Option.some.inj h.luPtr⟩
      · intro h
        obtain ⟨htext, hstack⟩ := hmessage.2 (h.message message rfl)
        refine ⟨congrArg some (map_string_cString_iff.2 h.inputs), nofun, ?_,
          congrArg some hstack⟩
        rintro _ ⟨⟩
        exact htext

/-- The plugin returned the text `k` when it was loaded: this is what the first output is
read from, in place of the result `a`. -/
theorem not_exact_of_returned :
    ¬ Exact (callFunction (fun _ => .other 0)
        (.ok [.string (str "a"), .string (str "b"), .string (str "c")])
        (some [.string (str "k")]) [[], [], []] (str "Init_Lua") [[], [], []])
      (.ok [.string (str "a"), .string (str "b"), .string (str "c")])
      [.string (str "k")] [[], [], []] := by
  intro h
  exact absurd (h.results _ rfl 0 (by decide)) (by decide)

end PolicyApi
end Scaner
