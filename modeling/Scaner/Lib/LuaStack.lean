/-
# The stack of a Lua state

The functions of the Lua C API that pass texts to a Lua function and take its results from
the stack.  A stack is the list of its values from the bottom up, so that the positive index
`i` is the place `i - 1` of the list.

`lua_pushstring` takes a C string, which ends at the first zero byte, and so does whoever
uses the result of `lua_tostring` as one.  `lua_tostring` changes a number on the stack into
its text.  What a protected call of a Lua function leads to is a parameter: its results, or
one value that tells what went wrong.
-/

import Scaner.Lib.Bytes

namespace Scaner
namespace LuaStack

/-- A value.  A number is given by the text that Lua writes for it; of a value that is
neither a number nor a string no more than its identity is kept. -/
inductive Value
  | nil
  | number (text : Bytes)
  | string (text : Bytes)
  | other (id : ℕ)
  deriving DecidableEq

namespace Value

/-- The text of a value, empty if it has none. -/
def str : Value → Bytes
  | number text => text
  | string text => text
  | nil => []
  | other _ => []

/-- The value is a number. -/
def isNumber : Value → Bool
  | number _ => true
  | _ => false

/-- What `lua_tostring` makes of a value on the stack. -/
def converted : Value → Value
  | number text => string text
  | v => v

/-- `lua_tostring` changes numbers only. -/
theorem converted_eq_self_iff {v : Value} : v.converted = v ↔ v.isNumber = false := by
  cases v <;> simp [converted, isNumber]

end Value

/-- The bytes of a C string: those up to the first zero byte. -/
def cString (s : Bytes) : Bytes := s.takeWhile (· ≠ 0)

/-- A C string has no zero byte in it. -/
theorem zero_not_mem_cString (s : Bytes) : 0 ∉ cString s := fun h => by
  simpa using List.mem_takeWhile_imp h

/-- A text is kept as a C string exactly if it has no zero byte. -/
theorem cString_eq_self_iff {s : Bytes} : cString s = s ↔ 0 ∉ s := by
  constructor
  · intro h
    rw [← h]
    exact zero_not_mem_cString s
  · intro h
    refine List.takeWhile_eq_self_iff.2 fun b hb => ?_
    rw [decide_eq_true_eq]
    rintro rfl
    exact h hb

/-- `lua_pushstring(L, s.c_str())`. -/
def pushString (stack : List Value) (s : Bytes) : List Value := stack ++ [.string (cString s)]

/-- `lua_tostring(L, i + 1)`, as a C string that is empty in place of a null pointer. -/
def toStringAt (stack : List Value) (i : ℕ) : Bytes × List Value :=
  match stack[i]? with
  | some v => (cString v.str, stack.set i v.converted)
  | none => ([], stack)

/-- `lua_tostring(L, -1)`, as a C string; none for a null pointer. -/
def topString (stack : List Value) : Option Bytes :=
  match stack.getLast? with
  | some (.number text) => some (cString text)
  | some (.string text) => some (cString text)
  | _ => none

/-- `lua_pop(L, n)`. -/
def pop (stack : List Value) (n : ℕ) : List Value := stack.take (stack.length - n)

/-- What a call leads to. -/
inductive Outcome
  | ok (results : List Value)
  | error (message : Value)

/-- The results, cut off or filled up with `nil` to as many as are asked for. -/
def adjust (results : List Value) (n : ℕ) : List Value :=
  results.take n ++ List.replicate (n - results.length) .nil

/-- The arguments of `lua_pcall(L, nargs, …)`. -/
def arguments (stack : List Value) (nargs : ℕ) : List Value := stack.drop (stack.length - nargs)

/-- `lua_pcall(L, nargs, nresults, 0)`: whether it returns `LUA_OK`, and the stack behind it. -/
def pcall (outcome : Outcome) (stack : List Value) (nargs nresults : ℕ) : Bool × List Value :=
  let base := pop stack (nargs + 1)
  match outcome with
  | .ok results => (true, base ++ adjust results nresults)
  | .error message => (false, base ++ [message])

/-- `lua_tostring` of a value in the middle of the stack. -/
theorem toStringAt_append (below above : List Value) (v : Value) :
    toStringAt (below ++ v :: above) below.length =
      (cString v.str, below ++ v.converted :: above) := by
  simp [toStringAt]

/-- The string on top of the stack. -/
theorem topString_append (below : List Value) (text : Bytes) :
    topString (below ++ [.string text]) = some (cString text) := by
  simp [topString]

/-- Strings are pushed in their order. -/
theorem foldl_pushString (stack : List Value) (texts : List Bytes) :
    texts.foldl pushString stack = stack ++ texts.map fun s => .string (cString s) := by
  induction texts generalizing stack with
  | nil => simp
  | cons s texts ih => simp [ih, pushString]

/-- As many values are popped as were pushed. -/
theorem pop_append (stack top : List Value) : pop (stack ++ top) top.length = stack := by
  simp [pop]

/-- The arguments of a call are on top of the stack. -/
theorem arguments_append (stack top : List Value) : arguments (stack ++ top) top.length = top := by
  simp [arguments]

/-- A call leaves as many results as it was asked for. -/
theorem length_adjust (results : List Value) (n : ℕ) : (adjust results n).length = n := by
  simp only [adjust, List.length_append, List.length_take, List.length_replicate]
  omega

/-- The results that a call does not have are `nil`. -/
theorem getElem?_adjust (results : List Value) {n i : ℕ} (h : i < n) :
    (adjust results n)[i]? = some (results[i]?.getD .nil) := by
  rw [adjust]
  by_cases hi : i < results.length
  · have hlen : i < (results.take n).length := by
      rw [List.length_take]
      omega
    rw [List.getElem?_append_left hlen, List.getElem?_take_of_lt h]
    simp [hi]
  · have hlen : (results.take n).length = results.length := by
      rw [List.length_take]
      omega
    rw [List.getElem?_append_right (by omega), hlen, List.getElem?_replicate_of_lt (by omega)]
    simp [Nat.le_of_not_lt hi]

end LuaStack
end Scaner
