/-
# Triggers

`policy_api::trigger_base` in `scaner_test/policy_work.cpp`: a trigger is a text
of tokens separated by `||`, compared without regard to case.

The loop of `divil_trigger` cuts the text at the leftmost occurrences of `||`.
It is written here on the bytes from `nf` on, with the bytes of the token that
is being read in front (`segment`), so that the occurrence it looks for is the
first one behind `nf`.
-/

import Scaner.Lib.Bytes

namespace Scaner
namespace PolicyApi

open Bytes

/-- A token added to the list, unless it is empty or there already. -/
def pushToken (vT : List Bytes) (strTemp : Bytes) : List Bytes :=
  if strTemp = [] then vT
  else if strTemp.map toUpper ∈ vT then vT
  else vT ++ [strTemp.map toUpper]

/-- The loop of `divil_trigger`. -/
def divilLoop (segment : Bytes) (vT : List Bytes) : Bytes → List Bytes
  | 124 :: 124 :: rest => divilLoop [] (pushToken vT segment) rest
  | b :: rest => divilLoop (segment ++ [b]) vT rest
  | [] => pushToken vT segment

/-- `divil_trigger(trigger, v_t)`: its value, and `v_t` behind it. -/
def divilTrigger (trigger : Bytes) (vT : List Bytes) : Bool × List Bytes :=
  if trigger = [] then (false, vT)
  else
    let vT := divilLoop [] vT trigger
    (!vT.isEmpty, vT)

/-- `format_trigger(v_t)`. -/
def formatTokens (vT : List Bytes) : Bytes := vT.flatMap (· ++ str "||")

/-- `format_trigger(trigger)`. -/
def formatText (trigger : Bytes) : Bytes :=
  match divilTrigger trigger [] with
  | (false, _) => []
  | (true, vT) => formatTokens vT

/-- `format_trigger(trigger, add)`. -/
def formatTrigger (trigger add : Bytes) : Bytes :=
  formatTokens (divilTrigger add (divilTrigger trigger []).2).2

example : formatTrigger (str "domain||page") (str "once") = str "DOMAIN||PAGE||ONCE||" := by decide

/-- `class trigger_base`. -/
structure TriggerBase where
  vTrigger : List Bytes
  deriving Repr, DecidableEq

namespace TriggerBase

/-- The constructor: what `divil_trigger` leaves in `v_trigger`. -/
def ofTrigger (trigger : Bytes) : TriggerBase := ⟨(divilTrigger trigger []).2⟩

/-- `hit_trigger`: one of the tokens is a token of the text. -/
def hitTrigger (self : TriggerBase) (trigger : Bytes) : Bool :=
  if trigger = [] then false
  else
    match divilTrigger trigger [] with
    | (false, _) => false
    | (true, vT) => self.vTrigger.any fun str => vT.contains str

end TriggerBase

end PolicyApi
end Scaner
