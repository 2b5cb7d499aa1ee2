/-
# Waiting for a download

`download` with `raw_recv` given (`http/http.hpp`): the caller takes
`thread_wait_mutex`, starts the connect and waits on `thread_wait_condition`
until a handler calls `notify_all`.  The handlers run on the threads of the
server and do not take the mutex, so that they can run between the start of the
connect and the wait.  A notification that comes then reaches nobody.

One action is a step of the caller, or the end of an operation together with its
handler.  Operations that have been started and have not ended are counted by
kind; a short write starts two at once.

`always_safe_iff`: the caller never waits for a notification that has gone by,
in exactly the runs in which it begins to wait while an operation is
outstanding.
-/

import Scaner.Http.Downloader
import Scaner.Lib.Trace

namespace Scaner
namespace Http

open Trace

/-- Where the caller of `download` stands, with the value and `*raw_recv` when it
has returned. -/
inductive Caller
  | ready
  | locked
  | started
  | waiting (notified : Bool)
  | returned (value : Bool) (rawRecv : Bytes)

/-- `notify_all`: it reaches a caller that is waiting. -/
def Caller.notify : Caller → Caller
  | waiting _ => waiting true
  | c => c

/-- A caller that is notified is no longer waiting without a notification. -/
theorem Caller.notify_eq_waiting {c : Caller} {notified : Bool}
    (h : c.notify = .waiting notified) : notified = true := by
  cases c with
  | waiting b => exact (Caller.waiting.inj h).symm
  | _ => cases h

/-- The caller, the downloader, and the operations that are outstanding. -/
structure WaitState where
  caller : Caller
  downloader : Downloader
  connects : ℕ
  sends : ℕ
  recvs : ℕ

/-- A step of the caller, or the end of an operation: with an error or without,
and with the number of bytes sent or the bytes received. -/
inductive Action
  | enter (address port rawSend : Bytes) (lpFunc : Option (Bytes → Bytes))
  | start
  | wait
  | wake
  | connected (e : Bool)
  | sent (e : Bool) (bytesTransferred : ℕ)
  | received (e : Bool) (bytes : Bytes)

namespace WaitState

/-- The operations that have been started and not handled. -/
def outstanding (s : WaitState) : ℕ := s.connects + s.sends + s.recvs

/-- What an effect of a handler does. -/
def effect (s : WaitState) : Effect → WaitState
  | .send _ => { s with sends := s.sends + 1 }
  | .recv => { s with recvs := s.recvs + 1 }
  | .notifyAll => { s with caller := s.caller.notify }
  | .endFunction => s
  | .clear => s

/-- A handler that has run in the state `s`. -/
def handled (s : WaitState) (r : Option (Downloader × List Effect)) : Option WaitState :=
  r.map fun r => r.2.foldl effect { s with downloader := r.1 }

/-- What an action does. -/
def step (fuel : ℕ) (s : WaitState) : Action → Option WaitState
  | .enter address port rawSend lpFunc =>
      match s.caller with
      | .ready =>
          if s.downloader.hasServer then
            some { s with
              caller := .locked
              downloader := s.downloader.prepare address port rawSend lpFunc }
          else some { s with caller := .returned false [] }
      | _ => none
  | .start =>
      match s.caller with
      | .locked =>
          if s.downloader.hasSocket then
            { s with caller := .started }.handled (s.downloader.handleConnect false)
          else some { s with
            caller := .started
            downloader := { s.downloader with hasSocket := true }
            connects := s.connects + 1 }
      | _ => none
  | .wait =>
      match s.caller with
      | .started => some { s with caller := .waiting false }
      | _ => none
  | .wake =>
      match s.caller with
      | .waiting true => some { s with
          caller := .returned true s.downloader.bufferRecv
          downloader := { s.downloader with bufferRecv := [] } }
      | _ => none
  | .connected e =>
      if 0 < s.connects then
        { s with connects := s.connects - 1 }.handled (s.downloader.handleConnect e)
      else none
  | .sent e n =>
      if 0 < s.sends then
        { s with sends := s.sends - 1 }.handled (s.downloader.handleSend e n)
      else none
  | .received e bytes =>
      if 0 < s.recvs then
        { s with recvs := s.recvs - 1 }.handled (s.downloader.handleRecv fuel e bytes)
      else none

/-- Before the call of `download`. -/
def init (d : Downloader) : WaitState := ⟨.ready, d, 0, 0, 0⟩

/-- When no operation is outstanding, a caller that waits has been notified. -/
def Safe (s : WaitState) : Prop :=
  s.outstanding = 0 → ∀ notified, s.caller = .waiting notified → notified = true

/-- The caller begins to wait while an operation is outstanding. -/
def WaitsInTime (s : WaitState) (a : Action) : Prop :=
  match a with
  | .wait => s.outstanding ≠ 0
  | _ => True

/-! ### Handlers -/

/-- The effects that make any state a safe one. -/
theorem safe_effect (s : WaitState) {e : Effect}
    (he : e = .notifyAll ∨ e = .recv ∨ ∃ bytes, e = .send bytes) : (s.effect e).Safe := by
  rcases he with rfl | rfl | ⟨bytes, rfl⟩
  · exact fun _ _ hc => Caller.notify_eq_waiting hc
  · exact fun h0 => absurd h0 (by simp [outstanding, effect])
  · exact fun h0 => absurd h0 (by simp [outstanding, effect])

/-- An effect of a handler leaves the caller safe. -/
theorem Safe.effect {s : WaitState} (h : s.Safe) (e : Effect) : (s.effect e).Safe := by
  cases e with
  | send bytes => exact safe_effect s (Or.inr (Or.inr ⟨bytes, rfl⟩))
  | recv => exact safe_effect s (Or.inr (Or.inl rfl))
  | notifyAll => exact safe_effect s (Or.inl rfl)
  | endFunction => exact h
  | clear => exact h

/-- All the effects of a handler leave the caller safe. -/
theorem Safe.foldl {s : WaitState} (h : s.Safe) (out : List Effect) :
    (out.foldl WaitState.effect s).Safe := by
  induction out generalizing s with
  | nil => exact h
  | cons e out ih => exact ih (h.effect e)

/-- A handler that starts an operation or notifies is safe to run in any state. -/
theorem safe_foldl_of_continues {out : List Effect} (h : Downloader.Continues out)
    (s : WaitState) : (out.foldl effect s).Safe := by
  obtain ⟨e, he, hmem⟩ : ∃ e : Effect,
      (e = .notifyAll ∨ e = .recv ∨ ∃ bytes, e = .send bytes) ∧ e ∈ out := by
    rcases h with h | h | ⟨bytes, h⟩
    · exact ⟨_, Or.inl rfl, h⟩
    · exact ⟨_, Or.inr (Or.inl rfl), h⟩
    · exact ⟨_, Or.inr (Or.inr ⟨bytes, rfl⟩), h⟩
  obtain ⟨pre, post, rfl⟩ := List.append_of_mem hmem
  rw [List.foldl_append, List.foldl_cons]
  exact (safe_effect _ he).foldl post

/-- A handler that starts something or wakes the caller leaves it safe. -/
theorem safe_of_handled {s t : WaitState} {r : Option (Downloader × List Effect)}
    (hr : ∀ d out, r = some (d, out) → Downloader.Continues out) (h : s.handled r = some t) :
    t.Safe := by
  obtain ⟨⟨d, out⟩, hd, rfl⟩ := Option.map_eq_some_iff.1 h
  exact safe_foldl_of_continues (hr d out hd) _

/-! ### Runs -/

/-- An action keeps the caller safe, if it does not wait too late. -/
theorem step_safe {fuel : ℕ} {s t : WaitState} {a : Action} (ha : s.WaitsInTime a)
    (h : s.step fuel a = some t) : t.Safe := by
  cases a with
  | enter address port rawSend lpFunc =>
      simp only [step] at h
      split at h
      · split_ifs at h <;> obtain rfl := Option.some.inj h <;> exact fun _ _ hc => by cases hc
      · cases h
  | start =>
      simp only [step] at h
      split at h
      · split_ifs at h
        · exact safe_of_handled (fun d out => Downloader.handleConnect_continues) h
        · obtain rfl := Option.some.inj h
          exact fun _ _ hc => by cases hc
      · cases h
  | wait =>
      simp only [step] at h
      split at h
      · obtain rfl := Option.some.inj h
        exact fun h0 => absurd h0 ha
      · cases h
  | wake =>
      simp only [step] at h
      split at h
      · obtain rfl := Option.some.inj h
        exact fun _ _ hc => by cases hc
      · cases h
  | connected e =>
      simp only [step] at h
      split_ifs at h
      exact safe_of_handled (fun d out => Downloader.handleConnect_continues) h
  | sent e n =>
      simp only [step] at h
      split_ifs at h
      exact safe_of_handled (fun d out => Downloader.handleSend_continues) h
  | received e bytes =>
      simp only [step] at h
      split_ifs at h
      exact safe_of_handled (fun d out => Downloader.handleRecv_continues) h

/-- A caller that waits too late is not safe. -/
theorem step_not_safe {fuel : ℕ} {s t : WaitState} {a : Action} (ha : ¬ s.WaitsInTime a)
    (h : s.step fuel a = some t) : ¬ t.Safe := by
  cases a with
  | wait =>
      have h0 : s.outstanding = 0 := not_not.1 ha
      simp only [step] at h
      split at h
      · obtain rfl := Option.some.inj h
        exact fun hs => absurd (hs h0 false rfl) (by decide)
      · cases h
  | _ => exact absurd trivial ha

/-- **The caller is notified, in exactly the runs in which it begins to wait while
an operation is outstanding.** -/
theorem always_safe_iff (fuel : ℕ) (d : Downloader) (as : List Action) :
    Always (step fuel) Safe (init d) as ↔ Along (step fuel) WaitsInTime (init d) as :=
  always_iff_along (I := Safe) (fun _ _ hc => by cases hc) (fun _ _ _ _ => step_safe)
    (fun _ => id) (fun _ _ _ _ => step_not_safe) as

/-- A connect that fails before the caller waits leaves it waiting for ever. -/
theorem exists_not_safe :
    ∃ t, exec (step 0) (init ⟨true, false, [], [], [], [], none, fun _ => []⟩)
        [.enter (Bytes.str "host") (Bytes.str "80") (Bytes.str "GET") none, .start,
          .connected true, .wait] = some t ∧ ¬ t.Safe :=
  ⟨_, rfl, fun h => absurd (h rfl false rfl) (by decide)⟩

end WaitState

end Http
end Scaner
