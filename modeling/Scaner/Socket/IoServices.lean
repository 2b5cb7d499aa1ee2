/-
# Whose turn it is

`iocp_server_pool::get_io_service` in `socket/iocp_server.cpp`: every connection that is made or
accepted is given the next of the `io_service`s, in turn.

`next_io_service_` is a plain `size_t` without a lock, and the function is called by the workers
that download (`create_connect`) and by the threads of the `io_service`s themselves
(`start_accept`).  Every access to it is a step here: the read that chooses the service, the load
and the store of `++next_io_service_`, the comparison, and the store of zero.

`services_of_exclusive`: while no call begins before the last one has ended, the services are
given out in turn, each as often as the others but for one.  If two calls overlap, both may
increment before either compares, and then `next_io_service_` has passed the end of the pool; it
does not come back before it wraps around, and until then every call reads beyond the end of
`io_services_` (`passed_forever`).
-/

import Mathlib.Data.Int.CardIntervalMod
import Scaner.Lib.History
import Scaner.TaskData.TaskMap

namespace Scaner
namespace Socket

open Trace TaskData

/-- `get_io_service`: the number of the service, and `next_io_service_` behind the call. -/
def getIoService (size next : ℕ) : ℕ × ℕ :=
  (next, if incSize next = size then 0 else incSize next)

/-- The next step of a thread in `get_io_service`; an idle one begins a call by reading
`io_services_[next_io_service_]`. -/
inductive CallPc
  | idle
  | load
  | store (loaded : ℕ)
  | compare
  | reset
  deriving DecidableEq

/-- `next_io_service_`, and the threads that call. -/
structure IoServices (κ : Type) where
  next : ℕ
  caller : κ → CallPc

namespace IoServices

variable {κ : Type} {size : ℕ}

/-- At the start the counter is zero and nobody is in a call. -/
def init : IoServices κ := ⟨0, fun _ => .idle⟩

variable [DecidableEq κ]

/-- A step of one caller, with the counter that it leaves. -/
def move (s : IoServices κ) (next : ℕ) (k : κ) (pc : CallPc) : IoServices κ :=
  ⟨next, Function.update s.caller k pc⟩

/-- A step of the thread `k`. -/
def step (size : ℕ) (s : IoServices κ) (k : κ) : Option (IoServices κ) :=
  match s.caller k with
  | .idle => some (s.move s.next k .load)
  | .load => some (s.move s.next k (.store s.next))
  | .store loaded => some (s.move (incSize loaded) k .compare)
  | .compare => some (s.move s.next k (if s.next = size then .reset else .idle))
  | .reset => some (s.move 0 k .idle)

/-- The increments of `next_io_service_` that are stored in a run. -/
def increments (size : ℕ) : IoServices κ → List κ → ℕ
  | _, [] => 0
  | s, k :: ks =>
      match step size s k with
      | none => 0
      | some t =>
          (match s.caller k with
            | .store _ => 1
            | _ => 0) + increments size t ks

/-- The services that are chosen. -/
def note (s : IoServices κ) (k : κ) (chosen : List ℕ) : List ℕ :=
  if s.caller k = .idle then chosen ++ [s.next] else chosen

/-- The services that a run from `s` chooses, in order. -/
def services (size : ℕ) (s : IoServices κ) (ks : List κ) : List ℕ :=
  history (step size) note s [] ks

/-- A call begins when no other is under way. -/
def Exclusive (s : IoServices κ) (k : κ) : Prop := s.caller k = .idle → ∀ j, s.caller j = .idle

instance [Fintype κ] (s : IoServices κ) (k : κ) : Decidable (s.Exclusive k) :=
  inferInstanceAs (Decidable (_ → _))

/-! ### One call at a time -/

/-- Where a single call is, when `n` calls have begun. -/
inductive Serial (size n : ℕ) (s : IoServices κ) : Prop
  | between (hidle : ∀ j, s.caller j = .idle) (hnext : s.next = n % size)
  | during (k : κ) (hother : ∀ j ≠ k, s.caller j = .idle) (m : ℕ) (hn : n = m + 1)
      (hpc : (s.caller k = .load ∧ s.next = m % size) ∨
        (s.caller k = .store (m % size) ∧ s.next = m % size) ∨
        (s.caller k = .compare ∧ s.next = m % size + 1) ∨
        (s.caller k = .reset ∧ m % size + 1 = size))

/-- Counting on modulo the number of services. -/
theorem mod_succ (hsize : 0 < size) (m : ℕ) :
    (m + 1) % size = if m % size + 1 = size then 0 else m % size + 1 := by
  have hlt := Nat.mod_lt m hsize
  have hm : m + 1 = size * (m / size) + (m % size + 1) := by
    rw [← Nat.add_assoc, Nat.div_add_mod]
  rw [hm, Nat.mul_add_mod]
  split_ifs with h
  · rw [h, Nat.mod_self]
  · exact Nat.mod_eq_of_lt (by omega)

/-- The next number in turn is what `get_io_service` leaves. -/
theorem getIoService_mod (hsize : 0 < size) (hmax : size < 2 ^ 32) (m : ℕ) :
    getIoService size (m % size) = (m % size, (m + 1) % size) := by
  have hlt := Nat.mod_lt m hsize
  have hwrap : incSize (m % size) = m % size + 1 := Nat.mod_eq_of_lt (by omega)
  rw [getIoService, mod_succ hsize, hwrap]

/-- The caller that moves is where it moves to. -/
theorem move_self (s : IoServices κ) (next : ℕ) (k : κ) (pc : CallPc) :
    (s.move next k pc).caller k = pc := Function.update_self ..

/-- The other callers stay where they are. -/
theorem move_of_ne (s : IoServices κ) (next : ℕ) {k j : κ} (pc : CallPc) (h : j ≠ k) :
    (s.move next k pc).caller j = s.caller j := Function.update_of_ne h ..

variable {s t : IoServices κ} {n : ℕ} {k : κ}

/-- A thread that has begun a call is the only one. -/
theorem Serial.of_not_idle (h : Serial size n s) (hk : s.caller k ≠ .idle) :
    ∃ m, n = m + 1 ∧ (∀ j ≠ k, s.caller j = .idle) ∧
      ((s.caller k = .load ∧ s.next = m % size) ∨
        (s.caller k = .store (m % size) ∧ s.next = m % size) ∨
        (s.caller k = .compare ∧ s.next = m % size + 1) ∨
        (s.caller k = .reset ∧ m % size + 1 = size)) := by
  cases h with
  | between hidle _ => exact absurd (hidle k) hk
  | during k' hother m hn hpc =>
      obtain rfl : k = k' := by
        by_contra hne
        exact hk (hother k hne)
      exact ⟨m, hn, hother, hpc⟩

/-- A call that begins while nobody else is in one gets the next service in turn. -/
theorem Serial.step_idle (h : Serial size n s) (k : κ) (hidle : ∀ j, s.caller j = .idle) :
    s.next = n % size ∧
      Serial size (n + 1) (s.move s.next k .load) := by
  have hnext : s.next = n % size := by
    cases h with
    | between _ hnext => exact hnext
    | during k' _ m _ hpc =>
        rw [hidle k'] at hpc
        simp at hpc
  refine ⟨hnext, .during k (fun j hj => ?_) n rfl (.inl ⟨move_self .., hnext⟩)⟩
  rw [move_of_ne s s.next .load hj, hidle j]

/-- The other steps of a call change nothing of the turn. -/
theorem Serial.step_busy (hsize : 0 < size) (hmax : size < 2 ^ 32) (h : Serial size n s)
    (hk : s.caller k ≠ .idle) (hst : step size s k = some t) : Serial size n t := by
  obtain ⟨m, rfl, hother, hpc⟩ := h.of_not_idle hk
  have hlt := Nat.mod_lt m hsize
  have hrest (next : ℕ) (pc : CallPc) : ∀ j ≠ k, (s.move next k pc).caller j = .idle :=
    fun j hj => (move_of_ne s next pc hj).trans (hother j hj)
  have hdone (next : ℕ) : ∀ j, (s.move next k .idle).caller j = .idle := fun j => by
    by_cases hj : j = k
    · subst hj
      exact move_self ..
    · exact hrest next .idle j hj
  rcases hpc with ⟨hpc, hnext⟩ | ⟨hpc, hnext⟩ | ⟨hpc, hnext⟩ | ⟨hpc, hnext⟩
  · simp only [step, hpc] at hst
    obtain rfl := Option.some.inj hst
    exact .during k (hrest _ _) m rfl (.inr (.inl ⟨by rw [move_self, hnext], hnext⟩))
  · simp only [step, hpc] at hst
    obtain rfl := Option.some.inj hst
    refine .during k (hrest _ _) m rfl (.inr (.inr (.inl ⟨move_self .., ?_⟩)))
    exact Nat.mod_eq_of_lt (by omega)
  · simp only [step, hpc] at hst
    split_ifs at hst with hend
    · obtain rfl := Option.some.inj hst
      exact .during k (hrest _ _) m rfl (.inr (.inr (.inr ⟨move_self .., by omega⟩)))
    · obtain rfl := Option.some.inj hst
      refine .between (hdone _) ?_
      rw [mod_succ hsize, if_neg (by omega)]
      exact hnext
  · simp only [step, hpc] at hst
    obtain rfl := Option.some.inj hst
    refine .between (hdone _) ?_
    rw [mod_succ hsize, if_pos hnext]
    rfl

/-- The services that have been chosen are the first ones in turn. -/
def InTurn (size : ℕ) (s : IoServices κ) (chosen : List ℕ) : Prop :=
  Serial size chosen.length s ∧ chosen = (List.range chosen.length).map (· % size)

/-- **A step of a caller that is alone keeps the services in turn.** -/
theorem InTurn.step (hsize : 0 < size) (hmax : size < 2 ^ 32) {chosen : List ℕ}
    (h : InTurn size s chosen) (hk : s.Exclusive k) (hst : IoServices.step size s k = some t) :
    InTurn size t (note s k chosen) := by
  obtain ⟨hserial, hchosen⟩ := h
  by_cases hidle : s.caller k = .idle
  · obtain ⟨hnext, hserial'⟩ := hserial.step_idle k (hk hidle)
    simp only [IoServices.step, hidle] at hst
    obtain rfl := Option.some.inj hst
    rw [note, if_pos hidle]
    refine ⟨by simpa using hserial', ?_⟩
    rw [List.length_append, List.length_singleton, List.range_succ, List.map_append, ← hchosen,
      hnext]
    rfl
  · rw [note, if_neg hidle]
    exact ⟨hserial.step_busy hsize hmax hidle hst, hchosen⟩

/-- How often a number comes in turn. -/
theorem count_range_mod (hsize : 0 < size) {i : ℕ} (hi : i < size) (n : ℕ) :
    ((List.range n).map (· % size)).count i = n / size + if i < n % size then 1 else 0 := by
  have hcount : ((List.range n).map (· % size)).count i = n.count (· ≡ i [MOD size]) := by
    rw [List.count, List.countP_map, Nat.count]
    refine List.countP_congr fun k _ => ?_
    simp [Nat.ModEq, Nat.mod_eq_of_lt hi]
  rw [hcount, Nat.count_modEq_card n hsize, Nat.mod_eq_of_lt hi]

/-- **While no call begins before the last one has ended**, the services are given out in turn,
and after `n` calls each has been given out `n / size` times or once more. -/
theorem services_of_exclusive (size : ℕ) (hsize : 0 < size) (hmax : size < 2 ^ 32) (ks : List κ)
    (t : IoServices κ) (hks : Along (step size) Exclusive init ks)
    (h : exec (step size) init ks = some t) :
    services size init ks = (List.range (services size init ks).length).map (· % size) ∧
      ∀ i < size, (services size init ks).count i = (services size init ks).length / size +
        if i < (services size init ks).length % size then 1 else 0 := by
  have hinit : InTurn size (init : IoServices κ) [] :=
    ⟨.between (fun _ => rfl) (Nat.zero_mod size).symm, rfl⟩
  have hstep : ∀ (s : IoServices κ) k t chosen, InTurn size s chosen → s.Exclusive k →
      step size s k = some t → InTurn size t (note s k chosen) :=
    fun s k t chosen hs hk hst => hs.step hsize hmax hk hst
  have hturn := (history_of_along hinit hstep hks h).2
  refine ⟨hturn, fun i hi => ?_⟩
  conv_lhs => rw [services, hturn]
  exact count_range_mod hsize hi _

/-- Three calls of two threads, one after the other. -/
theorem services_of_exclusive_three :
    services 2 init [true, true, true, true, false, false, false, false, false, true] =
      [0, 1, 0] :=
  (services_of_exclusive 2 (by decide) (by decide)
    [true, true, true, true, false, false, false, false, false, true] _ (by decide) rfl).1

/-! ### Calls that overlap -/

/-- All threads are idle, and `next_io_service_` is `next`. -/
def atRest (next : ℕ) : IoServices κ := ⟨next, fun _ => .idle⟩

/-- **A call that runs alone** does what `get_io_service` does. -/
theorem exec_alone (size next : ℕ) (k : κ) :
    ∃ m, exec (step size) (atRest next) (List.replicate m k) =
        some (atRest (getIoService size next).2) ∧
      services size (atRest next) (List.replicate m k) = [(getIoService size next).1] := by
  by_cases hend : incSize next = size
  · refine ⟨5, ?_, ?_⟩
    · simp [exec, step, atRest, move, List.replicate, getIoService, hend]
    · simp [services, history, note, step, atRest, move, List.replicate, getIoService, hend]
  · refine ⟨4, ?_, ?_⟩
    · simp [exec, step, atRest, move, List.replicate, getIoService, hend]
    · simp [services, history, note, step, atRest, move, List.replicate, getIoService, hend]

/-- Two calls that choose the last service, and increment before either compares. -/
theorem exec_overlap (hmax : size + 1 < 2 ^ 32) {a b : κ} (hab : a ≠ b) (next : ℕ)
    (hlast : next + 1 = size) :
    exec (step size) (atRest next) [a, b, a, a, b, b, a, b] = some (atRest (size + 1)) ∧
      services size (atRest next) [a, b, a, a, b, b, a, b] = [next, next] := by
  have hfirst : incSize next = size := by
    rw [incSize, hlast]
    exact Nat.mod_eq_of_lt (by omega)
  have hsecond : incSize size = size + 1 := Nat.mod_eq_of_lt hmax
  constructor
  · simp only [exec, step, atRest, move, Function.update_self, Function.update_of_ne hab,
      Function.update_of_ne hab.symm, hfirst, hsecond, Nat.succ_ne_self, if_false]
    congr 2
    funext k
    by_cases ha : k = a <;> by_cases hb : k = b <;> simp [Function.update_apply, ha, hb]
  · simp [services, history, note, step, atRest, move, hab, hab.symm, hfirst, hsecond]

/-- `next_io_service_` and whatever is about to be stored there have passed the end. -/
structure Passed (size bound : ℕ) (s : IoServices κ) : Prop where
  next : size < s.next ∧ s.next < bound
  store : ∀ k loaded, s.caller k = .store loaded → size < loaded ∧ loaded < bound
  reset : ∀ k, s.caller k ≠ .reset

omit [DecidableEq κ] in
/-- A counter that has passed the size has passed it. -/
theorem passed_atRest {next : ℕ} (h : size < next) :
    Passed size (next + 1) (atRest next : IoServices κ) where
  next := ⟨h, Nat.lt_succ_self next⟩
  store _ _ hpc := by cases hpc
  reset _ hpc := by cases hpc

/-- A step that stores nothing beyond the bound, and does not go on to the store of zero. -/
theorem Passed.move {bound next : ℕ} (h : Passed size bound s) {pc : CallPc}
    (hnext : size < next ∧ next < bound)
    (hstore : ∀ loaded, pc = .store loaded → size < loaded ∧ loaded < bound)
    (hreset : pc ≠ .reset) : Passed size bound (s.move next k pc) where
  next := hnext
  store j loaded hj := by
    by_cases hjk : j = k
    · subst hjk
      rw [move_self] at hj
      exact hstore loaded hj
    · rw [move_of_ne s next pc hjk] at hj
      exact h.store j loaded hj
  reset j hj := by
    by_cases hjk : j = k
    · subst hjk
      rw [move_self] at hj
      exact hreset hj
    · rw [move_of_ne s next pc hjk] at hj
      exact h.reset j hj

omit [DecidableEq κ] in
/-- A bound may be larger. -/
theorem Passed.succ {bound : ℕ} (h : Passed size bound s) : Passed size (bound + 1) s where
  next := ⟨h.next.1, Nat.lt_succ_of_lt h.next.2⟩
  store k loaded hpc := ⟨(h.store k loaded hpc).1, Nat.lt_succ_of_lt (h.store k loaded hpc).2⟩
  reset := h.reset

/-- **What has passed the end stays there**: the bound is raised by an increment only. -/
theorem Passed.step {bound : ℕ} (h : Passed size bound s) {ks : List κ}
    (hbound : bound + increments size s (k :: ks) ≤ 2 ^ 32)
    (hst : IoServices.step size s k = some t) :
    ∃ bound', Passed size bound' t ∧
      bound' + increments size t ks = bound + increments size s (k :: ks) := by
  have hcount : increments size s (k :: ks) = (match s.caller k with
      | .store _ => 1
      | _ => 0) + increments size t ks := by
    rw [increments, hst]
  rw [hcount] at hbound ⊢
  cases hpc : s.caller k with
  | idle =>
      simp only [IoServices.step, hpc] at hst
      obtain rfl := Option.some.inj hst
      refine ⟨bound, h.move h.next (fun _ h => by cases h) (fun h => by cases h), ?_⟩
      exact congrArg (bound + ·) (Nat.zero_add _).symm
  | load =>
      simp only [IoServices.step, hpc] at hst
      obtain rfl := Option.some.inj hst
      refine ⟨bound, h.move h.next (fun loaded hloaded => ?_) (fun h => by cases h), ?_⟩
      · obtain rfl := CallPc.store.inj hloaded
        exact h.next
      · exact congrArg (bound + ·) (Nat.zero_add _).symm
  | store loaded =>
      simp only [IoServices.step, hpc] at hst hbound
      obtain rfl := Option.some.inj hst
      obtain ⟨hlow, hhigh⟩ := h.store k loaded hpc
      have hinc : incSize loaded = loaded + 1 := Nat.mod_eq_of_lt (by omega)
      refine ⟨bound + 1, h.succ.move (by omega) (fun _ h => by cases h) (fun h => by cases h), ?_⟩
      exact Nat.add_assoc bound 1 _
  | compare =>
      simp only [IoServices.step, hpc] at hst
      rw [if_neg (Nat.ne_of_gt h.next.1)] at hst
      obtain rfl := Option.some.inj hst
      refine ⟨bound, h.move h.next (fun _ h => by cases h) (fun h => by cases h), ?_⟩
      exact congrArg (bound + ·) (Nat.zero_add _).symm
  | reset => exact absurd hpc (h.reset k)

/-- Every call in a run from such a state reads beyond the end. -/
theorem Passed.services {bound : ℕ} (h : Passed size bound s) {ks : List κ}
    (hks : bound + increments size s ks ≤ 2 ^ 32) (chosen : List ℕ) :
    ∀ i ∈ history (IoServices.step size) note s chosen ks, i ∈ chosen ∨ size < i := by
  induction ks generalizing s bound chosen with
  | nil => exact fun i hi => .inl hi
  | cons k ks ih =>
      cases hst : IoServices.step size s k with
      | none =>
          intro i hi
          simp only [history, hst] at hi
          exact .inl hi
      | some t =>
          obtain ⟨bound', hpassed', hsum⟩ := h.step hks hst
          rw [history_cons hst]
          intro i hi
          rcases ih hpassed' (hsum ▸ hks) _ i hi with hmem | hpassed
          · rw [note] at hmem
            split_ifs at hmem
            · rcases List.mem_append.1 hmem with hmem | hmem
              · exact .inl hmem
              · rw [List.mem_singleton] at hmem
                exact .inr (hmem ▸ h.next.1)
            · exact .inl hmem
          · exact .inr hpassed

/-- The services that are chosen are noted behind those that were. -/
theorem history_eq_append (s : IoServices κ) (chosen : List ℕ) (ks : List κ) :
    history (step size) note s chosen ks = chosen ++ services size s ks := by
  induction ks generalizing s chosen with
  | nil => exact (List.append_nil chosen).symm
  | cons k ks ih =>
      cases hst : step size s k with
      | none => simp [services, history, hst]
      | some t =>
          rw [services, history_cons hst, history_cons hst, ih, ih t (note s k [])]
          simp only [note]
          split_ifs <;> simp

/-- The services of a run in two parts. -/
theorem services_append {ks : List κ} (h : exec (step size) s ks = some t) (ks' : List κ) :
    services size s (ks ++ ks') = services size s ks ++ services size t ks' := by
  rw [services, history_append h, history_eq_append]
  rfl

/-- The calls of one thread bring `next_io_service_` to any place in the pool. -/
theorem exec_up_to (hmax : size < 2 ^ 32) (k : κ) (n : ℕ) (hn : n < size) :
    ∃ ks : List κ, exec (step size) init ks = some (atRest n) ∧
      ∀ i ∈ services size init ks, i < size := by
  induction n with
  | zero => exact ⟨[], rfl, by simp [services, history]⟩
  | succ n ih =>
      obtain ⟨ks, hks, hin⟩ := ih (by omega)
      obtain ⟨m, halone, hchosen⟩ := exec_alone size n k
      have hinc : incSize n = n + 1 := Nat.mod_eq_of_lt (by omega)
      have hnext : (getIoService size n).2 = n + 1 := by
        rw [getIoService, hinc, if_neg (by omega)]
      rw [hnext] at halone
      refine ⟨ks ++ List.replicate m k, exec_append.2 ⟨_, hks, halone⟩, fun i hi => ?_⟩
      rw [services_append hks, hchosen, List.mem_append, List.mem_singleton] at hi
      rcases hi with hi | rfl
      · exact hin i hi
      · exact Nat.lt_of_succ_lt hn

/-- **Two calls that overlap can ruin the pool**, whatever its size: no call has read beyond the
end of `io_services_` yet, and all have ended, but every call that begins from then on does, in
any order of the threads, until `next_io_service_` has been incremented so often that it wraps
around. -/
theorem passed_forever (size : ℕ) (hsize : 0 < size) (hmax : size + 1 < 2 ^ 32) (a b : κ)
    (hab : a ≠ b) : ∃ (ks : List κ) (t : IoServices κ), exec (step size) init ks = some t ∧
      (∀ k, t.caller k = .idle) ∧ (∀ i ∈ services size init ks, i < size) ∧
      ∀ ks' : List κ, size + 2 + increments size t ks' ≤ 2 ^ 32 →
        ∀ i ∈ services size t ks', size < i := by
  have hlt : size < 2 ^ 32 := by omega
  obtain ⟨ks, hks, hin⟩ := exec_up_to hlt a (size - 1) (by omega)
  obtain ⟨hover, hchosen⟩ := exec_overlap hmax hab (size - 1) (by omega)
  refine ⟨ks ++ [a, b, a, a, b, b, a, b], atRest (size + 1), exec_append.2 ⟨_, hks, hover⟩,
    fun _ => rfl, ?_, fun ks' hks' i hi => ?_⟩
  · intro i hi
    rw [services_append hks, hchosen, List.mem_append] at hi
    rcases hi with hi | hi
    · exact hin i hi
    · simp only [List.mem_cons, List.not_mem_nil, or_false, or_self] at hi
      omega
  · have hpassed : Passed size (size + 1 + 1) (atRest (size + 1) : IoServices κ) :=
      passed_atRest (Nat.lt_succ_self size)
    rcases hpassed.services hks' [] i hi with hmem | hbeyond
    · exact absurd hmem List.not_mem_nil
    · exact hbeyond

/-- The pool of the program has two services. -/
theorem passed_forever_two : ∃ (ks : List Bool) (t : IoServices Bool),
    exec (step 2) init ks = some t ∧ (∀ k, t.caller k = .idle) ∧
      (∀ i ∈ services 2 init ks, i < 2) ∧
      ∀ ks' : List Bool, 2 + 2 + increments 2 t ks' ≤ 2 ^ 32 → ∀ i ∈ services 2 t ks', 2 < i :=
  passed_forever 2 (by decide) (by decide) true false (by decide)

end IoServices

end Socket
end Scaner
