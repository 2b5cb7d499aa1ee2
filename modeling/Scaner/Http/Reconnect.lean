/-
# Reconnecting after a failure

`download` of `http/http.hpp`, called again and again on one downloader.  Each call keeps the
connection of the one before if it is for the same address and port, and `socket_ptr_` is not
null.  The handlers run on the threads of the server, between any two steps of the caller, and
in particular before the connection that `create_connect` returns is stored.

Connections are numbered in the order in which they are created.  `handle_connect` and
`handle_send` are given theirs as a parameter `socket_ptr_`, which hides the member: when they
fail they clear the connection, and the member still holds it.  `handle_recv` has no such
parameter, and uses the member.

`reconnects_iff`: the member is null after every failure, and the next call creates a
connection, exactly in the runs in which `handle_connect` and `handle_send` fail only while the
member is null, and no connection is stored in it after a failure (`FailsNull`).  So it is as
long as nothing but `handle_recv` fails (`reconnects_of_onlyRecvFails`).  Any other handler that
fails leaves the member as it is, and the next call sends on the connection that has been
cleared (`exists_send_cleared`).
-/

import Scaner.Http.Downloader
import Scaner.Lib.Trace

namespace Scaner
namespace Http

open Bytes

namespace Downloader

variable {d d' : Downloader} {out : List Effect}

/-! ### The member `socket_ptr_` and the handlers -/

/-- The server and the member `socket_ptr_` are as they were. -/
structure Keeps (d d' : Downloader) : Prop where
  hasServer : d'.hasServer = d.hasServer
  hasSocket : d'.hasSocket = d.hasSocket

/-- A new call does not change whether there is a server. -/
theorem prepare_hasServer {address port rawSend : Bytes} {lpFunc : Option (Bytes → Bytes)} :
    (d.prepare address port rawSend lpFunc).hasServer = d.hasServer := by
  unfold prepare
  split_ifs <;> rfl

/-- A new call sets no socket. -/
theorem prepare_hasSocket {address port rawSend : Bytes} {lpFunc : Option (Bytes → Bytes)}
    (h : d.hasSocket = false) : (d.prepare address port rawSend lpFunc).hasSocket = false := by
  unfold prepare
  split_ifs
  · rfl
  · exact h

/-- A connect with no error keeps the socket and the server. -/
theorem handleConnect_keeps {e : Bool} (h : d.handleConnect e = some (d', out)) : Keeps d d' := by
  unfold handleConnect at h
  split_ifs at h <;> obtain ⟨rfl, -⟩ := Prod.mk.inj (Option.some.inj h) <;> exact ⟨rfl, rfl⟩

/-- A send with no error keeps the socket and the server. -/
theorem handleSend_keeps {e : Bool} {n : ℕ} (h : d.handleSend e n = some (d', out)) :
    Keeps d d' := by
  unfold handleSend at h
  split_ifs at h <;> obtain ⟨rfl, -⟩ := Prod.mk.inj (Option.some.inj h) <;> exact ⟨rfl, rfl⟩

/-- Asking for more keeps the socket and the server. -/
theorem askMore_keeps (h : d.askMore = some (d', out)) : Keeps d d' := by
  unfold askMore at h
  split_ifs at h
  obtain ⟨rfl, -⟩ := Prod.mk.inj (Option.some.inj h)
  exact ⟨rfl, rfl⟩

/-- The end of a download keeps the socket and the server. -/
theorem finish_keeps (h : d.finish = (d', out)) : Keeps d d' := by
  unfold finish at h
  split at h <;> obtain ⟨rfl, -⟩ := Prod.mk.inj h <;> exact ⟨rfl, rfl⟩

/-- A receive with no error keeps the socket and the server. -/
theorem handleRecv_keeps {fuel : ℕ} {received : Bytes} (hserver : d.hasServer = true)
    (h : d.handleRecv fuel false received = some (d', out)) : Keeps d d' := by
  rw [handleRecv, if_neg (by simp [hserver])] at h
  -- The received bytes are in the buffer; neither the server nor the member is touched.
  obtain ⟨hs, hm⟩ : Keeps { d with bufferRecv := d.bufferRecv ++ received } d' := by
    simp only at h
    split_ifs at h
    · exact askMore_keeps h
    · exact finish_keeps (Option.some.inj h)
    · split at h
      · exact finish_keeps (Option.some.inj h)
      · exact askMore_keeps h
      · cases h
    · obtain ⟨rfl, -⟩ := Prod.mk.inj (Option.some.inj h)
      exact ⟨rfl, rfl⟩
  exact ⟨hs, hm⟩

/-- A failed `handle_recv` has used the member, and leaves it null. -/
theorem handleRecv_error {fuel : ℕ} {received : Bytes}
    (h : d.handleRecv fuel true received = some (d', out)) :
    d.hasSocket = true ∧ d'.hasSocket = false ∧ d'.hasServer = d.hasServer := by
  rw [handleRecv, if_pos (Or.inl rfl)] at h
  split_ifs at h with hsocket
  obtain ⟨rfl, -⟩ := Prod.mk.inj (Option.some.inj h)
  exact ⟨hsocket, rfl, rfl⟩

end Downloader

namespace Reconnect

/-- Where the caller of `download` stands, and whether it has given `raw_recv`. -/
inductive Calling
  | idle
  | locked (waits : Bool)
  | creating (connection : ℕ) (waits : Bool)
  | started (waits : Bool)
  | waiting (notified : Bool)
  deriving DecidableEq

/-- `notify_all`: it reaches a caller that is waiting. -/
def Calling.notify : Calling → Calling
  | waiting _ => waiting true
  | c => c

/-- `create_connect` has been called, and its value has not been stored. -/
def Calling.creates : Calling → Bool
  | creating _ _ => true
  | _ => false

/-- The downloader, the connection that `socket_ptr_` is, how many there have been and which
have been cleared, and the operations that are outstanding on each.  `failed` is set when a
handler has completed with an error, until a connection is created. -/
structure State where
  calling : Calling
  downloader : Downloader
  socket : Option ℕ
  created : ℕ
  cleared : List ℕ
  connects : List ℕ
  sends : List ℕ
  recvs : List ℕ
  failed : Bool

/-- A step of the caller, or the end of an operation on a connection: with an error or
without, and with the number of bytes sent or the bytes received. -/
inductive Action
  | enter (address port rawSend : Bytes) (lpFunc : Option (Bytes → Bytes)) (waits : Bool)
  | start
  | assign
  | proceed
  | wake
  | connected (connection : ℕ) (e : Bool)
  | sent (connection : ℕ) (e : Bool) (bytesTransferred : ℕ)
  | received (connection : ℕ) (e : Bool) (bytes : Bytes)

namespace State

/-- An effect of a handler, on the connection that it uses. -/
def effect (on : Option ℕ) (s : State) : Effect → State
  | .send _ => { s with sends := on.toList ++ s.sends }
  | .recv => { s with recvs := on.toList ++ s.recvs }
  | .notifyAll => { s with calling := s.calling.notify }
  | .endFunction => s
  | .clear => { s with cleared := on.toList ++ s.cleared }

/-- A handler that has run in the state `s`, with the error `e`. -/
def handled (s : State) (on : Option ℕ) (e : Bool) (r : Option (Downloader × List Effect)) :
    Option State :=
  r.map fun r => r.2.foldl (effect on) { s with
    downloader := r.1
    socket := if r.1.hasSocket then s.socket else none
    failed := s.failed || e || !s.downloader.hasServer }

/-- `download` up to the lock.  A connection to another address is cleared. -/
def entered (s : State) (d : Downloader) (waits : Bool) : State :=
  { s with
    calling := .locked waits
    downloader := d
    socket := if d.hasSocket then s.socket else none
    cleared := if d.hasSocket then s.cleared else s.socket.toList ++ s.cleared }

/-- What an action does. -/
def step (fuel : ℕ) (s : State) : Action → Option State
  | .enter address port rawSend lpFunc waits =>
      match s.calling with
      | .idle =>
          if s.downloader.hasServer then
            some (s.entered (s.downloader.prepare address port rawSend lpFunc) waits)
          else some s
      | _ => none
  | .start =>
      match s.calling with
      | .locked waits =>
          if s.downloader.hasSocket then
            { s with calling := .started waits }.handled s.socket false
              (s.downloader.handleConnect false)
          else some { s with
            calling := .creating s.created waits
            created := s.created + 1
            connects := s.created :: s.connects
            failed := false }
      | _ => none
  | .assign =>
      match s.calling with
      | .creating connection waits => some { s with
          calling := .started waits
          downloader := { s.downloader with hasSocket := true }
          socket := some connection }
      | _ => none
  | .proceed =>
      match s.calling with
      | .started true => some { s with calling := .waiting false }
      | .started false => some { s with calling := .idle }
      | _ => none
  | .wake =>
      match s.calling with
      | .waiting true => some { s with
          calling := .idle
          downloader := { s.downloader with bufferRecv := [] } }
      | _ => none
  | .connected connection e =>
      if connection ∈ s.connects then
        { s with connects := s.connects.erase connection }.handled (some connection) e
          (s.downloader.handleConnect e)
      else none
  | .sent connection e n =>
      if connection ∈ s.sends then
        { s with sends := s.sends.erase connection }.handled (some connection) e
          (s.downloader.handleSend e n)
      else none
  | .received connection e bytes =>
      -- `handle_recv` clears the member, and asks for more on it.
      if connection ∈ s.recvs then
        { s with recvs := s.recvs.erase connection }.handled s.socket e
          (s.downloader.handleRecv fuel e bytes)
      else none

/-- A new downloader, with or without a server. -/
def init (hasServer : Bool) (behind : Bytes → Bytes) : State where
  calling := .idle
  downloader := ⟨hasServer, false, [], [], [], [], none, behind⟩
  socket := none
  created := 0
  cleared := []
  connects := []
  sends := []
  recvs := []
  failed := false

/-- After a failure the member `socket_ptr_` is null. -/
def Reconnects (s : State) : Prop := s.failed = true → s.downloader.hasSocket = false

end State

/-- Of the handlers, only `handle_recv` is called with an error. -/
def Action.OnlyRecvFails : Action → Prop
  | .connected _ e => e = false
  | .sent _ e _ => e = false
  | _ => True

/-- `handle_connect` and `handle_send` are called with an error only while the member is null,
and no connection is stored in the member after a failure. -/
def FailsNull (s : State) : Action → Prop
  | .connected _ e => e = true → s.downloader.hasSocket = false
  | .sent _ e _ => e = true → s.downloader.hasSocket = false
  | .assign => s.failed = false
  | _ => True

instance (s : State) : ∀ a, Decidable (FailsNull s a)
  | .connected _ _ => inferInstanceAs (Decidable (_ → _))
  | .sent _ _ _ => inferInstanceAs (Decidable (_ → _))
  | .assign => inferInstanceAs (Decidable (_ = _))
  | .enter _ _ _ _ _ | .start | .proceed | .wake | .received _ _ _ => isTrue trivial

open State

variable {s t : State} {on : Option ℕ} {e : Bool} {fuel : ℕ} {behind : Bytes → Bytes}

/-! ### What a handler leaves -/

/-- Waking the caller does not change what it is about to create. -/
theorem creates_notify (c : Calling) : c.notify.creates = c.creates := by
  cases c <;> rfl

/-- Effects change neither the downloader nor the flag, and the caller goes on to create its
connection. -/
theorem foldl_effect (on : Option ℕ) (out : List Effect) (s : State) :
    (out.foldl (effect on) s).downloader = s.downloader ∧
      (out.foldl (effect on) s).failed = s.failed ∧
      (out.foldl (effect on) s).calling.creates = s.calling.creates := by
  induction out generalizing s with
  | nil => exact ⟨rfl, rfl, rfl⟩
  | cons x out ih =>
      obtain ⟨hd, hf, hc⟩ := ih (effect on s x)
      rw [List.foldl_cons, hd, hf, hc]
      cases x with
      | notifyAll => exact ⟨rfl, rfl, creates_notify s.calling⟩
      | _ => exact ⟨rfl, rfl, rfl⟩

/-- What a handler leaves: its downloader, and whether a call has failed. -/
theorem handled_spec {r : Option (Downloader × List Effect)} (h : s.handled on e r = some t) :
    ∃ out, r = some (t.downloader, out) ∧
      t.failed = (s.failed || e || !s.downloader.hasServer) ∧
      t.calling.creates = s.calling.creates := by
  obtain ⟨⟨d, out⟩, rfl, rfl⟩ := Option.map_eq_some_iff.1 h
  obtain ⟨hd, hf, hc⟩ := foldl_effect on out { s with
    downloader := d
    socket := if d.hasSocket then s.socket else none
    failed := s.failed || e || !s.downloader.hasServer }
  exact ⟨out, by rw [hd], hf, hc⟩

/-! ### What an action does -/

/-- The ways in which an action changes the state, with what each asks of it. -/
inductive Moves (fuel : ℕ) (s : State) : Action → State → Prop
  | entered {address port rawSend : Bytes} {lpFunc : Option (Bytes → Bytes)} {waits : Bool}
      (hserver : s.downloader.hasServer = true) :
      Moves fuel s (.enter address port rawSend lpFunc waits)
        (s.entered (s.downloader.prepare address port rawSend lpFunc) waits)
  | refused {address port rawSend : Bytes} {lpFunc : Option (Bytes → Bytes)} {waits : Bool} :
      Moves fuel s (.enter address port rawSend lpFunc waits) s
  | resumed {t : State} {waits : Bool} (hcalling : s.calling = .locked waits)
      (hsocket : s.downloader.hasSocket = true)
      (ht : { s with calling := .started waits }.handled s.socket false
        (s.downloader.handleConnect false) = some t) : Moves fuel s .start t
  | created {waits : Bool} (hcalling : s.calling = .locked waits)
      (hsocket : s.downloader.hasSocket = false) :
      Moves fuel s .start { s with
        calling := .creating s.created waits
        created := s.created + 1
        connects := s.created :: s.connects
        failed := false }
  | assigned {connection : ℕ} {waits : Bool} (hcalling : s.calling = .creating connection waits) :
      Moves fuel s .assign { s with
        calling := .started waits
        downloader := { s.downloader with hasSocket := true }
        socket := some connection }
  | proceeded {waits : Bool} (hcalling : s.calling = .started waits) :
      Moves fuel s .proceed { s with calling := if waits then .waiting false else .idle }
  | woken (hcalling : s.calling = .waiting true) :
      Moves fuel s .wake { s with
        calling := .idle
        downloader := { s.downloader with bufferRecv := [] } }
  | connected {t : State} {connection : ℕ} {e : Bool} (hmem : connection ∈ s.connects)
      (ht : { s with connects := s.connects.erase connection }.handled (some connection) e
        (s.downloader.handleConnect e) = some t) : Moves fuel s (.connected connection e) t
  | sent {t : State} {connection n : ℕ} {e : Bool} (hmem : connection ∈ s.sends)
      (ht : { s with sends := s.sends.erase connection }.handled (some connection) e
        (s.downloader.handleSend e n) = some t) : Moves fuel s (.sent connection e n) t
  | received {t : State} {connection : ℕ} {e : Bool} {bytes : Bytes} (hmem : connection ∈ s.recvs)
      (ht : { s with recvs := s.recvs.erase connection }.handled s.socket e
        (s.downloader.handleRecv fuel e bytes) = some t) :
      Moves fuel s (.received connection e bytes) t

/-- An action that can be taken changes the state in one of these ways. -/
theorem moves_of_step {a : Action} (ht : s.step fuel a = some t) : Moves fuel s a t := by
  cases a with
  | enter address port rawSend lpFunc waits =>
      rw [State.step] at ht
      cases hcalling : s.calling with
      | idle =>
          simp only [hcalling] at ht
          split_ifs at ht with hserver <;> obtain rfl := Option.some.inj ht
          · exact .entered hserver
          · exact .refused
      | _ => simp [hcalling] at ht
  | start =>
      rw [State.step] at ht
      cases hcalling : s.calling with
      | locked waits =>
          simp only [hcalling] at ht
          split_ifs at ht with hsocket
          · exact .resumed hcalling hsocket ht
          · obtain rfl := Option.some.inj ht
            exact .created hcalling (Bool.eq_false_iff.2 hsocket)
      | _ => simp [hcalling] at ht
  | assign =>
      rw [State.step] at ht
      cases hcalling : s.calling with
      | creating connection waits =>
          simp only [hcalling] at ht
          obtain rfl := Option.some.inj ht
          exact .assigned hcalling
      | _ => simp [hcalling] at ht
  | proceed =>
      rw [State.step] at ht
      cases hcalling : s.calling with
      | started waits =>
          cases waits <;> simp only [hcalling] at ht <;> obtain rfl := Option.some.inj ht <;>
            exact .proceeded hcalling
      | _ => simp [hcalling] at ht
  | wake =>
      rw [State.step] at ht
      cases hcalling : s.calling with
      | waiting notified =>
          cases notified with
          | true =>
              simp only [hcalling] at ht
              obtain rfl := Option.some.inj ht
              exact .woken hcalling
          | false => simp [hcalling] at ht
      | _ => simp [hcalling] at ht
  | connected connection e =>
      rw [State.step] at ht
      split_ifs at ht with hmem
      exact .connected hmem ht
  | sent connection e n =>
      rw [State.step] at ht
      split_ifs at ht with hmem
      exact .sent hmem ht
  | received connection e bytes =>
      rw [State.step] at ht
      split_ifs at ht with hmem
      exact .received hmem ht

/-! ### What every action keeps -/

/-- While a connection is created there is none.  A downloader with no server does nothing. -/
structure Inv (s : State) : Prop where
  reconnects : s.Reconnects
  creating : s.calling.creates = true → s.downloader.hasSocket = false
  server : s.downloader.hasServer = false →
    s.calling = .idle ∧ s.connects = [] ∧ s.sends = [] ∧ s.recvs = []

/-- At the start nothing has failed and nothing is under way. -/
theorem inv_init (hasServer : Bool) (behind : Bytes → Bytes) : Inv (init hasServer behind) where
  reconnects := fun _ => rfl
  creating := nofun
  server := fun _ => ⟨rfl, rfl, rfl, rfl⟩

/-- There is a server while anything is under way. -/
theorem Inv.hasServer (h : Inv s)
    (hbusy : ¬ (s.calling = .idle ∧ s.connects = [] ∧ s.sends = [] ∧ s.recvs = [])) :
    s.downloader.hasServer = true := by
  by_contra hserver
  exact hbusy (h.server (Bool.eq_false_iff.2 hserver))

/-- The member, the flag and the server are as they were, and there is a server. -/
theorem Inv.of_keeps (h : Inv s) (hserver : s.downloader.hasServer = true)
    (hkeeps : s.downloader.Keeps t.downloader) (hfailed : t.failed = s.failed)
    (hcreates : t.calling.creates = true → s.calling.creates = true) : Inv t := by
  constructor
  · unfold Reconnects
    rw [hfailed, hkeeps.hasSocket]
    exact h.reconnects
  · intro ht
    rw [hkeeps.hasSocket]
    exact h.creating (hcreates ht)
  · rw [hkeeps.hasServer, hserver]
    exact nofun

/-- A handler that keeps the member and does not fail. -/
theorem Inv.handled {r : Option (Downloader × List Effect)} (h : Inv s)
    (hserver : s.downloader.hasServer = true)
    (hr : ∀ d out, r = some (d, out) → s.downloader.Keeps d)
    (ht : s.handled on false r = some t) : Inv t := by
  obtain ⟨out, hout, hfailed, hcreates⟩ := handled_spec ht
  refine h.of_keeps hserver (hr _ _ hout) ?_ (fun hc => hcreates ▸ hc)
  rw [hfailed, hserver, Bool.or_false, Bool.not_true, Bool.or_false]

/-- A handler that fails and leaves the member null. -/
theorem inv_handled_null {r : Option (Downloader × List Effect)}
    (ht : s.handled on true r = some t) (hserver : s.downloader.hasServer = true)
    (hr : ∀ d out, r = some (d, out) →
      d.hasSocket = false ∧ d.hasServer = s.downloader.hasServer) : Inv t := by
  obtain ⟨out, hout, -, -⟩ := handled_spec ht
  obtain ⟨hnull, hsame⟩ := hr _ _ hout
  refine ⟨fun _ => hnull, fun _ => hnull, ?_⟩
  rw [hsame, hserver]
  exact nofun

/-- A handler that keeps the member, and fails only while it is null. -/
theorem Inv.handled_keeps {r : Option (Downloader × List Effect)} (h : Inv s)
    (hserver : s.downloader.hasServer = true)
    (hr : ∀ d out, r = some (d, out) → s.downloader.Keeps d)
    (he : e = true → s.downloader.hasSocket = false) (ht : s.handled on e r = some t) : Inv t := by
  cases e with
  | false => exact h.handled hserver hr ht
  | true =>
      refine inv_handled_null ht hserver fun d out hout => ?_
      exact ⟨(hr d out hout).hasSocket.trans (he rfl), (hr d out hout).hasServer⟩

/-- `download` up to the lock can only set the member to null. -/
theorem Inv.entered (h : Inv s) (hserver : s.downloader.hasServer = true)
    (address port rawSend : Bytes) (lpFunc : Option (Bytes → Bytes)) (waits : Bool) :
    Inv (s.entered (s.downloader.prepare address port rawSend lpFunc) waits) := by
  constructor
  · exact fun hfailed => Downloader.prepare_hasSocket (h.reconnects hfailed)
  · exact nofun
  · rw [State.entered, Downloader.prepare_hasServer, hserver]
    exact nofun

/-- **Every action keeps it that fails while the member is null.** -/
theorem Inv.step {a : Action} (h : Inv s) (ha : FailsNull s a)
    (ht : s.step fuel a = some t) : Inv t := by
  cases moves_of_step ht with
  | entered hserver => exact h.entered hserver ..
  | refused => exact h
  | @resumed _ waits hcalling _ ht =>
      have hserver := h.hasServer (by simp [hcalling])
      have hstarted : Inv { s with calling := .started waits } :=
        h.of_keeps hserver ⟨rfl, rfl⟩ rfl nofun
      exact hstarted.handled hserver (fun _ _ => Downloader.handleConnect_keeps) ht
  | created hcalling hsocket =>
      have hserver := h.hasServer (by simp [hcalling])
      exact ⟨fun _ => hsocket, fun _ => hsocket, fun hn => by simp [hserver] at hn⟩
  | assigned hcalling =>
      have hserver := h.hasServer (by simp [hcalling])
      have hfailed : s.failed = false := ha
      exact ⟨fun hf => by simp [hfailed] at hf, nofun, fun hn => by simp [hserver] at hn⟩
  | @proceeded waits hcalling =>
      refine h.of_keeps (h.hasServer (by simp [hcalling])) ⟨rfl, rfl⟩ rfl ?_
      cases waits <;> exact nofun
  | woken hcalling =>
      exact h.of_keeps (h.hasServer (by simp [hcalling])) ⟨rfl, rfl⟩ rfl nofun
  | @connected _ connection _ hmem ht =>
      have hserver := h.hasServer (by simp [List.ne_nil_of_mem hmem])
      have hbegun : Inv { s with connects := s.connects.erase connection } :=
        h.of_keeps hserver ⟨rfl, rfl⟩ rfl id
      exact hbegun.handled_keeps hserver (fun _ _ => Downloader.handleConnect_keeps) ha ht
  | @sent _ connection _ _ hmem ht =>
      have hserver := h.hasServer (by simp [List.ne_nil_of_mem hmem])
      have hbegun : Inv { s with sends := s.sends.erase connection } :=
        h.of_keeps hserver ⟨rfl, rfl⟩ rfl id
      exact hbegun.handled_keeps hserver (fun _ _ => Downloader.handleSend_keeps) ha ht
  | @received _ connection e _ hmem ht =>
      have hserver := h.hasServer (by simp [List.ne_nil_of_mem hmem])
      have hbegun : Inv { s with recvs := s.recvs.erase connection } :=
        h.of_keeps hserver ⟨rfl, rfl⟩ rfl id
      cases e with
      | false =>
          exact hbegun.handled hserver (fun _ _ => Downloader.handleRecv_keeps hserver) ht
      | true =>
          refine inv_handled_null ht hserver fun d out hout => ?_
          obtain ⟨-, hnull, hsame⟩ := Downloader.handleRecv_error hout
          exact ⟨hnull, hsame⟩

/-- A call with the member null creates a connection, and sends nothing on an old one. -/
theorem start_creates (hsocket : s.downloader.hasSocket = false)
    (ht : s.step fuel .start = some t) : t.created = s.created + 1 ∧ t.sends = s.sends := by
  cases moves_of_step ht with
  | resumed _ hset => simp [hsocket] at hset
  | created => exact ⟨rfl, rfl⟩

/-- A `handle_connect` or `handle_send` that fails leaves the member as it is. -/
theorem not_reconnects_of_keeps {r : Option (Downloader × List Effect)}
    (ht : s.handled on true r = some t) (hsocket : s.downloader.hasSocket = true)
    (hr : ∀ d out, r = some (d, out) → s.downloader.Keeps d) : ¬ t.Reconnects := by
  obtain ⟨out, hout, hfailed, -⟩ := handled_spec ht
  intro h
  have hnull := h (by rw [hfailed, Bool.or_true, Bool.true_or])
  rw [(hr _ _ hout).hasSocket, hsocket] at hnull
  cases hnull

/-- **A failure that leaves the member as it is, or a connection that is stored after one, is
seen at once.** -/
theorem not_reconnects_of_fails {a : Action} (ha : ¬ FailsNull s a)
    (ht : s.step fuel a = some t) : ¬ t.Reconnects := by
  cases moves_of_step ht with
  | connected _ ht =>
      obtain ⟨rfl, hsocket⟩ := Classical.not_imp.1 ha
      exact not_reconnects_of_keeps ht (Bool.of_not_eq_false hsocket)
        fun _ _ => Downloader.handleConnect_keeps
  | sent _ ht =>
      obtain ⟨rfl, hsocket⟩ := Classical.not_imp.1 ha
      exact not_reconnects_of_keeps ht (Bool.of_not_eq_false hsocket)
        fun _ _ => Downloader.handleSend_keeps
  | assigned =>
      intro h
      cases h (Bool.of_not_eq_false ha)
  | _ => exact absurd trivial ha

/-- The member is null after a failure, and the next call creates a connection and sends nothing
on an old one. -/
def CreatesAnew (fuel : ℕ) (s : State) : Prop :=
  s.Reconnects ∧ (s.failed = true → ∀ t, s.step fuel .start = some t →
    t.created = s.created + 1 ∧ t.sends = s.sends)

/-- A call after a failure creates a connection. -/
theorem Inv.createsAnew (h : Inv s) : CreatesAnew fuel s :=
  ⟨h.reconnects, fun hfailed _ ht => start_creates (h.reconnects hfailed) ht⟩

/-- **A failed transfer forces a reconnect, exactly in the runs in which the other handlers fail
only while the member is null**, and no connection is stored after a failure. -/
theorem reconnects_iff (fuel : ℕ) (hasServer : Bool) (behind : Bytes → Bytes) (as : List Action) :
    Trace.Always (State.step fuel) (CreatesAnew fuel) (init hasServer behind) as ↔
      Trace.Along (State.step fuel) FailsNull (init hasServer behind) as :=
  Trace.always_iff_along (inv_init hasServer behind) (fun _ _ _ hs ha ht => hs.step ha ht)
    (fun _ hs => hs.createsAnew) (fun _ _ _ _ ha ht hs => not_reconnects_of_fails ha ht hs.1) as

/-! ### Runs in which only `handle_recv` fails -/

/-- While a connection is created, only the other handlers can fail. -/
theorem creating_step {a : Action} (h : Inv s) (hc : s.calling.creates = true → s.failed = false)
    (ha : a.OnlyRecvFails) (ht : s.step fuel a = some t) :
    t.calling.creates = true → t.failed = false := by
  have hkept : ∀ {on : Option ℕ} {s' : State} {r : Option (Downloader × List Effect)},
      s'.handled on false r = some t → s'.calling.creates = s.calling.creates →
      s'.failed = s.failed → s'.downloader.hasServer = true →
      t.calling.creates = true → t.failed = false := by
    intro on s' r ht hcalling hfailed hserver htc
    obtain ⟨out, -, hf, hcr⟩ := handled_spec ht
    rw [hf, hfailed, hserver, hc (by rw [← hcalling, ← hcr, htc])]
    rfl
  cases moves_of_step ht with
  | entered => exact nofun
  | refused => exact hc
  | resumed _ _ ht =>
      obtain ⟨-, -, -, hcr⟩ := handled_spec ht
      rw [hcr]
      exact nofun
  | created => exact fun _ => rfl
  | assigned => exact nofun
  | @proceeded waits => cases waits <;> exact nofun
  | woken => exact nofun
  | connected hmem ht =>
      obtain rfl := ha
      exact hkept ht rfl rfl (h.hasServer (by simp [List.ne_nil_of_mem hmem]))
  | sent hmem ht =>
      obtain rfl := ha
      exact hkept ht rfl rfl (h.hasServer (by simp [List.ne_nil_of_mem hmem]))
  | @received _ _ e _ hmem ht =>
      cases e with
      | false => exact hkept ht rfl rfl (h.hasServer (by simp [List.ne_nil_of_mem hmem]))
      | true =>
          -- `handle_recv` needs the member, which is null while a connection is created
          obtain ⟨out, hout, -, hcr⟩ := handled_spec ht
          obtain ⟨hold, -, -⟩ := Downloader.handleRecv_error hout
          intro htc
          rw [h.creating (hcr ▸ htc)] at hold
          cases hold

/-- **A failed transfer forces a reconnect, if it is a `handle_recv` that fails.** In every run
in which no other handler fails, `socket_ptr_` is null after a failure, and the next call
creates a connection. -/
theorem reconnects_of_onlyRecvFails {hasServer : Bool} {as : List Action}
    (h : ∀ a ∈ as, a.OnlyRecvFails) :
    Trace.Always (State.step fuel) (CreatesAnew fuel) (init hasServer behind) as := by
  have hinv : Trace.Always (State.step fuel)
      (fun s => Inv s ∧ (s.calling.creates = true → s.failed = false)) (init hasServer behind)
      as := by
    refine Trace.always_of_along ⟨inv_init hasServer behind, nofun⟩ (fun s a t hs ha ht => ?_)
      (Trace.along_of_forall h _)
    refine ⟨hs.1.step ?_ ht, creating_step hs.1 hs.2 ha ht⟩
    cases moves_of_step ht with
    | connected =>
        obtain rfl := ha
        exact nofun
    | sent =>
        obtain rfl := ha
        exact nofun
    | assigned hcalling => exact hs.2 (by rw [hcalling]; rfl)
    | _ => trivial
  exact hinv.mono fun s hs => hs.1.createsAnew

/-- A download that is sent, and fails when its response is awaited. -/
def failedRecv : List Action :=
  [.enter (str "a") (str "80") (str "x") none false, .start, .assign, .proceed,
    .connected 0 false, .sent 0 false 1, .received 0 true []]

/-- The next download creates a second connection. -/
theorem reconnects_failedRecv :
    Trace.Along (State.step 0) FailsNull (init true fun _ => []) failedRecv ∧
      Trace.Always (State.step 0) (CreatesAnew 0) (init true fun _ => []) failedRecv ∧
      ∃ s t, Trace.exec (State.step 0) (init true fun _ => []) failedRecv = some s ∧
        s.failed = true ∧
        Trace.exec (State.step 0) s
          [.enter (str "a") (str "80") (str "y") none false, .start] = some t ∧ t.created = 2 := by
  have halong : Trace.Along (State.step 0) FailsNull (init true fun _ => []) failedRecv := by
    decide
  exact ⟨halong, (reconnects_iff 0 true (fun _ => []) failedRecv).2 halong, _, _, rfl, rfl, rfl,
    rfl⟩

/-! ### A failed connect -/

/-- A download whose connect is outstanding. -/
def begunConnect : List Action :=
  [.enter (str "a") (str "80") (str "x") none false, .start, .assign, .proceed]

/-- A download whose connect fails. -/
def failedConnect : List Action := begunConnect ++ [.connected 0 true]

/-- After a failed connect the next download to the same address sends on the connection that
has been cleared. -/
theorem exists_send_cleared :
    ¬ Trace.Always (State.step 0) Reconnects (init true fun _ => []) failedConnect ∧
      ∃ t, Trace.exec (State.step 0) (init true fun _ => [])
          (failedConnect ++ [.enter (str "a") (str "80") (str "y") none false, .start]) = some t ∧
        t.created = 1 ∧ t.cleared = [0] ∧ t.sends = [0] := by
  refine ⟨fun h => ?_, _, rfl, rfl, rfl, rfl⟩
  obtain ⟨s, t, hs, hsocket, ht⟩ : ∃ s t,
      Trace.exec (State.step 0) (init true fun _ => []) begunConnect = some s ∧
        s.downloader.hasSocket = true ∧ s.step 0 (.connected 0 true) = some t :=
    ⟨_, _, rfl, rfl, rfl⟩
  have hrun : Trace.exec (State.step 0) (init true fun _ => []) failedConnect = some t :=
    Trace.exec_append.2 ⟨s, hs, Trace.exec_cons.2 ⟨t, ht, rfl⟩⟩
  exact not_reconnects_of_fails (by simp [FailsNull, hsocket]) ht (h.last hrun)

end Reconnect
end Http
end Scaner
