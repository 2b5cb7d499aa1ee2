/-
# The downloader

`downloader` in `http/http.hpp`: a connection, what is to be sent, what has been
received, and the three handlers that the server calls when an operation on the
connection has ended.  A handler changes the downloader and has effects, in
order: operations it starts, and the notification that the caller of `download`
waits for.  Where a handler would use a null `socket_ptr_`, or does not return
because `http_reponse_check` does not, or leaves the buffer there, it has no result.

`handle_connect` and `handle_send` have a parameter `socket_ptr_` of their own,
so that the member of this name is set to null by `handle_recv` only.

`completes_iff`: a response of known length that arrives in pieces is signalled
with its last piece and left in the buffer, unless that piece fills a packet, which is
taken for a sign that more is to come, or `end_function_` changes the buffer.  That is so
as long as what lies behind the end of the buffer completes no text that the test looks
for (`NoneAcross`): on a downloader that is used again, the `H` of a response may be followed
there by the `TTP` of the one before (`not_completes_reused`).
-/

import Scaner.HttpTools.Behind

namespace Scaner
namespace Http

open Bytes HttpTools

/-- `HTTP_ONE_PACKET_SIZE`. -/
def httpOnePacketSize : ℕ := 1460

/-- `class downloader`.  `endFunction` is what the function leaves in the buffer
it is given, and `behind` what the storage of `buffer_recv_` holds behind the end when the
buffer holds the given bytes. -/
structure Downloader where
  hasServer : Bool
  hasSocket : Bool
  address : Bytes
  port : Bytes
  bufferSend : Bytes
  bufferRecv : Bytes
  endFunction : Option (Bytes → Bytes)
  behind : Bytes → Bytes := fun _ => []

/-- What a handler does outside the downloader: the operations it starts, the
notification, the call of `end_function_`, and `clear` on the connection. -/
inductive Effect
  | send (bytes : Bytes)
  | recv
  | notifyAll
  | endFunction
  | clear
  deriving DecidableEq

namespace Downloader

/-- What `download` does before it takes the lock. -/
def prepare (d : Downloader) (address port rawSend : Bytes)
    (lpFunc : Option (Bytes → Bytes)) : Downloader :=
  let d := if address ≠ d.address ∨ port ≠ d.port then
      { d with hasSocket := false, address := address, port := port }
    else d
  { d with bufferSend := rawSend, bufferRecv := [], endFunction := lpFunc }

/-- `handle_connect`. -/
def handleConnect (d : Downloader) (e : Bool) : Option (Downloader × List Effect) :=
  if e = true ∨ d.hasServer = false then some (d, [.notifyAll, .clear])
  else some (d, [.send d.bufferSend])

/-- `handle_send`.  A short write is followed by the rest, and by a `recv` too. -/
def handleSend (d : Downloader) (e : Bool) (bytesTransferred : ℕ) :
    Option (Downloader × List Effect) :=
  if e = true ∨ d.hasServer = false then some (d, [.notifyAll, .clear])
  else if bytesTransferred < d.bufferSend.length then
    let d := { d with bufferSend := d.bufferSend.drop bytesTransferred }
    some (d, [.send d.bufferSend, .recv])
  else some (d, [.recv])

/-- `iocp_server_ptr_->recv(socket_ptr_, …)`. -/
def askMore (d : Downloader) : Option (Downloader × List Effect) :=
  if d.hasSocket then some (d, [.recv]) else none

/-- The end of a download: `end_function_`, if there is one, and the
notification. -/
def finish (d : Downloader) : Downloader × List Effect :=
  match d.endFunction with
  | some f => ({ d with bufferRecv := f d.bufferRecv, endFunction := none },
      [.endFunction, .notifyAll])
  | none => (d, [.notifyAll])

/-- `handle_recv`; `received` are the `bytes_transferred_` bytes in `buff_temp`. -/
def handleRecv (fuel : ℕ) (d : Downloader) (e : Bool) (received : Bytes) :
    Option (Downloader × List Effect) :=
  if e = true ∨ d.hasServer = false then
    if d.hasSocket then some ({ d with hasSocket := false }, [.notifyAll, .clear]) else none
  else
    let d := { d with bufferRecv := d.bufferRecv ++ received }
    if received.length = httpOnePacketSize then d.askMore
    else if received.length = 0 then some d.finish
    else if received.length < httpOnePacketSize then
      match httpReponseCheckIn (d.behind d.bufferRecv) fuel d.bufferRecv with
      | some true => some d.finish
      | some false => d.askMore
      | none => none
    else some (d, [.notifyAll])

/-! ### Every handler keeps the download going -/

/-- An operation is started, or the caller is notified. -/
def Continues (out : List Effect) : Prop :=
  .notifyAll ∈ out ∨ .recv ∈ out ∨ ∃ bytes, .send bytes ∈ out

variable {d d' : Downloader} {out : List Effect}

/-- Asking for more starts another receive. -/
theorem askMore_continues (h : d.askMore = some (d', out)) : Continues out := by
  unfold askMore at h
  split_ifs at h
  obtain ⟨-, rfl⟩ := Prod.mk.inj (Option.some.inj h)
  exact Or.inr (Or.inl (by simp))

/-- The end of a download wakes the caller. -/
theorem finish_continues (h : d.finish = (d', out)) : Continues out := by
  unfold finish at h
  split at h <;> obtain ⟨-, rfl⟩ := Prod.mk.inj h <;> exact Or.inl (by simp)

/-- A connect handler starts a send, or wakes the caller. -/
theorem handleConnect_continues {e : Bool} (h : d.handleConnect e = some (d', out)) :
    Continues out := by
  unfold handleConnect at h
  split_ifs at h <;> obtain ⟨-, rfl⟩ := Prod.mk.inj (Option.some.inj h)
  · exact Or.inl (by simp)
  · exact Or.inr (Or.inr ⟨d.bufferSend, by simp⟩)

/-- A send handler starts another operation, or wakes the caller. -/
theorem handleSend_continues {e : Bool} {n : ℕ} (h : d.handleSend e n = some (d', out)) :
    Continues out := by
  unfold handleSend at h
  split_ifs at h <;> obtain ⟨-, rfl⟩ := Prod.mk.inj (Option.some.inj h)
  · exact Or.inl (by simp)
  · exact Or.inr (Or.inl (by simp))
  · exact Or.inr (Or.inl (by simp))

/-- A receive handler starts another receive, or wakes the caller. -/
theorem handleRecv_continues {fuel : ℕ} {e : Bool} {received : Bytes}
    (h : d.handleRecv fuel e received = some (d', out)) : Continues out := by
  unfold handleRecv at h
  simp only at h
  split_ifs at h
  · obtain ⟨-, rfl⟩ := Prod.mk.inj (Option.some.inj h)
    exact Or.inl (by simp)
  · exact askMore_continues h
  · exact finish_continues (Option.some.inj h)
  · split at h
    · exact finish_continues (Option.some.inj h)
    · exact askMore_continues h
    · cases h
  · obtain ⟨-, rfl⟩ := Prod.mk.inj (Option.some.inj h)
    exact Or.inl (by simp)

end Downloader

/-! ### A response in pieces -/

/-- A text cut into pieces that a `recv` can deliver. -/
structure Fragmentation (text : Bytes) where
  init : List Bytes
  last : Bytes
  flatten : (init ++ [last]).flatten = text
  size : ∀ f ∈ init ++ [last], 1 ≤ f.length ∧ f.length ≤ httpOnePacketSize

/-- A text that arrives in one piece. -/
def Fragmentation.single {text : Bytes} (hpos : 1 ≤ text.length)
    (hle : text.length ≤ httpOnePacketSize) : Fragmentation text where
  init := []
  last := text
  flatten := by simp
  size := by simp [hpos, hle]

/-- The pieces delivered to `handle_recv`, one after the other and without error:
the effects of each call. -/
def deliver (fuel : ℕ) : Downloader → List Bytes → Option (Downloader × List (List Effect))
  | d, [] => some (d, [])
  | d, f :: fragments =>
      match d.handleRecv fuel false f with
      | none => none
      | some (d, out) =>
          match deliver fuel d fragments with
          | none => none
          | some (d, outs) => some (d, out :: outs)

/-- The caller is notified with the last piece, not before and with no further
`recv`, and the text is in the buffer. -/
def Completes (fuel : ℕ) (d : Downloader) {text : Bytes} (s : Fragmentation text) : Prop :=
  ∃ d' outs out, deliver fuel d (s.init ++ [s.last]) = some (d', outs ++ [out]) ∧
    (∀ o ∈ outs, .notifyAll ∉ o) ∧ .notifyAll ∈ out ∧ .recv ∉ out ∧ d'.bufferRecv = text

/-- Whenever some of the pieces have arrived, no text that the test looks for lies across the
end of the buffer. -/
def Fragmentation.NoneAcross (behind : Bytes → Bytes) {text : Bytes} (s : Fragmentation text) :
    Prop :=
  ∀ pieces ∈ (s.init ++ [s.last]).inits, HttpTools.NoneAcross (behind pieces.flatten) pieces.flatten

instance (behind : Bytes → Bytes) {text : Bytes} (s : Fragmentation text) :
    Decidable (s.NoneAcross behind) :=
  inferInstanceAs (Decidable (∀ pieces ∈ (s.init ++ [s.last]).inits, _))

/-- A downloader that has received `c`. -/
structure Downloader.Receiving (d : Downloader) (c : Bytes) : Prop where
  hasServer : d.hasServer = true
  hasSocket : d.hasSocket = true
  bufferRecv : d.bufferRecv = c

/-- Fragments that come in two parts. -/
theorem deliver_append {fuel : ℕ} {d d' : Downloader} {xs ys : List Bytes}
    {outs : List (List Effect)} (h : deliver fuel d xs = some (d', outs)) :
    deliver fuel d (xs ++ ys) =
      (deliver fuel d' ys).map fun r => (r.1, outs ++ r.2) := by
  induction xs generalizing d outs with
  | nil =>
      obtain ⟨rfl, rfl⟩ : d = d' ∧ [] = outs := by simpa [deliver] using h
      simp
  | cons x xs ih =>
      rw [deliver] at h
      rw [List.cons_append, deliver]
      cases hx : d.handleRecv fuel false x with
      | none => simp [hx] at h
      | some r =>
          obtain ⟨d₁, out⟩ := r
          simp only [hx] at h ⊢
          cases hxs : deliver fuel d₁ xs with
          | none => simp [hxs] at h
          | some r =>
              obtain ⟨d₂, outs₁⟩ := r
              obtain ⟨rfl, rfl⟩ : d₂ = d' ∧ out :: outs₁ = outs := by simpa [hxs] using h
              rw [ih hxs]
              cases deliver fuel d₂ ys <;> rfl

section Length

variable {h : LengthHead} {b c f : Bytes} {fuel : ℕ} {d : Downloader}

/-- **A piece of a response of known length**: the download ends if the response is there,
and the piece does not fill a packet. -/
theorem handleRecv_piece (fuel : ℕ) (hd : d.Receiving c) (hc : c ++ f <+: h.bytes ++ b)
    (hacross : NoneAcross (d.behind (c ++ f)) (c ++ f))
    (hf : 1 ≤ f.length ∧ f.length ≤ httpOnePacketSize) (hfuel : (c ++ f).length < fuel) :
    d.handleRecv fuel false f =
      some (if f.length = httpOnePacketSize ∨ (c ++ f).length < h.bytes.length + h.length
        then ({ d with bufferRecv := c ++ f }, [.recv])
        else { d with bufferRecv := c ++ f }.finish) := by
  have hpos : f.length ≠ 0 := by omega
  have hserver : ¬ (false = true ∨ d.hasServer = false) := by simp [hd.hasServer]
  have hcheck := h.httpReponseCheckIn_eq hc hacross hfuel
  rw [Downloader.handleRecv, if_neg hserver]
  simp only [hd.bufferRecv, hcheck, hpos, if_false]
  by_cases hfull : f.length = httpOnePacketSize
  · simp [hfull, Downloader.askMore, hd.hasSocket]
  · have hlt : f.length < httpOnePacketSize := by omega
    by_cases hle : h.bytes.length + h.length ≤ (c ++ f).length
    · have hnot : ¬ (f.length = httpOnePacketSize ∨
          (c ++ f).length < h.bytes.length + h.length) := by omega
      rw [if_neg hfull, if_pos hlt, if_neg hnot, decide_eq_true hle]
    · rw [if_neg hfull, if_pos hlt, if_pos (Or.inr (by omega)), decide_eq_false hle]
      simp [Downloader.askMore, hd.hasSocket]

/-- While the response is not there, the downloader asks for more. -/
theorem deliver_pieces (fuel : ℕ) (fragments : List Bytes) (hd : d.Receiving c)
    (hc : c ++ fragments.flatten <+: h.bytes ++ b)
    (hlt : (c ++ fragments.flatten).length < h.bytes.length + h.length)
    (hacross : ∀ pieces, pieces <+: fragments →
      NoneAcross (d.behind (c ++ pieces.flatten)) (c ++ pieces.flatten))
    (hf : ∀ f ∈ fragments, 1 ≤ f.length ∧ f.length ≤ httpOnePacketSize)
    (hfuel : (c ++ fragments.flatten).length < fuel) :
    deliver fuel d fragments = some ({ d with bufferRecv := c ++ fragments.flatten },
      fragments.map fun _ => [.recv]) := by
  induction fragments generalizing c d with
  | nil =>
      obtain rfl := hd.bufferRecv
      simp [deliver]
  | cons f fragments ih =>
      rw [List.flatten_cons, ← List.append_assoc] at hc hlt hfuel ⊢
      have hpre : c ++ f <+: c ++ f ++ fragments.flatten := List.prefix_append _ _
      have hle := hpre.length_le
      have hfirst : NoneAcross (d.behind (c ++ f)) (c ++ f) := by
        simpa using hacross [f] (List.prefix_append [f] fragments)
      have hpiece := handleRecv_piece fuel hd (hpre.trans hc) hfirst (hf f (by simp)) (by omega)
      rw [if_pos (Or.inr (by omega))] at hpiece
      have hrest := ih (d := { d with bufferRecv := c ++ f }) (c := c ++ f)
        ⟨hd.hasServer, hd.hasSocket, rfl⟩ hc hlt
        (fun pieces hp => by
          simpa using hacross (f :: pieces) ((List.prefix_cons_inj f).2 hp))
        (fun g hg => hf g (by simp [hg])) hfuel
      simp only [deliver, hpiece, hrest, List.map_cons]

/-- All pieces of a response: what the last call does depends on whether the piece fills a
packet. -/
theorem deliver_fragments (fuel : ℕ) (hb : b.length = h.length) (hd : d.Receiving [])
    (s : Fragmentation (h.bytes ++ b)) (hacross : s.NoneAcross d.behind)
    (hfuel : (h.bytes ++ b).length < fuel) :
    let last := if s.last.length = httpOnePacketSize
      then ({ d with bufferRecv := h.bytes ++ b }, [.recv])
      else { d with bufferRecv := h.bytes ++ b }.finish
    deliver fuel d (s.init ++ [s.last]) =
      some (last.1, (s.init.map fun _ => [.recv]) ++ [last.2]) := by
  have htext : s.init.flatten ++ s.last = h.bytes ++ b := by
    have := s.flatten
    rwa [List.flatten_append, List.flatten_singleton] at this
  have hlen : s.init.flatten.length + s.last.length = h.bytes.length + h.length := by
    rw [← List.length_append, htext, List.length_append, hb]
  have hlast := s.size s.last (by simp)
  have hpieces : ∀ pieces, pieces <+: s.init ++ [s.last] →
      NoneAcross (d.behind pieces.flatten) pieces.flatten := fun pieces hp =>
    hacross pieces ((List.mem_inits _ _).2 hp)
  rw [List.length_append, hb] at hfuel
  have hinit := deliver_pieces fuel s.init hd ⟨s.last, by rw [List.nil_append, htext]⟩
    (by rw [List.nil_append]; omega)
    (fun pieces hp => by simpa using hpieces pieces (hp.trans (List.prefix_append _ _)))
    (fun f hf => s.size f (by simp [hf])) (by rw [List.nil_append]; omega)
  rw [List.nil_append] at hinit
  have hwhole : ¬ (h.bytes ++ b).length < h.bytes.length + h.length := by
    rw [List.length_append]
    omega
  have hpiece := handleRecv_piece (h := h) (b := b) fuel
    (d := { d with bufferRecv := s.init.flatten }) (c := s.init.flatten) (f := s.last)
    ⟨hd.hasServer, hd.hasSocket, rfl⟩ (by rw [htext])
    (by simpa using hpieces _ (List.prefix_refl _)) hlast (by rw [List.length_append]; omega)
  simp only [htext, hwhole, or_false] at hpiece
  rw [deliver_append hinit]
  simp only [deliver, hpiece, Option.map_some]

/-- `end_function_` leaves the text as it is. -/
def Downloader.KeepsText (d : Downloader) (text : Bytes) : Prop :=
  ∀ f, d.endFunction = some f → f text = text

/-- What the end of a download leaves. -/
theorem Downloader.finish_spec (d : Downloader) :
    .notifyAll ∈ d.finish.2 ∧ .recv ∉ d.finish.2 ∧
      (d.finish.1.bufferRecv = d.bufferRecv ↔ d.KeepsText d.bufferRecv) := by
  unfold Downloader.finish Downloader.KeepsText
  cases hf : d.endFunction <;> simp

/-- Nobody is told of a response whose last piece fills a packet. -/
theorem not_completes_of_full (hb : b.length = h.length) (hd : d.Receiving [])
    (s : Fragmentation (h.bytes ++ b)) (hacross : s.NoneAcross d.behind)
    (hfuel : (h.bytes ++ b).length < fuel) (hfull : s.last.length = httpOnePacketSize) :
    ¬ Completes fuel d s := by
  rintro ⟨d', outs, out, hrun, -, hnotify, -, -⟩
  have hdeliver := deliver_fragments fuel hb hd s hacross hfuel
  simp only [if_pos hfull, hrun, Option.some.injEq, Prod.mk.injEq] at hdeliver
  obtain rfl : out = [.recv] := by simpa using (List.append_inj' hdeliver.2 rfl).2
  simp at hnotify

end Length

/-- A downloader that has nothing yet. -/
def connected : Downloader := ⟨true, true, [], [], [], [], none, fun _ => []⟩

/-- A downloader that is used again: `text` is what it has received before, and its storage
holds that still, behind the bytes that come in now. -/
def reused (text : Bytes) : Downloader :=
  { connected with behind := fun c => text.drop c.length, endFunction := some id }

/-- The same response in two pieces, of which the first one is its first byte: the test finds
the `HTTP` of the response before, and goes past the end of the buffer. -/
theorem not_completes_reused :
    ¬ Completes 100 (reused (oneByteHead.bytes ++ str "b"))
      (⟨[str "H"], (oneByteHead.bytes ++ str "a").drop 1, by decide, by decide⟩ :
        Fragmentation (oneByteHead.bytes ++ str "a")) := by
  rintro ⟨d, outs, out, hrun, -⟩
  have hnone : deliver 100 (reused (oneByteHead.bytes ++ str "b"))
      ([str "H"] ++ [(oneByteHead.bytes ++ str "a").drop 1]) = none := rfl
  cases hnone.symm.trans hrun

/-- `HTTP/1.1 200 OK` with a body of 1419 bytes: the response fills a packet. -/
def packetHead : LengthHead :=
  okHead (str " 1419") 1419 (forall_mem_of_all rfl) ⟨by decide, forall_mem_of_all rfl, by decide⟩
    (by decide)

/-- The body that fills the packet. -/
def packetBody : Bytes := List.replicate 1419 97

/-- The body is as long as the head says. -/
theorem length_packetBody : packetBody.length = packetHead.length := List.length_replicate

/-- The message fills one packet. -/
theorem length_packet : (packetHead.bytes ++ packetBody).length = httpOnePacketSize := by
  rw [List.length_append, length_packetBody]
  decide

end Http
end Scaner
