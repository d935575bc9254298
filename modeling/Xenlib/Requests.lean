import Xenlib.HandlerFrames
import Xenlib.RingSteps
import Xenlib.Lib.Machine

/-!
The request stream of one client. The guest puts the bytes of its messages into the request
ring in pieces of any size, at any time; the thread of the client takes them out in pieces of
its own. The requests handed to `process_message` are the messages, one by one, as long as
every payload is small enough to be kept and no message but the last has an unknown type.
-/

set_option autoImplicit false

namespace Xenlib

open Wp Machine Cyclic

/-- A message of a guest: the length in its header is that of the payload. -/
structure WireMessage where
  type : UInt32
  reqId : UInt32
  txId : UInt32
  payload : Bytes
  small : payload.length < 2 ^ 32

def WireMessage.header (m : WireMessage) : XsdSockmsg :=
  ⟨m.type, m.reqId, m.txId, UInt32.ofNat m.payload.length⟩

def WireMessage.bytes (m : WireMessage) : Bytes := m.header.bytes ++ m.payload

def WireMessage.request (m : WireMessage) : Request := ⟨m.type, m.reqId, m.payload⟩

def wire (msgs : List WireMessage) : Bytes := msgs.flatMap WireMessage.bytes

theorem WireMessage.bytes_length (m : WireMessage) :
    m.bytes.length = headerSize + m.payload.length := by
  simp [WireMessage.bytes]

theorem WireMessage.header_len (m : WireMessage) : m.header.len.toNat = m.payload.length := by
  simp only [WireMessage.header, UInt32.toNat_ofNat']
  exact Nat.mod_eq_of_lt m.small

structure Readable (msgs : List WireMessage) : Prop where
  small : ∀ m ∈ msgs, m.payload.length ≤ xenstorePayloadMax
  known : ∀ m ∈ msgs.dropLast, messageHandle m.type ≠ none

def XenstoreDomainInterface.requests (intf : XenstoreDomainInterface) : Bytes :=
  content xenstoreRingSize intf.req intf.reqCons.toNat intf.requestBytes

/-- `pending` is what the guest has still to put in the ring. -/
structure FeedState where
  shared : Shared
  thread : Thread
  pending : Bytes

inductive FeedAction where
  /-- The guest puts up to `n` bytes into the ring. -/
  | produce (n : Nat)
  /-- The guest does what it likes to the response ring. -/
  | respond (rsp : Nat → UInt8) (rspCons rspProd : UInt32)
  | thread
  | stop
  | other (s : Shared)

/-- The client once the guest has written `bytes` behind the last request byte. -/
def Xenstore.offer (x : Xenstore) (bytes : Bytes) : Xenstore :=
  { x with domint := { x.domint with
      req := scatter xenstoreRingSize x.domint.req x.domint.reqProd.toNat bytes
      reqProd := x.domint.reqProd + UInt32.ofNat bytes.length } }

/-- How many of `n` bytes the guest has and the ring takes. -/
def FeedState.room (f : FeedState) (n : Nat) : Nat :=
  min n (min f.pending.length (xenstoreRingSize - f.thread.xenstore.domint.requestBytes))

def FeedState.produce (f : FeedState) (n : Nat) : FeedState :=
  { f with
    thread.xenstore := f.thread.xenstore.offer (f.pending.take (f.room n))
    pending := f.pending.drop (f.room n) }

def FeedState.step (f : FeedState) : FeedAction → Option FeedState
  | .produce n => some (f.produce n)
  | .respond rsp rspCons rspProd =>
    let x := f.thread.xenstore
    some { f with thread.xenstore := { x with
      domint := { x.domint with rsp := rsp, rspCons := rspCons, rspProd := rspProd } } }
  | .thread =>
    match threadStep f.thread f.shared with
    | .error _ => none
    | .ok (t, s) => some { f with thread := t, shared := s }
  | .stop => some { f with thread.xenstore := { f.thread.xenstore with thrdStop := true } }
  | .other s => some { f with shared := s }

def FeedState.unread (f : FeedState) : Bytes := f.thread.xenstore.domint.requests ++ f.pending

/-- The buffer holds the first bytes of the message, and knows its size once the header is in. -/
structure PartOf (m : WireMessage) (inp : BufferedData) : Prop where
  used : inp.used = inp.buffer.length
  le : inp.used ≤ m.bytes.length
  size : inp.totalSize = if inp.used < headerSize then headerSize else m.bytes.length

/-- What the place in `handle_input` says about the buffer. Outside of it a buffer is neither
empty nor complete. -/
def PartAt (m : WireMessage) (inp : BufferedData) : Pc → Prop
  | .payload => headerSize ≤ inp.used
  | .process => inp.used = m.bytes.length
  | _ => 0 < inp.used ∧ inp.used < m.bytes.length

inductive Progress (msgs : List WireMessage) (f : FeedState) : Prop where
  | between (done todo : List WireMessage) (hmsgs : msgs = done ++ todo)
      (hreq : f.thread.xenstore.requests = done.map WireMessage.request)
      (hin : f.thread.xenstore.input = none) (hrest : f.unread = wire todo)
      (hpc : f.thread.pc ≠ .payload ∧ f.thread.pc ≠ .process)
  | within (done : List WireMessage) (m : WireMessage) (todo : List WireMessage)
      (inp : BufferedData) (hmsgs : msgs = done ++ m :: todo)
      (hreq : f.thread.xenstore.requests = done.map WireMessage.request)
      (hin : f.thread.xenstore.input = some inp) (hpart : PartOf m inp)
      (hrest : inp.buffer ++ f.unread = m.bytes ++ wire todo) (hpc : PartAt m inp f.thread.pc)
  /-- The last message had an unknown type, and its buffer is kept for ever. -/
  | spent (hlast : ∃ m ∈ msgs, messageHandle m.type = none)
      (hreq : f.thread.xenstore.requests = msgs.map WireMessage.request) (hrest : f.unread = [])
      (hpc : f.thread.pc ≠ .header ∧ f.thread.pc ≠ .payload ∧ f.thread.pc ≠ .process)

structure FeedInv (msgs : List WireMessage) (f : FeedState) : Prop where
  indexes : requestIndexesOk f.thread.xenstore
  mapped : f.thread.xenstore.mapped = true
  progress : Progress msgs f
  ready : f.thread.pc = .header →
    f.thread.xenstore.domint.reqProd ≠ f.thread.xenstore.domint.reqCons

theorem Xenstore.consume_requestBytes (x : Xenstore) {n : Nat} (inp : Option BufferedData)
    (hn : n ≤ x.domint.requestBytes) :
    (x.consume n inp).domint.requestBytes = x.domint.requestBytes - n :=
  distance_follow hn

theorem Xenstore.consume_requests (x : Xenstore) {n : Nat} (inp : Option BufferedData)
    (hn : n ≤ x.domint.requestBytes) :
    x.arrived n ++ (x.consume n inp).domint.requests = x.domint.requests := by
  unfold XenstoreDomainInterface.requests
  rw [x.consume_requestBytes inp hn]
  simp only [Xenstore.consume, Xenstore.arrived]
  rw [content_follow xenstoreRingSize_dvd.1, ← content_add, Nat.add_sub_cancel' hn]

theorem XenstoreDomainInterface.requests_length (intf : XenstoreDomainInterface) :
    intf.requests.length = intf.requestBytes := content_length _ _ _ _

theorem Xenstore.offer_requestBytes (x : Xenstore) {bytes : Bytes}
    (h : x.domint.requestBytes + bytes.length ≤ xenstoreRingSize) :
    (x.offer bytes).domint.requestBytes = x.domint.requestBytes + bytes.length :=
  distance_advance xenstoreRingSize_dvd.2 h

theorem Xenstore.offer_requests (x : Xenstore) {bytes : Bytes}
    (h : x.domint.requestBytes + bytes.length ≤ xenstoreRingSize) :
    (x.offer bytes).domint.requests = x.domint.requests ++ bytes := by
  have hcell := distance_cell xenstoreRingSize_dvd.1 x.domint.reqCons x.domint.reqProd
  unfold XenstoreDomainInterface.requests
  rw [x.offer_requestBytes h]
  simp only [Xenstore.offer]
  rw [scatter_congr hcell.symm]
  exact content_scatter h

/-- The server only sees more of the stream when the guest puts bytes into the ring. -/
theorem FeedState.produce_spec (f : FeedState) (n : Nat) (h : requestIndexesOk f.thread.xenstore) :
    requestIndexesOk (f.produce n).thread.xenstore ∧ (f.produce n).unread = f.unread ∧
      f.thread.xenstore.domint.requestBytes ≤
        (f.produce n).thread.xenstore.domint.requestBytes := by
  have hidx : f.thread.xenstore.domint.requestBytes ≤ xenstoreRingSize := h
  have hfit : f.thread.xenstore.domint.requestBytes + (f.pending.take (f.room n)).length ≤
      xenstoreRingSize := by
    rw [List.length_take]
    unfold FeedState.room
    omega
  have hbytes := f.thread.xenstore.offer_requestBytes hfit
  refine ⟨?_, ?_, ?_⟩
  · show (f.thread.xenstore.offer _).domint.requestBytes ≤ xenstoreRingSize
    omega
  · show (f.thread.xenstore.offer _).domint.requests ++ f.pending.drop (f.room n) = f.unread
    rw [f.thread.xenstore.offer_requests hfit, List.append_assoc, List.take_append_drop]
    rfl
  · show _ ≤ (f.thread.xenstore.offer _).domint.requestBytes
    omega

theorem requestBytes_pos {intf : XenstoreDomainInterface} :
    intf.reqProd ≠ intf.reqCons ↔ 0 < intf.requestBytes := by
  have hcons := intf.reqCons.toNat_lt
  have hprod := intf.reqProd.toNat_lt
  rw [← UInt32.toNat_inj.ne]
  unfold XenstoreDomainInterface.requestBytes
  rw [UInt32.toNat_sub]
  omega

/-- The thread is not inside `handle_input`. -/
def Pc.Outside (pc : Pc) : Prop := pc ≠ .payload ∧ pc ≠ .process

instance (pc : Pc) : Decidable pc.Outside := inferInstanceAs (Decidable (_ ∧ _))

theorem PartAt.outside {m : WireMessage} {inp : BufferedData} {pc : Pc} (h : PartAt m inp pc)
    (hpc : pc.Outside) : 0 < inp.used ∧ inp.used < m.bytes.length := by
  cases pc with
  | payload => exact absurd rfl hpc.1
  | process => exact absurd rfl hpc.2
  | _ => exact h

theorem partAt_outside {m : WireMessage} {inp : BufferedData} {pc : Pc} (hpc : pc.Outside)
    (h : 0 < inp.used ∧ inp.used < m.bytes.length) : PartAt m inp pc := by
  cases pc with
  | payload => exact absurd rfl hpc.1
  | process => exact absurd rfl hpc.2
  | _ => exact h

theorem FeedState.unread_pos {f : FeedState}
    (h : f.thread.xenstore.domint.reqProd ≠ f.thread.xenstore.domint.reqCons) : f.unread ≠ [] := by
  intro hnil
  have hpos := requestBytes_pos.mp h
  have hlen : f.unread.length = 0 := by rw [hnil]; rfl
  unfold FeedState.unread at hlen
  rw [List.length_append, XenstoreDomainInterface.requests_length] at hlen
  omega

theorem FeedInv.frame {msgs : List WireMessage} {f f' : FeedState} (h : FeedInv msgs f)
    (hidx : requestIndexesOk f'.thread.xenstore)
    (hmap : f'.thread.xenstore.mapped = f.thread.xenstore.mapped) (hunread : f'.unread = f.unread)
    (hreq : f'.thread.xenstore.requests = f.thread.xenstore.requests)
    (hin : f'.thread.xenstore.input = f.thread.xenstore.input)
    (hpc : f'.thread.pc = f.thread.pc ∨ f.thread.pc.Outside ∧ f'.thread.pc.Outside)
    (hready : f'.thread.pc = .header →
      f'.thread.xenstore.domint.reqProd ≠ f'.thread.xenstore.domint.reqCons) : FeedInv msgs f' := by
  refine ⟨hidx, hmap.trans h.mapped, ?_, hready⟩
  rcases h.progress with ⟨done, todo, hm, hr, hi, hu, hp⟩ |
    ⟨done, m, todo, inp, hm, hr, hi, hpart, hu, hp⟩ | ⟨hlast, hr, hu, hp⟩
  · refine .between done todo hm (hreq.trans hr) (hin.trans hi) (hunread.trans hu) ?_
    rcases hpc with heq | hout
    · rw [heq]
      exact hp
    · exact hout.2
  · refine .within done m todo inp hm (hreq.trans hr) (hin.trans hi) hpart (by rw [hunread, hu]) ?_
    rcases hpc with heq | hout
    · rw [heq]
      exact hp
    · exact partAt_outside hout.2 (hp.outside hout.1)
  · refine .spent hlast (hreq.trans hr) (hunread.trans hu) ?_
    rcases hpc with heq | hout
    · rw [heq]
      exact hp
    · refine ⟨fun hh => ?_, hout.2.1, hout.2.2⟩
      exact FeedState.unread_pos (hready hh) (hunread.trans hu)

theorem FeedInv.env {msgs : List WireMessage} {f f' : FeedState} {a : FeedAction}
    (h : FeedInv msgs f) (ha : a ≠ .thread) (hstep : f.step a = some f') : FeedInv msgs f' := by
  cases a with
  | produce n =>
    cases hstep
    obtain ⟨hidx, hunread, hmore⟩ := f.produce_spec n h.indexes
    refine h.frame hidx rfl hunread rfl rfl (Or.inl rfl) fun hh => ?_
    have hpos := requestBytes_pos.mp (h.ready hh)
    exact requestBytes_pos.mpr (by omega)
  | respond rsp rspCons rspProd =>
    cases hstep
    exact h.frame h.indexes rfl rfl rfl rfl (Or.inl rfl) h.ready
  | thread => exact absurd rfl ha
  | stop =>
    cases hstep
    exact h.frame h.indexes rfl rfl rfl rfl (Or.inl rfl) h.ready
  | other s =>
    cases hstep
    exact h.frame h.indexes rfl rfl rfl rfl (Or.inl rfl) h.ready

structure SameRequests (x x' : Xenstore) : Prop where
  mapped : x'.mapped = x.mapped
  req : x'.domint.req = x.domint.req
  reqCons : x'.domint.reqCons = x.domint.reqCons
  reqProd : x'.domint.reqProd = x.domint.reqProd
  input : x'.input = x.input
  requests : x'.requests = x.requests

theorem SameService.sameRequests {x x' : Xenstore} (h : SameService x x') : SameRequests x x' :=
  ⟨h.mapped, by rw [h.domint], by rw [h.domint], by rw [h.domint], h.input, h.requests⟩

theorem FeedInv.goOn {msgs : List WireMessage} {f : FeedState} {x' : Xenstore} {pc' : Pc}
    (h : FeedInv msgs f) (s' : Shared) (hsame : SameRequests f.thread.xenstore x')
    (hpc : f.thread.pc.Outside) (hpc' : pc'.Outside)
    (hready : pc' = .header → x'.domint.reqProd ≠ x'.domint.reqCons) :
    FeedInv msgs ⟨s', ⟨pc', x'⟩, f.pending⟩ := by
  have hbytes : x'.domint.requestBytes = f.thread.xenstore.domint.requestBytes := by
    unfold XenstoreDomainInterface.requestBytes
    rw [hsame.reqCons, hsame.reqProd]
  refine h.frame ?_ hsame.mapped ?_ hsame.requests hsame.input (Or.inr ⟨hpc, hpc'⟩) hready
  · have hidx := h.indexes
    unfold requestIndexesOk at hidx ⊢
    rw [hbytes]
    exact hidx
  · show x'.domint.requests ++ f.pending = _
    unfold FeedState.unread XenstoreDomainInterface.requests
    rw [hbytes, hsame.req, hsame.reqCons]

theorem wp_handleOutput_requests (x : Xenstore) (s : Shared) :
    wp (handleOutput x) (fun x' _ => SameRequests x x' ∨ x.releases < x'.releases)
      (fun _ => True) s := by
  by_cases hidx : responseIndexesOk x
  · exact wp_handleOutput hidx (fun _ => trivial) (fun _ => Or.inl ⟨rfl, rfl, rfl, rfl, rfl, rfl⟩)
      (fun _ _ _ _ _ _ => Or.inl ⟨rfl, rfl, rfl, rfl, rfl, rfl⟩)
      (fun _ _ _ _ _ _ => Or.inl ⟨rfl, rfl, rfl, rfl, rfl, rfl⟩) (fun _ _ _ _ => trivial)
  · exact wp_handleOutput_bad hidx (fun _ => trivial)
      (fun _ => Or.inl ⟨rfl, rfl, rfl, rfl, rfl, rfl⟩)
      (wp_invalidateClient ⟨fun _ => trivial, fun _ _ h => Or.inr h⟩ s)

theorem ofBytes_header {m : WireMessage} {buf rest more : Bytes}
    (h : buf ++ rest = m.bytes ++ more) (hlen : headerSize ≤ buf.length) :
    XsdSockmsg.ofBytes buf = m.header := by
  have hpre : m.header.bytes <+: buf := by
    have h₁ : m.header.bytes <+: m.bytes ++ more := by
      rw [WireMessage.bytes, List.append_assoc]
      exact List.prefix_append _ _
    exact List.prefix_of_prefix_length_le h₁ (h ▸ List.prefix_append buf rest) hlen
  obtain ⟨tail, htail⟩ := hpre
  rw [← htail]
  exact m.header.ofBytes_bytes tail

theorem PartOf.request {m : WireMessage} {inp : BufferedData} {rest more : Bytes}
    (h : PartOf m inp) (hall : inp.used = m.bytes.length)
    (hrest : inp.buffer ++ rest = m.bytes ++ more) : inp.request = m.request ∧ rest = more := by
  have hlen : inp.buffer.length = m.bytes.length := h.used.symm.trans hall
  obtain ⟨hbuf, hmore⟩ := List.append_inj hrest hlen
  have hml := m.bytes_length
  have hhead : XsdSockmsg.ofBytes inp.buffer = m.header := ofBytes_header hrest (by omega)
  have hsize : inp.totalSize = m.bytes.length := by
    rw [h.size, if_neg (by omega)]
  have hpay : (inp.buffer.drop headerSize).take (inp.totalSize - headerSize) = m.payload := by
    rw [hbuf, hsize, hml, Nat.add_sub_cancel_left]
    have hdrop : m.bytes.drop headerSize = m.payload := List.drop_left' rfl
    rw [hdrop, List.take_length]
  refine ⟨?_, hmore⟩
  unfold BufferedData.request
  rw [hhead, hpay]
  rfl

theorem FeedInv.current {msgs : List WireMessage} {f : FeedState} (h : FeedInv msgs f)
    (hpc : f.thread.pc = .header) : ∃ done m todo, msgs = done ++ m :: todo ∧
      f.thread.xenstore.requests = done.map WireMessage.request ∧
      PartOf m (f.thread.xenstore.input.getD emptyInput) ∧
      (f.thread.xenstore.input.getD emptyInput).used < m.bytes.length ∧
      (f.thread.xenstore.input.getD emptyInput).buffer ++ f.unread = m.bytes ++ wire todo := by
  rcases h.progress with ⟨done, todo, hm, hr, hi, hu, hp⟩ |
    ⟨done, m, todo, inp, hm, hr, hi, hpart, hu, hp⟩ | ⟨hlast, hr, hu, hp⟩
  · cases todo with
    | nil => exact absurd hu (FeedState.unread_pos (h.ready hpc))
    | cons m todo =>
      have hlen := m.bytes_length
      refine ⟨done, m, todo, hm, hr, ?_⟩
      rw [hi]
      exact ⟨⟨rfl, Nat.zero_le _, rfl⟩, by rw [hlen]; exact Nat.lt_add_right _ (by decide), hu⟩
  · refine ⟨done, m, todo, hm, hr, ?_⟩
    rw [hi]
    exact ⟨hpart, (hp.outside (by rw [hpc]; decide)).2, hu⟩
  · exact absurd hpc hp.1

theorem FeedInv.read {msgs done todo : List WireMessage} {m : WireMessage} {f : FeedState}
    {inp inp' : BufferedData} {n : Nat} {pc' : Pc} (h : FeedInv msgs f) (s' : Shared)
    (hmsgs : msgs = done ++ m :: todo)
    (hreq : f.thread.xenstore.requests = done.map WireMessage.request)
    (hrest : inp.buffer ++ f.unread = m.bytes ++ wire todo)
    (hn : n ≤ f.thread.xenstore.domint.requestBytes)
    (hbuf : inp'.buffer = inp.buffer ++ f.thread.xenstore.arrived n)
    (hpart : PartOf m inp') (hat : PartAt m inp' pc') (hpc : pc' ≠ .header) :
    FeedInv msgs ⟨s', ⟨pc', f.thread.xenstore.consume n (some inp')⟩, f.pending⟩ := by
  have hidx : f.thread.xenstore.domint.requestBytes ≤ xenstoreRingSize := h.indexes
  have hbytes := f.thread.xenstore.consume_requestBytes (some inp') hn
  refine ⟨?_, h.mapped, .within done m todo inp' hmsgs hreq rfl hpart ?_ hat,
    fun hh => absurd hh hpc⟩
  · show (f.thread.xenstore.consume n (some inp')).domint.requestBytes ≤ xenstoreRingSize
    omega
  · show inp'.buffer ++ ((f.thread.xenstore.consume n (some inp')).domint.requests ++ f.pending) = _
    rw [hbuf, List.append_assoc, ← List.append_assoc (f.thread.xenstore.arrived n),
      f.thread.xenstore.consume_requests (some inp') hn]
    exact hrest

theorem FeedState.header_read {m : WireMessage} (f : FeedState)
    {buf more : Bytes} {n : Nat} (hrest : buf ++ f.unread = m.bytes ++ more)
    (hn : n ≤ f.thread.xenstore.domint.requestBytes) (hlen : headerSize ≤ buf.length + n) :
    XsdSockmsg.ofBytes (buf ++ f.thread.xenstore.arrived n) = m.header := by
  have hsplit : buf ++ f.unread = (buf ++ f.thread.xenstore.arrived n) ++
      ((f.thread.xenstore.consume n none).domint.requests ++ f.pending) := by
    unfold FeedState.unread
    rw [← f.thread.xenstore.consume_requests none hn]
    simp only [List.append_assoc]
  refine ofBytes_header (hsplit.symm.trans hrest) ?_
  rw [List.length_append, Xenstore.arrived, content_length]
  exact hlen

theorem FeedInv.header {msgs : List WireMessage} {f : FeedState} {r : Xenstore × Bool}
    (h : FeedInv msgs f) (hread : Readable msgs) (hpc : f.thread.pc = .header) (s' : Shared)
    (hr : HeaderStep f.thread.xenstore r) :
    FeedInv msgs ⟨s', ⟨if r.2 then .payload else .writeTest, r.1⟩, f.pending⟩ := by
  obtain ⟨done, m, todo, hmsgs, hreq, hpart, hlt, hrest⟩ := h.current hpc
  have hml := m.bytes_length
  have harr : ∀ n, (f.thread.xenstore.arrived n).length = n := fun n => content_length _ _ _ _
  cases hr with
  | known inp hin hused =>
    rw [hin] at hpart hrest
    refine ⟨h.indexes, h.mapped, .within done m todo inp hmsgs hreq hin hpart hrest hused,
      fun hh => ?_⟩
    exact absurd hh Pc.noConfusion
  | short inp n hin hn hshort =>
    rw [hin] at hpart hrest
    have hpos : 0 < n := hn.pos (by omega) (h.ready hpc)
    have hused : (inp.fill (f.thread.xenstore.arrived n)).used = inp.used + n := by
      simp [BufferedData.fill, harr]
    refine h.read s' hmsgs hreq hrest hn.le_avail rfl ⟨?_, ?_, ?_⟩ ⟨?_, ?_⟩ Pc.noConfusion
    · simp [BufferedData.fill, hpart.used]
    · omega
    · rw [hused, if_pos hshort]
      exact hpart.size.trans (if_pos (by omega))
    · omega
    · omega
  | tooBig inp n hin hn hlow hfull hbig =>
    rw [hin] at hpart hrest
    have hfits := hread.small m (by rw [hmsgs]; simp)
    rw [f.header_read hrest hn.le_avail (by rw [← hpart.used]; omega), m.header_len] at hbig
    omega
  | full inp n hin hn hlow hfull hfits =>
    rw [hin] at hpart hrest
    have hused : (inp.fill (f.thread.xenstore.arrived n)).used = headerSize := by
      simp [BufferedData.fill, harr, hfull]
    have hsize : inp.totalSize = headerSize := hpart.size.trans (if_pos hlow)
    refine h.read s' hmsgs hreq hrest hn.le_avail rfl ⟨?_, ?_, ?_⟩ ?_ Pc.noConfusion
    · simp [BufferedData.fill, hpart.used]
    · show (inp.fill (f.thread.xenstore.arrived n)).used ≤ _
      omega
    · show inp.totalSize + _ = if (inp.fill (f.thread.xenstore.arrived n)).used < headerSize
        then headerSize else m.bytes.length
      rw [hused, if_neg (Nat.lt_irrefl _), hsize, hml,
        f.header_read hrest hn.le_avail (by rw [← hpart.used]; omega), m.header_len]
    · exact Nat.le_of_eq hused.symm

theorem FeedInv.payload {msgs : List WireMessage} {f : FeedState} {inp : BufferedData} {n : Nat}
    (h : FeedInv msgs f) (hpc : f.thread.pc = .payload) (s' : Shared)
    (hin : f.thread.xenstore.input = some inp)
    (hn : ReadSize f.thread.xenstore (inp.totalSize - inp.used) n) :
    FeedInv msgs ⟨s', ⟨if decide (inp.used + n = inp.totalSize) then .process else .writeTest,
      f.thread.xenstore.consume n (some (inp.fill (f.thread.xenstore.arrived n)))⟩, f.pending⟩ := by
  rcases h.progress with ⟨done, todo, hm, hr, hi, hu, hp⟩ |
    ⟨done, m, todo, inp₀, hm, hr, hi, hpart, hu, hp⟩ | ⟨hlast, hr, hu, hp⟩
  · exact absurd hpc hp.1
  · obtain rfl : inp₀ = inp := Option.some.inj (hi.symm.trans hin)
    rw [hpc] at hp
    have hhead : headerSize ≤ inp₀.used := hp
    have hsize : inp₀.totalSize = m.bytes.length := hpart.size.trans (if_neg (Nat.not_lt.mpr hhead))
    have hle := hpart.le
    have hnle := hn.le_len
    have hused : (inp₀.fill (f.thread.xenstore.arrived n)).used = inp₀.used + n := by
      simp [BufferedData.fill, Xenstore.arrived]
    have h16 : 0 < headerSize := by decide
    refine h.read s' hm hr hu hn.le_avail rfl ⟨?_, ?_, ?_⟩ ?_ ?_
    · simp [BufferedData.fill, hpart.used]
    · omega
    · rw [hused, if_neg (by omega)]
      exact hsize
    · by_cases hall : inp₀.used + n = inp₀.totalSize
      · simp only [hall, decide_true, if_true]
        show (inp₀.fill (f.thread.xenstore.arrived n)).used = m.bytes.length
        omega
      · simp only [hall, decide_false, Bool.false_eq_true, if_false]
        exact ⟨by omega, by omega⟩
    · split <;> exact Pc.noConfusion
  · exact absurd hpc hp.2.1

/-- A complete message is handed to its handler and forgotten; one of unknown type is answered
and kept, which does no harm when it is the last. -/
theorem FeedInv.process {msgs : List WireMessage} {f : FeedState} (h : FeedInv msgs f)
    (hread : Readable msgs) (hpc : f.thread.pc = .process) (s : Shared) :
    wp (processMessage f.thread.xenstore) (fun x' s' => x'.releases = 0 →
      FeedInv msgs ⟨s', ⟨.writeTest, x'⟩, f.pending⟩) (fun _ => True) s := by
  rcases h.progress with ⟨done, todo, hm, hr, hi, hu, hp⟩ |
    ⟨done, m, todo, inp, hm, hr, hi, hpart, hu, hp⟩ | ⟨hlast, hr, hu, hp⟩
  · exact absurd hpc hp.2
  · rw [hpc] at hp
    obtain ⟨hreq, hrest⟩ := hpart.request hp hu
    have hdone : (f.thread.xenstore.dispatch inp.request).requests =
        (done ++ [m]).map WireMessage.request := by
      rw [List.map_append, ← hr, hreq]
      rfl
    have hsame : ∀ {x' : Xenstore}, SameService (f.thread.xenstore.dispatch inp.request) x' →
        x'.requests = (done ++ [m]).map WireMessage.request ∧
        x'.domint = f.thread.xenstore.domint ∧ x'.mapped = true := by
      intro x' hx'
      exact ⟨hx'.requests.trans hdone, hx'.domint, hx'.mapped.trans h.mapped⟩
    refine wp_processMessage hi (fun hnone => ?_) (fun handler hhandler => ?_)
    · have hunknown : messageHandle m.type = none := by
        rw [hreq] at hnone
        exact hnone
      have hlast : todo = [] := by
        by_contra hne
        refine hread.known m ?_ hunknown
        rw [hm, List.dropLast_append_of_ne_nil (List.cons_ne_nil m todo),
          List.dropLast_cons_of_ne_nil hne]
        simp
      subst hlast
      refine wp_conseq (slots_sendErrno (u := s.usedThreads) 0 .enosys s fun _ => rfl)
        fun x' s' hx' hvalid => ?_
      rcases hx'.1 with hx' | hx'
      · obtain ⟨hreqs, hdom, hmap⟩ := hsame hx'
        refine ⟨?_, hmap, .spent ⟨m, by rw [hm]; simp, hunknown⟩ (by rw [hm]; exact hreqs) ?_
          ⟨Pc.noConfusion, Pc.noConfusion, Pc.noConfusion⟩, fun hh => absurd hh Pc.noConfusion⟩
        · unfold requestIndexesOk
          rw [hdom]
          exact h.indexes
        · show x'.domint.requests ++ f.pending = []
          rw [hdom]
          exact hrest
      · have hless := hx'.2
        omega
    · refine wp_conseq (slots_messageHandle (u := s.usedThreads) hhandler _ _ s fun _ => rfl)
        fun x' s' hx' => ⟨fun _ => trivial, fun _ hvalid => ?_⟩
      rcases hx'.1 with hx' | hx'
      · obtain ⟨hreqs, hdom, hmap⟩ := hsame hx'
        refine ⟨?_, hmap, .between (done ++ [m]) todo (by rw [hm]; simp) hreqs rfl ?_
          ⟨Pc.noConfusion, Pc.noConfusion⟩, fun hh => absurd hh Pc.noConfusion⟩
        · show x'.domint.requestBytes ≤ xenstoreRingSize
          rw [hdom]
          exact h.indexes
        · show x'.domint.requests ++ f.pending = wire todo
          rw [hdom]
          exact hrest
      · have hless : 0 < x'.releases := Nat.lt_of_le_of_lt (Nat.zero_le _) hx'.2
        exact absurd hvalid (Nat.ne_of_gt hless)
  · exact absurd hpc hp.2.2

/-- One step of the thread. -/
theorem FeedInv.threadStep {msgs : List WireMessage} {f : FeedState} (h : FeedInv msgs f)
    (hread : Readable msgs) (s : Shared) :
    wp (Xenlib.threadStep f.thread) (fun t' s' => t'.xenstore.releases = 0 →
      FeedInv msgs ⟨s', t', f.pending⟩) (fun _ => True) s := by
  obtain ⟨fs, ⟨pc, x⟩, pending⟩ := f
  have hrefl : SameRequests x x := ⟨rfl, rfl, rfl, rfl, rfl, rfl⟩
  have hgo : ∀ {x' : Xenstore} (s' : Shared) {pc' : Pc}, SameRequests x x' → pc.Outside →
      pc'.Outside → (pc' = .header → x'.domint.reqProd ≠ x'.domint.reqCons) →
      FeedInv msgs ⟨s', ⟨pc', x'⟩, pending⟩ := fun s' => h.goOn s'
  cases pc with
  | loopTest =>
    intro _
    refine hgo s hrefl (by decide) ?_ fun hh => ?_
    · show Pc.Outside (if x.thrdStop then .cleanup else .endTransaction)
      split <;> decide
    · revert hh
      show (if x.thrdStop then Pc.cleanup else .endTransaction) = .header → _
      split <;> exact Pc.noConfusion
  | endTransaction =>
    simp only [Xenlib.threadStep, wp_bind, wp_pure]
    refine wp_conseq (slots_sendTransactionEnd (u := s.usedThreads) s fun _ => rfl)
      fun x' s' hx' hvalid => ?_
    rcases hx'.1 with hx' | hx'
    · exact hgo s' hx'.sameRequests (by decide) (by decide) Pc.noConfusion
    · have hless := hx'.2
      have hvalid : x'.releases = 0 := hvalid
      omega
  | events =>
    simp only [Xenlib.threadStep]
    refine wp_ite (fun _ => ?_) (fun _ _ => hgo s hrefl (by decide) (by decide) Pc.noConfusion)
    simp only [wp_bind, wp_pure]
    refine wp_conseq (slots_processPendingWatchEvents (u := s.usedThreads) s rfl)
      fun x' s' hx' _ => ?_
    exact hgo s' hx'.1.sameRequests (by decide) (by decide) Pc.noConfusion
  | idle =>
    have hdone : FeedInv msgs ⟨s, ⟨.readTest, x⟩, pending⟩ :=
      hgo s hrefl (by decide) (by decide) Pc.noConfusion
    simp only [Xenlib.threadStep, wp_bind]
    refine wp_lift (fun b _ => wp_ite (fun _ _ => hdone) (fun _ => ?_)) (fun _ _ => trivial)
    rw [wp_bind]
    exact wp_lift (fun _ _ _ => hdone) (fun _ _ => trivial)
  | readTest =>
    simp only [Xenlib.threadStep, wp_bind]
    refine wp_lift (fun b hb _ => ?_) (fun _ _ => trivial)
    cases b with
    | false => exact hgo s hrefl (by decide) (by decide) Pc.noConfusion
    | true =>
      refine hgo s hrefl (by decide) (by decide) fun _ => ?_
      unfold canRead at hb
      split at hb
      · cases hb
      · simpa using hb
  | header =>
    simp only [Xenlib.threadStep, wp_bind]
    refine wp_inputHeader (fun _ => ⟨fun _ => trivial, fun x' s' hless hvalid => ?_⟩)
      (fun _ => h.indexes) (fun _ => trivial) fun r rest _ hr _ => h.header hread rfl _ hr
    have hless : x.releases < x'.releases := hless
    have hvalid : x'.releases = 0 := hvalid
    omega
  | payload =>
    simp only [Xenlib.threadStep, wp_bind]
    cases hin : x.input with
    | none =>
      unfold inputPayload
      rw [hin]
      trivial
    | some inp =>
      exact wp_inputPayload hin h.indexes (fun _ => trivial) fun n hn _ => h.payload rfl _ hin hn
  | process =>
    simp only [Xenlib.threadStep, wp_bind, wp_pure]
    exact h.process hread rfl s
  | writeTest =>
    simp only [Xenlib.threadStep, wp_bind]
    refine wp_lift (fun b _ _ => ?_) (fun _ _ => trivial)
    cases b <;> exact hgo s hrefl (by decide) (by decide) Pc.noConfusion
  | output =>
    simp only [Xenlib.threadStep, wp_bind, wp_pure]
    refine wp_conseq (wp_handleOutput_requests x s) fun x' s' hx' hvalid => ?_
    rcases hx' with hx' | hx'
    · exact hgo s' hx' (by decide) (by decide) Pc.noConfusion
    · have hvalid : x'.releases = 0 := hvalid
      omega
  | cleanup => exact fun _ => hgo _ hrefl (by decide) (by decide) Pc.noConfusion
  | dead => exact fun _ => hgo _ hrefl (by decide) (by decide) Pc.noConfusion

def FeedState.KeepsClient (f : FeedState) (a : FeedAction) : Prop :=
  ∀ f', f.step a = some f' → f'.thread.xenstore.releases = 0

/-- A client that has just been started, with some of the stream in its ring already. -/
def FeedState.start (s : Shared) (domid : UInt32) (domint : XenstoreDomainInterface) (slot : Nat)
    (stackWord : Nat → UInt32) (pending : Bytes) : FeedState :=
  ⟨s, ⟨.loopTest, .started domid domint slot stackWord⟩, pending⟩

theorem FeedInv.start {msgs : List WireMessage} {domint : XenstoreDomainInterface} {pending : Bytes}
    (hidx : domint.requestBytes ≤ xenstoreRingSize)
    (hstream : domint.requests ++ pending = wire msgs) (s : Shared) (domid : UInt32) (slot : Nat)
    (stackWord : Nat → UInt32) :
    FeedInv msgs (.start s domid domint slot stackWord pending) where
  indexes := hidx
  mapped := rfl
  progress := .between [] msgs rfl rfl rfl hstream ⟨Pc.noConfusion, Pc.noConfusion⟩
  ready := fun hh => absurd hh Pc.noConfusion

theorem FeedInv.step {msgs : List WireMessage} (hread : Readable msgs) {f f' : FeedState}
    {a : FeedAction} (h : FeedInv msgs f) (ha : f.KeepsClient a) (hstep : f.step a = some f') :
    FeedInv msgs f' := by
  cases a with
  | thread =>
    have hvalid := ha f' hstep
    simp only [FeedState.step] at hstep
    cases ht : Xenlib.threadStep f.thread f.shared with
    | error e => simp [ht] at hstep
    | ok r =>
      simp only [ht, Option.some.injEq] at hstep
      subst hstep
      exact wp_ok (h.threadStep hread f.shared) ht hvalid
  | _ => exact h.env FeedAction.noConfusion hstep

theorem FeedInv.run {msgs : List WireMessage} (hread : Readable msgs) {f f' : FeedState}
    {as : List FeedAction} (h : FeedInv msgs f)
    (hvalid : Along FeedState.step FeedState.KeepsClient f as)
    (hrun : Machine.run FeedState.step f as = some f') : FeedInv msgs f' :=
  run_invariant (fun _ _ _ h => h.step hread) h hvalid hrun

theorem FeedInv.inOrder {msgs : List WireMessage} {f : FeedState} (h : FeedInv msgs f) :
    f.thread.xenstore.requests <+: msgs.map WireMessage.request := by
  rcases h.progress with ⟨done, todo, hm, hr, _, _, _⟩ | ⟨done, m, todo, inp, hm, hr, _, _, _, _⟩ |
    ⟨_, hr, _, _⟩
  · rw [hr, hm, List.map_append]
    exact List.prefix_append _ _
  · rw [hr, hm, List.map_append]
    exact List.prefix_append _ _
  · rw [hr]

theorem FeedInv.reads {msgs : List WireMessage} {f : FeedState} (h : FeedInv msgs f)
    (hpc : f.thread.pc = .header ∨ f.thread.pc = .payload) (hmem : false ∉ f.shared.allocs) :
    ∃ r, Xenlib.threadStep f.thread f.shared = .ok r := by
  have hmap : f.thread.xenstore.mapped = false → False := by
    rw [h.mapped]
    exact Bool.noConfusion
  suffices hwp : wp (Xenlib.threadStep f.thread) (fun _ _ => True) (fun _ => False) f.shared by
    obtain ⟨t, s', ht, _⟩ := wp_total hwp
    exact ⟨(t, s'), ht⟩
  obtain ⟨fs, ⟨pc, x⟩, pending⟩ := f
  rcases hpc with rfl | rfl
  · simp only [Xenlib.threadStep, wp_bind]
    exact wp_inputHeader (fun hf => absurd hf hmem) (fun _ => h.indexes) hmap fun _ _ _ _ => trivial
  · simp only [Xenlib.threadStep, wp_bind]
    rcases h.progress with ⟨_, _, _, _, _, _, hp⟩ | ⟨_, _, _, inp, _, _, hi, _, _, _⟩ |
      ⟨_, _, _, hp⟩
    · exact absurd rfl hp.1
    · exact wp_inputPayload hi h.indexes hmap fun _ _ => trivial
    · exact absurd rfl hp.2.1

end Xenlib
