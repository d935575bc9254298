import Xenlib.ClientSpec
import Xenlib.Thread

/-!
The steps of a client that move bytes: what a read adds to the input buffer, and what a write
takes off the first output buffer. Indexes that are more than one ring apart end the service.
-/

set_option autoImplicit false

namespace Xenlib

open Wp Cyclic

/-- The bytes the guest has put in the request ring and the server has not read. -/
def XenstoreDomainInterface.requestBytes (intf : XenstoreDomainInterface) : Nat :=
  (intf.reqProd - intf.reqCons).toNat

/-- The bytes in the response ring that the guest has not read. -/
def XenstoreDomainInterface.responseBytes (intf : XenstoreDomainInterface) : Nat :=
  (intf.rspProd - intf.rspCons).toNat

def requestIndexesOk (x : Xenstore) : Prop := x.domint.requestBytes ≤ xenstoreRingSize

def responseIndexesOk (x : Xenstore) : Prop := x.domint.responseBytes ≤ xenstoreRingSize

/-- The first `n` bytes of the request ring. -/
def Xenstore.arrived (x : Xenstore) (n : Nat) : Bytes :=
  content xenstoreRingSize x.domint.req x.domint.reqCons.toNat n

/-- The client once the server has read `n` bytes and keeps `inp`. -/
def Xenstore.consume (x : Xenstore) (n : Nat) (inp : Option BufferedData) : Xenstore :=
  { x with
    domint := { x.domint with reqCons := x.domint.reqCons + UInt32.ofNat n }, input := inp }

def BufferedData.fill (inp : BufferedData) (bytes : Bytes) : BufferedData :=
  { inp with used := inp.used + bytes.length, buffer := inp.buffer ++ bytes }

def emptyInput : BufferedData := ⟨0, headerSize, []⟩

/-- How much one read may take: no more than was asked for or than is there, and something
when both are positive. -/
structure ReadSize (x : Xenstore) (len n : Nat) : Prop where
  le_len : n ≤ len
  le_avail : n ≤ x.domint.requestBytes
  pos : 0 < len → x.domint.reqProd ≠ x.domint.reqCons → 0 < n

theorem wp_readInput {x : Xenstore} {inp : BufferedData} {limit : Nat}
    {Q : Xenstore × Option BufferedData → Shared → Prop} {E : Fault → Prop} {s : Shared}
    (hidx : requestIndexesOk x) (hmap : x.mapped = false → E .unmappedRing)
    (h : ∀ n, ReadSize x (limit - inp.used) n →
      Q (x.consume n (some (inp.fill (x.arrived n))), some (inp.fill (x.arrived n))) s) :
    wp (readInput x inp limit) Q E s := by
  unfold readInput
  refine wp_ite (fun hm => hmap (by simpa using hm)) (fun _ => ?_)
  obtain ⟨n, hlen, havail, hpos, hread⟩ := xenstoreRingRead_server (limit - inp.used) hidx
  rw [hread]
  exact h n ⟨hlen, havail, hpos⟩

theorem wp_readInput_bad {x : Xenstore} {inp : BufferedData} {limit : Nat}
    {Q : Xenstore × Option BufferedData → Shared → Prop} {E : Fault → Prop} {s : Shared}
    (hidx : ¬ requestIndexesOk x) (hmap : x.mapped = false → E .unmappedRing)
    (h : wp (invalidateClient x) (fun x' s' => Q (x', none) s') E s) :
    wp (readInput x inp limit) Q E s := by
  have hcheck : xenstoreCheckIndexes x.domint.reqCons x.domint.reqProd = true := by
    rw [← Bool.not_eq_false, xenstoreCheckIndexes_eq_false]
    exact hidx
  unfold readInput
  refine wp_ite (fun hm => hmap (by simpa using hm)) (fun _ => ?_)
  simp only [xenstoreRingRead, Bool.false_eq_true, if_false, hcheck, if_true, wp_bind, wp_pure]
  exact h

/-- What follows when the client has to be invalidated. -/
structure AfterInvalid (x : Xenstore) (Q : Xenstore → Shared → Prop) (E : Fault → Prop) : Prop where
  fault : ∀ e, E e
  released : ∀ x' s', x.releases < x'.releases → Q x' s'

theorem wp_invalidateClient {x : Xenstore} {Q : Xenstore → Shared → Prop} {E : Fault → Prop}
    (h : AfterInvalid x Q E) (s : Shared) : wp (invalidateClient x) Q E s :=
  wp_releaseDomainStored (fun _ _ _ => h.released _ _ (Nat.lt_succ_self _)) (fun _ => h.fault _)
    (fun _ => h.fault _)

theorem wp_kMalloc_or {α : Type} {x : Xenstore} {f : Xenstore → α} {next : SrvM α}
    {Q : α → Shared → Prop} {E : Fault → Prop} {s : Shared}
    (hfail : false ∈ s.allocs → AfterInvalid x (fun x' => Q (f x')) E)
    (h : ∀ rest, rest <:+ s.allocs → wp next Q E { s with allocs := rest }) :
    wp (do if !(← alloc kMalloc) then pure (f (← invalidateClient x)) else next) Q E s := by
  simp only [wp_bind, wp_alloc]
  refine wp_kMalloc_drawn fun b rest hd => ?_
  cases b with
  | false =>
    simp only [Bool.not_false, if_true, wp_bind, wp_pure]
    exact wp_invalidateClient (hfail (hd.fail rfl)) _
  | true => exact h rest hd.suffix

/-- The header step. A complete header decides: a payload that is too big is forgotten, any
other makes room for itself. -/
inductive HeaderStep (x : Xenstore) : Xenstore × Bool → Prop where
  | known (inp : BufferedData) (hin : x.input = some inp) (hused : headerSize ≤ inp.used) :
      HeaderStep x (x, true)
  | short (inp : BufferedData) (n : Nat) (hin : x.input.getD emptyInput = inp)
      (hn : ReadSize x (headerSize - inp.used) n) (hshort : inp.used + n < headerSize) :
      HeaderStep x (x.consume n (some (inp.fill (x.arrived n))), false)
  | tooBig (inp : BufferedData) (n : Nat) (hin : x.input.getD emptyInput = inp)
      (hn : ReadSize x (headerSize - inp.used) n) (hread : inp.used < headerSize)
      (hfull : inp.used + n = headerSize)
      (hbig : xenstorePayloadMax <
        (XsdSockmsg.ofBytes (inp.buffer ++ x.arrived n)).len.toNat) :
      HeaderStep x (x.consume n none, false)
  | full (inp : BufferedData) (n : Nat) (hin : x.input.getD emptyInput = inp)
      (hn : ReadSize x (headerSize - inp.used) n) (hread : inp.used < headerSize)
      (hfull : inp.used + n = headerSize)
      (hfits : (XsdSockmsg.ofBytes (inp.buffer ++ x.arrived n)).len.toNat ≤ xenstorePayloadMax) :
      HeaderStep x (x.consume n (some { inp.fill (x.arrived n) with
        totalSize := inp.totalSize +
          (XsdSockmsg.ofBytes (inp.buffer ++ x.arrived n)).len.toNat }), true)

theorem wp_allocInput {x : Xenstore} {Q : Xenstore × Option BufferedData → Shared → Prop}
    {E : Fault → Prop} {s : Shared}
    (hfail : false ∈ s.allocs → AfterInvalid x (fun x' => Q (x', none)) E)
    (h : ∀ rest, rest <:+ s.allocs →
      Q ({ x with input := some (x.input.getD emptyInput) }, some (x.input.getD emptyInput))
        { s with allocs := rest }) :
    wp (allocInput x) Q E s := by
  unfold allocInput
  cases hin : x.input with
  | some inp =>
    have hx : { x with input := some inp } = x := by cases x; cases hin; rfl
    have h := h s.allocs List.suffix_rfl
    rw [hin, Option.getD_some, hx] at h
    exact h
  | none =>
    refine wp_kMalloc_or hfail fun rest₁ hs₁ => ?_
    refine wp_kMalloc_or (fun hf => hfail (hs₁.subset hf)) fun rest₂ hs₂ => ?_
    have h := h rest₂ (hs₂.trans hs₁)
    rw [hin] at h
    exact h

theorem wp_inputHeader {x : Xenstore} {Q : Xenstore × Bool → Shared → Prop} {E : Fault → Prop}
    {s : Shared} (hfail : false ∈ s.allocs → AfterInvalid x (fun x' => Q (x', false)) E)
    (hidx : (x.input.getD emptyInput).used < headerSize → requestIndexesOk x)
    (hmap : x.mapped = false → E .unmappedRing)
    (h : ∀ r rest, rest <:+ s.allocs → HeaderStep x r → Q r { s with allocs := rest }) :
    wp (inputHeader x) Q E s := by
  unfold inputHeader
  rw [wp_bind]
  refine wp_allocInput hfail fun rest₁ hs₁ => ?_
  generalize hinp : x.input.getD emptyInput = inp at hidx
  refine wp_ite (fun hused => ?_) (fun hread => ?_)
  · have hin : x.input = some inp := by
      cases hi : x.input with
      | some i => rw [hi] at hinp; exact congrArg some hinp
      | none =>
        rw [hi] at hinp
        subst hinp
        exact absurd hused (by decide)
    have hx : { x with input := some inp } = x := by cases x; cases hin; rfl
    rw [hx]
    exact h _ rest₁ hs₁ (.known inp hin hused)
  · have hread : inp.used < headerSize := Nat.lt_of_not_le hread
    have hidx' : requestIndexesOk { x with input := some inp } := hidx hread
    rw [wp_bind]
    refine wp_readInput hidx' hmap fun n hn => ?_
    have hn : ReadSize x (headerSize - inp.used) n := ⟨hn.le_len, hn.le_avail, hn.pos⟩
    have hle := hn.le_len
    have hused : (inp.fill (x.arrived n)).used = inp.used + n := by
      simp [BufferedData.fill, Xenstore.arrived]
    show wp (if (inp.fill (x.arrived n)).used ≠ headerSize then _ else _) Q E _
    refine wp_ite (fun hne => ?_) (fun heq => ?_)
    · rw [hused] at hne
      exact h _ rest₁ hs₁ (.short inp n hinp hn (by omega))
    · have hfull : inp.used + n = headerSize := by
        rw [hused] at heq
        exact Decidable.not_not.mp heq
      refine wp_ite (fun hbig => ?_) (fun hfits => ?_)
      · exact h _ rest₁ hs₁ (.tooBig inp n hinp hn hread hfull hbig)
      · refine wp_kMalloc_or (f := fun x' => (x', false)) (fun hf => ?_) fun rest₂ hs₂ => ?_
        · have hfail := hfail (hs₁.subset hf)
          exact ⟨hfail.fault, hfail.released⟩
        · exact h _ rest₂ (hs₂.trans hs₁) (.full inp n hinp hn hread hfull (Nat.le_of_not_lt hfits))

theorem wp_inputPayload {x : Xenstore} {inp : BufferedData} {Q : Xenstore × Bool → Shared → Prop}
    {E : Fault → Prop} {s : Shared} (hin : x.input = some inp) (hidx : requestIndexesOk x)
    (hmap : x.mapped = false → E .unmappedRing)
    (h : ∀ n, ReadSize x (inp.totalSize - inp.used) n →
      Q (x.consume n (some (inp.fill (x.arrived n))), decide (inp.used + n = inp.totalSize)) s) :
    wp (inputPayload x) Q E s := by
  unfold inputPayload
  simp only [hin, wp_bind]
  refine wp_readInput hidx hmap fun n hn => ?_
  have h := h n hn
  simpa [BufferedData.fill, Xenstore.arrived] using h

theorem Message.bytes_length (m : Message) : m.bytes.length = m.payload.length + headerSize := by
  simp [Message.bytes, Nat.add_comm]

theorem Xenstore.push_buffers {x : Xenstore} (m : Message)
    (h : ∀ out ∈ x.outList, out.used < out.totalSize ∧ out.buffer.length = out.totalSize) :
    ∀ out ∈ (x.push m).outList, out.used < out.totalSize ∧ out.buffer.length = out.totalSize := by
  intro out hout
  rcases List.mem_append.mp hout with hout | hout
  · exact h out hout
  · rw [List.mem_singleton.mp hout]
    exact ⟨Nat.succ_pos _, m.bytes_length⟩

def BufferedData.rest (out : BufferedData) : Bytes :=
  (out.buffer.drop out.used).take (out.totalSize - out.used)

structure WriteSize (x : Xenstore) (data : Bytes) (n : Nat) : Prop where
  le_len : n ≤ data.length
  le_free : x.domint.responseBytes + n ≤ xenstoreRingSize
  pos : 0 < data.length → x.domint.responseBytes < xenstoreRingSize → 0 < n
  one_piece : x.domint.rspProd.toNat % xenstoreRingSize + n ≤ xenstoreRingSize

/-- The client after `n` bytes of `data` went to the response ring. -/
def Xenstore.produce (x : Xenstore) (data : Bytes) (n : Nat) : Xenstore :=
  { x with
    domint := { x.domint with
      rsp := blit x.domint.rsp (x.domint.rspProd.toNat % xenstoreRingSize) (data.take n)
      rspProd := x.domint.rspProd + UInt32.ofNat n }
    written := x.written ++ data.take n }

theorem wp_handleOutput {x : Xenstore} {Q : Xenstore → Shared → Prop} {E : Fault → Prop}
    {s : Shared} (hidx : responseIndexesOk x) (hmap : x.mapped = false → E .unmappedRing)
    (hempty : x.outList = [] → Q x s)
    (hpart : ∀ out rest n, x.outList = out :: rest → WriteSize x out.rest n →
      out.used + n < out.totalSize →
      Q { x.produce out.rest n with outList := { out with used := out.used + n } :: rest } s)
    (hlast : ∀ out rest n, x.outList = out :: rest → WriteSize x out.rest n →
      out.used + n = out.totalSize →
      Q { x.produce out.rest n with outList := rest, usedOutBufs := x.usedOutBufs - 1 } s)
    (hover : ∀ out rest, x.outList = out :: rest → out.totalSize < out.used → E .assertion) :
    wp (handleOutput x) Q E s := by
  unfold handleOutput
  cases hout : x.outList with
  | nil => exact hempty hout
  | cons out rest =>
    dsimp only
    refine wp_ite (fun hm => hmap (by simpa using hm)) (fun _ => ?_)
    obtain ⟨n, hle, hfree, hpos, hpiece, hwrite⟩ := xenstoreRingWrite_server out.rest hidx
    have hn : WriteSize x out.rest n := ⟨hle, hfree, hpos, hpiece⟩
    have hrest : out.rest.length ≤ out.totalSize - out.used := by
      simp only [BufferedData.rest, List.length_take]
      omega
    rw [BufferedData.rest] at hwrite
    simp only [hwrite]
    refine wp_ite (fun hlt => hpart out rest n hout hn hlt) (fun hge => ?_)
    refine wp_ite (fun hne => hover out rest hout (by omega)) (fun heq => ?_)
    exact hlast out rest n hout hn (Decidable.not_not.mp heq)

theorem wp_handleOutput_bad {x : Xenstore} {Q : Xenstore → Shared → Prop} {E : Fault → Prop}
    {s : Shared} (hidx : ¬ responseIndexesOk x) (hmap : x.mapped = false → E .unmappedRing)
    (hempty : x.outList = [] → Q x s) (h : wp (invalidateClient x) Q E s) :
    wp (handleOutput x) Q E s := by
  have hcheck : xenstoreCheckIndexes x.domint.rspCons x.domint.rspProd = true := by
    rw [← Bool.not_eq_false, xenstoreCheckIndexes_eq_false]
    exact hidx
  unfold handleOutput
  cases hout : x.outList with
  | nil => exact hempty hout
  | cons out rest =>
    refine wp_ite (fun hm => hmap (by simpa using hm)) (fun _ => ?_)
    simp only [xenstoreRingWrite, Bool.false_eq_true, if_false, hcheck, if_true]
    exact h

end Xenlib
