import Xenlib.RingSteps
import Xenlib.Lib.Machine

/-!
The response stream of one client. Replies are queued whole, leave through the ring in
pieces, and are read by the guest at its own pace. What the guest has read, what lies in
the ring and what still waits in `out_list` together are the queued messages in order.
-/

set_option autoImplicit false

namespace Xenlib

open Wp Machine Cyclic

def XenstoreDomainInterface.responses (intf : XenstoreDomainInterface) : Bytes :=
  content xenstoreRingSize intf.rsp intf.rspCons.toNat intf.responseBytes

/-- A client, and what its guest has read from the response ring. -/
structure OutState where
  shared : Shared
  xenstore : Xenstore
  received : Bytes

/-- The arguments of a call of `send_reply_sz`. -/
structure ReplyCall where
  reqId : UInt32
  type : XsdSockmsgType
  data : Bytes

inductive OutAction where
  | send (call : ReplyCall)
  | output
  /-- The guest reads `n` bytes, or all there are. -/
  | consume (n : Nat)
  | other (s : Shared)

def OutState.consume (o : OutState) (n : Nat) : OutState :=
  let intf := o.xenstore.domint
  let n := min n intf.responseBytes
  { o with
    xenstore := { o.xenstore with
      domint := { intf with rspCons := intf.rspCons + UInt32.ofNat n } }
    received := o.received ++ content xenstoreRingSize intf.rsp intf.rspCons.toNat n }

def OutState.serve (o : OutState) (x : SrvM Xenstore) : Option OutState :=
  match x o.shared with
  | .error _ => none
  | .ok (xenstore, s) => some ⟨s, xenstore, o.received⟩

def OutState.step (o : OutState) : OutAction → Option OutState
  | .send call => o.serve (sendReplySz o.xenstore call.reqId call.type call.data)
  | .output => o.serve (handleOutput o.xenstore)
  | .consume n => some (o.consume n)
  | .other s => some { o with shared := s }

/-- Replies are sent below the output limit, and memory does not run out. -/
def OutAction.Allowed (o : OutState) : OutAction → Prop
  | .send _ => o.xenstore.usedOutBufs ≤ xenstoreMaxOutBufNum
  | .other s => false ∉ s.allocs
  | _ => True

instance (o : OutState) (a : OutAction) : Decidable (a.Allowed o) :=
  match a with
  | .send _ => inferInstanceAs (Decidable (_ ≤ _))
  | .other _ => inferInstanceAs (Decidable (_ ∉ _))
  | .output | .consume _ => isTrue trivial

def OutAction.calls : OutAction → List ReplyCall
  | .send call => [call]
  | _ => []

/-- The loop `while can_write: handle_output`. The guest may read before each test and between
the test and the write; the loop has ended when the result says so. -/
def drainLoop : List (Nat × Nat) → OutState → Option (OutState × Bool)
  | [], o => some (o, false)
  | (before, between) :: moves, o =>
    let o := o.consume before
    match canWrite o.xenstore with
    | .error _ => none
    | .ok false => some (o, true)
    | .ok true =>
      match (o.consume between).step .output with
      | none => none
      | some o => drainLoop moves o

/-- The bytes that wait in `out_list`. -/
def Xenstore.waiting (x : Xenstore) : Bytes := x.outList.flatMap BufferedData.rest

/-- `stale` is what the ring held at the start. -/
structure OutInv (stale : Bytes) (o : OutState) : Prop where
  memory : false ∉ o.shared.allocs
  mapped : o.xenstore.mapped = true
  indexes : responseIndexesOk o.xenstore
  count : o.xenstore.usedOutBufs = o.xenstore.outList.length
  buffers : ∀ out ∈ o.xenstore.outList,
    out.used < out.totalSize ∧ out.buffer.length = out.totalSize
  stream : o.xenstore.written ++ o.xenstore.waiting =
    (o.xenstore.queued.map Message.bytes).flatten
  ring : o.received ++ o.xenstore.domint.responses = stale ++ o.xenstore.written

theorem BufferedData.rest_eq {out : BufferedData} (h : out.buffer.length = out.totalSize) :
    out.rest = out.buffer.drop out.used := by
  unfold BufferedData.rest
  exact List.take_of_length_le (by rw [List.length_drop, h])

theorem OutState.consume_responseBytes (o : OutState) (n : Nat) :
    (o.consume n).xenstore.domint.responseBytes =
      o.xenstore.domint.responseBytes - min n o.xenstore.domint.responseBytes :=
  distance_follow (Nat.min_le_right _ _)

theorem OutInv.consume {stale : Bytes} {o : OutState} (h : OutInv stale o) (n : Nat) :
    OutInv stale (o.consume n) := by
  have hidx : o.xenstore.domint.responseBytes ≤ xenstoreRingSize := h.indexes
  have hle : min n o.xenstore.domint.responseBytes ≤ o.xenstore.domint.responseBytes :=
    Nat.min_le_right _ _
  have hlen := o.consume_responseBytes n
  refine ⟨h.memory, h.mapped, ?_, h.count, h.buffers, h.stream, ?_⟩
  · unfold responseIndexesOk
    omega
  · have hring : (o.consume n).received ++ (o.consume n).xenstore.domint.responses =
        o.received ++ o.xenstore.domint.responses := by
      unfold XenstoreDomainInterface.responses
      rw [hlen]
      simp only [OutState.consume]
      rw [content_follow xenstoreRingSize_dvd.1, List.append_assoc, ← content_add,
        Nat.add_sub_cancel' hle]
    rw [hring]
    exact h.ring

theorem OutInv.push {stale : Bytes} {o : OutState} (h : OutInv stale o) (m : Message)
    {rest : List Bool} (hrest : rest <:+ o.shared.allocs) :
    OutInv stale ⟨{ o.shared with allocs := rest }, o.xenstore.push m, o.received⟩ := by
  refine ⟨fun hf => h.memory (hrest.subset hf), h.mapped, h.indexes, ?_,
    Xenstore.push_buffers m h.buffers, ?_, h.ring⟩
  · simp [Xenstore.push, h.count]
  · have hnew : BufferedData.rest ⟨0, m.payload.length + headerSize, m.bytes⟩ = m.bytes :=
      BufferedData.rest_eq m.bytes_length
    simp only [Xenstore.push, Xenstore.waiting, List.flatMap_append, List.flatMap_singleton, hnew,
      List.map_append, List.map_singleton, List.flatten_append, List.flatten_singleton]
    rw [← List.append_assoc, ← h.stream]
    rfl

theorem OutInv.send {stale : Bytes} {o : OutState} (h : OutInv stale o) {call : ReplyCall}
    (hlim : o.xenstore.usedOutBufs ≤ xenstoreMaxOutBufNum) :
    ∃ o' m, o.step (.send call) = some o' ∧ OutInv stale o' ∧
      o'.xenstore.queued = o.xenstore.queued ++ [m] ∧ ReplyTo call.reqId call.type call.data m := by
  obtain ⟨x, s, hx, hinv⟩ := wp_total (s := o.shared)
    (x := sendReplySz o.xenstore call.reqId call.type call.data)
    (Q := fun x s => ∃ m, OutInv stale ⟨s, x, o.received⟩ ∧
      x.queued = o.xenstore.queued ++ [m] ∧ ReplyTo call.reqId call.type call.data m)
    (wp_sendReplySz hlim (fun m rest hs hm => ⟨m, h.push m hs, rfl, hm⟩)
      (fun _ _ hf => absurd hf h.memory))
  obtain ⟨m, hinv⟩ := hinv
  exact ⟨⟨s, x, o.received⟩, m, by simp [OutState.step, OutState.serve, hx], hinv⟩

/-- What one write does to the ring and to the stream, wherever it cuts the buffer. -/
theorem OutInv.produce {stale : Bytes} {o : OutState} (h : OutInv stale o) {data : Bytes} {n : Nat}
    (hn : WriteSize o.xenstore data n) :
    responseIndexesOk (o.xenstore.produce data n) ∧
      o.received ++ (o.xenstore.produce data n).domint.responses =
        stale ++ (o.xenstore.produce data n).written := by
  have hlen : (o.xenstore.produce data n).domint.responseBytes =
      o.xenstore.domint.responseBytes + n :=
    distance_advance xenstoreRingSize_dvd.2 hn.le_free
  have htake : (data.take n).length = n := List.length_take_of_le hn.le_len
  refine ⟨?_, ?_⟩
  · unfold responseIndexesOk
    rw [hlen]
    exact hn.le_free
  · have hcell := distance_cell xenstoreRingSize_dvd.1 o.xenstore.domint.rspCons
      o.xenstore.domint.rspProd
    have hring : (o.xenstore.produce data n).domint.responses =
        o.xenstore.domint.responses ++ data.take n := by
      have hfree := hn.le_free
      have hpiece := hn.one_piece
      rw [← hcell] at hpiece
      unfold XenstoreDomainInterface.responses
      rw [hlen]
      simp only [Xenstore.produce, ← hcell]
      generalize data.take n = piece at htake ⊢
      subst htake
      exact content_blit hfree hpiece
    rw [hring, ← List.append_assoc, h.ring, List.append_assoc]
    rfl

/-- A write moves bytes from `out_list` to the ring, and at least one when there is room. -/
structure OutStep (stale : Bytes) (o o' : OutState) : Prop where
  inv : OutInv stale o'
  queued : o'.xenstore.queued = o.xenstore.queued
  moved : o.xenstore.outList ≠ [] → o.xenstore.domint.responseBytes < xenstoreRingSize →
    o'.xenstore.waiting.length < o.xenstore.waiting.length

/-- The stream after a write, whatever list of buffers stands for the bytes that are left. -/
theorem OutInv.wrote {stale : Bytes} {o : OutState} (h : OutInv stale o) {out : BufferedData}
    {rest : List BufferedData} {n : Nat} (outs : List BufferedData)
    (hout : o.xenstore.outList = out :: rest)
    (hn : WriteSize o.xenstore out.rest n)
    (hleft : outs.flatMap BufferedData.rest = out.rest.drop n ++ rest.flatMap BufferedData.rest)
    (hbufs : ∀ out ∈ outs, out.used < out.totalSize ∧ out.buffer.length = out.totalSize) :
    OutStep stale o ⟨o.shared,
      { o.xenstore.produce out.rest n with outList := outs, usedOutBufs := outs.length },
      o.received⟩ := by
  obtain ⟨hidx, hring⟩ := h.produce hn
  have hwait : o.xenstore.waiting = out.rest ++ rest.flatMap BufferedData.rest := by
    simp only [Xenstore.waiting, hout, List.flatMap_cons]
  refine ⟨⟨h.memory, h.mapped, hidx, rfl, hbufs, ?_, hring⟩, rfl, fun _ hroom => ?_⟩
  · show (o.xenstore.written ++ out.rest.take n) ++ outs.flatMap BufferedData.rest = _
    rw [hleft, List.append_assoc, ← List.append_assoc (out.rest.take n), List.take_append_drop,
      ← hwait]
    exact h.stream
  · have hbuf := h.buffers out (by rw [hout]; exact List.mem_cons_self)
    have hlen : 0 < out.rest.length := by
      rw [BufferedData.rest_eq hbuf.2, List.length_drop]
      omega
    have hpos := hn.pos hlen hroom
    show (outs.flatMap BufferedData.rest).length < o.xenstore.waiting.length
    rw [hleft, hwait, List.length_append, List.length_append, List.length_drop]
    omega

theorem OutInv.output {stale : Bytes} {o : OutState} (h : OutInv stale o) :
    ∃ o', o.step .output = some o' ∧ OutStep stale o o' := by
  suffices hwp : wp (handleOutput o.xenstore) (fun x s => OutStep stale o ⟨s, x, o.received⟩)
      (fun _ => False) o.shared by
    obtain ⟨x, s, hx, hinv⟩ := wp_total hwp
    exact ⟨⟨s, x, o.received⟩, by simp [OutState.step, OutState.serve, hx], hinv⟩
  refine wp_handleOutput h.indexes (fun hm => ?_) (fun hempty => ?_)
    (fun out rest n hout hn hlt => ?_) (fun out rest n hout hn heq => ?_)
    (fun out rest hout ho => ?_)
  · rw [h.mapped] at hm
    cases hm
  · exact ⟨h, rfl, fun hne => absurd hempty hne⟩
  · -- the buffer stays at the head with what is left of it
    have hbufs := h.buffers
    have hcount := h.count
    rw [hout] at hbufs hcount
    have hbuf := hbufs out List.mem_cons_self
    have hpart : BufferedData.rest { out with used := out.used + n } = out.rest.drop n := by
      rw [BufferedData.rest_eq hbuf.2, List.drop_drop]
      exact BufferedData.rest_eq hbuf.2
    have hstep := h.wrote ({ out with used := out.used + n } :: rest) hout hn
      (by rw [List.flatMap_cons, hpart])
      (List.forall_mem_cons.mpr ⟨⟨hlt, hbuf.2⟩,
        fun o' ho' => hbufs o' (List.mem_cons_of_mem _ ho')⟩)
    rw [List.length_cons, ← List.length_cons, ← hcount] at hstep
    exact hstep
  · have hbufs := h.buffers
    have hcount := h.count
    rw [hout] at hbufs hcount
    have hbuf := hbufs out List.mem_cons_self
    have hdone : out.rest.drop n = [] := by
      rw [BufferedData.rest_eq hbuf.2, List.drop_drop, heq, ← hbuf.2, List.drop_length]
    have hstep := h.wrote rest hout hn (by rw [hdone, List.nil_append])
      (fun o' ho' => hbufs o' (List.mem_cons_of_mem _ ho'))
    have hu : o.xenstore.usedOutBufs - 1 = rest.length := by
      rw [hcount, List.length_cons]
      omega
    rw [hu]
    exact hstep
  · have hbuf := (h.buffers out (by rw [hout]; exact List.mem_cons_self)).1
    omega

/-- What the guest and the server see of the response stream after a run in which `calls` were
made. `stale` is what the ring held when the run began. -/
structure ResponsesExact (stale : Bytes) (calls : List ReplyCall) (o : OutState) : Prop where
  /-- One message was queued for each call, in order. -/
  queued : List.Forall₂ (fun call m => ReplyTo call.reqId call.type call.data m) calls
    o.xenstore.queued
  /-- The bytes written are a prefix of the messages. -/
  written : o.xenstore.written <+: (o.xenstore.queued.map Message.bytes).flatten
  /-- What the guest read and what is in the ring is what was written, nothing else. -/
  ring : o.received ++ o.xenstore.domint.responses = stale ++ o.xenstore.written
  count : o.xenstore.usedOutBufs = o.xenstore.outList.length
  /-- An empty list means that everything was written. -/
  complete : o.xenstore.outList = [] →
    o.xenstore.written = (o.xenstore.queued.map Message.bytes).flatten
  /-- The drain loop ends within as many rounds as there are bytes left, whatever the guest
  reads meanwhile. -/
  drains : ∀ moves : List (Nat × Nat), o.xenstore.waiting.length < moves.length →
    ∃ o', drainLoop moves o = some (o', true) ∧
      (o'.xenstore.outList = [] ∨ o'.xenstore.domint.responseBytes = xenstoreRingSize)

theorem canWrite_eq {x : Xenstore} (hm : x.mapped = true) (hidx : responseIndexesOk x) :
    canWrite x = .ok (decide (x.outList ≠ [] ∧ x.domint.responseBytes ≠ xenstoreRingSize)) := by
  have hroom : x.domint.rspProd - x.domint.rspCons < 1024 ↔
      x.domint.responseBytes ≠ xenstoreRingSize := by
    unfold responseIndexesOk at hidx
    rw [UInt32.lt_iff_toNat_lt]
    show x.domint.responseBytes < xenstoreRingSize ↔ _
    omega
  unfold canWrite
  by_cases hout : x.outList = []
  · simp [hout]
  · simp [hout, hm, hroom]

theorem OutInv.drains {stale : Bytes} {o : OutState} (h : OutInv stale o)
    (moves : List (Nat × Nat)) (hlen : o.xenstore.waiting.length < moves.length) :
    ∃ o', drainLoop moves o = some (o', true) ∧
      (o'.xenstore.outList = [] ∨ o'.xenstore.domint.responseBytes = xenstoreRingSize) := by
  induction moves generalizing o with
  | nil => exact absurd hlen (Nat.not_lt_zero _)
  | cons move moves ih =>
    obtain ⟨before, between⟩ := move
    have h₁ := h.consume before
    have hcan := canWrite_eq h₁.mapped h₁.indexes
    by_cases hc : (o.consume before).xenstore.outList ≠ [] ∧
        (o.consume before).xenstore.domint.responseBytes ≠ xenstoreRingSize
    · -- each round that writes leaves fewer bytes
      have h₂ := h₁.consume between
      obtain ⟨o₃, hstep, h₃⟩ := h₂.output
      have hidx : (o.consume before).xenstore.domint.responseBytes ≤ xenstoreRingSize := h₁.indexes
      have hroom : ((o.consume before).consume between).xenstore.domint.responseBytes <
          xenstoreRingSize := by
        have hless := (o.consume before).consume_responseBytes between
        have hne := hc.2
        omega
      have hmoved := h₃.moved hc.1 hroom
      have hw₂ : ((o.consume before).consume between).xenstore.waiting = o.xenstore.waiting := rfl
      rw [hw₂] at hmoved
      rw [List.length_cons] at hlen
      obtain ⟨o', hloop, hend⟩ := ih h₃.inv (by omega)
      refine ⟨o', ?_, hend⟩
      rw [decide_eq_true hc] at hcan
      simp only [drainLoop, hcan, hstep]
      exact hloop
    · refine ⟨o.consume before, ?_, ?_⟩
      · rw [decide_eq_false hc] at hcan
        simp only [drainLoop, hcan]
      · by_cases hout : (o.consume before).xenstore.outList = []
        · exact Or.inl hout
        · exact Or.inr (by_contra fun hne => hc ⟨hout, hne⟩)

theorem OutInv.step {stale : Bytes} {o : OutState} {a : OutAction} (h : OutInv stale o)
    (ha : a.Allowed o) : ∃ o' ms, o.step a = some o' ∧ OutInv stale o' ∧
      o'.xenstore.queued = o.xenstore.queued ++ ms ∧
      List.Forall₂ (fun call m => ReplyTo call.reqId call.type call.data m) a.calls ms := by
  cases a with
  | send call =>
    obtain ⟨o', m, hstep, hinv, hq, hm⟩ := h.send ha
    exact ⟨o', [m], hstep, hinv, hq, .cons hm .nil⟩
  | output =>
    obtain ⟨o', hstep, ho⟩ := h.output
    exact ⟨o', [], hstep, ho.inv, by rw [ho.queued, List.append_nil], .nil⟩
  | consume n =>
    exact ⟨o.consume n, [], rfl, h.consume n, (List.append_nil _).symm, .nil⟩
  | other s =>
    exact ⟨_, [], rfl, ⟨ha, h.mapped, h.indexes, h.count, h.buffers, h.stream, h.ring⟩,
      (List.append_nil _).symm, .nil⟩

theorem OutInv.run {stale : Bytes} {o : OutState} {as : List OutAction} (h : OutInv stale o)
    (hall : Along OutState.step (fun o a => a.Allowed o) o as) :
    ∃ o' ms, Machine.run OutState.step o as = some o' ∧ OutInv stale o' ∧
      o'.xenstore.queued = o.xenstore.queued ++ ms ∧
      List.Forall₂ (fun call m => ReplyTo call.reqId call.type call.data m)
        (as.flatMap OutAction.calls) ms := by
  induction as generalizing o with
  | nil => exact ⟨o, [], rfl, h, (List.append_nil _).symm, .nil⟩
  | cons a as ih =>
    obtain ⟨o₁, ms₁, hstep, h₁, hq₁, hm₁⟩ := h.step hall.1
    obtain ⟨o', ms, hrun, h', hq, hm⟩ := ih h₁ (hall.2 o₁ hstep)
    refine ⟨o', ms₁ ++ ms, ?_, h', ?_, ?_⟩
    · simp only [Machine.run, hstep, hrun]
    · rw [hq, hq₁, List.append_assoc]
    · rw [List.flatMap_cons]
      exact List.rel_append hm₁ hm

theorem OutInv.start {domid : UInt32} {domint : XenstoreDomainInterface} {slot : Nat}
    {stackWord : Nat → UInt32} {s : Shared} (hmem : false ∉ s.allocs)
    (hidx : domint.responseBytes ≤ xenstoreRingSize) :
    OutInv domint.responses ⟨s, .started domid domint slot stackWord, []⟩ where
  memory := hmem
  mapped := rfl
  indexes := hidx
  count := rfl
  buffers := fun _ hout => absurd hout List.not_mem_nil
  stream := rfl
  ring := (List.append_nil _).symm

/-- The response stream of a started client is exact in every run of replies, writes and reads
by the guest. -/
theorem run_responsesExact {domid : UInt32} {domint : XenstoreDomainInterface} {slot : Nat}
    {stackWord : Nat → UInt32} {s : Shared} {as : List OutAction} (hmem : false ∉ s.allocs)
    (hidx : domint.responseBytes ≤ xenstoreRingSize)
    (hall : Along OutState.step (fun o a => a.Allowed o)
      ⟨s, .started domid domint slot stackWord, []⟩ as) :
    ∃ o, Machine.run OutState.step ⟨s, .started domid domint slot stackWord, []⟩ as = some o ∧
      ResponsesExact domint.responses (as.flatMap OutAction.calls) o := by
  obtain ⟨o, ms, hrun, h, hq, hm⟩ := (OutInv.start hmem hidx).run hall
  have hqueued : o.xenstore.queued = ms := by rw [hq]; rfl
  refine ⟨o, hrun, ?_, ⟨o.xenstore.waiting, h.stream⟩, h.ring, h.count, fun hnil => ?_, h.drains⟩
  · rw [hqueued]
    exact hm
  · have hstream := h.stream
    simpa [Xenstore.waiting, hnil] using hstream

/-- A reply and an event leave a ring whose indexes are about to wrap. -/
def wrappingRun : List OutAction :=
  [.send ⟨7, .write, strBytes (ascii ['O', 'K'])⟩, .output, .consume 5,
   .send ⟨0, .watchEvent, [97, 0, 98, 0]⟩, .output, .consume 9, .output]

def wrappingClient : OutState :=
  ⟨.boot 16, .started 1 ⟨fun _ => 0, fun _ => 0, 0, 0, 4294967290, 4294967290⟩ 0 (fun _ => 0), []⟩

theorem run_responsesExact_wrapping : ∃ o,
    Machine.run OutState.step wrappingClient wrappingRun = some o ∧
      ResponsesExact [] (wrappingRun.flatMap OutAction.calls) o :=
  run_responsesExact (s := .boot 16) List.not_mem_nil (by decide) (by decide)

end Xenlib
