import Xenlib.Lib.Machine
import Xenlib.Ring

/-!
The two rings as byte streams (`xenstore_ring_write`, `xenstore_ring_read`). A call looks
at the indexes, copies, and moves its own index; the other three callers of the page may
run between these parts. A stream is named by the side that writes it.
-/

set_option autoImplicit false

namespace Xenlib

open Cyclic

def XenstoreDomainInterface.cons (intf : XenstoreDomainInterface) (client : Bool) : UInt32 :=
  if client then intf.reqCons else intf.rspCons

def XenstoreDomainInterface.prod (intf : XenstoreDomainInterface) (client : Bool) : UInt32 :=
  if client then intf.reqProd else intf.rspProd

def XenstoreDomainInterface.ring (intf : XenstoreDomainInterface) (client : Bool) : Nat → UInt8 :=
  if client then intf.req else intf.rsp

def ringWriteLoad (intf : XenstoreDomainInterface) (data : Bytes) (client : Bool) :
    Except Errno (Nat × Bytes) :=
  if xenstoreCheckIndexes (intf.cons client) (intf.prod client) then .error .einval
  else
    let (off, avail) := getOutputOffset (intf.cons client) (intf.prod client)
    .ok (off, data.take (if avail < data.length then avail else data.length))

def ringWriteCopy (intf : XenstoreDomainInterface) (off : Nat) (data : Bytes) (client : Bool) :
    XenstoreDomainInterface :=
  if client then { intf with req := blit intf.req off data }
  else { intf with rsp := blit intf.rsp off data }

def ringWriteEnd (intf : XenstoreDomainInterface) (len : Nat) (client : Bool) :
    XenstoreDomainInterface :=
  if client then { intf with reqProd := intf.reqProd + UInt32.ofNat len }
  else { intf with rspProd := intf.rspProd + UInt32.ofNat len }

/-- A reader takes from the stream that the other side writes. -/
def ringReadLoad (intf : XenstoreDomainInterface) (len : Nat) (client : Bool) :
    Except Errno (Nat × Nat) :=
  if xenstoreCheckIndexes (intf.cons !client) (intf.prod !client) then .error .eio
  else
    let (off, avail) := xenstoreGetInputOffset (intf.cons !client) (intf.prod !client)
    .ok (off, if avail < len then avail else len)

def ringReadCopy (intf : XenstoreDomainInterface) (off n : Nat) (client : Bool) : Bytes :=
  slice (intf.ring !client) off n

def ringReadEnd (intf : XenstoreDomainInterface) (len : Nat) (client : Bool) :
    XenstoreDomainInterface :=
  if client then { intf with rspCons := intf.rspCons + UInt32.ofNat len }
  else { intf with reqCons := intf.reqCons + UInt32.ofNat len }

/-- With nothing in between, the parts are the whole call. -/
theorem xenstoreRingWrite_parts (intf : XenstoreDomainInterface) (data : Bytes) (client : Bool) :
    xenstoreRingWrite intf data client =
      (ringWriteLoad intf data client).map fun (off, piece) =>
        (piece.length, ringWriteEnd (ringWriteCopy intf off piece client) piece.length client) := by
  have hlen : ∀ avail : Nat, (data.take (if avail < data.length then avail else data.length)).length
      = if avail < data.length then avail else data.length := by
    intro avail
    rw [List.length_take]
    split <;> omega
  cases client <;>
    simp only [xenstoreRingWrite, ringWriteLoad, ringWriteCopy, ringWriteEnd,
      XenstoreDomainInterface.cons, XenstoreDomainInterface.prod, Bool.false_eq_true, if_true,
      if_false] <;>
    split <;> simp [Except.map, hlen]

theorem xenstoreRingRead_parts (intf : XenstoreDomainInterface) (len : Nat) (client : Bool) :
    xenstoreRingRead intf len client =
      (ringReadLoad intf len client).map fun (off, n) =>
        (ringReadCopy intf off n client, ringReadEnd intf n client) := by
  cases client <;>
    simp only [xenstoreRingRead, ringReadLoad, ringReadCopy, ringReadEnd,
      XenstoreDomainInterface.cons, XenstoreDomainInterface.prod, XenstoreDomainInterface.ring,
      Bool.false_eq_true, if_true, if_false, Bool.not_true, Bool.not_false] <;>
    split <;> simp [Except.map]

structure RingCalls where
  intf : XenstoreDomainInterface
  streams : Bool → Link UInt8

def RingCalls.start (intf : XenstoreDomainInterface) : RingCalls :=
  ⟨intf, fun _ => .start⟩

def RingCalls.update (s : RingCalls) (client : Bool) (intf : XenstoreDomainInterface)
    (stream : Link UInt8) : RingCalls :=
  ⟨intf, Function.update s.streams client stream⟩

inductive RingAction where
  | writeLoad (data : Bytes)
  | writeCopy
  | writeEnd
  | readLoad (len : Nat)
  | readCopy
  | readEnd

/-- A step on the stream written by `client`; its reader is the other side. -/
def RingCalls.step (s : RingCalls) : Bool × RingAction → Option RingCalls
  | (client, action) =>
    let stream := s.streams client
    match action, stream.writer, stream.reader with
    | .writeLoad data, .idle, _ =>
      match ringWriteLoad s.intf data client with
      | .error _ => some s
      | .ok (off, piece) =>
        some (s.update client s.intf { stream with writer := .loaded off piece })
    | .writeCopy, .loaded off piece, _ =>
      some (s.update client (ringWriteCopy s.intf off piece client)
        { stream with writer := .copied piece })
    | .writeEnd, .copied piece, _ =>
      some (s.update client (ringWriteEnd s.intf piece.length client)
        { stream with writer := .idle, sent := stream.sent ++ piece })
    | .readLoad len, _, .idle =>
      match ringReadLoad s.intf len !client with
      | .error _ => some s
      | .ok (off, n) => some (s.update client s.intf { stream with reader := .loaded off n })
    | .readCopy, _, .loaded off n =>
      some (s.update client s.intf
        { stream with reader := .copied (ringReadCopy s.intf off n !client) })
    | .readEnd, _, .copied piece =>
      some (s.update client (ringReadEnd s.intf piece.length !client)
        { stream with reader := .idle, received := stream.received ++ piece })
    | _, _, _ => none

/-- The stream carries its bytes, and a copy that was begun does not pass the end of the array. -/
structure RingCalls.Carries (s : RingCalls) (client : Bool) : Prop where
  stream : Stream xenstoreRingSize (s.intf.ring client) (s.intf.cons client) (s.intf.prod client)
    (s.streams client).writer (s.streams client).reader (s.streams client).sent
    (s.streams client).received
  writePiece : ∀ off piece, (s.streams client).writer = .loaded off piece →
    off + piece.length ≤ xenstoreRingSize
  readPiece : ∀ off n, (s.streams client).reader = .loaded off n → off + n ≤ xenstoreRingSize

@[simp] theorem RingCalls.update_same (s : RingCalls) (client : Bool)
    (intf : XenstoreDomainInterface) (stream : Link UInt8) :
    (s.update client intf stream).streams client = stream := by
  simp [RingCalls.update]

@[simp] theorem RingCalls.update_intf (s : RingCalls) (client : Bool)
    (intf : XenstoreDomainInterface) (stream : Link UInt8) :
    (s.update client intf stream).intf = intf := rfl

@[simp] theorem ringWriteCopy_same (intf : XenstoreDomainInterface) (off : Nat) (data : Bytes)
    (client : Bool) :
    (ringWriteCopy intf off data client).ring client = blit (intf.ring client) off data ∧
      (ringWriteCopy intf off data client).cons client = intf.cons client ∧
      (ringWriteCopy intf off data client).prod client = intf.prod client := by
  cases client <;> exact ⟨rfl, rfl, rfl⟩

@[simp] theorem ringWriteEnd_same (intf : XenstoreDomainInterface) (len : Nat) (client : Bool) :
    (ringWriteEnd intf len client).ring client = intf.ring client ∧
      (ringWriteEnd intf len client).cons client = intf.cons client ∧
      (ringWriteEnd intf len client).prod client = intf.prod client + UInt32.ofNat len := by
  cases client <;> exact ⟨rfl, rfl, rfl⟩

@[simp] theorem ringReadEnd_same (intf : XenstoreDomainInterface) (len : Nat) (client : Bool) :
    (ringReadEnd intf len !client).ring client = intf.ring client ∧
      (ringReadEnd intf len !client).cons client = intf.cons client + UInt32.ofNat len ∧
      (ringReadEnd intf len !client).prod client = intf.prod client := by
  cases client <;> exact ⟨rfl, rfl, rfl⟩

/-- What one call moves at the index `idx`, of the `room` bytes that can be moved: it ends
before the array does, and is something where something was asked for. -/
structure RingPiece (idx : UInt32) (room len n : Nat) : Prop where
  le_len : n ≤ len
  le_room : n ≤ room
  inside : idx.toNat % xenstoreRingSize + n ≤ xenstoreRingSize
  pos : 0 < len → 0 < room → 0 < n

theorem RingPiece.length_take {idx : UInt32} {room n : Nat} {data : Bytes}
    (h : RingPiece idx room data.length n) : (data.take n).length = n := by
  rw [List.length_take]
  exact Nat.min_eq_left h.le_len

theorem ringWriteLoad_spec {intf : XenstoreDomainInterface} {client : Bool} (data : Bytes)
    (h : (intf.prod client - intf.cons client).toNat ≤ xenstoreRingSize) :
    ∃ n, ringWriteLoad intf data client =
        .ok ((intf.prod client).toNat % xenstoreRingSize, data.take n) ∧
      RingPiece (intf.prod client)
        (xenstoreRingSize - (intf.prod client - intf.cons client).toNat) data.length n := by
  obtain ⟨hoff, hfit, hend, hpos⟩ := getOutputOffset_spec h
  simp only [ringWriteLoad, xenstoreCheckIndexes_eq_false.mpr h, Bool.false_eq_true, if_false, hoff]
  refine ⟨_, rfl, ?_, ?_, ?_, fun hlen hroom => ?_⟩
  · split <;> omega
  · split <;> omega
  · split <;> omega
  · have := hpos (by omega)
    split <;> omega

theorem ringReadLoad_spec {intf : XenstoreDomainInterface} {client : Bool} (len : Nat)
    (h : (intf.prod client - intf.cons client).toNat ≤ xenstoreRingSize) :
    ∃ n, ringReadLoad intf len (!client) = .ok ((intf.cons client).toNat % xenstoreRingSize, n) ∧
      RingPiece (intf.cons client) (intf.prod client - intf.cons client).toNat len n := by
  obtain ⟨hoff, hle, hend, hpos⟩ :=
    xenstoreGetInputOffset_spec (intf.cons client) (intf.prod client)
  simp only [ringReadLoad, Bool.not_not, xenstoreCheckIndexes_eq_false.mpr h, Bool.false_eq_true,
    if_false, hoff]
  refine ⟨_, rfl, ?_, ?_, ?_, fun hlen hroom => ?_⟩
  · split <;> omega
  · split <;> omega
  · split <;> omega
  · have := hpos hroom
    split <;> omega

theorem RingCalls.step_other {s s' : RingCalls} {client side : Bool} {action : RingAction}
    (hne : client ≠ side) (hstep : s.step (side, action) = some s') :
    s'.streams client = s.streams client ∧ s'.intf.ring client = s.intf.ring client ∧
      s'.intf.cons client = s.intf.cons client ∧ s'.intf.prod client = s.intf.prod client := by
  obtain rfl : side = !client := by cases client <;> cases side <;> simp_all
  simp only [RingCalls.step] at hstep
  split at hstep
  case h_1 | h_4 =>
    split at hstep <;> cases hstep <;> simp [RingCalls.update]
  case h_7 => cases hstep
  all_goals
    cases hstep
    cases client <;> simp [RingCalls.update, ringWriteCopy, ringWriteEnd, ringReadEnd,
      XenstoreDomainInterface.ring, XenstoreDomainInterface.cons, XenstoreDomainInterface.prod]

theorem RingCalls.Carries.step_same {s s' : RingCalls} {client : Bool} {action : RingAction}
    (h : s.Carries client) (hstep : s.step (client, action) = some s') : s'.Carries client := by
  have hstream := h.stream
  simp only [RingCalls.step] at hstep
  split at hstep
  case h_1 data hw =>
    obtain ⟨n, hload, hn⟩ := ringWriteLoad_spec data hstream.bound
    have hfit : (s.intf.prod client - s.intf.cons client).toNat + (data.take n).length ≤
        xenstoreRingSize := by
      have hbound := hstream.bound
      have hroom := hn.le_room
      rw [hn.length_take]
      omega
    rw [hload] at hstep
    cases hstep
    refine ⟨by simpa using hstream.loadWrite hfit, ?_, by simpa using h.readPiece⟩
    rintro off piece hw
    rw [RingCalls.update_same] at hw
    cases hw
    rw [hn.length_take]
    exact hn.inside
  case h_2 off piece hw =>
    cases hstep
    have hend := h.writePiece off piece hw
    rw [hw] at hstream
    exact ⟨by simpa using hstream.blitIn hend, by simp, by simpa using h.readPiece⟩
  case h_3 piece hw =>
    cases hstep
    rw [hw] at hstream
    exact ⟨by simpa using hstream.publishWrite, by simp, by simpa using h.readPiece⟩
  case h_4 len hr =>
    obtain ⟨n, hload, hn⟩ := ringReadLoad_spec len hstream.bound
    rw [hload] at hstep
    cases hstep
    exact ⟨by simpa using hstream.loadRead hn.le_room, by simpa using h.writePiece,
      by simpa using hn.inside⟩
  case h_5 off n hr =>
    cases hstep
    have hend := h.readPiece off n hr
    rw [hr] at hstream
    exact ⟨by simpa [ringReadCopy] using hstream.sliceOut hend, by simpa using h.writePiece,
      by simp⟩
  case h_6 piece hr =>
    cases hstep
    rw [hr] at hstream
    exact ⟨by simpa using hstream.publishRead, by simpa using h.writePiece, by simp⟩
  case h_7 => cases hstep

theorem RingCalls.Carries.step {s s' : RingCalls} {client : Bool} {label : Bool × RingAction}
    (h : s.Carries client) (hstep : s.step label = some s') : s'.Carries client := by
  obtain ⟨side, action⟩ := label
  by_cases hside : client = side
  · subst hside
    exact h.step_same hstep
  · obtain ⟨hstream, hring, hcons, hprod⟩ := RingCalls.step_other hside hstep
    exact ⟨by rw [hstream, hring, hcons, hprod]; exact h.stream,
      by rw [hstream]; exact h.writePiece, by rw [hstream]; exact h.readPiece⟩

theorem RingCalls.start_carries {intf : XenstoreDomainInterface} {client : Bool}
    (h : intf.prod client = intf.cons client) : (RingCalls.start intf).Carries client :=
  ⟨Stream.start xenstoreRingSize_dvd _ h, by simp [RingCalls.start, Link.start],
    by simp [RingCalls.start, Link.start]⟩

/-- Whatever the two sides do and however their calls cut into each other, a stream whose
indexes were equal at the start never holds more than the ring does, gives its bytes back in
the order it took them, and still has the others. -/
theorem ringCalls_fifo {intf : XenstoreDomainInterface} {client : Bool}
    (h : intf.prod client = intf.cons client) {labels : List (Bool × RingAction)} {s : RingCalls}
    (hrun : Machine.run RingCalls.step (RingCalls.start intf) labels = some s) :
    (s.intf.prod client - s.intf.cons client).toNat ≤ xenstoreRingSize ∧
      (s.streams client).received <+: (s.streams client).sent ∧
      (s.streams client).sent.length =
        (s.streams client).received.length + (s.intf.prod client - s.intf.cons client).toNat := by
  have hcarries : s.Carries client :=
    Machine.run_keeps (fun _ _ _ hs hstep => RingCalls.Carries.step hs hstep)
      (RingCalls.start_carries h) hrun
  exact ⟨hcarries.stream.bound, hcarries.stream.unread⟩

/-- Three bytes over the wrap of the index, the last two still unread while the next call
has already copied. -/
theorem ringCalls_fifo_wrap :
    let intf : XenstoreDomainInterface :=
      ⟨fun _ => 0, fun _ => 0, 4294967295, 4294967295, 7, 7⟩
    let labels : List (Bool × RingAction) :=
      [(true, .writeLoad [1, 2, 3]), (true, .writeCopy), (true, .writeEnd),
        (true, .writeLoad [2, 3]), (true, .readLoad 8), (true, .writeCopy), (true, .readCopy),
        (true, .writeEnd), (true, .readEnd), (true, .writeLoad [4]), (true, .writeCopy)]
    intf.prod true = intf.cons true ∧
      ∃ s, Machine.run RingCalls.step (RingCalls.start intf) labels = some s ∧
        (s.streams true).sent = [1, 2, 3] ∧ s.intf.prod true = 2 ∧
        (s.streams true).received <+: (s.streams true).sent := by
  intro intf labels
  have hshape : (Machine.run RingCalls.step (RingCalls.start intf) labels).map
      (fun s => ((s.streams true).sent, s.intf.prod true)) = some ([1, 2, 3], 2) := by
    decide +kernel
  obtain ⟨s, hrun, hs⟩ := Option.map_eq_some_iff.mp hshape
  obtain ⟨hsent, hprod⟩ := Prod.mk.inj hs
  exact ⟨rfl, s, hrun, hsent, hprod, (ringCalls_fifo rfl hrun).2.1⟩

end Xenlib
