import Xenlib.RingStreams

/-!
The ring calls when the other side has put anything in the indexes. A call fails before it
touches the page, or stays in its array and moves nothing but its own index.
-/

set_option autoImplicit false

namespace Xenlib

open Cyclic

/-- The page after a call, which gives up before it stores anything. -/
def pageAfter {α : Type} (intf : XenstoreDomainInterface) :
    Except Errno (α × XenstoreDomainInterface) → XenstoreDomainInterface
  | .ok (_, intf') => intf'
  | .error _ => intf

/-- A write of `n` bytes, all of them in the array of the stream. -/
structure RingWritten (intf : XenstoreDomainInterface) (data : Bytes) (client : Bool) (n : Nat)
    (intf' : XenstoreDomainInterface) : Prop where
  piece : RingPiece (intf.prod client)
    (xenstoreRingSize - (intf.prod client - intf.cons client).toNat) data.length n
  page : intf' = ringWriteEnd (ringWriteCopy intf ((intf.prod client).toNat % xenstoreRingSize)
    (data.take n) client) n client
  bound : (intf'.prod client - intf'.cons client).toNat ≤ xenstoreRingSize

/-- A read of `bytes`, all of them from the array of the other side's stream. -/
structure RingTaken (intf : XenstoreDomainInterface) (len : Nat) (client : Bool) (bytes : Bytes)
    (intf' : XenstoreDomainInterface) : Prop where
  piece : RingPiece (intf.cons (!client)) (intf.prod (!client) - intf.cons (!client)).toNat len
    bytes.length
  copied : bytes = ringReadCopy intf ((intf.cons (!client)).toNat % xenstoreRingSize) bytes.length
    client
  page : intf' = ringReadEnd intf bytes.length client
  bound : (intf'.prod (!client) - intf'.cons (!client)).toNat ≤ xenstoreRingSize

section Call
variable {intf : XenstoreDomainInterface} {client : Bool}

theorem xenstoreCheckIndexes_eq_true {cons prod : UInt32} :
    xenstoreCheckIndexes cons prod = true ↔ xenstoreRingSize < (prod - cons).toNat := by
  rw [← Bool.not_eq_false, xenstoreCheckIndexes_eq_false, Nat.not_le]

theorem ringWriteLoad_error (data : Bytes)
    (h : xenstoreRingSize < (intf.prod client - intf.cons client).toNat) :
    ringWriteLoad intf data client = .error .einval := by
  simp [ringWriteLoad, xenstoreCheckIndexes_eq_true.mpr h]

theorem ringReadLoad_error (len : Nat)
    (h : xenstoreRingSize < (intf.prod (!client) - intf.cons (!client)).toNat) :
    ringReadLoad intf len client = .error .eio := by
  simp [ringReadLoad, xenstoreCheckIndexes_eq_true.mpr h]

theorem xenstoreRingWrite_error (data : Bytes)
    (h : xenstoreRingSize < (intf.prod client - intf.cons client).toNat) :
    xenstoreRingWrite intf data client = .error .einval := by
  rw [xenstoreRingWrite_parts, ringWriteLoad_error data h]
  rfl

theorem xenstoreRingRead_error (len : Nat)
    (h : xenstoreRingSize < (intf.prod (!client) - intf.cons (!client)).toNat) :
    xenstoreRingRead intf len client = .error .eio := by
  rw [xenstoreRingRead_parts, ringReadLoad_error len h]
  rfl

theorem xenstoreRingWrite_ok (data : Bytes)
    (h : (intf.prod client - intf.cons client).toNat ≤ xenstoreRingSize) :
    ∃ n intf', xenstoreRingWrite intf data client = .ok (n, intf') ∧
      RingWritten intf data client n intf' := by
  obtain ⟨n, hload, hn⟩ := ringWriteLoad_spec data h
  refine ⟨n, _, ?_, hn, rfl, ?_⟩
  · rw [xenstoreRingWrite_parts, hload]
    simp only [Except.map, hn.length_take]
  · have hroom := hn.le_room
    simp only [ringWriteEnd_same, ringWriteCopy_same]
    rw [distance_advance xenstoreRingSize_dvd.2 (by omega)]
    omega

theorem xenstoreRingRead_ok (len : Nat)
    (h : (intf.prod (!client) - intf.cons (!client)).toNat ≤ xenstoreRingSize) :
    ∃ bytes intf', xenstoreRingRead intf len client = .ok (bytes, intf') ∧
      RingTaken intf len client bytes intf' := by
  obtain ⟨n, hload, hn⟩ := @ringReadLoad_spec intf (!client) len h
  have hlen : (ringReadCopy intf ((intf.cons (!client)).toNat % xenstoreRingSize) n client).length =
      n := by simp [ringReadCopy, slice]
  have hend := ringReadEnd_same intf n !client
  rw [Bool.not_not] at hload hend
  refine ⟨_, _, ?_, ⟨by rw [hlen]; exact hn, by rw [hlen], rfl, ?_⟩⟩
  · rw [xenstoreRingRead_parts, hload]
    simp only [Except.map, hlen]
  · have hroom := hn.le_room
    rw [hlen, hend.2.1, hend.2.2, distance_follow hroom]
    omega

end Call

/-- Whatever the four indexes are, a call of either side fails exactly when the indexes of its
stream are more than the ring apart, and leaves the page as it is; else what it moves lies in the
array, no index but its own moves, and nothing is left to do where it moves nothing. -/
theorem ringAccess_bounded (intf : XenstoreDomainInterface) (client : Bool) :
    (∀ data,
      ((∃ e, xenstoreRingWrite intf data client = .error e) ↔
        xenstoreRingSize < (intf.prod client - intf.cons client).toNat) ∧
      (∀ e, xenstoreRingWrite intf data client = .error e →
        pageAfter intf (xenstoreRingWrite intf data client) = intf) ∧
      ∀ n intf', xenstoreRingWrite intf data client = .ok (n, intf') →
        RingWritten intf data client n intf') ∧
    ∀ len,
      ((∃ e, xenstoreRingRead intf len client = .error e) ↔
        xenstoreRingSize < (intf.prod (!client) - intf.cons (!client)).toNat) ∧
      (∀ e, xenstoreRingRead intf len client = .error e →
        pageAfter intf (xenstoreRingRead intf len client) = intf) ∧
      ∀ bytes intf', xenstoreRingRead intf len client = .ok (bytes, intf') →
        RingTaken intf len client bytes intf' := by
  constructor
  · intro data
    by_cases h : (intf.prod client - intf.cons client).toNat ≤ xenstoreRingSize
    · obtain ⟨n, intf', hrun, hn⟩ := xenstoreRingWrite_ok data h
      rw [hrun]
      refine ⟨by simp [h], by simp, ?_⟩
      rintro m intf'' heq
      cases heq
      exact hn
    · rw [xenstoreRingWrite_error data (Nat.not_le.mp h)]
      exact ⟨by simpa using h, by simp [pageAfter], by simp⟩
  · intro len
    by_cases h : (intf.prod (!client) - intf.cons (!client)).toNat ≤ xenstoreRingSize
    · obtain ⟨bytes, intf', hrun, hn⟩ := @xenstoreRingRead_ok intf client len h
      rw [hrun]
      refine ⟨by simp [h], by simp, ?_⟩
      rintro bs intf'' heq
      cases heq
      exact hn
    · rw [xenstoreRingRead_error len (Nat.not_le.mp h)]
      exact ⟨by simpa using h, by simp [pageAfter], by simp⟩

/-- A part of a call, or anything at all put into the page from outside. -/
def RingCalls.hostileStep (s : RingCalls) :
    (Bool × RingAction) ⊕ XenstoreDomainInterface → Option RingCalls
  | .inl label => s.step label
  | .inr intf => some { s with intf := intf }

/-- The copies that were begun do not pass the end of the array. -/
structure RingCalls.Inside (s : RingCalls) : Prop where
  writePiece : ∀ client off piece, (s.streams client).writer = .loaded off piece →
    off + piece.length ≤ xenstoreRingSize
  readPiece : ∀ client off n, (s.streams client).reader = .loaded off n →
    off + n ≤ xenstoreRingSize

theorem RingCalls.Inside.update {s : RingCalls} (h : s.Inside) {client : Bool}
    {intf : XenstoreDomainInterface} {stream : Link UInt8}
    (hw : ∀ off piece, stream.writer = .loaded off piece → off + piece.length ≤ xenstoreRingSize)
    (hr : ∀ off n, stream.reader = .loaded off n → off + n ≤ xenstoreRingSize) :
    (s.update client intf stream).Inside := by
  constructor
  · intro side off piece hload
    by_cases hside : side = client
    · subst hside
      exact hw off piece (by simpa using hload)
    · exact h.writePiece side off piece (by simpa [RingCalls.update, hside] using hload)
  · intro side off n hload
    by_cases hside : side = client
    · subst hside
      exact hr off n (by simpa using hload)
    · exact h.readPiece side off n (by simpa [RingCalls.update, hside] using hload)

theorem RingCalls.Inside.step {s s' : RingCalls} {label : Bool × RingAction} (h : s.Inside)
    (hstep : s.step label = some s') : s'.Inside := by
  obtain ⟨client, action⟩ := label
  have hw := h.writePiece client
  have hr := h.readPiece client
  simp only [RingCalls.step] at hstep
  split at hstep
  case h_1 data hidle =>
    by_cases hidx : (s.intf.prod client - s.intf.cons client).toNat ≤ xenstoreRingSize
    · obtain ⟨n, hload, hn⟩ := ringWriteLoad_spec data hidx
      rw [hload] at hstep
      cases hstep
      refine h.update ?_ hr
      rintro off piece heq
      cases heq
      rw [hn.length_take]
      exact hn.inside
    · rw [ringWriteLoad_error data (Nat.not_le.mp hidx)] at hstep
      cases hstep
      exact h
  case h_4 len hidle =>
    by_cases hidx : (s.intf.prod client - s.intf.cons client).toNat ≤ xenstoreRingSize
    · obtain ⟨n, hload, hn⟩ := ringReadLoad_spec len hidx
      rw [hload] at hstep
      cases hstep
      refine h.update hw ?_
      rintro off m heq
      cases heq
      exact hn.inside
    · rw [@ringReadLoad_error _ (!client) len (by simpa using hidx)] at hstep
      cases hstep
      exact h
  case h_7 => cases hstep
  all_goals
    cases hstep
    first
    | exact h.update (by simp) hr
    | exact h.update hw (by simp)

theorem RingCalls.Inside.hostileStep {s s' : RingCalls}
    {label : (Bool × RingAction) ⊕ XenstoreDomainInterface} (h : s.Inside)
    (hstep : s.hostileStep label = some s') : s'.Inside := by
  cases label with
  | inl label => exact h.step hstep
  | inr intf =>
    cases hstep
    exact ⟨h.writePiece, h.readPiece⟩

/-- Whatever is put into the page, between two calls or in the middle of one, no copy of either
side leaves the array. -/
theorem ringCalls_inside (intf : XenstoreDomainInterface)
    {labels : List ((Bool × RingAction) ⊕ XenstoreDomainInterface)} {s : RingCalls}
    (hrun : Machine.run RingCalls.hostileStep (RingCalls.start intf) labels = some s) :
    s.Inside :=
  Machine.run_keeps (fun _ _ _ hs hstep => RingCalls.Inside.hostileStep hs hstep)
    ⟨by simp [RingCalls.start, Link.start], by simp [RingCalls.start, Link.start]⟩ hrun

end Xenlib
