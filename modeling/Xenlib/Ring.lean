import Xenlib.CString
import Xenlib.Lib.Stream

/-!
The page shared with a guest: the wire header and the two rings (`xs_wire.h`,
`xenstore_common.c`). Positions are 32-bit counters that are masked only when the
array is accessed.
-/

set_option autoImplicit false

namespace Xenlib

open Cyclic

def u32Bytes (n : UInt32) : Bytes :=
  [UInt8.ofNat n.toNat, UInt8.ofNat (n.toNat / 256), UInt8.ofNat (n.toNat / 65536),
    UInt8.ofNat (n.toNat / 16777216)]

def u32At (bs : Bytes) (off : Nat) : UInt32 :=
  UInt32.ofNat ((bs.getD off 0).toNat + 256 * (bs.getD (off + 1) 0).toNat +
    65536 * (bs.getD (off + 2) 0).toNat + 16777216 * (bs.getD (off + 3) 0).toNat)

structure XsdSockmsg where
  type : UInt32
  reqId : UInt32
  txId : UInt32
  len : UInt32
  deriving DecidableEq, Repr

def headerSize : Nat := 16

def XsdSockmsg.bytes (h : XsdSockmsg) : Bytes :=
  u32Bytes h.type ++ u32Bytes h.reqId ++ u32Bytes h.txId ++ u32Bytes h.len

def XsdSockmsg.ofBytes (bs : Bytes) : XsdSockmsg :=
  ⟨u32At bs 0, u32At bs 4, u32At bs 8, u32At bs 12⟩

@[simp] theorem XsdSockmsg.bytes_length (h : XsdSockmsg) : h.bytes.length = headerSize := rfl

theorem u32_join (n : UInt32) :
    UInt32.ofNat ((UInt8.ofNat n.toNat).toNat + 256 * (UInt8.ofNat (n.toNat / 256)).toNat +
      65536 * (UInt8.ofNat (n.toNat / 65536)).toNat +
      16777216 * (UInt8.ofNat (n.toNat / 16777216)).toNat) = n := by
  have hn : n.toNat < 4294967296 := n.toNat_lt
  apply UInt32.toNat_inj.mp
  simp only [UInt8.toNat_ofNat', UInt32.toNat_ofNat']
  omega

theorem XsdSockmsg.ofBytes_bytes (h : XsdSockmsg) (tail : Bytes) :
    XsdSockmsg.ofBytes (h.bytes ++ tail) = h := by
  obtain ⟨a, b, c, d⟩ := h
  simp only [XsdSockmsg.ofBytes, XsdSockmsg.bytes, u32Bytes, u32At, List.cons_append,
    List.nil_append, List.getD_cons_zero, List.getD_cons_succ, Nat.reduceAdd]
  rw [u32_join a, u32_join b, u32_join c, u32_join d]

def xenstoreRingSize : Nat := 1024

structure XenstoreDomainInterface where
  req : Nat → UInt8
  rsp : Nat → UInt8
  reqCons : UInt32
  reqProd : UInt32
  rspCons : UInt32
  rspProd : UInt32

def maskXenstoreIdx (idx : UInt32) : Nat := (idx &&& 1023).toNat

def xenstoreCheckIndexes (cons prod : UInt32) : Bool := 1024 < prod - cons

def xenstoreGetInputOffset (cons prod : UInt32) : Nat × Nat :=
  let delta := (prod - cons).toNat
  let len := xenstoreRingSize - maskXenstoreIdx cons
  (maskXenstoreIdx cons, if delta < len then delta else len)

def getOutputOffset (cons prod : UInt32) : Nat × Nat :=
  let freeSpace := (1024 - (prod - cons)).toNat
  let len := xenstoreRingSize - maskXenstoreIdx prod
  (maskXenstoreIdx prod, if freeSpace < len then freeSpace else len)

/-- Copy as much of `data` as fits in one piece; the result is the number of bytes copied. -/
def xenstoreRingWrite (intf : XenstoreDomainInterface) (data : Bytes) (client : Bool) :
    Except Errno (Nat × XenstoreDomainInterface) :=
  let cons := if client then intf.reqCons else intf.rspCons
  let prod := if client then intf.reqProd else intf.rspProd
  if xenstoreCheckIndexes cons prod then .error .einval
  else
    let (off, avail) := getOutputOffset cons prod
    let len := if avail < data.length then avail else data.length
    if client then
      .ok (len, { intf with
        req := blit intf.req off (data.take len), reqProd := intf.reqProd + UInt32.ofNat len })
    else
      .ok (len, { intf with
        rsp := blit intf.rsp off (data.take len), rspProd := intf.rspProd + UInt32.ofNat len })

/-- Read at most `len` bytes, in one piece. -/
def xenstoreRingRead (intf : XenstoreDomainInterface) (len : Nat) (client : Bool) :
    Except Errno (Bytes × XenstoreDomainInterface) :=
  let cons := if client then intf.rspCons else intf.reqCons
  let prod := if client then intf.rspProd else intf.reqProd
  if xenstoreCheckIndexes cons prod then .error .eio
  else
    let (off, avail) := xenstoreGetInputOffset cons prod
    let len := if avail < len then avail else len
    if client then
      .ok (slice intf.rsp off len, { intf with rspCons := intf.rspCons + UInt32.ofNat len })
    else
      .ok (slice intf.req off len, { intf with reqCons := intf.reqCons + UInt32.ofNat len })

theorem maskXenstoreIdx_eq (idx : UInt32) : maskXenstoreIdx idx = idx.toNat % xenstoreRingSize := by
  unfold maskXenstoreIdx xenstoreRingSize
  rw [UInt32.toNat_and]
  exact Nat.and_two_pow_sub_one_eq_mod idx.toNat 10

theorem maskXenstoreIdx_lt (idx : UInt32) : maskXenstoreIdx idx < xenstoreRingSize := by
  rw [maskXenstoreIdx_eq]
  exact Nat.mod_lt _ (by decide)

theorem xenstoreCheckIndexes_eq_false {cons prod : UInt32} :
    xenstoreCheckIndexes cons prod = false ↔ (prod - cons).toNat ≤ xenstoreRingSize := by
  simp [xenstoreCheckIndexes, xenstoreRingSize, UInt32.le_iff_toNat_le]

theorem xenstoreRingSize_dvd : xenstoreRingSize ∣ 2 ^ 32 ∧ xenstoreRingSize < 2 ^ 32 := by decide

theorem xenstoreGetInputOffset_spec (cons prod : UInt32) :
    (xenstoreGetInputOffset cons prod).1 = cons.toNat % xenstoreRingSize ∧
      (xenstoreGetInputOffset cons prod).2 ≤ (prod - cons).toNat ∧
      cons.toNat % xenstoreRingSize + (xenstoreGetInputOffset cons prod).2 ≤ xenstoreRingSize ∧
      (0 < (prod - cons).toNat → 0 < (xenstoreGetInputOffset cons prod).2) := by
  have hmask := maskXenstoreIdx_lt cons
  simp only [xenstoreGetInputOffset, maskXenstoreIdx_eq, true_and] at hmask ⊢
  split <;> omega

theorem getOutputOffset_spec {cons prod : UInt32} (h : (prod - cons).toNat ≤ xenstoreRingSize) :
    (getOutputOffset cons prod).1 = prod.toNat % xenstoreRingSize ∧
      (prod - cons).toNat + (getOutputOffset cons prod).2 ≤ xenstoreRingSize ∧
      prod.toNat % xenstoreRingSize + (getOutputOffset cons prod).2 ≤ xenstoreRingSize ∧
      ((prod - cons).toNat < xenstoreRingSize → 0 < (getOutputOffset cons prod).2) := by
  have hmask := maskXenstoreIdx_lt prod
  have hfree : (1024 - (prod - cons)).toNat = xenstoreRingSize - (prod - cons).toNat := by
    rw [UInt32.toNat_sub_of_le _ _ (UInt32.le_iff_toNat_le.mpr h)]
    rfl
  simp only [getOutputOffset, maskXenstoreIdx_eq, hfree, true_and] at hmask ⊢
  split <;> omega

/-- A read by the server takes the oldest bytes of the request ring, and at least one when
there is one. -/
theorem xenstoreRingRead_server {intf : XenstoreDomainInterface} (len : Nat)
    (h : (intf.reqProd - intf.reqCons).toNat ≤ xenstoreRingSize) :
    ∃ n, n ≤ len ∧ n ≤ (intf.reqProd - intf.reqCons).toNat ∧
      (0 < len → intf.reqProd ≠ intf.reqCons → 0 < n) ∧
      xenstoreRingRead intf len false =
        .ok (content xenstoreRingSize intf.req intf.reqCons.toNat n,
          { intf with reqCons := intf.reqCons + UInt32.ofNat n }) := by
  have hne : intf.reqProd ≠ intf.reqCons → 0 < (intf.reqProd - intf.reqCons).toNat := by
    intro hne
    have hcons := intf.reqCons.toNat_lt
    have hprod := intf.reqProd.toNat_lt
    rw [← UInt32.toNat_inj.ne] at hne
    rw [UInt32.toNat_sub]
    omega
  obtain ⟨hoff, hle, hend, hpos⟩ := xenstoreGetInputOffset_spec intf.reqCons intf.reqProd
  generalize havail : (xenstoreGetInputOffset intf.reqCons intf.reqProd).2 = avail at hle hend hpos
  refine ⟨if avail < len then avail else len, ?_, ?_, ?_, ?_⟩
  · split <;> omega
  · split <;> omega
  · intro h0 h1
    have := hpos (hne h1)
    split <;> omega
  · have hc : xenstoreCheckIndexes intf.reqCons intf.reqProd = false :=
      xenstoreCheckIndexes_eq_false.mpr h
    have hs : intf.reqCons.toNat % xenstoreRingSize + (if avail < len then avail else len) ≤
        xenstoreRingSize := by split <;> omega
    unfold xenstoreRingRead
    simp only [Bool.false_eq_true, if_false, hc, havail, hoff]
    rw [← slice_eq_content hs]

/-- A write by the server appends to the response ring, and appends something when there is
room. -/
theorem xenstoreRingWrite_server {intf : XenstoreDomainInterface} (data : Bytes)
    (h : (intf.rspProd - intf.rspCons).toNat ≤ xenstoreRingSize) :
    ∃ n, n ≤ data.length ∧ (intf.rspProd - intf.rspCons).toNat + n ≤ xenstoreRingSize ∧
      (0 < data.length → (intf.rspProd - intf.rspCons).toNat < xenstoreRingSize → 0 < n) ∧
      intf.rspProd.toNat % xenstoreRingSize + n ≤ xenstoreRingSize ∧
      xenstoreRingWrite intf data false =
        .ok (n, { intf with
          rsp := blit intf.rsp (intf.rspProd.toNat % xenstoreRingSize) (data.take n)
          rspProd := intf.rspProd + UInt32.ofNat n }) := by
  obtain ⟨hoff, hfit, hend, hpos⟩ := getOutputOffset_spec h
  generalize havail : (getOutputOffset intf.rspCons intf.rspProd).2 = avail at hfit hend hpos
  refine ⟨if avail < data.length then avail else data.length, ?_, ?_, ?_, ?_, ?_⟩
  · split <;> omega
  · split <;> omega
  · intro h0 h1
    have := hpos h1
    split <;> omega
  · split <;> omega
  · have hc : xenstoreCheckIndexes intf.rspCons intf.rspProd = false :=
      xenstoreCheckIndexes_eq_false.mpr h
    unfold xenstoreRingWrite
    simp only [Bool.false_eq_true, if_false, hc, havail, hoff]

end Xenlib
