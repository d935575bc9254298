import Xenlib.Vchan
import Mathlib.Data.Nat.Bitwise

/-!
The bytes a transfer touches when the peer has put anything in the indexes. The distance of the
indexes is not held against the size of the ring, so that the second copy can run past its end.
-/

set_option autoImplicit false

namespace Xenlib

open Cyclic

/-- The two copies of a transfer: up to the end of the ring, and on from its start. -/
def copyOffsets (ringSize idx size : Nat) : List Nat :=
  let chunk := min (ringSize - idx) size
  (List.range chunk).map (idx + ·) ++ List.range (size - chunk)

/-- The offsets of the ring that `vch_read` reads. -/
def vchReadOffsets (h : VchHandle) (ring : VchanInterface) (buf : Bool) (size : Nat) : List Nat :=
  match vchReadLoad h ring buf size with
  | .ok (_, some (idx, size)) => copyOffsets (2 ^ h.readOrd) idx size
  | _ => []

/-- The offsets of the ring that `vch_write` writes. -/
def vchWriteOffsets (h : VchHandle) (ring : VchanInterface) (buf : Option Bytes) : List Nat :=
  match vchWriteLoad h ring buf with
  | .ok (_, some (idx, data)) => copyOffsets (2 ^ h.writeOrd) idx data.length
  | _ => []

/-- The bytes read are those at the offsets. -/
theorem vchReadCopy_eq_offsets (h : VchHandle) (ring : VchanInterface) (idx size : Nat) :
    vchReadCopy h ring idx size =
      (copyOffsets (2 ^ h.readOrd) idx size).map fun o => ring.page (h.readCbuf + o) := by
  simp [vchReadCopy, copyOffsets, slice, Function.comp_def, Nat.add_assoc]

theorem vchWriteCopy_outside {h : VchHandle} {ring : VchanInterface} {idx : Nat} {data : Bytes}
    {i : Nat} (hi : ∀ o ∈ copyOffsets (2 ^ h.writeOrd) idx data.length, i ≠ h.writeCbuf + o) :
    (vchWriteCopy h ring idx data).page i = ring.page i := by
  have hfirst : ∀ j, j < min (2 ^ h.writeOrd - idx) data.length → i ≠ h.writeCbuf + (idx + j) :=
    fun j hj => hi _ (List.mem_append_left _ (List.mem_map_of_mem (List.mem_range.mpr hj)))
  have hrest : ∀ j, j < data.length - min (2 ^ h.writeOrd - idx) data.length →
      i ≠ h.writeCbuf + j :=
    fun j hj => hi _ (List.mem_append_right _ (List.mem_range.mpr hj))
  have houtside {buf : Nat → UInt8} {off : Nat} {bytes : Bytes}
      (h : ∀ j, j < bytes.length → i ≠ off + j) : blit buf off bytes i = buf i := by
    by_cases hlt : i < off
    · exact blit_below _ hlt
    · refine blit_above ?_
      by_contra hin
      exact h (i - off) (by omega) (by omega)
  simp only [vchWriteCopy]
  rw [houtside fun j hj => hrest j (by simpa using hj)]
  refine houtside fun j hj => ?_
  have := hfirst j (by simpa using hj)
  omega

theorem copyOffsets_below_iff {ringSize idx size : Nat} (hidx : idx < ringSize) :
    (∀ o ∈ copyOffsets ringSize idx size, o < ringSize) ↔ size ≤ 2 * ringSize - idx := by
  constructor
  · intro h
    by_contra hbig
    have hmem : ringSize ∈ copyOffsets ringSize idx size :=
      List.mem_append_right _ (List.mem_range.mpr (by omega))
    exact absurd (h ringSize hmem) (lt_irrefl _)
  · intro h o ho
    rcases List.mem_append.mp ho with ho | ho
    · obtain ⟨j, hj, rfl⟩ := List.mem_map.mp ho
      have := List.mem_range.mp hj
      omega
    · have := List.mem_range.mp ho
      omega

theorem index_below (index : UInt32) (order : Nat) :
    index.toNat &&& (2 ^ order - 1) = index.toNat % 2 ^ order ∧
      index.toNat &&& (2 ^ order - 1) < 2 ^ order := by
  rw [Nat.and_two_pow_sub_one_eq_mod]
  exact ⟨rfl, Nat.mod_lt _ (Nat.two_pow_pos order)⟩

/-- There is nothing to copy, or the copies end before the index comes round again. -/
def ReadFits (h : VchHandle) (ring : VchanInterface) (buf : Bool) (size : Nat) : Prop :=
  vchIsLive h ring = true → buf = true → min size (vchGetRdAvail h ring) ≤
    2 * 2 ^ h.readOrd - (ring.shared h.read).cons.toNat % 2 ^ h.readOrd

def WriteFits (h : VchHandle) (ring : VchanInterface) (buf : Option Bytes) : Prop :=
  vchIsLive h ring = true → ∀ data ∈ buf, min data.length (vchGetWrAvail h ring) ≤
    2 * 2 ^ h.writeOrd - (ring.shared h.write).prod.toNat % 2 ^ h.writeOrd

theorem vchReadOffsets_below_iff (h : VchHandle) (ring : VchanInterface) (buf : Bool) (size : Nat) :
    (∀ o ∈ vchReadOffsets h ring buf size, o < 2 ^ h.readOrd) ↔ ReadFits h ring buf size := by
  obtain ⟨hidx, hlt⟩ := index_below (ring.shared h.read).cons h.readOrd
  unfold vchReadOffsets vchReadLoad ReadFits
  cases hlive : vchIsLive h ring with
  | false => simp
  | true =>
    cases buf with
    | false => by_cases havail : vchGetRdAvail h ring = 0 <;> simp [havail]
    | true =>
      by_cases havail : vchGetRdAvail h ring = 0
      · simp [havail]
      · simp only [Bool.not_true, Bool.false_eq_true, if_false, havail, ne_eq, not_false_eq_true,
          if_true, forall_const]
        rw [copyOffsets_below_iff hlt, hidx]

theorem vchWriteOffsets_below_iff (h : VchHandle) (ring : VchanInterface) (buf : Option Bytes) :
    (∀ o ∈ vchWriteOffsets h ring buf, o < 2 ^ h.writeOrd) ↔ WriteFits h ring buf := by
  obtain ⟨hidx, hlt⟩ := index_below (ring.shared h.write).prod h.writeOrd
  unfold vchWriteOffsets vchWriteLoad WriteFits
  cases hlive : vchIsLive h ring with
  | false => simp
  | true =>
    cases buf with
    | none => by_cases havail : vchGetWrAvail h ring = 0 <;> simp [havail]
    | some data =>
      by_cases havail : vchGetWrAvail h ring = 0
      · simp [havail]
      · simp only [Bool.not_true, Bool.false_eq_true, if_false, havail, ne_eq, not_false_eq_true,
          if_true, forall_const, Option.mem_def, Option.some.injEq, forall_eq']
        rw [copyOffsets_below_iff hlt, hidx, List.length_take]
        omega

end Xenlib
