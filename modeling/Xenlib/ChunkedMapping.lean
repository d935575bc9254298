import Xenlib.Extents

/-!
A region that is mapped and unmapped again. The batches of a mapping are one range of foreign
frames, and those of the population when it is undone are the frames of the block.
-/

set_option autoImplicit false

namespace Xenlib

section
variable {chunk : Nat} {calls : MemCalls}

def PhysMap.mapForeign (pm : PhysMap) (domid basePfn baseGfn count : Nat) : PhysMap :=
  pm.addForeign domid basePfn baseGfn count fun _ => 0

theorem PhysMap.mapForeign_zero (pm : PhysMap) (domid basePfn baseGfn : Nat) :
    pm.mapForeign domid basePfn baseGfn 0 = pm := by
  funext p
  exact if_neg (by omega)

theorem PhysMap.mapForeign_mapForeign (pm : PhysMap) (domid basePfn baseGfn m n : Nat) :
    (pm.mapForeign domid basePfn baseGfn m).mapForeign domid (basePfn + m) (baseGfn + m) n =
      pm.mapForeign domid basePfn baseGfn (m + n) := by
  funext p
  simp only [PhysMap.mapForeign, PhysMap.addForeign, and_true]
  by_cases hp : basePfn + m ≤ p ∧ p < basePfn + m + n
  · rw [if_pos hp, if_pos (by omega)]
    congr 1
    omega
  · rw [if_neg hp]
    by_cases hq : basePfn ≤ p ∧ p < basePfn + m
    · rw [if_pos hq, if_pos (by omega)]
    · rw [if_neg hq, if_neg (by omega)]

structure AllSucceed (calls : MemCalls) : Prop where
  remove : ∀ i, 0 ≤ calls.removeRc i
  add : ∀ k, 0 ≤ calls.addRc k
  addErr : ∀ i, calls.addErr i = 0
  populate : ∀ k n, calls.populateRet k n = n

theorem addToPhysmapLoop_all (h : AllSucceed calls) (hpos : 0 < chunk) (domid : Nat)
    {nrPages fuel i : Nat} (hi : i ≤ nrPages) (hfuel : nrPages - i ≤ fuel)
    (k basePfn baseGfn : Nat) (pm : PhysMap) :
    addToPhysmapLoop chunk calls domid nrPages fuel k i basePfn baseGfn pm =
      (nrPages, pm.mapForeign domid basePfn baseGfn (nrPages - i)) := by
  induction fuel generalizing i k basePfn baseGfn pm with
  | zero =>
    have hend : i = nrPages := by omega
    simp [addToPhysmapLoop, hend, PhysMap.mapForeign_zero]
  | succ fuel ih =>
    by_cases hlt : i < nrPages
    · generalize hiter : min (nrPages - i) chunk = iter
      have hbatch : (pm.addForeign domid basePfn baseGfn iter fun j => calls.addErr (i + j)) =
          pm.mapForeign domid basePfn baseGfn iter := by
        simp only [h.addErr, PhysMap.mapForeign]
      have hnone : (List.range iter).find? (fun j => calls.addErr (i + j) ≠ 0) = none := by
        simp [h.addErr]
      have hrc : ¬ calls.addRc k < 0 := Int.not_lt.mpr (h.add k)
      simp only [addToPhysmapLoop, if_pos hlt, if_neg hrc, hiter, hbatch, hnone]
      -- the batch and the rest are one range
      rw [ih (by omega) (by omega), PhysMap.mapForeign_mapForeign,
        show iter + (nrPages - (i + iter)) = nrPages - i by omega]
    · have hend : i = nrPages := by omega
      simp [addToPhysmapLoop, hend, PhysMap.mapForeign_zero]

theorem regionSpaceRemove_all (h : AllSucceed calls) (basePfn nrPages : Nat) (pm : PhysMap) :
    regionSpaceRemove calls.removeRc basePfn nrPages pm =
      (nrPages, pm.removeRange basePfn nrPages) := by
  obtain ⟨n, hle, hiff, hrun⟩ := regionSpaceRemove_spec calls.removeRc basePfn nrPages pm
  have hall : n = nrPages := by
    by_contra hne
    obtain ⟨j, -, hj⟩ := hiff.mp (by omega)
    have := h.remove j
    omega
  rw [hrun, hall]

/-- The frames of the region are those of the guest, and no other frame of Dom0 has changed. -/
structure RegionMapped (domid base baseGfn nrPages : Nat) (pm pm' : PhysMap) : Prop where
  mapped : ∀ k < nrPages, pm' (base + k) = .foreign domid (baseGfn + k)
  others : ∀ p, ¬ (base ≤ p ∧ p < base + nrPages) → pm' p = pm p

/-- The call is undone, and the extents populated on the way are the frames of the region. -/
structure RegionUnmapped (chunk : Nat) (calls : MemCalls) (base nrPages : Nat)
    (pm pm' : PhysMap) : Prop where
  restored : xenmemUnmapRegion chunk calls nrPages base pm' = (.ok (), pm)
  once : populateExtents chunk calls.populateRet base 0 nrPages =
    (nrPages, (List.range nrPages).map (extent base 0))

/-- When the hypercalls succeed the batches of `xenmem_map_region` map the region frame by frame,
and `xenmem_unmap_region` gives each of its frames back to Dom0 once. -/
theorem mapped_region_unmapped {undo : MemCalls} {nrPages base v : Nat} {pm : PhysMap}
    (hpos : 0 < chunk) (hchunk : chunk < 2 ^ 31) (hpages : 0 < nrPages) (hnr : nrPages < 2 ^ 64)
    (hbase : base < 2 ^ 64) (h : AllSucceed calls) (halloc : calls.alignedAlloc = some base)
    (hundo : AllSucceed undo) (hown : ∀ i < nrPages, pm (base + i) = .own)
    (domid baseGfn : Nat) :
    ∃ pm', xenmemMapRegion chunk calls domid nrPages baseGfn (some v) pm = (.ok base, pm') ∧
      RegionMapped domid base baseGfn nrPages pm pm' ∧
      RegionUnmapped chunk undo base nrPages pm pm' := by
  have hstep : chunk * 2 ^ 0 < 2 ^ 32 := by omega
  have hadd : ∀ pm, xendomAddToPhysmapBatchByChunks chunk calls domid base baseGfn nrPages pm =
      (nrPages, pm.mapForeign domid base baseGfn nrPages) :=
    fun pm => addToPhysmapLoop_all h hpos domid (Nat.zero_le _) (by omega) 0 base baseGfn pm
  have hspace : getRegionSpace chunk calls nrPages pm =
      (some base, pm.removeRange base nrPages) := by
    have hne : nrPages ≠ 0 := by omega
    simp only [getRegionSpace, halloc, regionSpaceRemove_all h, if_neg hne, ne_eq,
      not_true_eq_false, if_false]
  refine ⟨(pm.removeRange base nrPages).mapForeign domid base baseGfn nrPages, ?_, ⟨?_, ?_⟩, ?_, ?_⟩
  · simp only [xenmemMapRegion, hspace, hadd, ne_eq, not_true_eq_false, if_false]
  · intro k hk
    simp only [PhysMap.mapForeign, PhysMap.addForeign, and_true]
    rw [if_pos (by omega), Nat.add_sub_cancel_left]
  · intro p hp
    simp only [PhysMap.mapForeign, PhysMap.addForeign, PhysMap.removeRange, and_true, if_neg hp]
  · have hremoved :
        ((pm.removeRange base nrPages).mapForeign domid base baseGfn nrPages).removeRange
          base nrPages = pm.removeRange base nrPages := by
      funext p
      simp only [PhysMap.removeRange, PhysMap.mapForeign, PhysMap.addForeign, and_true]
      split <;> rfl
    simp only [xenmemUnmapRegion, putRegionSpace, regionSpaceRemove_all hundo, hremoved, ne_eq,
      not_true_eq_false, if_false,
      xenmemPopulatePhysmap_all hpos hstep hnr hundo.populate, PhysMap.populate_removeRange hown]
  · have hcount : (populateExtents chunk undo.populateRet base 0 nrPages).1 = nrPages := by
      rw [← xenmemPopulatePhysmap_count chunk undo base 0 nrPages pm,
        xenmemPopulatePhysmap_all hpos hstep hnr hundo.populate]
    have hcounts : CountsExtents base 0 nrPages
        (populateExtents chunk undo.populateRet base 0 nrPages) := by
      refine populateExtentsLoop_counts ⟨fun k n => ?_, fun k n => ?_⟩ hnr hpos base (by simp)
        (by omega) (fun _ _ => by omega) (fun _ => ?_) (fun k _ _ _ => ?_)
      · exact Int.le_of_eq (by rw [hundo.populate])
      · rw [hundo.populate]
        omega
      · unfold StepFits
        rw [Nat.shiftLeft_zero]
        omega
      · rw [hundo.populate]
        exact Int.natCast_nonneg _
    refine Prod.ext hcount ?_
    rw [hcounts.extents, hcount]

end

/-- Ten pages in batches of four: two full ones and half of a third. -/
theorem mapped_region_unmapped_ten :
    ∃ pm', xenmemMapRegion 4 (callsWithErrors 100 fun _ => 0) 1 10 50 (some 7) (fun _ => .own) =
        (.ok 100, pm') ∧
      RegionMapped 1 100 50 10 (fun _ => .own) pm' ∧
      RegionUnmapped 4 (callsWithErrors 100 fun _ => 0) 100 10 (fun _ => .own) pm' :=
  have hcalls : AllSucceed (callsWithErrors 100 fun _ => 0) :=
    ⟨fun _ => Int.le_refl 0, fun _ => Int.le_refl 0, fun _ => rfl, fun _ _ => rfl⟩
  mapped_region_unmapped (by decide) (by decide) (by decide) (by decide) (by decide) hcalls rfl
    hcalls (fun _ _ => rfl) 1 50

end Xenlib
