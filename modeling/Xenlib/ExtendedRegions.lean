import Xenlib.GuestRam

/-!
The extended regions of the device tree against its memory nodes, for every amount of memory and
every width of the guest's physical addresses.
-/

set_option autoImplicit false

namespace Xenlib.GuestRam

def Apart (r m : Nat × Nat) : Prop := r.1 + r.2 ≤ m.1 ∨ m.1 + m.2 ≤ r.1

theorem sum_bankRanges (banks : List (Nat × Nat)) (sizeLeft : Nat) :
    ((bankRanges banks sizeLeft).map Prod.snd).sum = min sizeLeft (banks.map Prod.snd).sum := by
  induction banks generalizing sizeLeft with
  | nil => simp [bankRanges]
  | cons bank banks ih =>
    obtain ⟨bankbase, banksize⟩ := bank
    simp only [bankRanges, List.map_cons, List.sum_cons]
    split
    · simp only [List.map_cons, List.sum_cons, ih]
      omega
    · simp only [List.map_nil, List.sum_nil]
      omega

theorem createMemoryLoop_ranges {fdtRc : Nat → Int} {memsize left : Nat} {fdt fdt' : Fdt}
    (h : createMemoryLoop fdtRc ramBanks memsize fdt = .ok (left, fdt')) :
    memoryRanges false (fdt'.since fdt) = bankRanges ramBanks memsize := by
  have hsince : fdt'.since fdt = (bankRanges ramBanks memsize).flatMap memoryNode := by
    rw [Fdt.since, (createMemoryLoop_ok h).1, List.drop_left]
  rw [hsince, memoryRanges_nodes (bankRanges_cells memsize)]

section Emitted
variable {gpaddrBits memsize : Nat} {fdtRc : Nat → Int} {cfg : XenDomainCfg} {fdt fdt' : Fdt}

theorem emittedRegions_pairwise (hbits : gpaddrBits ≤ 64) :
    (emittedRegions gpaddrBits memsize).Pairwise Apart := by
  rw [emittedRegions, List.pairwise_filter, regionLoop_banks]
  refine List.pairwise_cons.mpr ⟨fun r hr hmin _ => ?_, List.pairwise_singleton _ _⟩
  obtain rfl := List.mem_singleton.mp hr
  have hwindow := (regionOf_bank hbits (by decide) (of_decide_eq_true hmin)).window
  refine .inl (Nat.le_trans hwindow ?_)
  simp only [bankRegion, ram0Base, ram0Size, ram1Base]
  omega

theorem alignUpTo2MB_aligned (x : Nat) : alignUpTo2MB x % mb2 = 0 := Nat.mul_mod_left _ _

/-- A region as the guest needs it: large, aligned, in a bank, reachable and apart from memory. -/
structure RegionFits (gpaddrBits memsize : Nat) (r : Nat × Nat) : Prop where
  large : extRegionMinSize ≤ r.2
  aligned : r.1 % mb2 = 0
  window : ∃ bank ∈ ramBanks, bank.1 ≤ r.1 ∧ r.1 + r.2 ≤ bank.1 + bank.2
  width : r.1 + r.2 ≤ 2 ^ gpaddrBits
  apart : ∀ m ∈ bankRanges ramBanks memsize, Apart r m

theorem RegionOf.fits {bank r : Nat × Nat} {mem : Nat} (h : RegionOf gpaddrBits bank mem r)
    (hmin : ¬ r.2 < extRegionMinSize) (hbank : bank ∈ ramBanks)
    (hbase : bank.1 % mb2 = 0)
    (happart : ∀ m ∈ bankRanges ramBanks memsize, m.1 + m.2 ≤ bank.1 + mem ∨
      bank.1 + bank.2 ≤ m.1) :
    RegionFits gpaddrBits memsize r := by
  have hmem := (alignUpTo2MB_bounds mem).1
  refine ⟨Nat.le_of_not_lt hmin, ?_, ⟨bank, hbank, ?_, h.window⟩, h.width, fun m hm => ?_⟩
  · rw [h.start, Nat.add_mod, hbase, alignUpTo2MB_aligned, Nat.zero_mod]
  · rw [h.start]
    omega
  · have hwindow := h.window
    have hstart := h.start
    rcases happart m hm with hbelow | habove
    · exact .inr (by omega)
    · exact .inl (by omega)

theorem emittedRegions_fit (hbits : gpaddrBits ≤ 64) {r : Nat × Nat}
    (hr : r ∈ emittedRegions gpaddrBits memsize) : RegionFits gpaddrBits memsize r := by
  have hbanks : ram0Base + ram0Size ≤ ram1Base := by decide
  obtain ⟨hmin, hregion | hregion⟩ := mem_emittedRegions hbits hr
  · refine hregion.fits hmin List.mem_cons_self (by decide) fun m hm => ?_
    rcases mem_bankRanges hm with rfl | rfl
    · exact .inl (Nat.le_refl _)
    · exact .inr hbanks
  · refine hregion.fits hmin (List.mem_cons_of_mem _ List.mem_cons_self) (by decide) fun m hm => ?_
    rcases mem_bankRanges hm with rfl | rfl
    · exact .inl (Nat.le_trans (Nat.add_le_add_left (Nat.min_le_right _ _) _)
        (Nat.le_trans hbanks (Nat.le_add_right _ _)))
    · exact .inl (Nat.le_refl _)

/-- Where libfdt has room, `create_memory` emits the ranges of the banks, and succeeds exactly when
they hold all of the memory. -/
theorem createMemory_sum (hfdt : ∀ n, fdtRc n = 0) (memsize : Nat) (fdt : Fdt) :
    ∃ left fdt', createMemoryLoop fdtRc ramBanks memsize fdt = .ok (left, fdt') ∧
      (((memoryRanges false (fdt'.since fdt)).map Prod.snd).sum = memsize ↔
        createMemory fdtRc memsize fdt = .ok fdt') ∧
      (createMemory fdtRc memsize fdt = .error Errno.einval.rc ↔
        (ramBanks.map Prod.snd).sum < memsize) ∧
      (createMemory fdtRc memsize fdt = .ok fdt' ∨
        createMemory fdtRc memsize fdt = .error Errno.einval.rc) := by
  obtain rfl : fdtRc = fun _ => 0 := funext hfdt
  obtain ⟨fdt', hloop⟩ := createMemoryLoop_total ramBanks memsize fdt
  refine ⟨_, fdt', hloop, ?_⟩
  rw [createMemoryLoop_ranges hloop, sum_bankRanges]
  simp only [createMemory, hloop, bind, Except.bind]
  generalize (ramBanks.map Prod.snd).sum = total
  by_cases hle : memsize ≤ total
  · have hleft : memsize - total = 0 := Nat.sub_eq_zero_of_le hle
    simp [hleft, hle]
  · have hleft : memsize - total ≠ 0 := by omega
    rw [if_pos hleft]
    refine ⟨iff_of_false (by omega) (by simp), iff_of_true rfl (by omega), .inr rfl⟩

/-- Extended regions never meet the memory of the guest: those that are emitted are pairwise apart,
each is large, aligned, inside the window of its bank and below the address width, and none meets a
memory node. The memory nodes hold all of the memory exactly when `create_memory` succeeds, and it
fails exactly when the banks are too small. -/
theorem extended_regions_fit {gpaddrBits : Nat} {cfg : XenDomainCfg}
    (hbits : 1 ≤ gpaddrBits ∧ gpaddrBits ≤ 64) (hkb : cfg.memKb.toNat * 1024 < 2 ^ 64) :
    memSize cfg = cfg.memKb.toNat * 1024 ∧
    (∀ (fdtRc : Nat → Int) (fdt fdt' : Fdt),
      fillHypervisorRegs fdtRc (.ok gpaddrBits) cfg fdt = .ok fdt' →
      (extendedRanges (fdt'.since fdt)).Pairwise Apart ∧
      ∀ r ∈ extendedRanges (fdt'.since fdt), RegionFits gpaddrBits (memSize cfg) r) ∧
    (∀ (fdtRc : Nat → Int) (left : Nat) (fdt fdt' : Fdt),
      createMemoryLoop fdtRc ramBanks (memSize cfg) fdt = .ok (left, fdt') →
      memoryRanges false (fdt'.since fdt) = bankRanges ramBanks (memSize cfg)) ∧
    (∀ (fdtRc : Nat → Int), (∀ n, fdtRc n = 0) → ∀ fdt : Fdt,
      ∃ left fdt', createMemoryLoop fdtRc ramBanks (memSize cfg) fdt = .ok (left, fdt') ∧
        (((memoryRanges false (fdt'.since fdt)).map Prod.snd).sum = memSize cfg ↔
          createMemory fdtRc (memSize cfg) fdt = .ok fdt') ∧
        (createMemory fdtRc (memSize cfg) fdt = .error Errno.einval.rc ↔
          (ramBanks.map Prod.snd).sum < memSize cfg) ∧
        (createMemory fdtRc (memSize cfg) fdt = .ok fdt' ∨
          createMemory fdtRc (memSize cfg) fdt = .error Errno.einval.rc)) := by
  refine ⟨?_, fun fdtRc fdt fdt' h => ?_, fun _ _ _ _ => createMemoryLoop_ranges,
    fun fdtRc hfdt fdt => createMemory_sum hfdt _ fdt⟩
  · rw [memSize, UInt64.toNat_mul]
    exact Nat.mod_eq_of_lt hkb
  · rw [fillHypervisorRegs_emitted hbits.2 h]
    exact ⟨emittedRegions_pairwise hbits.2, fun r hr => emittedRegions_fit hbits.2 hr⟩

end Emitted

/-- 128 MiB of memory and addresses of 40 bits: both banks have a region. -/
theorem extended_regions_fit_128mb :
    ∃ fdt', fillHypervisorRegs (fun _ => 0) (.ok 40) (bareCfg 131072) ⟨[], 0⟩ = .ok fdt' ∧
      (extendedRanges (fdt'.since ⟨[], 0⟩)).Pairwise Apart ∧
      ∀ r ∈ extendedRanges (fdt'.since ⟨[], 0⟩), RegionFits 40 (memSize (bareCfg 131072)) r := by
  have hfit := (@extended_regions_fit 40 (bareCfg 131072) (by decide) (by decide)).2.1
    (fun _ => 0) ⟨[], 0⟩
  have hok : (fillHypervisorRegs (fun _ => 0) (.ok 40) (bareCfg 131072) ⟨[], 0⟩).toBool = true := by
    decide +kernel
  cases hfill : fillHypervisorRegs (fun _ => 0) (.ok 40) (bareCfg 131072) ⟨[], 0⟩ with
  | ok fdt' => exact ⟨fdt', rfl, hfit fdt' hfill⟩
  | error rc =>
    rw [hfill] at hok
    cases hok

end Xenlib.GuestRam
