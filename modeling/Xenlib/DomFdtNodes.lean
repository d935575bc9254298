import Xenlib.DomFdtCalls

/-!
Each function that creates nodes puts the tags of these nodes, or gives up with a code.
-/

set_option autoImplicit false

namespace Xenlib.DomFdt

open Libfdt
open GuestRam (memSize setCell setRange rootAddressCells rootSizeCells ramBanks regionLoop
  bankRanges gnttabBase gnttabSize alignUpTo2MB extRegionMinSize)

variable {long : Prop}

theorem createChosen_puts {cmdline : Option CString}
    (h : ∀ s ∈ cmdline, s.length < 2 ^ 31 - 1) :
    Puts long (createChosen cmdline) (chosenNode cmdline).tags 0 := by
  cases cmdline with
  | none => exact Puts.give 0
  | some s =>
    have hvalue : (strBytes s).length < 2 ^ 31 := by
      have hs := h s rfl
      rw [strBytes_length]
      omega
    exact (Puts.beginNode (by decide)).cons
      ((Puts.property (by decide) hvalue).cons (Puts.endNode.cons Puts.nil))

theorem createCpu_puts (i : Nat) : Puts long (createCpu i) (cpuNode i).tags 0 := by
  have hlen := hex_length_le (by decide) (getMpdir_lt i)
  have hprefix : (cstr "cpu@").length = 4 := by decide
  have hname : (cstr "cpu@" ++ hex (getMpdir i)).length ≤ 8 := by
    rw [List.length_append]
    omega
  rw [createCpu, zsnprintf_eq (List.append_ne_nil_of_left_ne_nil (by decide) _)
    (Nat.lt_of_le_of_lt hname (by decide))]
  exact (Puts.beginNode (Nat.lt_of_le_of_lt hname (by decide))).cons
    ((Puts.property (by decide) (by decide)).cons ((Puts.compat (by decide)).cons
      ((Puts.property (by decide) (by decide)).cons
        ((Puts.regs (show 4 * ((1 + 0) * 1) < 2 ^ 31 by decide)).cons
          (Puts.endNode.cons Puts.nil)))))

theorem createCpus_puts (nrCpus : Nat) :
    Puts long (createCpus nrCpus) (cpusNode nrCpus).tags 0 := by
  have hhead : Puts long (inOrder [fdtBeginNode (cstr "cpus"),
      fdtPropertyCell (cstr "#address-cells") 1, fdtPropertyCell (cstr "#size-cells") 0])
      [.beginNode (cstr "cpus"), (cellProp "#address-cells" 1).tag,
        (cellProp "#size-cells" 0).tag] 0 :=
    (Puts.beginNode (by decide)).cons ((Puts.cell (by decide) 1).cons
      ((Puts.cell (by decide) 0).cons Puts.nil))
  have hcpus : Puts long (inOrder ((List.range nrCpus).map createCpu))
      ((List.range nrCpus).flatMap fun i => (cpuNode i).tags) 0 :=
    Puts.map fun i _ => createCpu_puts i
  refine ((hhead.append hcpus).append (Puts.endNode.cons Puts.nil)).of_eq ?_
  simp [cpusNode, FdtItems.tags, List.flatMap_map]

theorem createPsci_puts : Puts long createPsci psciNode.tags 0 :=
  (Puts.beginNode (by decide)).cons ((Puts.compat (by decide)).cons
    ((Puts.property (by decide) (by decide)).cons ((Puts.cell (by decide) _).cons
      ((Puts.cell (by decide) _).cons (Puts.endNode.cons Puts.nil)))))

theorem createBank_puts {bankbase bankSize : Nat} (h : bankbase < 16 ^ 16) :
    Puts long (createBank bankbase bankSize) (memoryNode (bankbase, bankSize)).tags 0 := by
  have hlen := hex_length_le (by decide) h
  have hprefix : (cstr "memory@").length = 7 := by decide
  have hname : (cstr "memory@" ++ hex bankbase).length ≤ 23 := by
    rw [List.length_append]
    omega
  rw [createBank, zsnprintf_eq (List.append_ne_nil_of_left_ne_nil (by decide) _)
    (Nat.lt_of_le_of_lt hname (by decide))]
  exact (Puts.beginNode (Nat.lt_of_le_of_lt hname (by decide))).cons
    ((Puts.property (by decide) (by decide)).cons
      ((Puts.regs (show 4 * ((2 + 2) * 1) < 2 ^ 31 by decide)).cons
        (Puts.endNode.cons Puts.nil)))

theorem memoryLoop_puts {banks : List (Nat × Nat)} (hbanks : ∀ bank ∈ banks, bank.1 < 16 ^ 16)
    (sizeLeft : Nat) :
    Puts long (memoryLoop banks sizeLeft)
      (((bankRanges banks sizeLeft).map memoryNode).flatMap FdtItems.tags)
      (if sizeLeft ≤ (banks.map Prod.snd).sum then 0 else Errno.einval.rc) := by
  induction banks generalizing sizeLeft with
  | nil =>
    have hcode : (if sizeLeft ≤ (([] : List (Nat × Nat)).map Prod.snd).sum then (0 : Int)
        else Errno.einval.rc) = if sizeLeft ≠ 0 then Errno.einval.rc else 0 := by
      by_cases h0 : sizeLeft = 0
      · rw [h0]
        rfl
      · rw [if_pos h0, if_neg (by simpa using h0)]
    rw [hcode]
    exact Puts.give _
  | cons bank banks ih =>
    obtain ⟨bankbase, banksize⟩ := bank
    obtain ⟨hbase, hrest⟩ := List.forall_mem_cons.mp hbanks
    by_cases h0 : sizeLeft = 0
    · subst h0
      exact Puts.give 0
    · have hsize :
          (if sizeLeft > banksize then banksize else sizeLeft) = min sizeLeft banksize := by
        split <;> omega
      have hleft : sizeLeft - min sizeLeft banksize = sizeLeft - banksize := by omega
      have hcode : (sizeLeft ≤ (((bankbase, banksize) :: banks).map Prod.snd).sum) ↔
          sizeLeft - banksize ≤ (banks.map Prod.snd).sum := by
        simp only [List.map_cons, List.sum_cons]
        omega
      simp only [memoryLoop, hsize, hleft, hcode]
      rw [if_pos h0, bankRanges, if_pos h0, List.map_cons, List.flatMap_cons]
      exact (createBank_puts hbase).andThen (ih hrest _)

theorem createMemory_puts (memsize : Nat) :
    Puts long (createMemory memsize)
      (((bankRanges ramBanks memsize).map memoryNode).flatMap FdtItems.tags)
      (if memsize ≤ (ramBanks.map Prod.snd).sum then 0 else Errno.einval.rc) :=
  memoryLoop_puts (by decide) memsize

theorem createGic_puts {compats : List CString} {regs : List (Nat × Nat)} {gicdBase : Nat}
    (hcompat : (compats.flatMap strBytes).length ≤ fdtStringMax)
    (hregs : 4 * (4 * regs.length) < 2 ^ 31) (hbase : gicdBase < 16 ^ 16) :
    Puts long (createGic compats regs gicdBase) (gicNode compats regs gicdBase).tags 0 := by
  have hlen := hex_length_le (by decide) hbase
  have hprefix : (cstr "interrupt-controller@").length = 21 := by decide
  have hname : (cstr "interrupt-controller@" ++ hex gicdBase).length ≤ 37 := by
    rw [List.length_append]
    omega
  rw [createGic, zsnprintf_eq (List.append_ne_nil_of_left_ne_nil (by decide) _)
    (Nat.lt_of_le_of_lt hname (by decide))]
  exact (Puts.beginNode (Nat.lt_of_le_of_lt hname (by decide))).cons
    ((Puts.compat hcompat).cons ((Puts.cell (by decide) _).cons ((Puts.cell (by decide) _).cons
      ((Puts.property (by decide) (by decide)).cons ((Puts.regs hregs).cons
        ((Puts.cell (by decide) _).cons ((Puts.cell (by decide) _).cons
          (Puts.endNode.cons Puts.nil))))))))

theorem createGicv2_puts : Puts long createGicv2 gicv2Node.tags 0 :=
  createGic_puts (by decide) (by decide) (by decide)

theorem createGicv3_puts : Puts long createGicv3 gicv3Node.tags 0 :=
  createGic_puts (by decide) (by decide) (by decide)

theorem createTimer_puts : Puts long (createTimer 0) timerNode.tags 0 :=
  (Puts.beginNode (by decide)).cons ((Puts.compat (by decide)).cons
    ((Puts.interrupts (by decide)).cons (Puts.endNode.cons Puts.nil)))

theorem createOptee_puts : Puts long createOptee opteeNode.tags 0 :=
  (Puts.beginNode (by decide)).cons ((Puts.beginNode (by decide)).cons
    ((Puts.compat (by decide)).cons ((Puts.property (by decide) (by decide)).cons
      (Puts.endNode.cons (Puts.endNode.cons Puts.nil)))))

section
variable {major minor : UInt32} {cfg : DomDtCfg}

theorem compatLoop_eq {compats : List CString} {buf : Bytes} (h : buf.length ≤ fdtStringMax) :
    compatLoop compats buf = if (buf ++ compats.flatMap strBytes).length ≤ fdtStringMax then
      some (buf ++ compats.flatMap strBytes) else none := by
  induction compats generalizing buf with
  | nil => simp [compatLoop, h]
  | cons compat compats ih =>
    have hlen : (buf ++ strBytes compat).length = buf.length + compat.length + 1 := by
      rw [List.length_append, strBytes_length, Nat.add_assoc]
    rw [compatLoop, List.flatMap_cons, ← List.append_assoc]
    by_cases hfit : fdtStringMax < buf.length + compat.length + 1
    · rw [if_pos hfit, if_neg (by rw [List.length_append, hlen]; omega)]
    · rw [if_neg hfit, ih (by omega)]

theorem xenvmName_length (major minor : UInt32) :
    (versioned (cstr "xen,xenvm-") major minor).length < fdtStringMax :=
  Nat.lt_of_le_of_lt (versioned_length rfl major minor) (by decide)

theorem machineCompat_puts {compats : Option (List CString)}
    (h : ((rootCompats major minor compats).flatMap strBytes).length ≤ fdtStringMax) :
    Puts long (machineCompat compats (versioned (cstr "xen,xenvm-") major minor))
      [(compatProp (rootCompats major minor compats)).tag] 0 := by
  cases compats with
  | none => exact Puts.compat h
  | some compats =>
    have hbuf : (strBytes (versioned (cstr "xen,xenvm-") major minor)).length ≤ fdtStringMax := by
      have hname := xenvmName_length major minor
      rw [strBytes_length]
      omega
    simp only [rootCompats, List.flatMap_cons] at h
    simp only [machineCompat, compatLoop_eq hbuf, if_pos h]
    exact Puts.property (by decide) (Nat.lt_of_le_of_lt h (by decide))

theorem machineCompat_long {compats : Option (List CString)}
    (h : ¬ ((rootCompats major minor compats).flatMap strBytes).length ≤ fdtStringMax) :
    Puts long (machineCompat compats (versioned (cstr "xen,xenvm-") major minor)) []
      Errno.enomem.rc := by
  cases compats with
  | none => exact Puts.compat_long h
  | some compats =>
    have hbuf : (strBytes (versioned (cstr "xen,xenvm-") major minor)).length ≤ fdtStringMax := by
      have hname := xenvmName_length major minor
      rw [strBytes_length]
      omega
    simp only [rootCompats, List.flatMap_cons] at h
    simp only [machineCompat, compatLoop_eq hbuf, if_neg h]
    exact Puts.give _

theorem zsnprintf_versioned {text : CString} (hne : text ≠ []) (hlen : text.length ≤ 100)
    (call : CString → FdtCall) :
    zsnprintf (versioned text major minor) call = call (versioned text major minor) :=
  zsnprintf_eq (versioned_ne hne major minor)
    (Nat.lt_of_le_of_lt (versioned_length rfl major minor) (by rw [fdtStringMax]; omega)) call

theorem model_puts : Puts long (fdtPropertyString (cstr "model")
    (versioned (cstr "XENVM-") major minor)) [(textProp "model"
      (versioned (cstr "XENVM-") major minor)).tag] 0 := by
  have hlen : (versioned (cstr "XENVM-") major minor).length ≤ 6 + 23 :=
    versioned_length (by decide) major minor
  exact Puts.property (by decide) (by rw [strBytes_length]; omega)

theorem createRoot_puts
    (h : ((rootCompats major minor cfg.machineDtCompat).flatMap strBytes).length ≤ fdtStringMax) :
    Puts long (createRoot major minor cfg) ((rootProps major minor cfg).map FdtProperty.tag) 0 := by
  rw [createRoot, zsnprintf_versioned (by decide) (by decide),
    zsnprintf_versioned (by decide) (by decide)]
  exact model_puts.cons ((machineCompat_puts h).cons ((Puts.cell (by decide) _).cons
    ((Puts.cell (by decide) _).cons ((Puts.cell (by decide) _).cons Puts.nil))))

theorem createRoot_long
    (h : ¬ ((rootCompats major minor cfg.machineDtCompat).flatMap strBytes).length ≤
      fdtStringMax) : ∃ tags, Puts long (createRoot major minor cfg) tags Errno.enomem.rc := by
  rw [createRoot, zsnprintf_versioned (by decide) (by decide),
    zsnprintf_versioned (by decide) (by decide)]
  exact ⟨_, model_puts.cons ((machineCompat_long h).stop (by decide) _)⟩

theorem regionLoop_length (gpaddrBits : Nat) (banks : List (Nat × Nat)) (sizeLeft : Nat) :
    (regionLoop gpaddrBits banks sizeLeft).length = banks.length := by
  induction banks generalizing sizeLeft with
  | nil => rfl
  | cons bank banks ih => exact congrArg (· + 1) (ih _)

theorem extendedRegions_length (gpaddrBits : Nat) (cfg : DomDtCfg) :
    (extendedRegions gpaddrBits cfg).length ≤ 2 :=
  Nat.le_trans (List.length_filter_le _ _) (Nat.le_of_eq (regionLoop_length _ _ _))

theorem fillHypervisorRegs_puts {gpaddrBits : Nat} (hbits : gpaddrBits ≤ 64)
    (hregions : extendedRegions gpaddrBits cfg ≠ []) :
    Puts long (fillHypervisorRegs (.ok gpaddrBits) cfg) [(regProp rootAddressCells rootSizeCells
      ((gnttabBase, gnttabSize) :: extendedRegions gpaddrBits cfg)).tag] 0 := by
  have hlen := extendedRegions_length gpaddrBits cfg
  have hcall : fillHypervisorRegs (.ok gpaddrBits) cfg = fdtPropertyRegs rootAddressCells
      rootSizeCells ((gnttabBase, gnttabSize) :: extendedRegions gpaddrBits cfg) := by
    rw [fillHypervisorRegs]
    exact (if_neg (by omega)).trans (if_neg (mt List.length_eq_zero_iff.mp hregions))
  rw [hcall]
  refine Puts.regs ?_
  rw [rootAddressCells, rootSizeCells, List.length_cons]
  omega

theorem fillHypervisorRegs_fails {info : Except Int Nat} (hinfo : ∀ rc, info = .error rc → rc < 0)
    (h : ¬ ∃ gpaddrBits, info = .ok gpaddrBits ∧ gpaddrBits ≤ 64 ∧
      extendedRegions gpaddrBits cfg ≠ []) :
    ∃ rc < 0, Puts long (fillHypervisorRegs info cfg) [] rc := by
  cases info with
  | error rc => exact ⟨rc, hinfo rc rfl, Puts.give rc⟩
  | ok gpaddrBits =>
    by_cases hbits : gpaddrBits > 64
    · refine ⟨Errno.einval.rc, by decide, ?_⟩
      rw [fillHypervisorRegs]
      exact (if_pos hbits).symm ▸ Puts.give _
    · have hnone : extendedRegions gpaddrBits cfg = [] := by
        by_contra hsome
        exact h ⟨gpaddrBits, rfl, by omega, hsome⟩
      refine ⟨Errno.enomem.rc, by decide, ?_⟩
      have hcall : fillHypervisorRegs (.ok gpaddrBits) cfg = give Errno.enomem.rc := by
        rw [fillHypervisorRegs]
        exact (if_neg hbits).trans (if_pos (congrArg List.length hnone))
      rw [hcall]
      exact Puts.give _

theorem hypervisorName_compat (major minor : UInt32) :
    ([versioned (cstr "xen,xen-") major minor, cstr "xen,xen"].flatMap strBytes).length ≤
      fdtStringMax := by
  have hlen : (versioned (cstr "xen,xen-") major minor).length ≤ 8 + 23 :=
    versioned_length (by decide) major minor
  have hlast : (strBytes (cstr "xen,xen")).length = 8 := by decide
  simp only [List.flatMap_cons, List.flatMap_nil, List.append_nil, List.length_append,
    strBytes_length, hlast, fdtStringMax]
  have hxen : (cstr "xen,xen").length = 7 := by decide
  omega

theorem createHypervisor_puts {gpaddrBits : Nat} (hbits : gpaddrBits ≤ 64)
    (hregions : extendedRegions gpaddrBits cfg ≠ []) :
    Puts long (createHypervisor major minor cfg (.ok gpaddrBits))
      (hypervisorNode major minor (extendedRegions gpaddrBits cfg)).tags 0 := by
  rw [createHypervisor, zsnprintf_versioned (by decide) (by decide)]
  exact (Puts.beginNode (by decide)).cons ((Puts.compat (hypervisorName_compat _ _)).cons
    ((fillHypervisorRegs_puts hbits hregions).cons ((Puts.interrupts (by decide)).cons
      (Puts.endNode.cons Puts.nil))))

theorem createHypervisor_fails {info : Except Int Nat} (hinfo : ∀ rc, info = .error rc → rc < 0)
    (h : ¬ ∃ gpaddrBits, info = .ok gpaddrBits ∧ gpaddrBits ≤ 64 ∧
      extendedRegions gpaddrBits cfg ≠ []) :
    ∃ rc < 0, ∃ tags, Puts long (createHypervisor major minor cfg info) tags rc := by
  obtain ⟨rc, hneg, hputs⟩ := fillHypervisorRegs_fails hinfo h
  rw [createHypervisor, zsnprintf_versioned (by decide) (by decide)]
  exact ⟨rc, hneg, _, (Puts.beginNode (by decide)).cons
    ((Puts.compat (hypervisorName_compat _ _)).cons (hputs.stop (by omega) _))⟩

end

end Xenlib.DomFdt
