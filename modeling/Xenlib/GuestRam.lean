import Xenlib.DomCreate
import Xenlib.MapFailure

/-!
The memory of a new guest: the extents `prepare_domain_physmap` populates, the memory nodes
`create_memory` puts into the device tree and the extended regions of `fill_hypervisor_regs`.
The sequential writer of libfdt is given by the codes its calls return; a call that returns 0
appends its item.
-/

set_option autoImplicit false

namespace Xenlib.GuestRam

/-- The constants of the layout are of type `unsigned long long`, and no sum of them reaches
2 ^ 64. -/
def ram0Base : Nat := 0x40000000

def ram0Size : Nat := 0xc0000000

def ram1Base : Nat := 0x0200000000

def ram1Size : Nat := 0xfe00000000

def magicBase : Nat := 0x39000000

def gnttabBase : Nat := 0x38000000

def gnttabSize : Nat := 0x01000000

/-- `GUEST_RAM_BANK_BASES` with `GUEST_RAM_BANK_SIZES`. -/
def ramBanks : List (Nat × Nat) := [(ram0Base, ram0Size), (ram1Base, ram1Size)]

def xenPageSize : Nat := 4096

def xenPhysPfn (addr : Nat) : Nat := addr / xenPageSize

def lpaeShift : Nat := 9

def pfn2mShift : Nat := lpaeShift

def pfn2mSize : Nat := xenPageSize <<< lpaeShift

/-- `mem_kb * 1024`, a `uint64_t`. -/
def memSize (cfg : XenDomainCfg) : Nat := (cfg.memKb * 1024).toNat

/-- What the calls of `allocate_magic_pages` return. -/
structure MagicCalls where
  populate : MemCalls
  mapRc : Int
  flushRc : Int
  consoleRc : Int
  storeRc : Int

section

variable (chunk : Nat) (magic : MagicCalls) (calls : MemCalls)

def allocateMagicPages (pm : PhysMap) : Int × PhysMap :=
  let (populatedGfn, pm) :=
    xenmemPopulatePhysmap chunk magic.populate (xenPhysPfn magicBase) 0 nrMagicPages.toNat pm
  if populatedGfn ≠ nrMagicPages.toNat then (Errno.enomem.rc, pm)
  else if magic.mapRc ≠ 0 then (magic.mapRc, pm)
  -- the result of the unmapping is only logged
  else if magic.flushRc ≠ 0 then (magic.flushRc, pm)
  else if magic.consoleRc ≠ 0 then (magic.consoleRc, pm)
  else (magic.storeRc, pm)

/-- `DIV_ROUND_UP` on a `uint64_t`. -/
def nrMemExts (cfg : XenDomainCfg) : Nat := (memSize cfg + pfn2mSize - 1) % 2 ^ 64 / pfn2mSize

def prepareDomainPhysmap (basePfn : Nat) (cfg : XenDomainCfg) (pm : PhysMap) : Int × PhysMap :=
  let (rc, pm) := allocateMagicPages chunk magic pm
  if rc ≠ 0 then (rc, pm)
  else
    let (populatedGfn, pm) :=
      xenmemPopulatePhysmap chunk calls basePfn pfn2mShift (nrMemExts cfg) pm
    if populatedGfn ≠ nrMemExts cfg then (Errno.enomem.rc, pm) else (0, pm)

/-- The physmap of a new domain, as `load_modules` has it prepared. -/
def guestPhysmap (cfg : XenDomainCfg) : PhysMap :=
  (prepareDomainPhysmap chunk magic calls (xenPhysPfn ram0Base) cfg fun _ => .empty).2

end

inductive FdtItem where
  | beginNode (name : String)
  | string (name value : String)
  | cells (name : String) (values : List Nat)
  | endNode
  deriving DecidableEq, Repr

/-- The items written so far, and the number of calls made. -/
structure Fdt where
  items : List FdtItem
  calls : Nat
  deriving DecidableEq, Repr

/-- `val` in `size` cells, the most significant one first. -/
def setCell : (size val : Nat) → List Nat
  | 0, _ => []
  | size + 1, val => setCell size (val >>> 32) ++ [val % 2 ^ 32]

def rootAddressCells : Nat := 2

def rootSizeCells : Nat := 2

def setRange (addressCells sizeCells address size : Nat) : List Nat :=
  setCell addressCells address ++ setCell sizeCells size

section

variable (fdtRc : Nat → Int)

def fdtCall (item : FdtItem) (fdt : Fdt) : Except Int Fdt :=
  if fdtRc fdt.calls ≠ 0 then .error (fdtRc fdt.calls)
  else .ok ⟨fdt.items ++ [item], fdt.calls + 1⟩

def fdtPropertyRegs (addrCells sizeCells : Nat) (regs : List (Nat × Nat)) (fdt : Fdt) :
    Except Int Fdt :=
  fdtCall fdtRc (.cells "reg" (regs.flatMap fun r => setRange addrCells sizeCells r.1 r.2)) fdt

def memoryName (bankbase : Nat) : String :=
  "memory@" ++ String.ofList (Nat.toDigits 16 bankbase)

/-- The loop over the banks; the result has the size that is left. -/
def createMemoryLoop : (banks : List (Nat × Nat)) → (sizeLeft : Nat) → Fdt → Except Int (Nat × Fdt)
  | [], sizeLeft, fdt => .ok (sizeLeft, fdt)
  | (bankbase, banksize) :: banks, sizeLeft, fdt =>
    if sizeLeft ≠ 0 then do
      let bankSize := if sizeLeft > banksize then banksize else sizeLeft
      let fdt ← fdtCall fdtRc (.beginNode (memoryName bankbase)) fdt
      let fdt ← fdtCall fdtRc (.string "device_type" "memory") fdt
      let fdt ← fdtPropertyRegs fdtRc rootAddressCells rootSizeCells [(bankbase, bankSize)] fdt
      let fdt ← fdtCall fdtRc .endNode fdt
      createMemoryLoop banks (sizeLeft - bankSize) fdt
    else .ok (sizeLeft, fdt)

def createMemory (memsize : Nat) (fdt : Fdt) : Except Int Fdt := do
  let (sizeLeft, fdt) ← createMemoryLoop fdtRc ramBanks memsize fdt
  if sizeLeft ≠ 0 then .error Errno.einval.rc else .ok fdt

def mb2 : Nat := 2 * 1024 * 1024

/-- Adding `MB(2) - 1` and clearing the bits below `MB(2)`. -/
def alignUpTo2MB (x : Nat) : Nat := (x + mb2 - 1) / mb2 * mb2

def extRegionMinSize : Nat := 0x0004000000

/-- `region_base` and `region_size` of each bank. -/
def regionLoop (gpaddrBits : Nat) : (banks : List (Nat × Nat)) → (sizeLeft : Nat) →
    List (Nat × Nat)
  | [], _ => []
  | (bankbase, banksize) :: banks, sizeLeft =>
    let memSize := if sizeLeft > banksize then banksize else sizeLeft
    let regionBase := bankbase + alignUpTo2MB memSize
    let bankend := min ((2 ^ 64 - 1) >>> (64 - gpaddrBits)) (bankbase + banksize - 1)
    let regionSize := if bankend > regionBase then bankend - regionBase + 1 else 0
    (regionBase, regionSize) :: regionLoop gpaddrBits banks (sizeLeft - memSize)

/-- `info` is what `xen_domctl_getdomaininfo` gives, of which only `gpaddr_bits` is read. -/
def fillHypervisorRegs (info : Except Int Nat) (cfg : XenDomainCfg) (fdt : Fdt) :
    Except Int Fdt := do
  let gpaddrBits ← info
  if gpaddrBits > 64 then .error Errno.einval.rc
  else
    let regions :=
      (regionLoop gpaddrBits ramBanks (memSize cfg)).filter fun r => ¬ r.2 < extRegionMinSize
    if regions.length = 0 then .error Errno.enomem.rc
    else
      -- region 0 is the space of the grant table
      fdtPropertyRegs fdtRc rootAddressCells rootSizeCells ((gnttabBase, gnttabSize) :: regions) fdt

end

/-- The ranges of a `reg` property under `rootAddressCells` and `rootSizeCells`. -/
def getRanges : List Nat → List (Nat × Nat)
  | a :: b :: c :: d :: rest => (a * 2 ^ 32 + b, c * 2 ^ 32 + d) :: getRanges rest
  | _ => []

/-- The `reg` of every node whose device type is memory. The flag says that the node read at
the moment is one. -/
def memoryRanges : (inMemory : Bool) → List FdtItem → List (Nat × Nat)
  | _, [] => []
  | _, .beginNode _ :: items => memoryRanges false items
  | _, .endNode :: items => memoryRanges false items
  | inMemory, .string name value :: items =>
    memoryRanges (inMemory || (name = "device_type" && value = "memory")) items
  | inMemory, .cells name values :: items =>
    (if inMemory && name = "reg" then getRanges values else []) ++ memoryRanges inMemory items

/-- The ranges of a `reg` property behind region 0. -/
def extendedRanges : List FdtItem → List (Nat × Nat)
  | [] => []
  | .cells name values :: items =>
    (if name = "reg" then (getRanges values).tail else []) ++ extendedRanges items
  | _ :: items => extendedRanges items

/-- The items that `fdt'` has over `fdt`. -/
def Fdt.since (fdt' fdt : Fdt) : List FdtItem := fdt'.items.drop fdt.items.length

def InRange (r : Nat × Nat) (pfn : Nat) : Prop :=
  r.1 < (pfn + 1) * xenPageSize ∧ pfn * xenPageSize < r.1 + r.2

theorem setRange_two (address size : Nat) :
    setRange rootAddressCells rootSizeCells address size =
      [address / 2 ^ 32 % 2 ^ 32, address % 2 ^ 32, size / 2 ^ 32 % 2 ^ 32, size % 2 ^ 32] := by
  simp [setRange, rootAddressCells, rootSizeCells, setCell, Nat.shiftRight_eq_div_pow]

theorem getRanges_setRange {regs : List (Nat × Nat)}
    (h : ∀ r ∈ regs, r.1 < 2 ^ 64 ∧ r.2 < 2 ^ 64) :
    getRanges (regs.flatMap fun r => setRange rootAddressCells rootSizeCells r.1 r.2) = regs := by
  induction regs with
  | nil => rfl
  | cons r regs ih =>
    obtain ⟨h1, h2⟩ := h r List.mem_cons_self
    have hrest := ih fun r' hr' => h r' (List.mem_cons_of_mem _ hr')
    rw [List.flatMap_cons, setRange_two]
    simp only [List.cons_append, List.nil_append, getRanges, hrest]
    congr 1
    apply Prod.ext
    · change r.1 / 2 ^ 32 % 2 ^ 32 * 2 ^ 32 + r.1 % 2 ^ 32 = r.1
      omega
    · change r.2 / 2 ^ 32 % 2 ^ 32 * 2 ^ 32 + r.2 % 2 ^ 32 = r.2
      omega

theorem fdtCall_ok {fdtRc : Nat → Int} {item : FdtItem} {fdt fdt' : Fdt}
    (h : fdtCall fdtRc item fdt = .ok fdt') : fdt'.items = fdt.items ++ [item] := by
  simp only [fdtCall] at h
  split at h
  · cases h
  · cases h
    rfl

theorem bind_ok {α β : Type} {x : Except Int α} {f : α → Except Int β} {b : β}
    (h : x >>= f = .ok b) : ∃ a, x = .ok a ∧ f a = .ok b := by
  cases x with
  | error e => cases h
  | ok a => exact ⟨a, rfl, h⟩

def memoryNode (r : Nat × Nat) : List FdtItem :=
  [.beginNode (memoryName r.1), .string "device_type" "memory",
    .cells "reg" (setRange rootAddressCells rootSizeCells r.1 r.2), .endNode]

def bankRanges : (banks : List (Nat × Nat)) → (sizeLeft : Nat) → List (Nat × Nat)
  | [], _ => []
  | (bankbase, banksize) :: banks, sizeLeft =>
    if sizeLeft ≠ 0 then (bankbase, min sizeLeft banksize) :: bankRanges banks (sizeLeft - banksize)
    else []

theorem createMemoryLoop_ok {fdtRc : Nat → Int} {banks : List (Nat × Nat)} {sizeLeft left : Nat}
    {fdt fdt' : Fdt} (h : createMemoryLoop fdtRc banks sizeLeft fdt = .ok (left, fdt')) :
    fdt'.items = fdt.items ++ (bankRanges banks sizeLeft).flatMap memoryNode ∧
      left = sizeLeft - (banks.map Prod.snd).sum := by
  induction banks generalizing sizeLeft fdt with
  | nil =>
    cases h
    simp [bankRanges]
  | cons bank banks ih =>
    obtain ⟨bankbase, banksize⟩ := bank
    by_cases h0 : sizeLeft = 0
    · subst h0
      cases h
      simp [bankRanges]
    · have hsize :
          (if sizeLeft > banksize then banksize else sizeLeft) = min sizeLeft banksize := by
        split <;> omega
      rw [createMemoryLoop, if_pos h0] at h
      simp only [hsize] at h
      obtain ⟨fdt1, h1, h⟩ := bind_ok h
      obtain ⟨fdt2, h2, h⟩ := bind_ok h
      obtain ⟨fdt3, h3, h⟩ := bind_ok h
      obtain ⟨fdt4, h4, h⟩ := bind_ok h
      have hrest : sizeLeft - min sizeLeft banksize = sizeLeft - banksize := by omega
      obtain ⟨hitems, hleft⟩ := ih h
      rw [hrest] at hitems
      refine ⟨?_, ?_⟩
      · rw [hitems, fdtCall_ok h4, fdtCall_ok h3, fdtCall_ok h2, fdtCall_ok h1]
        simp [bankRanges, h0, memoryNode]
      · rw [hleft]
        simp only [List.map_cons, List.sum_cons]
        omega

theorem createMemory_ok {fdtRc : Nat → Int} {memsize : Nat} {fdt fdt' : Fdt}
    (h : createMemory fdtRc memsize fdt = .ok fdt') :
    fdt'.since fdt = (bankRanges ramBanks memsize).flatMap memoryNode ∧
      memsize ≤ ram0Size + ram1Size := by
  obtain ⟨⟨left, fdt1⟩, hloop, h⟩ := bind_ok h
  obtain ⟨hitems, hleft⟩ := createMemoryLoop_ok hloop
  by_cases h0 : left = 0
  · simp only [h0, ne_eq, not_true_eq_false, if_false] at h
    cases h
    refine ⟨by simp [Fdt.since, hitems], ?_⟩
    simp [ramBanks] at hleft
    omega
  · simp only [ne_eq, h0, not_false_eq_true, if_true] at h
    cases h

theorem memoryRanges_nodes {ranges : List (Nat × Nat)}
    (h : ∀ r ∈ ranges, r.1 < 2 ^ 64 ∧ r.2 < 2 ^ 64) (inMemory : Bool) :
    memoryRanges inMemory (ranges.flatMap memoryNode) = ranges := by
  induction ranges generalizing inMemory with
  | nil => rfl
  | cons r ranges ih =>
    have hhead : getRanges (setRange rootAddressCells rootSizeCells r.1 r.2) = [r] := by
      have := @getRanges_setRange [r] fun r' hr' =>
        h r' (List.mem_singleton.mp hr' ▸ List.mem_cons_self)
      simpa using this
    have hrest := ih (fun r' hr' => h r' (List.mem_cons_of_mem _ hr')) false
    simp [memoryNode, memoryRanges, hhead, hrest]

theorem mem_bankRanges {memsize : Nat} {m : Nat × Nat} (h : m ∈ bankRanges ramBanks memsize) :
    m = (ram0Base, min memsize ram0Size) ∨ m = (ram1Base, min (memsize - ram0Size) ram1Size) := by
  simp only [bankRanges, ramBanks] at h
  split at h
  · split at h
    · simpa using h
    · exact .inl (by simpa using h)
  · cases h

/-- The ranges fit into the cells, whatever the size is. -/
theorem bankRanges_cells (memsize : Nat) :
    ∀ m ∈ bankRanges ramBanks memsize, m.1 < 2 ^ 64 ∧ m.2 < 2 ^ 64 := by
  intro m hm
  have h0 : min memsize ram0Size ≤ ram0Size := Nat.min_le_right _ _
  have h1 : min (memsize - ram0Size) ram1Size ≤ ram1Size := Nat.min_le_right _ _
  rcases mem_bankRanges hm with rfl | rfl
  · simp only [ram0Base, ram0Size] at h0 ⊢
    omega
  · simp only [ram1Base, ram1Size] at h1 ⊢
    omega

/-- The largest address of so many bits. -/
theorem bankend_lt {gpaddrBits : Nat} (h : gpaddrBits ≤ 64) :
    (2 ^ 64 - 1) >>> (64 - gpaddrBits) + 1 ≤ 2 ^ gpaddrBits := by
  have hpow : 2 ^ gpaddrBits * 2 ^ (64 - gpaddrBits) = 2 ^ 64 := by
    rw [← Nat.pow_add]
    congr 1
    omega
  rw [Nat.shiftRight_eq_div_pow, Nat.succ_le_iff, Nat.div_lt_iff_lt_mul (Nat.two_pow_pos _), hpow]
  decide

/-- `region_base` and `region_size` of a bank. -/
def bankRegion (gpaddrBits : Nat) (bank : Nat × Nat) (mem : Nat) : Nat × Nat :=
  (bank.1 + alignUpTo2MB mem,
    if min ((2 ^ 64 - 1) >>> (64 - gpaddrBits)) (bank.1 + bank.2 - 1) >
      bank.1 + alignUpTo2MB mem then
    min ((2 ^ 64 - 1) >>> (64 - gpaddrBits)) (bank.1 + bank.2 - 1) -
      (bank.1 + alignUpTo2MB mem) + 1 else 0)

theorem regionLoop_banks (gpaddrBits memsize : Nat) :
    regionLoop gpaddrBits ramBanks memsize =
      [bankRegion gpaddrBits (ram0Base, ram0Size) (min memsize ram0Size),
        bankRegion gpaddrBits (ram1Base, ram1Size) (min (memsize - ram0Size) ram1Size)] := by
  have h0 : (if memsize > ram0Size then ram0Size else memsize) = min memsize ram0Size := by
    split <;> omega
  have h1 : memsize - min memsize ram0Size = memsize - ram0Size := by omega
  have h2 : (if memsize - ram0Size > ram1Size then ram1Size else memsize - ram0Size) =
      min (memsize - ram0Size) ram1Size := by
    split <;> omega
  simp only [regionLoop, ramBanks, h0, h1, h2, bankRegion]

structure RegionOf (gpaddrBits : Nat) (bank : Nat × Nat) (mem : Nat) (r : Nat × Nat) : Prop where
  start : r.1 = bank.1 + alignUpTo2MB mem
  window : r.1 + r.2 ≤ bank.1 + bank.2
  width : r.1 + r.2 ≤ 2 ^ gpaddrBits

theorem regionOf_bank {gpaddrBits mem : Nat} {bank : Nat × Nat} (hbits : gpaddrBits ≤ 64)
    (hbank : 0 < bank.1 + bank.2) (hmin : ¬ (bankRegion gpaddrBits bank mem).2 < extRegionMinSize) :
    RegionOf gpaddrBits bank mem (bankRegion gpaddrBits bank mem) := by
  have hend := bankend_lt hbits
  unfold bankRegion at hmin ⊢
  simp only [extRegionMinSize] at hmin
  generalize (2 ^ 64 - 1) >>> (64 - gpaddrBits) = bankend at hmin hend ⊢
  split at hmin
  · rename_i hlt
    refine ⟨rfl, ?_, ?_⟩
    · simp only [if_pos hlt]
      omega
    · simp only [if_pos hlt]
      omega
  · omega

section Emitted
variable {gpaddrBits memsize : Nat} {fdtRc : Nat → Int} {cfg : XenDomainCfg} {fdt fdt' : Fdt}

/-- The regions that `fill_hypervisor_regs` emits behind region 0. -/
def emittedRegions (gpaddrBits memsize : Nat) : List (Nat × Nat) :=
  (regionLoop gpaddrBits ramBanks memsize).filter fun r => ¬ r.2 < extRegionMinSize

theorem mem_emittedRegions (hbits : gpaddrBits ≤ 64) {r : Nat × Nat}
    (hr : r ∈ emittedRegions gpaddrBits memsize) :
    ¬ r.2 < extRegionMinSize ∧
      (RegionOf gpaddrBits (ram0Base, ram0Size) (min memsize ram0Size) r ∨
        RegionOf gpaddrBits (ram1Base, ram1Size) (min (memsize - ram0Size) ram1Size) r) := by
  rw [emittedRegions, regionLoop_banks, List.mem_filter, List.mem_cons, List.mem_singleton,
    decide_eq_true_eq] at hr
  obtain ⟨hr, hmin⟩ := hr
  refine ⟨hmin, ?_⟩
  rcases hr with rfl | rfl
  · exact .inl (regionOf_bank hbits (by decide) hmin)
  · exact .inr (regionOf_bank hbits (by decide) hmin)

theorem fillHypervisorRegs_emitted (hbits : gpaddrBits ≤ 64)
    (h : fillHypervisorRegs fdtRc (.ok gpaddrBits) cfg fdt = .ok fdt') :
    extendedRanges (fdt'.since fdt) = emittedRegions gpaddrBits (memSize cfg) := by
  simp only [fillHypervisorRegs, bind, Except.bind] at h
  rw [← emittedRegions] at h
  split at h
  · cases h
  split at h
  · cases h
  have hitems := fdtCall_ok h
  have hlt : ∀ r ∈ (gnttabBase, gnttabSize) :: emittedRegions gpaddrBits (memSize cfg),
      r.1 < 2 ^ 64 ∧ r.2 < 2 ^ 64 := by
    intro r hr
    rcases List.mem_cons.mp hr with rfl | hr
    · simp [gnttabBase, gnttabSize]
    · obtain ⟨-, hregion | hregion⟩ := mem_emittedRegions hbits hr
      · have hwindow := hregion.window
        simp only [ram0Base, ram0Size] at hwindow
        omega
      · have hwindow := hregion.window
        simp only [ram1Base, ram1Size] at hwindow
        omega
  have hsince : fdt'.since fdt = [.cells "reg" (((gnttabBase, gnttabSize) ::
      emittedRegions gpaddrBits (memSize cfg)).flatMap
      fun r => setRange rootAddressCells rootSizeCells r.1 r.2)] := by
    rw [Fdt.since, hitems, List.drop_left]
  rw [hsince, extendedRanges, extendedRanges, List.append_nil, if_pos rfl, getRanges_setRange hlt,
    List.tail_cons]

end Emitted

structure Prepared (chunk : Nat) (magic : MagicCalls) (calls : MemCalls) : Prop where
  chunkPos : 0 < chunk
  /-- The step from batch to batch is computed in 32 bits. -/
  chunkLt : chunk * 2 ^ pfn2mShift < 2 ^ 32
  magicPopulate : ∀ k n, magic.populate.populateRet k n = n
  populate : ∀ k n, calls.populateRet k n = n
  mapRc : magic.mapRc = 0
  flushRc : magic.flushRc = 0
  consoleRc : magic.consoleRc = 0
  storeRc : magic.storeRc = 0

section

variable {chunk : Nat} {magic : MagicCalls} {calls : MemCalls} {cfg : XenDomainCfg}

theorem prepareDomainPhysmap_ok (h : Prepared chunk magic calls) (basePfn : Nat) (pm : PhysMap) :
    prepareDomainPhysmap chunk magic calls basePfn cfg pm =
      (0, (pm.populate (xenPhysPfn magicBase) 0 nrMagicPages.toNat).populate basePfn pfn2mShift
        (nrMemExts cfg)) := by
  have hchunk := h.chunkLt
  simp only [pfn2mShift, lpaeShift] at hchunk
  have hexts : nrMemExts cfg < 2 ^ 64 := by
    have := Nat.div_le_self ((memSize cfg + pfn2mSize - 1) % 2 ^ 64) pfn2mSize
    simp only [nrMemExts]
    omega
  have hmagic : allocateMagicPages chunk magic pm =
      (0, pm.populate (xenPhysPfn magicBase) 0 nrMagicPages.toNat) := by
    rw [allocateMagicPages, xenmemPopulatePhysmap_all h.chunkPos (by omega)
      (by simp [nrMagicPages]) h.magicPopulate]
    simp [h.mapRc, h.flushRc, h.consoleRc, h.storeRc]
  unfold prepareDomainPhysmap
  rw [hmagic]
  refine Eq.trans (if_neg fun hne => hne rfl) ?_
  rw [xenmemPopulatePhysmap_all h.chunkPos h.chunkLt hexts h.populate]
  exact if_neg fun hne => hne rfl

theorem populate_own {pm : PhysMap} {basePfn shift count pfn : Nat} :
    pm.populate basePfn shift count pfn = .own ↔
      (basePfn ≤ pfn ∧ pfn < basePfn + count * 2 ^ shift) ∨ pm pfn = .own := by
  simp only [PhysMap.populate]
  split
  · case isTrue hp => simp [hp]
  · case isFalse hp => simp [hp]

theorem nrMemExts_bytes (hmem : memSize cfg ≤ ram0Size + ram1Size) :
    nrMemExts cfg * 2 ^ pfn2mShift * xenPageSize = alignUpTo2MB (memSize cfg) := by
  have hsize : pfn2mSize = 2097152 := by simp [pfn2mSize, xenPageSize, lpaeShift]
  simp only [nrMemExts, hsize, pfn2mShift, lpaeShift, xenPageSize, alignUpTo2MB, mb2,
    ram0Size, ram1Size] at hmem ⊢
  omega

/-- In bytes: the magic pages, and the memory from the start of the first bank on, rounded up to
whole extents. -/
theorem guestPhysmap_own (h : Prepared chunk magic calls)
    (hmem : memSize cfg ≤ ram0Size + ram1Size) {pfn : Nat} :
    guestPhysmap chunk magic calls cfg pfn = .own ↔
      (ram0Base ≤ pfn * xenPageSize ∧
          pfn * xenPageSize < ram0Base + alignUpTo2MB (memSize cfg)) ∨
        (xenPhysPfn magicBase ≤ pfn ∧ pfn < xenPhysPfn magicBase + 4) := by
  have hexts := nrMemExts_bytes hmem
  have hbase : xenPhysPfn ram0Base * xenPageSize = ram0Base := by
    simp only [xenPhysPfn, ram0Base, xenPageSize]
  have hmagic : nrMagicPages.toNat * 2 ^ 0 = 4 := by simp [nrMagicPages]
  rw [guestPhysmap, prepareDomainPhysmap_ok h, populate_own, populate_own, hmagic]
  generalize nrMemExts cfg * 2 ^ pfn2mShift = n at hexts ⊢
  generalize xenPhysPfn ram0Base = base at hbase ⊢
  generalize xenPhysPfn magicBase = magicPfn
  simp only [reduceCtorEq, or_false]
  rw [← hexts, ← hbase]
  simp only [xenPageSize]
  omega

theorem alignUpTo2MB_bounds (x : Nat) : x ≤ alignUpTo2MB x ∧ alignUpTo2MB x < x + mb2 := by
  simp only [alignUpTo2MB, mb2]
  omega

theorem told_populated (h : Prepared chunk magic calls) (hle : memSize cfg ≤ ram0Size)
    {r : Nat × Nat} (hr : r ∈ bankRanges ramBanks (memSize cfg)) {pfn : Nat} (hin : InRange r pfn) :
    guestPhysmap chunk magic calls cfg pfn = .own := by
  have hround := alignUpTo2MB_bounds (memSize cfg)
  have hr : r = (ram0Base, memSize cfg) := by
    simp only [bankRanges, ramBanks, Nat.sub_eq_zero_of_le hle, ne_eq, not_true_eq_false,
      if_false] at hr
    split at hr
    · simpa [Nat.min_eq_left hle] using hr
    · simp at hr
  subst hr
  rw [guestPhysmap_own h (by omega)]
  left
  simp only [InRange, xenPageSize, ram0Base] at hin ⊢
  omega

/-- The populated extents go on behind the first bank, four gigabytes below the end of the
second memory node. -/
theorem told_missing (h : Prepared chunk magic calls) (hmem : memSize cfg ≤ ram0Size + ram1Size)
    (hgt : ram0Size < memSize cfg) :
    ∃ r ∈ bankRanges ramBanks (memSize cfg), ∃ pfn, InRange r pfn ∧
      guestPhysmap chunk magic calls cfg pfn ≠ .own := by
  have hround := alignUpTo2MB_bounds (memSize cfg)
  have hne : memSize cfg ≠ 0 := by omega
  have hrest : memSize cfg - ram0Size ≠ 0 := by omega
  have hmin : min (memSize cfg - ram0Size) ram1Size = memSize cfg - ram0Size := by omega
  refine ⟨(ram1Base, memSize cfg - ram0Size), by simp [bankRanges, ramBanks, hne, hrest, hmin],
    xenPhysPfn (ram1Base + (memSize cfg - ram0Size) - 1), ?_, ?_⟩
  · simp only [InRange, xenPhysPfn, xenPageSize, ram1Base]
    omega
  · rw [ne_eq, guestPhysmap_own h hmem]
    simp only [xenPhysPfn, xenPageSize, ram0Base, ram0Size, ram1Base, magicBase, mb2] at *
    omega

theorem extended_apart (h : Prepared chunk magic calls)
    (hmem : memSize cfg ≤ ram0Size + ram1Size) {fdtRc : Nat → Int} {fdt fdt' : Fdt}
    {gpaddrBits : Nat} (hbits : gpaddrBits ≤ 64)
    (hfill : fillHypervisorRegs fdtRc (.ok gpaddrBits) cfg fdt = .ok fdt') {r : Nat × Nat}
    (hr : r ∈ extendedRanges (fdt'.since fdt)) {pfn : Nat} (hin : InRange r pfn) :
    guestPhysmap chunk magic calls cfg pfn ≠ .own := by
  rw [fillHypervisorRegs_emitted hbits hfill] at hr
  obtain ⟨hmin, hregion⟩ := mem_emittedRegions hbits hr
  rw [ne_eq, guestPhysmap_own h hmem]
  rcases hregion with hregion | hregion
  · have hstart := hregion.start
    have hwindow := hregion.window
    simp only [alignUpTo2MB, InRange, xenPhysPfn, xenPageSize, ram0Base, ram0Size, ram1Size,
      magicBase, mb2] at *
    omega
  · have hmin : min (memSize cfg - ram0Size) ram1Size = memSize cfg - ram0Size := by omega
    have hstart := hregion.start
    have hwindow := hregion.window
    rw [hmin] at hstart
    clear hregion hmin
    simp only [alignUpTo2MB, InRange, xenPhysPfn, xenPageSize, ram0Base, ram0Size, ram1Base,
      ram1Size, magicBase, mb2] at *
    omega

end

def bareCfg (memKb : UInt64) : XenDomainCfg where
  name := []
  domainName := []
  memKb := memKb
  gntFrames := 32
  maxVcpus := 1
  nrIomems := 0
  nrIrqs := 0
  nrDtdevs := 0
  seclabel := none
  loadImageBytes := none
  getImageSize := none
  fPaused := false

def fullCalls : MemCalls where
  alignedAlloc := none
  removeRc _ := 0
  addRc _ := 0
  addErr _ := 0
  undoRc _ := 0
  populateRet _ n := n

def fullMagic : MagicCalls := ⟨fullCalls, 0, 0, 0, 0⟩

theorem prepared_full : Prepared 128 fullMagic fullCalls where
  chunkPos := by decide
  chunkLt := by simp [pfn2mShift, lpaeShift]
  magicPopulate _ _ := rfl
  populate _ _ := rfl
  mapRc := rfl
  flushRc := rfl
  consoleRc := rfl
  storeRc := rfl

theorem createMemoryLoop_total (banks : List (Nat × Nat)) (sizeLeft : Nat) (fdt : Fdt) :
    ∃ fdt', createMemoryLoop (fun _ => 0) banks sizeLeft fdt =
      .ok (sizeLeft - (banks.map Prod.snd).sum, fdt') := by
  induction banks generalizing sizeLeft fdt with
  | nil => exact ⟨fdt, rfl⟩
  | cons bank banks ih =>
    obtain ⟨bankbase, banksize⟩ := bank
    by_cases h0 : sizeLeft = 0
    · subst h0
      exact ⟨fdt, by simp [createMemoryLoop]⟩
    · have hrest : ∀ rest, sizeLeft - (if sizeLeft > banksize then banksize else sizeLeft) - rest =
          sizeLeft - (banksize + rest) := by
        intro rest
        split <;> omega
      simp only [createMemoryLoop, if_pos h0, fdtCall, fdtPropertyRegs, List.map_cons,
        List.sum_cons, ← hrest]
      exact ih _ _

theorem createMemory_total {memsize : Nat} (hmem : memsize ≤ ram0Size + ram1Size) (fdt : Fdt) :
    ∃ fdt', createMemory (fun _ => 0) memsize fdt = .ok fdt' := by
  obtain ⟨fdt', hloop⟩ := createMemoryLoop_total ramBanks memsize fdt
  have hleft : memsize - (ramBanks.map Prod.snd).sum = 0 := by
    simp [ramBanks]
    omega
  exact ⟨fdt', by simp [createMemory, hloop, hleft, bind, Except.bind]⟩

/-- The memory nodes and the extended regions, against the physmap. -/
theorem ram_as_told_iff {chunk : Nat} {magic : MagicCalls} {calls : MemCalls} {cfg : XenDomainCfg}
    (h : Prepared chunk magic calls) {fdtRc : Nat → Int} {fdt fdt' : Fdt}
    (hcreate : createMemory fdtRc (memSize cfg) fdt = .ok fdt') :
    ((∀ r ∈ memoryRanges false (fdt'.since fdt), ∀ pfn, InRange r pfn →
        guestPhysmap chunk magic calls cfg pfn = .own) ∧
      ∀ (fdtRc : Nat → Int) (fdt fdt' : Fdt) (gpaddrBits : Nat), 1 ≤ gpaddrBits → gpaddrBits ≤ 64 →
        fillHypervisorRegs fdtRc (.ok gpaddrBits) cfg fdt = .ok fdt' →
        ∀ r ∈ extendedRanges (fdt'.since fdt), ∀ pfn, InRange r pfn →
          guestPhysmap chunk magic calls cfg pfn ≠ .own) ↔
      memSize cfg ≤ ram0Size := by
  obtain ⟨hsince, hmem⟩ := createMemory_ok hcreate
  rw [hsince, memoryRanges_nodes (bankRanges_cells _)]
  constructor
  · intro hall
    by_contra hgt
    obtain ⟨r, hr, pfn, hin, hmissing⟩ := told_missing h hmem (by omega)
    exact hmissing (hall.1 r hr pfn hin)
  · intro hle
    refine ⟨?_, ?_⟩
    · intro r hr pfn hin
      exact told_populated h hle hr hin
    · intro fdtRc fdt fdt' gpaddrBits _ hbits hfill r hr pfn hin
      exact extended_apart h hmem hbits hfill hr hin

theorem memSize_128mb : memSize (bareCfg 131072) = 134217728 := by
  simp [memSize, bareCfg]

theorem ram_as_told_128mb : ∃ fdt',
    createMemory (fun _ => 0) (memSize (bareCfg 131072)) ⟨[], 0⟩ = .ok fdt' ∧
      ∀ r ∈ memoryRanges false (fdt'.since ⟨[], 0⟩), ∀ pfn, InRange r pfn →
        guestPhysmap 128 fullMagic fullCalls (bareCfg 131072) pfn = .own := by
  have hle : memSize (bareCfg 131072) ≤ ram0Size := by
    rw [memSize_128mb]
    simp [ram0Size]
  obtain ⟨fdt', hcreate⟩ := createMemory_total
    (Nat.le_trans hle (Nat.le_add_right ram0Size ram1Size)) ⟨[], 0⟩
  exact ⟨fdt', hcreate, ((ram_as_told_iff prepared_full hcreate).mpr hle).1⟩

theorem memSize_4gb : memSize (bareCfg 4194304) = 4294967296 := by
  simp [memSize, bareCfg]

/-- The second memory node is from 0x200000000 to 0x240000000, the populated extents are from
0x40000000 to 0x140000000. -/
theorem ram_missing_4gb : ∃ fdt',
    createMemory (fun _ => 0) (memSize (bareCfg 4194304)) ⟨[], 0⟩ = .ok fdt' ∧
      (0x200000000, 0x40000000) ∈ memoryRanges false (fdt'.since ⟨[], 0⟩) ∧
      InRange (0x200000000, 0x40000000) 0x200000 ∧
      guestPhysmap 128 fullMagic fullCalls (bareCfg 4194304) 0x200000 ≠ .own := by
  have hmem : memSize (bareCfg 4194304) ≤ ram0Size + ram1Size := by
    rw [memSize_4gb]
    simp [ram0Size, ram1Size]
  obtain ⟨fdt', hcreate⟩ := createMemory_total hmem ⟨[], 0⟩
  refine ⟨fdt', hcreate, ?_, by simp [InRange, xenPageSize], ?_⟩
  · rw [(createMemory_ok hcreate).1, memoryRanges_nodes (bankRanges_cells _), memSize_4gb]
    simp [bankRanges, ramBanks, ram0Base, ram0Size, ram1Base, ram1Size]
  · rw [ne_eq, guestPhysmap_own prepared_full hmem, memSize_4gb]
    simp [alignUpTo2MB, xenPhysPfn, xenPageSize, ram0Base, magicBase, mb2]

end Xenlib.GuestRam
