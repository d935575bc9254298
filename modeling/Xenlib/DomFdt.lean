import Xenlib.FdtRead
import Xenlib.FdtWrite
import Xenlib.GuestRam

/-!
The device tree of a new domain, as `xen-dom-fdt.c` has libfdt write it into a buffer, with nodes
of a partial device tree that is in another buffer.
-/

set_option autoImplicit false

namespace Xenlib.DomFdt

open Libfdt
open GuestRam (memSize setCell setRange rootAddressCells rootSizeCells ramBanks regionLoop
  extRegionMinSize gnttabBase gnttabSize)

/-- A call that only returns this code. -/
def give (code : Int) : FdtCall := fun fdt => .ok (code, fdt)

/-- The calls in order, up to the first that does not return 0. -/
def inOrder : List FdtCall → FdtCall
  | [] => give 0
  | call :: calls => fun fdt => do
    let (res, fdt) ← call fdt
    if res ≠ 0 then return (res, fdt) else inOrder calls fdt

def fdtStringMax : Nat := 128

/-- `ZSNPRINTF`, and what is called with the string that it leaves in the buffer. -/
def zsnprintf (text : CString) (call : CString → FdtCall) : FdtCall :=
  if text.length = 0 then give Errno.enomem.rc else call (text.take (fdtStringMax - 1))

/-- `%llx`. -/
def hex (n : Nat) : CString := ascii (Nat.toDigits 16 n)

/-- `text` followed by `%d.%d`. -/
def versioned (text : CString) (major minor : UInt32) : CString :=
  text ++ decimalInt major ++ cstr "." ++ decimalInt minor

def cells (values : List Nat) : Bytes := BigEndian.table 4 values

def fdtPropertyCompat (compats : List CString) : FdtCall :=
  let compat := compats.flatMap strBytes
  if fdtStringMax < compat.length then give Errno.enomem.rc
  else fdtProperty (cstr "compatible") compat

def fdtPropertyRegs (addrCells sizeCells : Nat) (regs : List (Nat × Nat)) : FdtCall :=
  fdtProperty (cstr "reg")
    (cells (regs.flatMap fun r => setRange addrCells sizeCells r.1 r.2))

def guestGicPhandle : Nat := 65000

def fdtPropertyInterrupts (intr : List (List Nat)) : FdtCall :=
  inOrder [fdtProperty (cstr "interrupts") (cells intr.flatten),
    fdtPropertyCell (cstr "interrupt-parent") guestGicPhandle]

/-- The fields of the configuration that go into the tree. `machineDtCompat` is NULL or a list,
`dtPassthrough` is empty when it is NULL. -/
structure DomDtCfg extends XenDomainCfg where
  machineDtCompat : Option (List CString)
  cmdline : Option CString
  gicVersion : Nat
  teeType : Nat
  dtPassthrough : List CString

/-- The loop of `create_root` over the compatible strings: the used part of the buffer, if they
fit. -/
def compatLoop : List CString → Bytes → Option Bytes
  | [], buf => some buf
  | compat :: compats, buf =>
    if fdtStringMax < buf.length + compat.length + 1 then none
    else compatLoop compats (buf ++ strBytes compat)

def machineCompat (compats : Option (List CString)) (buf : CString) : FdtCall :=
  match compats with
  | none => fdtPropertyCompat [buf, cstr "xen,xenvm"]
  | some compats =>
    match compatLoop compats (strBytes buf) with
    | none => give Errno.enomem.rc
    | some compat => fdtProperty (cstr "compatible") compat

def createRoot (major minor : UInt32) (cfg : DomDtCfg) : FdtCall :=
  inOrder [zsnprintf (versioned (cstr "XENVM-") major minor) (fdtPropertyString (cstr "model")),
    zsnprintf (versioned (cstr "xen,xenvm-") major minor) (machineCompat cfg.machineDtCompat),
    fdtPropertyCell (cstr "interrupt-parent") guestGicPhandle,
    fdtPropertyCell (cstr "#address-cells") rootAddressCells,
    fdtPropertyCell (cstr "#size-cells") rootSizeCells]

def createChosen : Option CString → FdtCall
  | none => give 0
  | some cmdline => inOrder [fdtBeginNode (cstr "chosen"),
      fdtPropertyString (cstr "bootargs") cmdline, fdtEndNode]

def getMpdir (cpuid : Nat) : Nat := (cpuid &&& 0x0f) ||| (((cpuid >>> 4) &&& 0xff) <<< 8)

def createCpu (i : Nat) : FdtCall :=
  zsnprintf (cstr "cpu@" ++ hex (getMpdir i)) fun name => inOrder [fdtBeginNode name,
    fdtPropertyString (cstr "device_type") (cstr "cpu"),
    fdtPropertyCompat [cstr "arm,armv8"],
    fdtPropertyString (cstr "enable-method") (cstr "psci"),
    fdtPropertyRegs 1 0 [(getMpdir i, 0)],
    fdtEndNode]

def createCpus (nrCpus : Nat) : FdtCall :=
  inOrder ([fdtBeginNode (cstr "cpus"),
      fdtPropertyCell (cstr "#address-cells") 1,
      fdtPropertyCell (cstr "#size-cells") 0] ++
    (List.range nrCpus).map createCpu ++ [fdtEndNode])

def psciCpuOff : Nat := 1

def psciCpuOn : Nat := 2

def createPsci : FdtCall :=
  inOrder [fdtBeginNode (cstr "psci"),
    fdtPropertyCompat [cstr "arm,psci-1.0", cstr "arm,psci-0.2", cstr "arm,psci"],
    fdtPropertyString (cstr "method") (cstr "hvc"),
    fdtPropertyCell (cstr "cpu_off") psciCpuOff,
    fdtPropertyCell (cstr "cpu_on") psciCpuOn,
    fdtEndNode]

def createBank (bankbase bankSize : Nat) : FdtCall :=
  zsnprintf (cstr "memory@" ++ hex bankbase) fun name => inOrder [fdtBeginNode name,
    fdtPropertyString (cstr "device_type") (cstr "memory"),
    fdtPropertyRegs rootAddressCells rootSizeCells [(bankbase, bankSize)],
    fdtEndNode]

/-- The loop of `create_memory` over the banks, and what comes after it. -/
def memoryLoop : (banks : List (Nat × Nat)) → (sizeLeft : Nat) → FdtCall
  | [], sizeLeft => give (if sizeLeft ≠ 0 then Errno.einval.rc else 0)
  | (bankbase, banksize) :: banks, sizeLeft =>
    if sizeLeft ≠ 0 then
      let bankSize := if sizeLeft > banksize then banksize else sizeLeft
      inOrder [createBank bankbase bankSize, memoryLoop banks (sizeLeft - bankSize)]
    else give 0

def createMemory (memsize : Nat) : FdtCall := memoryLoop ramBanks memsize

/-- The two functions differ in their ranges and in what they are compatible with. -/
def createGic (compats : List CString) (regs : List (Nat × Nat)) (gicdBase : Nat) : FdtCall :=
  zsnprintf (cstr "interrupt-controller@" ++ hex gicdBase) fun name => inOrder [fdtBeginNode name,
    fdtPropertyCompat compats,
    fdtPropertyCell (cstr "#interrupt-cells") 3,
    fdtPropertyCell (cstr "#address-cells") 0,
    fdtProperty (cstr "interrupt-controller") [],
    fdtPropertyRegs rootAddressCells rootSizeCells regs,
    fdtPropertyCell (cstr "linux,phandle") guestGicPhandle,
    fdtPropertyCell (cstr "phandle") guestGicPhandle,
    fdtEndNode]

def guestGicdBase : Nat := 0x03001000

def guestGicdSize : Nat := 0x00001000

def guestGiccBase : Nat := 0x03002000

def guestGiccSize : Nat := 0x00002000

def createGicv2 : FdtCall :=
  createGic [cstr "arm,cortex-a15-gic", cstr "arm,cortex-a9-gic"]
    [(guestGicdBase, guestGicdSize), (guestGiccBase, guestGiccSize)] guestGicdBase

def guestGicv3GicdBase : Nat := 0x03001000

def guestGicv3GicdSize : Nat := 0x00010000

def guestGicv3Gicr0Base : Nat := 0x03020000

def guestGicv3Gicr0Size : Nat := 0x01000000

def createGicv3 : FdtCall :=
  createGic [cstr "arm,gic-v3"] [(guestGicv3GicdBase, guestGicv3GicdSize),
    (guestGicv3Gicr0Base, guestGicv3Gicr0Size)] guestGicv3GicdBase

/-- The three cells. `irq` is at least 16, which is asserted. -/
def setInterrupt (irq cpumask level : Nat) : List Nat :=
  let isPpi := irq < 32
  setCell 1 (if isPpi then 1 else 0) ++ setCell 1 (irq - if isPpi then 16 else 32) ++
    setCell 1 (cpumask <<< 8 ||| level)

def dtIrqTypeLevelLow : Nat := 8

def guestTimerVirtPpi : Nat := 27

def guestTimerPhysSPpi : Nat := 29

def guestTimerPhysNsPpi : Nat := 30

def guestEvtchnPpi : Nat := 31

def createTimer (frequency : Nat) : FdtCall :=
  inOrder ([fdtBeginNode (cstr "timer"),
      fdtPropertyCompat [cstr "arm,armv8-timer"],
      fdtPropertyInterrupts [setInterrupt guestTimerPhysSPpi 0xf dtIrqTypeLevelLow,
        setInterrupt guestTimerPhysNsPpi 0xf dtIrqTypeLevelLow,
        setInterrupt guestTimerVirtPpi 0xf dtIrqTypeLevelLow]] ++
    (if frequency ≠ 0 then [fdtPropertyU32 (cstr "clock-frequency") frequency] else []) ++
    [fdtEndNode])

/-- `info` is the `gpaddr_bits` that `xen_domctl_getdomaininfo` gives, or its code. -/
def fillHypervisorRegs (info : Except Int Nat) (cfg : DomDtCfg) : FdtCall :=
  match info with
  | .error rc => give rc
  | .ok gpaddrBits =>
    let regions := (regionLoop gpaddrBits ramBanks (memSize cfg.toXenDomainCfg)).filter
      fun r => ¬ r.2 < extRegionMinSize
    if gpaddrBits > 64 then give Errno.einval.rc
    else if regions.length = 0 then give Errno.enomem.rc
    -- region 0 is the space of the grant table
    else fdtPropertyRegs rootAddressCells rootSizeCells ((gnttabBase, gnttabSize) :: regions)

def createHypervisor (major minor : UInt32) (cfg : DomDtCfg) (info : Except Int Nat) : FdtCall :=
  inOrder [fdtBeginNode (cstr "hypervisor"),
    zsnprintf (versioned (cstr "xen,xen-") major minor) fun name =>
      fdtPropertyCompat [name, cstr "xen,xen"],
    fillHypervisorRegs info cfg,
    fdtPropertyInterrupts [setInterrupt guestEvtchnPpi 0xf dtIrqTypeLevelLow],
    fdtEndNode]

def createOptee : FdtCall :=
  inOrder [fdtBeginNode (cstr "firmware"), fdtBeginNode (cstr "optee"),
    fdtPropertyCompat [cstr "linaro,optee-tz"],
    fdtPropertyString (cstr "method") (cstr "hvc"),
    fdtEndNode, fdtEndNode]

def checkFdt (fdt : FdtBuf) (size : Nat) : Int :=
  if fdt.magic ≠ fdtMagicValue then Errno.einval.rc
  else if fdtCheckHeader fdt ≠ 0 then Errno.einval.rc
  else if size < fdt.totalsize then Errno.einval.rc
  else 0

/-- A call with a name that may be NULL, of which the length is taken after the check of the
state. -/
def withName (name : Except Int CString) (call : CString → FdtCall) : FdtCall := fun fdt =>
  match name with
  | .ok name => call name fdt
  | .error _ =>
    if fdtSwProbeStruct fdt ≠ 0 then .ok (fdtSwProbeStruct fdt, fdt) else .error .null

/-- The loop of `copy_properties`. -/
def propertiesLoop (pfdt : FdtBuf) : (rounds : Nat) → (propoff : Int) → FdtCall
  | 0, _ => fun _ => .error .endless
  | rounds + 1, propoff => fun fdt =>
    if 0 ≤ propoff then do
      match ← fdtGetPropertyByOffset pfdt propoff with
      | .error _ => return (-fdtErrInternal, fdt)
      | .ok prop =>
        let nameoff ← pfdt.ld32 (prop.ptr + 8)
        let name ← fdtGetString pfdt (toInt nameoff)
        let data ← pfdt.bytes (prop.ptr + 12) prop.len.toNat
        let (r, fdt) ← withName name (fun name => fdtProperty name data) fdt
        if r ≠ 0 then return (r, fdt)
        else propertiesLoop pfdt rounds (← fdtNextPropertyOffset pfdt propoff) fdt
    else .ok (if propoff ≠ -fdtErrNotfound then propoff else 0, fdt)

def copyProperties (pfdt : FdtBuf) (nodeoff : Int) : FdtCall := fun fdt => do
  propertiesLoop pfdt (pfdt.mem.length + 1) (← fdtFirstPropertyOffset pfdt nodeoff) fdt

mutual

def copyNode (pfdt : FdtBuf) : (rounds : Nat) → (nodeoff : Int) → FdtCall
  | 0, _ => fun _ => .error .endless
  | rounds + 1, nodeoff => fun fdt => do
    let (r, fdt) ← withName (← fdtGetName pfdt nodeoff) fdtBeginNode fdt
    if r ≠ 0 then return (r, fdt)
    let (r, fdt) ← copyProperties pfdt nodeoff fdt
    if r ≠ 0 then return (r, fdt)
    let (r, fdt) ← copySubnodes pfdt rounds (← fdtFirstSubnode pfdt nodeoff) fdt
    if r ≠ 0 then return (r, fdt) else fdtEndNode fdt

/-- The loop of `copy_node` over the subnodes. -/
def copySubnodes (pfdt : FdtBuf) : (rounds : Nat) → (nodeoff : Int) → FdtCall
  | 0, _ => fun _ => .error .endless
  | rounds + 1, nodeoff => fun fdt =>
    if 0 ≤ nodeoff then do
      let (r, fdt) ← copyNode pfdt rounds nodeoff fdt
      if r ≠ 0 then return (r, fdt)
      else copySubnodes pfdt rounds (← fdtNextSubnode pfdt nodeoff) fdt
    else .ok (if nodeoff ≠ -fdtErrNotfound then nodeoff else 0, fdt)

end

def copyNodeByPath (pfdt : FdtBuf) (path : CString) : FdtCall := fun fdt =>
  match strrchr slash path with
  | none => .ok (-fdtErrInternal, fdt)
  | some tail => do
    let nodeoff ← fdtPathOffset pfdt path
    if nodeoff < 0 then return (nodeoff, fdt)
    match ← fdtGetName pfdt nodeoff with
    | .error _ => .error .null
    | .ok name =>
      if name ≠ tail.drop 1 then return (-fdtErrNotfound, fdt)
      else copyNode pfdt (pfdt.mem.length + 1) nodeoff fdt

/-- The loop of `copy_dt_passthrough`; a node that is not found is left out. -/
def copyDtPassthrough (pfdt : FdtBuf) : List CString → FdtCall
  | [] => give 0
  | path :: paths => fun fdt => do
    let (r, fdt) ← copyNodeByPath pfdt path fdt
    if r < 0 ∧ r ≠ -fdtErrNotfound then return (r, fdt) else copyDtPassthrough pfdt paths fdt

def copyPfdt (pfdt : FdtBuf) : FdtCall :=
  copyDtPassthrough pfdt [cstr "/passthrough", cstr "/aliases"]

def fdtToErrno (rc : Int) : Errno := if rc = -fdtErrNospace then .enomem else .einval

/-- The steps of `gen_domain_fdt`, up to the first that returns a negative code. -/
def steps : List FdtCall → FdtBuf → Except FdtStop (Except Int FdtBuf)
  | [], fdt => .ok (.ok fdt)
  | call :: calls, fdt => do
    let (rc, fdt) ← call fdt
    if rc < 0 then return .error rc else steps calls fdt

def configGicV2 : Nat := 1

def configGicV3 : Nat := 2

def configTeeOptee : Nat := 1

section
variable (cfg : DomDtCfg) (major minor : UInt32) (pfdt : Option FdtBuf) (info : Except Int Nat)

def lastSteps : List FdtCall :=
  [createTimer 0, createHypervisor major minor cfg info] ++
    (if cfg.teeType = configTeeOptee then [createOptee] else []) ++
    (match pfdt with
      | none => []
      | some pfdt => [copyPfdt pfdt, copyDtPassthrough pfdt cfg.dtPassthrough]) ++
    [fdtEndNode, fdtFinish]

/-- The tree in a buffer that `fdt_create` has set up, or the code it fails with. -/
def writeTree (fdt : FdtBuf) : Except FdtStop (Except Int FdtBuf) := do
  match ← steps [fdtFinishReservemap, fdtBeginNode [], createRoot major minor cfg,
      createChosen cfg.cmdline, createCpus cfg.numVcpus, createPsci,
      createMemory (memSize cfg.toXenDomainCfg)] fdt with
  | .error rc => return .error rc
  | .ok fdt =>
    if cfg.gicVersion = configGicV2 then
      steps (createGicv2 :: lastSteps cfg major minor pfdt info) fdt
    else if cfg.gicVersion = configGicV3 then
      steps (createGicv3 :: lastSteps cfg major minor pfdt info) fdt
    else return .error fdtErrBadvalue

/-- `alloc` is what `k_aligned_alloc` gives: the address of the memory and what is in it. -/
def genDomainFdt (alloc : Option (Nat × Bytes)) : Except FdtStop (Except Errno FdtBuf) :=
  if pfdt.any fun pfdt => checkFdt pfdt pfdt.mem.length ≠ 0 then .ok (.error .einval)
  else
    match alloc with
    | none => .ok (.error .enomem)
    | some (addr, buf) =>
      match fdtCreate addr buf with
      | .error rc => .ok (.error (fdtToErrno rc))
      | .ok fdt => do
        match ← writeTree cfg major minor pfdt info fdt with
        | .error rc => return .error (fdtToErrno rc)
        | .ok fdt => return .ok fdt

end

end Xenlib.DomFdt
