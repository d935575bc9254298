import Xenlib.DomFdt
import Xenlib.FdtPaths

/-!
What the device tree of a domain says: its nodes with their properties, and the configurations that
have such a tree.
-/

set_option autoImplicit false

namespace Xenlib.Libfdt.FdtItems

def append : FdtItems → FdtItems → FdtItems
  | .nil, more => more
  | .property p next, more => .property p (next.append more)
  | .node name content next, more => .node name content (next.append more)

def concat (items : List FdtItems) : FdtItems := items.foldr append .nil

def withProps (props : List FdtProperty) (content : FdtItems) : FdtItems :=
  props.foldr .property content

def ofNodes : FdtNodes → FdtItems
  | .nil => .nil
  | .node name props subnodes next =>
    .node name (withProps props (ofNodes subnodes)) (ofNodes next)

@[simp] theorem tags_append (items more : FdtItems) :
    (items.append more).tags = items.tags ++ more.tags := by
  induction items with
  | nil => rfl
  | property p next ih => simp [append, tags, ih]
  | node name content next _ ih => simp [append, tags, ih]

@[simp] theorem tags_concat (items : List FdtItems) :
    (concat items).tags = items.flatMap tags := by
  induction items with
  | nil => rfl
  | cons item items ih =>
    change (item.append (concat items)).tags = _
    rw [tags_append, ih, List.flatMap_cons]

@[simp] theorem tags_withProps (props : List FdtProperty) (content : FdtItems) :
    (withProps props content).tags = props.map FdtProperty.tag ++ content.tags := by
  induction props with
  | nil => rfl
  | cons p props ih => exact congrArg (p.tag :: ·) ih

theorem tags_ofNodes (nodes : FdtNodes) : (ofNodes nodes).tags = nodes.tags := by
  induction nodes with
  | nil => rfl
  | node name props subnodes next ihs ihn => simp [ofNodes, tags, FdtNodes.tags, ihs, ihn]

end Xenlib.Libfdt.FdtItems

namespace Xenlib.DomFdt

open Libfdt
open GuestRam (memSize setRange rootAddressCells rootSizeCells ramBanks regionLoop bankRanges
  extRegionMinSize gnttabBase gnttabSize)

def textProp (name : String) (text : CString) : FdtProperty := ⟨cstr name, strBytes text⟩

def cellProp (name : String) (value : Nat) : FdtProperty := ⟨cstr name, cpuToFdt32 value⟩

def compatProp (compats : List CString) : FdtProperty :=
  ⟨cstr "compatible", compats.flatMap strBytes⟩

def regProp (addrCells sizeCells : Nat) (regs : List (Nat × Nat)) : FdtProperty :=
  ⟨cstr "reg", cells (regs.flatMap fun r => setRange addrCells sizeCells r.1 r.2)⟩

def interruptProps (intr : List (List Nat)) : List FdtProperty :=
  [⟨cstr "interrupts", cells intr.flatten⟩, cellProp "interrupt-parent" guestGicPhandle]

def leaf (name : CString) (props : List FdtProperty) : FdtItems :=
  .node name (.withProps props .nil) .nil

/-- The first string is always there. -/
def rootCompats (major minor : UInt32) : Option (List CString) → List CString
  | none => [versioned (cstr "xen,xenvm-") major minor, cstr "xen,xenvm"]
  | some compats => versioned (cstr "xen,xenvm-") major minor :: compats

def rootProps (major minor : UInt32) (cfg : DomDtCfg) : List FdtProperty :=
  [textProp "model" (versioned (cstr "XENVM-") major minor),
    compatProp (rootCompats major minor cfg.machineDtCompat),
    cellProp "interrupt-parent" guestGicPhandle,
    cellProp "#address-cells" rootAddressCells,
    cellProp "#size-cells" rootSizeCells]

def chosenNode : Option CString → FdtItems
  | none => .nil
  | some cmdline => leaf (cstr "chosen") [textProp "bootargs" cmdline]

def cpuNode (i : Nat) : FdtItems :=
  leaf (cstr "cpu@" ++ hex (getMpdir i)) [textProp "device_type" (cstr "cpu"),
    compatProp [cstr "arm,armv8"], textProp "enable-method" (cstr "psci"),
    regProp 1 0 [(getMpdir i, 0)]]

def cpusNode (nrCpus : Nat) : FdtItems :=
  .node (cstr "cpus") (.withProps [cellProp "#address-cells" 1, cellProp "#size-cells" 0]
    (.concat ((List.range nrCpus).map cpuNode))) .nil

def psciNode : FdtItems :=
  leaf (cstr "psci") [compatProp [cstr "arm,psci-1.0", cstr "arm,psci-0.2", cstr "arm,psci"],
    textProp "method" (cstr "hvc"), cellProp "cpu_off" psciCpuOff, cellProp "cpu_on" psciCpuOn]

def memoryNode (bank : Nat × Nat) : FdtItems :=
  leaf (cstr "memory@" ++ hex bank.1) [textProp "device_type" (cstr "memory"),
    regProp rootAddressCells rootSizeCells [bank]]

def gicNode (compats : List CString) (regs : List (Nat × Nat)) (gicdBase : Nat) : FdtItems :=
  leaf (cstr "interrupt-controller@" ++ hex gicdBase) [compatProp compats,
    cellProp "#interrupt-cells" 3, cellProp "#address-cells" 0,
    ⟨cstr "interrupt-controller", []⟩, regProp rootAddressCells rootSizeCells regs,
    cellProp "linux,phandle" guestGicPhandle, cellProp "phandle" guestGicPhandle]

def gicv2Node : FdtItems :=
  gicNode [cstr "arm,cortex-a15-gic", cstr "arm,cortex-a9-gic"]
    [(guestGicdBase, guestGicdSize), (guestGiccBase, guestGiccSize)] guestGicdBase

def gicv3Node : FdtItems :=
  gicNode [cstr "arm,gic-v3"] [(guestGicv3GicdBase, guestGicv3GicdSize),
    (guestGicv3Gicr0Base, guestGicv3Gicr0Size)] guestGicv3GicdBase

def timerInterrupts : List (List Nat) :=
  [setInterrupt guestTimerPhysSPpi 0xf dtIrqTypeLevelLow,
    setInterrupt guestTimerPhysNsPpi 0xf dtIrqTypeLevelLow,
    setInterrupt guestTimerVirtPpi 0xf dtIrqTypeLevelLow]

def timerNode : FdtItems :=
  leaf (cstr "timer") (compatProp [cstr "arm,armv8-timer"] :: interruptProps timerInterrupts)

def extendedRegions (gpaddrBits : Nat) (cfg : DomDtCfg) : List (Nat × Nat) :=
  (regionLoop gpaddrBits ramBanks (memSize cfg.toXenDomainCfg)).filter
    fun r => ¬ r.2 < extRegionMinSize

def hypervisorNode (major minor : UInt32) (regions : List (Nat × Nat)) : FdtItems :=
  leaf (cstr "hypervisor")
    (compatProp [versioned (cstr "xen,xen-") major minor, cstr "xen,xen"] ::
      regProp rootAddressCells rootSizeCells ((gnttabBase, gnttabSize) :: regions) ::
      interruptProps [setInterrupt guestEvtchnPpi 0xf dtIrqTypeLevelLow])

def opteeNode : FdtItems :=
  .node (cstr "firmware") (leaf (cstr "optee")
    [compatProp [cstr "linaro,optee-tz"], textProp "method" (cstr "hvc")]) .nil

/-- The node at this path of the partial tree, if its full name is the last part of the path. -/
def copiedNode (partialTree : FdtItems) (path : CString) : FdtItems :=
  match FdtItems.lookup (tokens path) ([], partialTree) with
  | none => .nil
  | some (name, content) =>
    if strrchr slash path = some (slash :: name) then
      .ofNodes (.node name content.leading content.nodes .nil)
    else .nil

section
variable (cfg : DomDtCfg) (major minor : UInt32) (partialTree : Option FdtItems)
  (info : Except Int Nat)

def copiedNodes : List FdtItems :=
  match partialTree with
  | none => []
  | some content =>
    ([cstr "/passthrough", cstr "/aliases"] ++ cfg.dtPassthrough).map (copiedNode content)

def domainTree (gpaddrBits : Nat) : FdtItems :=
  .withProps (rootProps major minor cfg) (.concat ([chosenNode cfg.cmdline,
      cpusNode cfg.numVcpus, psciNode] ++
    (bankRanges ramBanks (memSize cfg.toXenDomainCfg)).map memoryNode ++
    [if cfg.gicVersion = configGicV2 then gicv2Node else gicv3Node, timerNode,
      hypervisorNode major minor (extendedRegions gpaddrBits cfg),
      if cfg.teeType = configTeeOptee then opteeNode else .nil] ++
    copiedNodes cfg partialTree))

structure Describable (gpaddrBits : Nat) : Prop where
  compat : ((rootCompats major minor cfg.machineDtCompat).flatMap strBytes).length ≤ fdtStringMax
  memory : memSize cfg.toXenDomainCfg ≤ (ramBanks.map Prod.snd).sum
  gic : cfg.gicVersion = configGicV2 ∨ cfg.gicVersion = configGicV3
  info : info = .ok gpaddrBits
  bits : gpaddrBits ≤ 64
  regions : extendedRegions gpaddrBits cfg ≠ []
  paths : partialTree ≠ none → ∀ path ∈ cfg.dtPassthrough, slash ∈ path

end

end Xenlib.DomFdt
