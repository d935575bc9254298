import Xenlib.Client
import Xenlib.Components
import Xenlib.DomMgmt

/-!
`domain_create`. The calls that can fail, hypercalls, allocations and services, have their
outcomes given from outside; what they leave behind is the registry, the node tree, the stack
slots of the two services and the handlers of the event channels.
-/

set_option autoImplicit false

namespace Xenlib

inductive ProbeCall where
  | genFdt | mapDtb | flushDtb | unmapDtb | mapImage | flushImage | unmapImage
deriving DecidableEq

inductive CreateCall where
  | flaskContext | createDomain | allocDomain | maxVcpus | addressSize | maxMem | pagingMempool
  | storeEvtchn | consoleEvtchn
  | populateMagic | mapMagic | flushMagic | unmapMagic | consolePfn | storePfn | populateRam
  /-- The attempt as uImage comes before the one as zImage. -/
  | probe (uimage : Bool) (call : ProbeCall)
  | iomemPermission (i : Nat) | memoryMapping (i : Nat) | bindIrq (i : Nat) | assignDtdev (i : Nat)
  | vcpuContext
  | mapStore | bindStore | paramStore
  | mapConsole | allocConsole | bindConsole | paramConsole
  | domainInfo
  /-- Any allocation of the store. -/
  | storeAlloc
  | unpause
deriving DecidableEq

structure Traced (α : Type) where
  val : α
  calls : List CreateCall

instance : Monad Traced where
  pure a := ⟨a, []⟩
  bind x f := ⟨(f x.val).val, x.calls ++ (f x.val).calls⟩

structure CreateEnv where
  /-- What a call returns: negative when it fails, the port where one is allocated, 0 otherwise. -/
  rc : CreateCall → Int
  /-- `CONFIG_XEN_FLASK`. -/
  flask : Bool
  /-- The id Xen gives the domain. -/
  domid : UInt32
  /-- The size of the device tree that `gen_domain_fdt` makes. -/
  fdtSize : UInt64
  /-- The domains Xen knows. -/
  infos : List UInt16

def CreateEnv.call (env : CreateEnv) (c : CreateCall) : Traced Int := ⟨env.rc c, [c]⟩

def Errno.rc : Errno → Int
  | .eperm => -1
  | .enoent => -2
  | .eio => -5
  | .e2big => -7
  | .eagain => -11
  | .enomem => -12
  | .eacces => -13
  | .ebusy => -16
  | .eexist => -17
  | .eisdir => -21
  | .einval => -22
  | .enospc => -28
  | .erofs => -30
  | .eproto => -71
  | .enosys => -88
  | .enotempty => -90
  | .etimedout => -116
  | .eisconn => -127
  | .enotsup => -134

structure XenDomainCfg where
  name : CString
  domainName : CString
  memKb : UInt64
  gntFrames : Int
  maxVcpus : UInt32
  nrIomems : Nat
  nrIrqs : Nat
  nrDtdevs : Nat
  seclabel : Option CString
  /-- From the number of bytes and the offset to the result and the bytes. -/
  loadImageBytes : Option (Nat → Nat → Int × Bytes)
  getImageSize : Option (Int × UInt64)
  fPaused : Bool

def containerNameSize : Nat := 64

/-- `CONTAINER_NAME_SIZE` bytes that may lack their NUL. -/
def XenDomainCfg.chosenName (cfg : XenDomainCfg) : CString :=
  if 0 < cfg.domainName.length then cfg.domainName else cfg.name

def XenDomainCfg.numVcpus (cfg : XenDomainCfg) : Nat :=
  if cfg.maxVcpus.toNat < 2 ^ 31 then cfg.maxVcpus.toNat else 0

def nrMagicPages : Int := 4

def magicPageSize : Int := 4096

/-- A `uint64_t`. -/
def XenDomainCfg.maxMemKb (cfg : XenDomainCfg) : Nat :=
  ((cfg.memKb.toNat + (cfg.gntFrames + nrMagicPages) * magicPageSize) % 2 ^ 64).toNat

def guestRam0Base : UInt64 := 0x40000000

def guestRam0Size : UInt64 := 0xc0000000

def uimageMagic : Nat := 0x27051956

/-- The size of `struct zimage64_hdr`, and of `struct uimage_hdr`. -/
def imageHeaderSize : Nat := 64

def be32At (bytes : Bytes) (offset : Nat) : Nat :=
  (((bytes.drop offset).take 4).foldl (fun n b => n * 256 + b.toNat) 0)

def le64At (bytes : Bytes) (offset : Nat) : Nat :=
  (((bytes.drop offset).take 8).foldr (fun b n => n * 256 + b.toNat) 0)

def megabytes (n : UInt64) : UInt64 := n * 1024 * 1024

def roundUp2M (n : UInt64) : UInt64 :=
  (n + (megabytes 2 - 1)) / megabytes 2 * megabytes 2

/-- 0 when there is no place for the device tree. -/
def getDtbAddr (rambase ramsize kernbase kernsize dtbsize : UInt64) : UInt64 :=
  let modsize := roundUp2M dtbsize
  let ramend := rambase + ramsize
  let ram128mb := rambase + megabytes 128
  let kernsizeAligned := roundUp2M kernsize
  let kernend := kernbase + kernsize
  if modsize + kernsizeAligned > ramsize then 0
  else if ramend ≥ ram128mb + modsize && kernend < ram128mb then ram128mb
  else if ramend - modsize > kernsizeAligned then ramend - modsize
  else if kernbase - rambase > modsize then kernbase - modsize
  else 0

def loadDtb (env : CreateEnv) (uimage : Bool) : Traced Int := do
  let rc ← env.call (.probe uimage .mapDtb)
  if rc ≠ 0 then return rc
  let errCacheFlush ← env.call (.probe uimage .flushDtb)
  let rc ← env.call (.probe uimage .unmapDtb)
  if errCacheFlush ≠ 0 then return errCacheFlush
  return rc

/-- The result, and the entry point where it is set. -/
def probeZimage (env : CreateEnv) (uimage : Bool) (baseAddr : UInt64) (imageReadOffset : Nat)
    (cfg : XenDomainCfg) : Traced (Int × UInt64) := do
  match cfg.loadImageBytes, cfg.getImageSize with
  | some loadImageBytes, some imageSize =>
    let zhdr := loadImageBytes imageHeaderSize imageReadOffset
    if zhdr.1 < 0 then return (zhdr.1, 0)
    let loadAddr := baseAddr + UInt64.ofNat (le64At zhdr.2 8)
    if imageSize.1 < 0 ∨ imageSize.2 = 0 then return (imageSize.1, 0)
    let rc ← env.call (.probe uimage .genFdt)
    if rc ≠ 0 ∨ env.fdtSize = 0 then return (Errno.enomem.rc, 0)
    if getDtbAddr baseAddr (cfg.memKb * 1024) loadAddr imageSize.2 env.fdtSize = 0 then
      return (rc, 0)
    let rc ← loadDtb env uimage
    if rc ≠ 0 then return (rc, 0)
    let rc ← env.call (.probe uimage .mapImage)
    if rc ≠ 0 then return (rc, 0)
    let image := loadImageBytes imageSize.2.toNat imageReadOffset
    if image.1 < 0 then return (image.1, 0)
    let errCacheFlush ← env.call (.probe uimage .flushImage)
    let rc ← env.call (.probe uimage .unmapImage)
    if rc ≠ 0 then return (rc, 0)
    if errCacheFlush ≠ 0 then return (errCacheFlush, 0)
    return (0, loadAddr)
  | _, _ => return (Errno.einval.rc, 0)

def probeUimage (env : CreateEnv) (cfg : XenDomainCfg) : Traced (Int × UInt64) := do
  match cfg.loadImageBytes with
  | none => return (Errno.einval.rc, 0)
  | some loadImageBytes =>
    let uhdr := loadImageBytes imageHeaderSize 0
    if uhdr.1 < 0 then return (uhdr.1, 0)
    let memSize := if cfg.memKb * 1024 > guestRam0Size then guestRam0Size else cfg.memKb * 1024
    let len := UInt64.ofNat (be32At uhdr.2 12)
    let baseAddr := UInt64.ofNat (be32At uhdr.2 16)
    if be32At uhdr.2 0 ≠ uimageMagic then return (Errno.einval.rc, 0)
    if baseAddr < guestRam0Base ∨ baseAddr > guestRam0Base + memSize then
      return (Errno.einval.rc, 0)
    if baseAddr + len > guestRam0Base + memSize then return (Errno.einval.rc, 0)
    probeZimage env true baseAddr imageHeaderSize cfg

def prepareDomainCfg (env : CreateEnv) (cfg : XenDomainCfg) : Traced Unit := do
  if env.flask && cfg.seclabel.isSome then
    let _ ← env.call .flaskContext

def allocateDomainEvtchns (env : CreateEnv) : Traced Int := do
  let rc ← env.call .storeEvtchn
  if rc < 0 then return rc
  let rc ← env.call .consoleEvtchn
  if rc < 0 then return rc
  return 0

def allocateMagicPages (env : CreateEnv) : Traced Int := do
  let populated ← env.call .populateMagic
  if populated ≠ 0 then return Errno.enomem.rc
  let rc ← env.call .mapMagic
  if rc ≠ 0 then return rc
  let errCacheFlush ← env.call .flushMagic
  let _ ← env.call .unmapMagic
  if errCacheFlush ≠ 0 then return errCacheFlush
  let rc ← env.call .consolePfn
  if rc ≠ 0 then return rc
  env.call .storePfn

def prepareDomainPhysmap (env : CreateEnv) : Traced Int := do
  let rc ← allocateMagicPages env
  if rc ≠ 0 then return rc
  let populated ← env.call .populateRam
  if populated ≠ 0 then return Errno.enomem.rc
  return 0

/-- The result, and the entry point of the image. -/
def loadModules (env : CreateEnv) (cfg : XenDomainCfg) : Traced (Int × UInt64) := do
  let rc ← prepareDomainPhysmap env
  if rc ≠ 0 then return (rc, 0)
  let uimage ← probeUimage env cfg
  if uimage.1 ≠ 0 then
    probeZimage env false guestRam0Base 0 cfg
  else return uimage

/-- The loop goes on after an error, and its last result counts. -/
def shareDomainIomems (env : CreateEnv) : Nat → Nat → Int → Traced Int
  | 0, _, rc => pure rc
  | left + 1, i, _ => do
    let _ ← env.call (.iomemPermission i)
    let rc ← env.call (.memoryMapping i)
    shareDomainIomems env left (i + 1) rc

def bindDomainIrqs (env : CreateEnv) : Nat → Nat → Int → Traced Int
  | 0, _, rc => pure rc
  | left + 1, i, _ => do
    let rc ← env.call (.bindIrq i)
    bindDomainIrqs env left (i + 1) rc

def assignDtdevs (env : CreateEnv) : Nat → Nat → Traced Int
  | 0, _ => pure 0
  | left + 1, i => do
    let rc ← env.call (.assignDtdev i)
    if rc ≠ 0 then return rc
    assignDtdevs env left (i + 1)

def loadImage (env : CreateEnv) (cfg : XenDomainCfg) : Traced Int := do
  let modules ← loadModules env cfg
  if modules.1 ≠ 0 then return modules.1
  if modules.2 = 0 then return Errno.einval.rc
  return 0

/-- `domain_create` from `xen_domctl_max_vcpus` up to the services. -/
def setupDomain (env : CreateEnv) (cfg : XenDomainCfg) : Traced Int := do
  let rc ← env.call .maxVcpus
  if rc ≠ 0 then return rc
  let rc ← env.call .addressSize
  if rc ≠ 0 then return rc
  let rc ← env.call .maxMem
  if rc ≠ 0 then return rc
  let rc ← env.call .pagingMempool
  if rc ≠ 0 then return rc
  let rc ← allocateDomainEvtchns env
  if rc ≠ 0 then return rc
  let rc ← loadImage env cfg
  if rc ≠ 0 then return rc
  let rc ← shareDomainIomems env cfg.nrIomems 0 0
  if rc ≠ 0 then return rc
  let rc ← bindDomainIrqs env cfg.nrIrqs 0 0
  if rc ≠ 0 then return rc
  let rc ← assignDtdevs env cfg.nrDtdevs 0
  if rc ≠ 0 then return rc
  env.call .vcpuContext

def cstr (s : String) : CString := ascii s.toList

def localDomainDir (domid : UInt32) : List CString :=
  [cstr "local", cstr "domain", decimalInt domid]

def zeroPadded (width n : Nat) : CString :=
  ascii (List.replicate (width - (decimal n).length) '0') ++ decimal n

/-- `%012d`. -/
def paddedInt (n : UInt32) : CString :=
  if n.toNat < 2 ^ 31 then zeroPadded 12 n.toNat
  else cstr "-" ++ zeroPadded 11 (2 ^ 32 - n.toNat)

def uuidOf (domid : UInt32) : CString := cstr "00000000-0000-0000-0000-" ++ paddedInt domid

def vmDir (domid : UInt32) : List CString := [cstr "vm", uuidOf domid]

def libxlDir (domid : UInt32) : List CString := [cstr "libxl", decimalInt domid]

inductive NodeWriter where
  | guestDomainRw | guestDomainRo | plain

structure NodeWrite where
  writer : NodeWriter
  path : List CString
  value : CString

def NodeWrite.run (w : NodeWrite) (domid : UInt32) : SrvM (Option Errno) :=
  match w.writer with
  | .guestDomainRw => xssWriteGuestDomainRw (some (renderPath w.path)) (some w.value) domid
  | .guestDomainRo => xssWriteGuestDomainRo (some (renderPath w.path)) (some w.value) domid
  | .plain => xssWrite (some (renderPath w.path)) (some w.value)

/-- `%lld`. -/
def decimalLong (n : Nat) : CString :=
  if n < 2 ^ 63 then decimal n else cstr "-" ++ decimal (2 ^ 64 - n)

def rwDirs : List (List CString) :=
  [[cstr "data"], [cstr "drivers"], [cstr "feature"], [cstr "attr"], [cstr "error"],
   [cstr "control", cstr "shutdown"], [cstr "control", cstr "feature-poweroff"],
   [cstr "control", cstr "feature-reboot"], [cstr "control", cstr "feature-suspend"],
   [cstr "control", cstr "sysrq"], [cstr "device", cstr "suspend", cstr "event-channel"]]

/-- The writes of `xs_initialize_xenstore` in their order. -/
def nodeWrites (domid : UInt32) (name : CString) (numVcpus maxMemKb : Nat) : List NodeWrite :=
  let dir := localDomainDir domid
  let text := if name ≠ [] then name else cstr "zephyr-" ++ decimalInt domid
  [⟨.guestDomainRw, dir, []⟩] ++
  (List.range numVcpus).map (fun i =>
    ⟨.guestDomainRo, dir ++ [cstr "cpu", decimal i, cstr "availability"], cstr "online"⟩) ++
  [⟨.guestDomainRo, dir ++ [cstr "memory", cstr "static-max"], decimalLong maxMemKb⟩,
   ⟨.guestDomainRo, dir ++ [cstr "memory", cstr "target"], decimalLong maxMemKb⟩,
   ⟨.guestDomainRo, dir ++ [cstr "memory", cstr "videoram"], cstr "-1"⟩,
   ⟨.guestDomainRo, dir ++ [cstr "control", cstr "platform-feature-multiprocessor-suspend"],
    cstr "1"⟩,
   ⟨.guestDomainRo, dir ++ [cstr "control", cstr "platform-feature-xs_reset_watches"], cstr "1"⟩,
   ⟨.guestDomainRo, dir ++ [cstr "vm"], uuidOf domid⟩,
   ⟨.guestDomainRo, vmDir domid ++ [cstr "name"], text⟩,
   ⟨.guestDomainRo, dir ++ [cstr "name"], text⟩,
   ⟨.guestDomainRo, vmDir domid ++ [cstr "start_time"], cstr "0"⟩,
   ⟨.guestDomainRo, vmDir domid ++ [cstr "uuid"], uuidOf domid⟩,
   ⟨.guestDomainRo, dir ++ [cstr "domid"], decimalInt domid⟩,
   ⟨.guestDomainRo, dir ++ [cstr "control"], []⟩,
   ⟨.guestDomainRo, dir ++ [cstr "device", cstr "vbd"], []⟩] ++
  rwDirs.map (fun d => ⟨.guestDomainRw, dir ++ d, []⟩) ++
  [⟨.plain, libxlDir domid ++ [cstr "dm-version"], cstr "qemu_xen_traditional"⟩,
   ⟨.plain, libxlDir domid ++ [cstr "type"], cstr "pvh"⟩]

def xsDeinitializeDomainXenstore (domid : UInt32) : SrvM Unit := do
  let _ ← xssRm (some (renderPath (localDomainDir domid)))
  let _ ← xssRm (some (renderPath (vmDir domid)))
  let _ ← xssRm (some (renderPath (libxlDir domid)))

def writeNodes (domid : UInt32) : List NodeWrite → SrvM (Option Errno)
  | [] => pure none
  | w :: rest => do
    match ← w.run domid with
    | some e => pure (some e)
    | none => writeNodes domid rest

def xsInitializeXenstore (domid : UInt32) (name : CString) (numVcpus maxMemKb : Nat) :
    SrvM (Option Errno) := do
  match ← writeNodes domid (nodeWrites domid name numVcpus maxMemKb) with
  | some e =>
    xsDeinitializeDomainXenstore domid
    pure (some e)
  | none => pure none

structure CreateState where
  shared : Shared
  registry : DomainRegistry
  /-- `used_threads` of the console server. -/
  consoleThreads : UInt32
  /-- The local ports with a handler. -/
  handlers : List Int
  /-- The calls made so far. -/
  made : List CreateCall

abbrev CreateM := Wp.Prog CreateState Fault

def traced {α : Type} (x : Traced α) : CreateM α := fun w =>
  .ok (x.val, { w with made := w.made ++ x.calls })

def onShared {α : Type} (x : SrvM α) : CreateM α := fun w =>
  match x w.shared with
  | .ok (a, s) => .ok (a, { w with shared := s })
  | .error e => .error e

def bindHandler (port : Int) : CreateM Unit :=
  modify fun w => { w with handlers := w.handlers ++ [port] }

def unbindEventChannel (port : Int) : CreateM Unit :=
  modify fun w => { w with handlers := w.handlers.filter (· ≠ port) }

/-- A service that runs: its stack slot and its local port. -/
structure RunningService where
  slot : Nat
  localEvtchn : Int

/-- When the parameter cannot be set only the ring is unmapped. -/
def startDomainStored (env : CreateEnv) : CreateM (Except Int RunningService) := do
  let rc ← traced (env.call .mapStore)
  if rc < 0 then return .error rc
  let port ← traced (env.call .bindStore)
  if port < 0 then return .error port
  bindHandler port
  let rc ← traced (env.call .paramStore)
  if rc ≠ 0 then return .error rc
  let slot ← onShared getStackIdx
  return .ok ⟨slot, port⟩

/-- The client the thread serves: the guest has not run yet. -/
def freshClient (domid : UInt32) (slot : Nat) : Xenstore :=
  .started domid ⟨fun _ => 0, fun _ => 0, 0, 0, 0, 0⟩ slot (fun _ => 0)

def stopDomainStored (domid : UInt32) (service : RunningService) : CreateM Unit := do
  let _ ← onShared (releaseDomainStored (freshClient domid service.slot))
  unbindEventChannel service.localEvtchn

def xenInitDomainConsole (env : CreateEnv) : CreateM (Except Int Int) := do
  let rc ← traced (env.call .mapConsole)
  if rc < 0 then return .error rc
  let intBuf ← traced (env.call .allocConsole)
  if intBuf < 0 then return .error Errno.enomem.rc
  let port ← traced (env.call .bindConsole)
  if port < 0 then return .error port
  bindHandler port
  let rc ← traced (env.call .paramConsole)
  if rc ≠ 0 then
    unbindEventChannel port
    return .error rc
  return .ok port

def consoleGetStackIdx : CreateM Nat := do
  match lowestClear (← get).consoleThreads with
  | none => throw .assertion
  | some ret =>
    modify fun w => { w with consoleThreads := w.consoleThreads ||| UInt32.ofNat (2 ^ ret) }
    pure ret

def consoleFreeStackIdx (idx : Nat) : CreateM Unit := do
  let w ← get
  if w.shared.domuMax ≤ idx then throw .assertion
  else if !bitSet w.consoleThreads idx then throw .assertion
  else modify fun w => { w with
    consoleThreads := w.consoleThreads &&& ~~~ UInt32.ofNat (2 ^ idx) }

def xenStartDomainConsole (env : CreateEnv) : CreateM (Except Int RunningService) := do
  match ← xenInitDomainConsole env with
  | .error rc => return .error rc
  | .ok port =>
    let slot ← consoleGetStackIdx
    return .ok ⟨slot, port⟩

def xenStopDomainConsole (service : RunningService) : CreateM Unit := do
  consoleFreeStackIdx service.slot
  unbindEventChannel service.localEvtchn

def xssRead (path : CString) : SrvM (Except Errno CString) := do
  let s ← get
  match ← alloc (keyToEntryCheckPerm s.root path 0 .read) with
  | none => pure (.error .enoent)
  | some entry => pure (.ok (entry.entry.label.value.getD []))

/-- The first of the domains that has the name; 0 when there is none. -/
def findNameLoop (name : CString) : List UInt16 → SrvM UInt32
  | [] => pure 0
  | domain :: rest => do
    match ← xssRead
        (renderPath [cstr "local", cstr "domain", decimal domain.toNat, cstr "name"]) with
    | .error _ => findNameLoop name rest
    | .ok domname =>
      if domname.take containerNameSize = name.take containerNameSize then pure domain.toUInt32
      else findNameLoop name rest

/-- Where Xen does not answer no domain is found. -/
def findDomainByName (env : CreateEnv) (name : CString) : CreateM UInt32 := do
  let ret ← traced (env.call .domainInfo)
  if ret < 0 then return 0
  onShared (findNameLoop name env.infos)

/-- The label `stop_domain_console` and those after it. -/
def stopServices (env : CreateEnv) (store console : RunningService) (rc : Int) : CreateM Int := do
  xenStopDomainConsole console
  stopDomainStored env.domid store
  return rc

/-- The end of `domain_create`, with both services running. -/
def publishDomain (env : CreateEnv) (cfg : XenDomainCfg) (store console : RunningService) :
    CreateM Int := do
  if (← findDomainByName env cfg.chosenName) ≠ 0 then
    stopServices env store console Errno.eexist.rc
  else
    match ← onShared (xsInitializeXenstore env.domid
        (cfg.chosenName.take (containerNameSize - 1)) cfg.numVcpus cfg.maxMemKb) with
    | some e => stopServices env store console e.rc
    | none =>
      let rc ← if cfg.fPaused then pure 0 else traced (env.call .unpause)
      if rc ≠ 0 then stopServices env store console rc
      else
        modify fun w => { w with registry := w.registry.register (createdDomain env.domid) }
        return env.domid.toInt32.toInt

def domainCreate (env : CreateEnv) (cfg : XenDomainCfg) : CreateM Int := do
  let w ← get
  if (w.shared.domuMax : Int) ≤ w.registry.domNum then return Errno.einval.rc
  traced (prepareDomainCfg env cfg)
  let rc ← traced (env.call .createDomain)
  if rc ≠ 0 then return rc
  -- Without memory for the structure `rc` is still that of the creation.
  if (← traced (env.call .allocDomain)) < 0 then return rc
  let rc ← traced (setupDomain env cfg)
  if rc ≠ 0 then return rc
  match ← startDomainStored env with
  | .error rc => return rc
  | .ok store =>
    match ← xenStartDomainConsole env with
    | .error rc =>
      stopDomainStored env.domid store
      return rc
    | .ok console => publishDomain env cfg store console

end Xenlib
