import Xenlib.ControlWrites
import Xenlib.DomCreate

/-!
Split devices. `domain_post_create` writes the nodes of the configured disks and network
interfaces, half of them below the domain that serves the device, and remembers which devices
are in place; `put_domain` takes the nodes away with the last reference.
-/

set_option autoImplicit false

namespace Xenlib

structure PvNetConfiguration where
  configured : Bool
  /-- The bits of an `int`. -/
  backendDomainId : UInt32
  script : CString
  mac : CString
  bridge : CString
  type : CString
  ip : CString

structure PvBlockConfiguration where
  configured : Bool
  backendDomainId : UInt32
  backendtype : CString
  script : CString
  target : CString
  vdev : CString
  access : CString

structure BackendConfiguration where
  vifs : List PvNetConfiguration
  disks : List PvBlockConfiguration

structure BackendState where
  functional : Bool
  backendDomainId : UInt32
deriving DecidableEq

structure BackendsState where
  vifs : List BackendState
  disks : List BackendState
deriving DecidableEq

structure DeviceWrite where
  call : GuestWrite
  path : List CString
  value : CString

def DeviceWrite.run (w : DeviceWrite) : SrvM (Option Errno) :=
  w.call.run (some (renderPath w.path)) (some w.value)

inductive DeviceStep where
  | write (w : DeviceWrite)
  /-- A write whose result is not looked at. -/
  | attempt (w : DeviceWrite)
  | refuse (e : Errno)

def runDevice : List DeviceStep → SrvM (Option Errno)
  | [] => pure none
  | .write w :: rest => do
    match ← w.run with
    | some e => pure (some e)
    | none => runDevice rest
  | .attempt w :: rest => do
    let _ ← w.run
    runDevice rest
  | .refuse e :: _ => pure (some e)

inductive DeviceKind where
  | vif | vbd
deriving DecidableEq

def DeviceKind.text : DeviceKind → CString
  | .vif => cstr "vif"
  | .vbd => cstr "vbd"

/-- "/local/domain/%d/backend/vif/%d", or "vbd" in its place. -/
def backendDir (kind : DeviceKind) (backendid domid : UInt32) : List CString :=
  localDomainDir backendid ++ [cstr "backend", kind.text, decimalInt domid]

/-- "/local/domain/%d/device/vif", or "vbd" in its place. -/
def deviceDir (kind : DeviceKind) (domid : UInt32) : List CString :=
  localDomainDir domid ++ [cstr "device", kind.text]

def xenXvdDpNominalType : Nat := 202 <<< 8

def xenXvdDpDiskMaxIndex : Nat := 1 <<< 20 - 1

/-- 0 where the name is not that of a disk. -/
def getXvdDiskId (vname : CString) : Nat :=
  match vname.drop 3 with
  | [c] =>
    if vname.take 3 ≠ cstr "xvd" ∨ c.val < 97 ∨ c.val > 122 then 0
    else
      let index := c.val.toNat - 97
      if index > xenXvdDpDiskMaxIndex then 0
      else xenXvdDpNominalType ||| index <<< 4
  | _ => 0

def blockSteps (cfg : PvBlockConfiguration) (domid : UInt32) (vbdId : Nat) : List DeviceStep :=
  let backendid := cfg.backendDomainId
  let backend := backendDir .vbd backendid domid ++ [decimal vbdId]
  let device := deviceDir .vbd domid ++ [decimal vbdId]
  let back (name value : CString) : DeviceWrite :=
    ⟨.withPermissions backendid domid, backend ++ [name], value⟩
  let front (name value : CString) : DeviceWrite :=
    ⟨.withPermissions domid backendid, device ++ [name], value⟩
  [.write ⟨.domainRo backendid, localDomainDir backendid ++ [cstr "backend"], []⟩,
   .write ⟨.domainRo backendid, localDomainDir backendid ++ [cstr "backend", cstr "vbd"], []⟩,
   .write ⟨.domainRo backendid, backendDir .vbd backendid domid, []⟩,
   .write ⟨.withPermissions backendid domid, backend, []⟩,
   .write (back (cstr "frontend") (renderPath device)),
   .write (back (cstr "params") cfg.target),
   .write (back (cstr "script") cfg.script),
   .write (back (cstr "frontend-id") (decimalInt domid)),
   .write (back (cstr "online") (cstr "1")),
   .write (back (cstr "removable") (cstr "0")),
   .write (back (cstr "bootable") (cstr "1")),
   .write (back (cstr "dev") cfg.vdev),
   .write (back (cstr "type") cfg.backendtype),
   if cfg.access = cstr "rw" ∨ cfg.access = cstr "w" then .attempt (back (cstr "mode") (cstr "w"))
   else if cfg.access = cstr "ro" ∨ cfg.access = cstr "r" then
     .attempt (back (cstr "mode") (cstr "r"))
   else .refuse .einval,
   .write (back (cstr "device-type") (cstr "disk")),
   .write (back (cstr "discard-enable") (cstr "1")),
   .write (back (cstr "multi-queue-max-queues") (cstr "4")),
   .write (back (cstr "state") (cstr "1")),
   .write ⟨.withPermissions domid backendid, device, []⟩,
   .write (front (cstr "backend") (renderPath backend)),
   .write (front (cstr "backend-id") (decimalInt backendid)),
   .write (front (cstr "virtual-device") (decimal vbdId)),
   .write (front (cstr "device-type") (cstr "disk")),
   .write (front (cstr "event-channel") []),
   .write (front (cstr "state") (cstr "1"))]

def xsAddPvblockXenstore (cfg : PvBlockConfiguration) (domid : UInt32) : SrvM (Option Errno) :=
  if cfg.configured = false then pure none
  else if getXvdDiskId cfg.vdev = 0 then pure (some .einval)
  else runDevice (blockSteps cfg domid (getXvdDiskId cfg.vdev))

/-- The "mtu" of the guest is written with the ids the other way round. -/
def netSteps (cfg : PvNetConfiguration) (domid : UInt32) (instanceId : Nat) : List DeviceStep :=
  let backendid := cfg.backendDomainId
  let backend := backendDir .vif backendid domid ++ [decimal instanceId]
  let device := deviceDir .vif domid ++ [decimal instanceId]
  let back (name value : CString) : DeviceStep :=
    .write ⟨.withPermissions backendid domid, backend ++ [name], value⟩
  let front (name value : CString) : DeviceStep :=
    .write ⟨.withPermissions domid backendid, device ++ [name], value⟩
  [.write ⟨.withPermissions backendid domid,
    localDomainDir backendid ++ [cstr "backend", cstr "vif"], []⟩,
   .write ⟨.withPermissions backendid domid, backendDir .vif backendid domid, []⟩,
   .write ⟨.withPermissions backendid domid, backend, []⟩,
   back (cstr "frontend") (renderPath device),
   back (cstr "frontend-id") (decimalInt domid),
   back (cstr "online") (cstr "1"),
   back (cstr "script") cfg.script,
   back (cstr "mac") cfg.mac,
   back (cstr "bridge") cfg.bridge,
   back (cstr "handle") (decimal instanceId),
   back (cstr "type") cfg.type,
   back (cstr "hotplug-status") []] ++
  (if cfg.ip ≠ [] then [back (cstr "ip") cfg.ip] else []) ++
  [back (cstr "state") (cstr "1"),
   .write ⟨.withPermissions domid backendid, deviceDir .vif domid, []⟩,
   .write ⟨.withPermissions domid backendid, device, []⟩,
   front (cstr "backend") (renderPath backend),
   front (cstr "backend-id") (decimalInt backendid),
   front (cstr "handle") (decimal instanceId)] ++
  (if cfg.mac = [] then [.refuse .einval] else []) ++
  [front (cstr "mac") cfg.mac,
   .write ⟨.withPermissions backendid domid, device ++ [cstr "mtu"], cstr "1500"⟩,
   front (cstr "multi-queue-num-queues") (cstr "1"),
   front (cstr "request-rx-copy") (cstr "1"),
   front (cstr "state") (cstr "1")]

def xsAddPvnetXenstore (cfg : PvNetConfiguration) (domid : UInt32) (instanceId : Nat) :
    SrvM (Option Errno) :=
  if cfg.configured = false then pure none else runDevice (netSteps cfg domid instanceId)

/-- `struct xen_domain` as far as its devices and services go. -/
structure ServedDomain where
  refcount : BitVec 32
  backState : BackendsState
  xenstore : Xenstore
  /-- The local port of the store. -/
  localEvtchn : Int
  console : RunningService

def ServedDomain.domid (domain : ServedDomain) : UInt32 := domain.xenstore.domid

/-- One of the two loops of `domain_post_create`, from the device `i` on. -/
def addDevices {C : Type} (configured : C → Bool) (backendDomainId : C → UInt32)
    (add : C → Nat → SrvM (Option Errno)) :
    Nat → List C → List BackendState → SrvM (Option Errno × List BackendState)
  | i, cfg :: rest, state :: states => do
    if configured cfg then
      match ← add cfg i with
      | some e => pure (some e, state :: states)
      | none =>
        let (rc, states) ← addDevices configured backendDomainId add (i + 1) rest states
        pure (rc, ⟨true, backendDomainId cfg⟩ :: states)
    else
      let (rc, states) ← addDevices configured backendDomainId add (i + 1) rest states
      pure (rc, state :: states)
  | _, _, states => pure (none, states)

def addDisks (cfg : BackendConfiguration) (domain : ServedDomain) :
    SrvM (Option Errno × List BackendState) :=
  addDevices (·.configured) (·.backendDomainId)
    (fun disk _ => xsAddPvblockXenstore disk domain.domid) 0 cfg.disks domain.backState.disks

def addVifs (cfg : BackendConfiguration) (domain : ServedDomain) :
    SrvM (Option Errno × List BackendState) :=
  addDevices (·.configured) (·.backendDomainId)
    (fun vif i => xsAddPvnetXenstore vif domain.domid i) 0 cfg.vifs domain.backState.vifs

/-- One loop of `xs_remove_xenstore_backends`: it ends with the first functional device. -/
def removeBackends (kind : DeviceKind) (domid : UInt32) (states : List BackendState)
    (rc : Option Errno) : SrvM (Option Errno) :=
  match states.find? (·.functional) with
  | none => pure rc
  | some state => xssRm (some (renderPath (backendDir kind state.backendDomainId domid)))

def xsRemoveXenstoreBackends (domain : ServedDomain) : SrvM (Option Errno) := do
  let rc ← removeBackends .vif domain.domid domain.backState.vifs none
  removeBackends .vbd domain.domid domain.backState.disks rc

/-- The directories that `xs_deinitialize_domain_xenstore` removes. -/
def domainDirs (domid : UInt32) : List (List CString) :=
  [localDomainDir domid, vmDir domid, libxlDir domid]

/-- Nothing is left of the domain when its last reference is dropped. The list of domains is
that of the registry. -/
def putServedDomain (domain : ServedDomain) : CreateM (Option ServedDomain) := do
  let domain := { domain with refcount := domain.refcount - 1 }
  if domain.refcount = 0 then
    let _ ← onShared (xsRemoveXenstoreBackends domain)
    let _ ← onShared (releaseDomainStored domain.xenstore)
    unbindEventChannel domain.localEvtchn
    onShared (xsDeinitializeDomainXenstore domain.domid)
    xenStopDomainConsole domain.console
    return none
  else return some domain

def ServedDomain.getDomain (domain : ServedDomain) : ServedDomain :=
  { domain with refcount := domain.refcount + 1 }

/-- `domain_destroy` of a domain that the list still has. -/
def destroyServedDomain (domain : ServedDomain) : CreateM (Option ServedDomain) := do
  match ← putServedDomain domain.getDomain with
  | none => return none
  | some domain => putServedDomain domain

/-- The label `deinit`. -/
def undoPostCreate (domain : ServedDomain) (e : Errno) :
    CreateM (Option Errno × Option ServedDomain) := do
  match ← putServedDomain domain with
  | none => return (some e, none)
  | some domain => return (some e, ← destroyServedDomain domain)

/-- The result, and the domain unless it is gone. -/
def domainPostCreate (cfg : BackendConfiguration) (domain : ServedDomain) :
    CreateM (Option Errno × Option ServedDomain) := do
  let domain := domain.getDomain
  let (rc, disks) ← onShared (addDisks cfg domain)
  let domain := { domain with backState := { domain.backState with disks := disks } }
  match rc with
  | some e => undoPostCreate domain e
  | none =>
    let (rc, vifs) ← onShared (addVifs cfg domain)
    let domain := { domain with backState := { domain.backState with vifs := vifs } }
    match rc with
    | some e => undoPostCreate domain e
    | none => return (none, ← putServedDomain domain)

end Xenlib
