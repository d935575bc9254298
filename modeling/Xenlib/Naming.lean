import Xenlib.Backends
import Xenlib.Lib.Machine
import Mathlib.Data.List.Sort

/-!
The names of domains. `domain_create` asks for its name while it holds `create_mutex`, one read
of the store after the other, and then writes the nodes of the domain; other creations, the
destruction of domains and the requests of guests run in between.
-/

set_option autoImplicit false

namespace Xenlib

open Machine

/-- The node "/local/domain/%u/name". -/
def namePath (domain : UInt16) : List CString := localDomainDir domain.toUInt32 ++ [cstr "name"]

/-- What `domain_create` is called with, and the id Xen gives the domain. -/
structure NewDomain where
  domid : UInt16
  /-- The name chosen from the configuration. -/
  name : CString
  numVcpus : Nat
  maxMemKb : Nat

/-- The writes of `xs_initialize_xenstore`. -/
def NewDomain.writes (dom : NewDomain) : List NodeWrite :=
  nodeWrites dom.domid.toUInt32 (dom.name.take (containerNameSize - 1)) dom.numVcpus dom.maxMemKb

def NewDomain.given (dom : NewDomain) : CString :=
  if dom.name ≠ [] then dom.name else cstr "zephyr-" ++ decimalInt dom.domid.toUInt32

inductive CreatePc where
  /-- Xen knows the domain, and the calls up to the store service are to come. -/
  | setup
  /-- The store service runs. -/
  | stored
  /-- The console runs, too. -/
  | served
  /-- `create_mutex` is taken, Xen is to be asked for its domains. -/
  | locked
  /-- In the loop of `find_domain_by_name`, with the domains that are left. -/
  | scanning (infos : List UInt16)
  /-- In `xs_initialize_xenstore`, with the nodes that are left. -/
  | writing (ws : List NodeWrite)
  /-- In `xs_deinitialize_domain_xenstore` after a write has failed. -/
  | removing (dirs : List (List CString))
  /-- `create_mutex` is released. -/
  | named
  /-- At the label `stop_domain_console`. -/
  | stopping
  /-- At the label `domain_free`. -/
  | dying
  | done

structure Creator where
  dom : NewDomain
  pc : CreatePc

inductive TeardownOp where
  | remove (path : List CString)
  | depart
  | destroyDomain
  | unlink

/-- `put_domain` with the last reference dropped. It holds `dl_mutex` to the end. -/
structure Teardown where
  domid : UInt16
  ops : List TeardownOp

/-- The steps of `put_domain`, with the backends that `xs_remove_xenstore_backends` removes. -/
def teardownOps (domid : UInt16) (backends : List (DeviceKind × UInt32)) : List TeardownOp :=
  backends.map (fun b => .remove (backendDir b.1 b.2 domid.toUInt32)) ++ [.depart] ++
    (domainDirs domid.toUInt32).map .remove ++ [.destroyDomain, .unlink]

structure NameWorld where
  shared : Shared
  /-- The domains Xen knows, in the order of their ids. -/
  xen : List UInt16
  domainList : List UInt16
  /-- The creation that holds `create_mutex`. -/
  holder : Option Nat
  creators : List Creator
  teardown : Option Teardown

/-- `ALL_DOMAINS_MAX`. -/
def NameWorld.allDomainsMax (w : NameWorld) : Nat := w.shared.domuMax + 1

inductive NameAction where
  /-- `domain_create` up to `xen_domctl_createdomain`. -/
  | create (dom : NewDomain)
  /-- The next step of the creation at `i`. `ok` is the outcome of the calls of Xen in it. -/
  | run (i : Nat) (ok : Bool)
  /-- The last reference of a domain is dropped. -/
  | destroy (domid : UInt16) (backends : List (DeviceKind × UInt32))
  /-- The next step of `put_domain`. -/
  | teardown
  /-- Guests and other threads use the store. -/
  | other (s : Shared)

def NameWorld.at (w : NameWorld) (i : Nat) (c : Creator) (pc : CreatePc) : NameWorld :=
  { w with creators := w.creators.set i { c with pc := pc } }

def NameWorld.unlock (w : NameWorld) : NameWorld := { w with holder := none }

/-- One call of the store, under its own mutex. -/
def NameWorld.onStore {α : Type} (w : NameWorld) (x : SrvM α) (next : α → NameWorld → NameWorld) :
    Option NameWorld :=
  match x w.shared with
  | .error _ => none
  | .ok (a, s) => some (next a { w with shared := s })

/-- One round of the loop of `find_domain_by_name`. -/
def nameMatches (name : CString) (domain : UInt16) : SrvM Bool := do
  match ← xssRead
      (renderPath [cstr "local", cstr "domain", decimal domain.toNat, cstr "name"]) with
  | .error _ => pure false
  | .ok domname => pure (domname.take containerNameSize = name.take containerNameSize)

/-- Dom0 has the id that stands for no domain. -/
def NameWorld.found (w : NameWorld) (i : Nat) (c : Creator) (domain : UInt16) : NameWorld :=
  if domain ≠ 0 then (w.at i c .stopping).unlock else w.at i c (.writing c.dom.writes)

def NameWorld.runCreator (w : NameWorld) (i : Nat) (c : Creator) (ok : Bool) : Option NameWorld :=
  match c.pc with
  | .setup => some (w.at i c (if ok then .stored else .dying))
  | .stored => some (w.at i c (if ok then .served else .stopping))
  | .served =>
    if w.holder = none then some { w.at i c .locked with holder := some i } else none
  | .locked =>
    some (w.at i c (if ok then .scanning (w.xen.take w.allDomainsMax) else .writing c.dom.writes))
  | .scanning [] => some (w.at i c (.writing c.dom.writes))
  | .scanning (domain :: rest) =>
    w.onStore (nameMatches c.dom.name domain) fun same w =>
      if same then w.found i c domain else w.at i c (.scanning rest)
  | .writing [] => some (w.at i c .named).unlock
  | .writing (nw :: ws) =>
    w.onStore (nw.run c.dom.domid.toUInt32) fun rc w =>
      match rc with
      | none => w.at i c (.writing ws)
      | some _ => w.at i c (.removing (domainDirs c.dom.domid.toUInt32))
  | .removing [] => some (w.at i c .stopping).unlock
  | .removing (dir :: dirs) =>
    w.onStore (xssRm (some (renderPath dir))) fun _ w => w.at i c (.removing dirs)
  | .named =>
    if !ok then some (w.at i c .stopping)
    else if w.teardown.isSome then none
    else some { w.at i c .done with domainList := w.domainList ++ [c.dom.domid] }
  | .stopping => w.onStore (removeRefEntries c.dom.domid.toUInt32) fun _ w => w.at i c .dying
  | .dying => some { w.at i c .done with xen := w.xen.erase c.dom.domid }
  | .done => none

def NameWorld.runTeardown (w : NameWorld) (t : Teardown) : Option NameWorld :=
  match t.ops with
  | [] => none
  | .remove path :: ops =>
    w.onStore (xssRm (some (renderPath path))) fun _ w => { w with teardown := some ⟨t.domid, ops⟩ }
  | .depart :: ops =>
    w.onStore (removeRefEntries t.domid.toUInt32) fun _ w =>
      { w with teardown := some ⟨t.domid, ops⟩ }
  | .destroyDomain :: ops =>
    some { w with xen := w.xen.erase t.domid, teardown := some ⟨t.domid, ops⟩ }
  | .unlink :: _ => some { w with domainList := w.domainList.erase t.domid, teardown := none }

def NameWorld.step (w : NameWorld) : NameAction → Option NameWorld
  | .create dom =>
    if w.shared.domuMax ≤ w.domainList.length ∨ dom.domid ∈ w.xen then none
    else some { w with
      xen := w.xen.orderedInsert (· ≤ ·) dom.domid
      creators := w.creators ++ [⟨dom, .setup⟩] }
  | .run i ok =>
    match w.creators[i]? with
    | none => none
    | some c => w.runCreator i c ok
  | .destroy domid backends =>
    if w.teardown.isSome ∨ domid ∉ w.domainList then none
    else some { w with teardown := some ⟨domid, teardownOps domid backends⟩ }
  | .teardown =>
    match w.teardown with
    | none => none
    | some t => w.runTeardown t
  | .other s => some { w with shared := s }

/-- Only Dom0 runs, its nodes are written. -/
structure NameWorld.Booted (w : NameWorld) : Prop where
  xen : w.xen = [0]
  domainList : w.domainList = []
  holder : w.holder = none
  creators : w.creators = []
  teardown : w.teardown = none
  distinct : w.shared.root.children.Distinct

end Xenlib
