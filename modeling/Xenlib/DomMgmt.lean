import Xenlib.Lib.Machine
import Xenlib.Lib.Wp
import Mathlib.Data.List.Basic

/-!
The registry of domains. `get_domain` and `put_domain` run under `dl_mutex`, and so does the
registration of a new domain; the calls that use them take the mutex once for each step.
-/

set_option autoImplicit false

namespace Xenlib

open Wp

/-- `struct xen_domain` as the registry uses it. -/
structure XenDomain where
  domid : UInt32
  /-- The bits of an `int`. -/
  refcount : BitVec 32
  fDom0less : Bool
deriving DecidableEq

/-- A `struct xen_domain *`: the place in the heap. -/
abbrev DomainPtr := Nat

inductive DomFault where
  /-- A structure is used after `k_free`. -/
  | freed
  | assertion
deriving DecidableEq

structure DomainRegistry where
  /-- What `k_malloc` has given out; `none` after `k_free`. -/
  heap : List (Option XenDomain)
  domainList : List DomainPtr
  domNum : Int
  /-- The domains `put_domain` has torn down so far. -/
  teardowns : List DomainPtr

abbrev DomM := Prog DomainRegistry DomFault

def derefDomain (domain : DomainPtr) : DomM XenDomain := do
  match (← get).heap[domain]? with
  | some (some dom) => pure dom
  | _ => throw .freed

def storeDomain (domain : DomainPtr) (dom : XenDomain) : DomM Unit :=
  modify fun r => { r with heap := r.heap.set domain (some dom) }

def getDomainLoop (domid : UInt32) : List DomainPtr → DomM (Option DomainPtr)
  | [] => pure none
  | iter :: rest => do
    let dom ← derefDomain iter
    if dom.domid = domid then
      storeDomain iter { dom with refcount := dom.refcount + 1 }
      pure (some iter)
    else getDomainLoop domid rest

def getDomain (domid : UInt32) : DomM (Option DomainPtr) := do
  getDomainLoop domid (← get).domainList

/-- The registry once the domain is torn down. The services are stopped in between. -/
def DomainRegistry.teardown (r : DomainRegistry) (domain : DomainPtr) : DomainRegistry :=
  { heap := r.heap.set domain none
    domainList := r.domainList.filter (· ≠ domain)
    domNum := r.domNum - 1
    teardowns := r.teardowns ++ [domain] }

/-- `asserts` tells whether `__ASSERT` is compiled in. -/
def putDomain (asserts : Bool) : Option DomainPtr → DomM Unit
  | none => pure ()
  | some domain => do
    let dom ← derefDomain domain
    if asserts && dom.fDom0less then throw .assertion
    else
      let refcount := dom.refcount - 1
      storeDomain domain { dom with refcount := refcount }
      if refcount = 0 then modify fun r => r.teardown domain
      else pure ()

/-- The end of `domain_create` and of `dom0less_init_domain`, where the reference count is
what `memset` has left. -/
def DomainRegistry.register (r : DomainRegistry) (dom : XenDomain) : DomainRegistry :=
  { r with
    heap := r.heap ++ [some dom]
    domainList := r.domainList ++ [r.heap.length]
    domNum := r.domNum + 1 }

def createdDomain (domid : UInt32) : XenDomain := ⟨domid, 1, false⟩

def dom0lessDomain (domid : UInt32) : XenDomain := ⟨domid, 0, true⟩

inductive CallPc where
  /-- A caller of `get_domain`, before its `put_domain`. -/
  | reference
  /-- `domain_pause` or `domain_unpause`, before `put_domain`. -/
  | pause
  /-- `domain_destroy`, before the first `put_domain`. -/
  | destroyFirst
  /-- `domain_destroy`, before the second `put_domain`. -/
  | destroySecond
deriving DecidableEq

structure Call where
  pc : CallPc
  domain : DomainPtr
deriving DecidableEq

/-- The call holds the reference it has got from `get_domain`. -/
def Call.Holds (c : Call) (domain : DomainPtr) : Prop :=
  c.domain = domain ∧ c.pc ≠ .destroySecond

def CallPc.next : CallPc → Option CallPc
  | .destroyFirst => some .destroySecond
  | _ => none

/-- The calls after the one at `i` has put its domain. -/
def advance (calls : List Call) (i : Nat) (c : Call) : List Call :=
  match c.pc.next with
  | some pc => calls.set i { c with pc := pc }
  | none => calls.eraseIdx i

structure RefState where
  asserts : Bool
  registry : DomainRegistry
  calls : List Call
  /-- The domains `domain_destroy` was called for. -/
  destroyed : List DomainPtr
  fault : Option DomFault

inductive RefAction where
  | create (domid : UInt32)
  | dom0less (domid : UInt32)
  | get (domid : UInt32)
  | pause (domid : UInt32)
  | unpause (domid : UInt32)
  | destroy (domid : UInt32)
  /-- The call at `i` calls `put_domain`. -/
  | put (i : Nat)
deriving DecidableEq

/-- A call gets its domain. Where there is none it returns. -/
def RefState.enter (w : RefState) (pc : CallPc) (domid : UInt32) : RefState :=
  match getDomain domid w.registry with
  | .error e => { w with fault := some e }
  | .ok (none, r) => { w with registry := r }
  | .ok (some domain, r) =>
    { w with
      registry := r
      calls := w.calls ++ [⟨pc, domain⟩]
      destroyed := if pc = .destroyFirst then w.destroyed ++ [domain] else w.destroyed }

def RefState.put (w : RefState) (i : Nat) (c : Call) : RefState :=
  match putDomain w.asserts (some c.domain) w.registry with
  | .error e => { w with fault := some e }
  | .ok (_, r) => { w with registry := r, calls := advance w.calls i c }

def RefState.step (w : RefState) (a : RefAction) : Option RefState :=
  if w.fault ≠ none then none
  else match a with
    | .create domid => some { w with registry := w.registry.register (createdDomain domid) }
    | .dom0less domid => some { w with registry := w.registry.register (dom0lessDomain domid) }
    | .get domid => some (w.enter .reference domid)
    | .pause domid => some (w.enter .pause domid)
    | .unpause domid => some (w.enter .pause domid)
    | .destroy domid => some (w.enter .destroyFirst domid)
    | .put i => w.calls[i]?.map fun c => w.put i c

def RefState.boot (asserts : Bool) : RefState := ⟨asserts, ⟨[], [], 0, []⟩, [], [], none⟩

end Xenlib
