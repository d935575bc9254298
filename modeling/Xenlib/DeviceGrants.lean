import Xenlib.SetupCalls

/-!
The device steps of `domain_create` on the lists of its configuration. Both loops go on after a
hypercall that failed and return what the last hypercall returned.
-/

set_option autoImplicit false

namespace Xenlib

structure XenDomainIomem where
  /-- 0 maps the range to the frames it has. -/
  firstGfn : UInt64
  firstMfn : UInt64
  nrMfns : UInt64
deriving DecidableEq

/-- The hypercalls of the two loops, with the arguments that differ from call to call. -/
inductive GrantCall where
  | iomemPermission (firstMfn nrMfns : UInt64)
  | memoryMapping (firstGfn firstMfn nrMfns : UInt64)
  | bindPtIrq (machineIrq spi : UInt32)
deriving DecidableEq

def XenDomainIomem.mapping (iomem : XenDomainIomem) : GrantCall :=
  if iomem.firstGfn = 0 then .memoryMapping iomem.firstMfn iomem.firstMfn iomem.nrMfns
  else .memoryMapping iomem.firstGfn iomem.firstMfn iomem.nrMfns

/-- What a loop has returned, and the hypercalls it has made. -/
structure GrantLoop where
  rc : Int
  made : List GrantCall

section Loops
variable (results : Nat → Int)

/-- The result of a hypercall is the one at its place among those of the loop. -/
def GrantLoop.hypercall (g : GrantLoop) (call : GrantCall) : GrantLoop :=
  ⟨results g.made.length, g.made ++ [call]⟩

def shareIomemsLoop : List XenDomainIomem → GrantLoop → GrantLoop
  | [], g => g
  | iomem :: rest, g =>
    shareIomemsLoop rest
      ((g.hypercall results (.iomemPermission iomem.firstMfn iomem.nrMfns)).hypercall results
        iomem.mapping)

/-- `share_domain_iomems`. -/
def shareIomems (iomems : List XenDomainIomem) : GrantLoop := shareIomemsLoop results iomems ⟨0, []⟩

def bindIrqsLoop : List UInt32 → GrantLoop → GrantLoop
  | [], g => g
  | irq :: rest, g => bindIrqsLoop rest (g.hypercall results (.bindPtIrq irq irq))

/-- `bind_domain_irqs`. -/
def bindIrqs (irqs : List UInt32) : GrantLoop := bindIrqsLoop results irqs ⟨0, []⟩

/-- The result of the last hypercall, or 0 where there was none. -/
structure LastCounts (g : GrantLoop) : Prop where
  rc : g.rc = if g.made = [] then 0 else results (g.made.length - 1)

variable {results}

theorem lastCounts_start : LastCounts results ⟨0, []⟩ := ⟨rfl⟩

theorem lastCounts_hypercall (g : GrantLoop) (call : GrantCall) :
    LastCounts results (g.hypercall results call) :=
  ⟨by simp [GrantLoop.hypercall]⟩

theorem lastCounts_shareIomemsLoop (iomems : List XenDomainIomem) {g : GrantLoop}
    (h : LastCounts results g) : LastCounts results (shareIomemsLoop results iomems g) := by
  induction iomems generalizing g with
  | nil => exact h
  | cons iomem rest ih => exact ih (lastCounts_hypercall _ _)

theorem lastCounts_bindIrqsLoop (irqs : List UInt32) {g : GrantLoop} (h : LastCounts results g) :
    LastCounts results (bindIrqsLoop results irqs g) := by
  induction irqs generalizing g with
  | nil => exact h
  | cons irq rest ih => exact ih (lastCounts_hypercall _ _)

def XenDomainIomem.calls (iomem : XenDomainIomem) : List GrantCall :=
  [.iomemPermission iomem.firstMfn iomem.nrMfns, iomem.mapping]

def irqCall (irq : UInt32) : GrantCall := .bindPtIrq irq irq

theorem made_shareIomemsLoop (iomems : List XenDomainIomem) (g : GrantLoop) :
    (shareIomemsLoop results iomems g).made = g.made ++ iomems.flatMap XenDomainIomem.calls := by
  induction iomems generalizing g with
  | nil => simp [shareIomemsLoop]
  | cons iomem rest ih => simp [shareIomemsLoop, ih, GrantLoop.hypercall, XenDomainIomem.calls]

theorem made_bindIrqsLoop (irqs : List UInt32) (g : GrantLoop) :
    (bindIrqsLoop results irqs g).made = g.made ++ irqs.map irqCall := by
  induction irqs generalizing g with
  | nil => simp [bindIrqsLoop]
  | cons irq rest ih => simp [bindIrqsLoop, ih, GrantLoop.hypercall, irqCall]

theorem made_shareIomems (iomems : List XenDomainIomem) :
    (shareIomems results iomems).made = iomems.flatMap XenDomainIomem.calls :=
  made_shareIomemsLoop iomems _

theorem made_bindIrqs (irqs : List UInt32) :
    (bindIrqs results irqs).made = irqs.map irqCall :=
  made_bindIrqsLoop irqs _

variable (results)

def AllGranted (n : Nat) : Prop := ∀ i < n, results i = 0

/-- 0 exactly when every hypercall returned 0. -/
def FailureReported (g : GrantLoop) : Prop := g.rc = 0 ↔ AllGranted results g.made.length

/-- No hypercall fails, or the last one does. -/
def LastFailsToo (n : Nat) : Prop := AllGranted results n ∨ results (n - 1) ≠ 0

variable {results}

theorem LastCounts.reported_iff {g : GrantLoop} (h : LastCounts results g) :
    FailureReported results g ↔ LastFailsToo results g.made.length := by
  unfold FailureReported LastFailsToo
  rw [h.rc]
  by_cases hm : g.made = []
  · simp [hm, AllGranted]
  · have hlen : 0 < g.made.length := List.length_pos_iff.mpr hm
    rw [if_neg hm]
    constructor
    · intro hiff
      by_cases hlast : results (g.made.length - 1) = 0
      · exact .inl (hiff.mp hlast)
      · exact .inr hlast
    · rintro (hall | hlast)
      · exact ⟨fun _ => hall, fun _ => hall _ (by omega)⟩
      · exact ⟨fun h0 => absurd h0 hlast, fun hall => absurd (hall _ (by omega)) hlast⟩

theorem length_calls (iomems : List XenDomainIomem) :
    (iomems.flatMap XenDomainIomem.calls).length = 2 * iomems.length := by
  induction iomems with
  | nil => rfl
  | cons iomem rest ih =>
    rw [List.flatMap_cons, List.length_append, ih, List.length_cons]
    simp only [XenDomainIomem.calls, List.length_cons, List.length_nil]
    omega

end Loops

/-- The results of the hypercalls for the ranges, in the order they are made. -/
def CreateEnv.iomemResults (env : CreateEnv) (i : Nat) : Int :=
  if i % 2 = 0 then env.rc (.iomemPermission (i / 2)) else env.rc (.memoryMapping (i / 2))

def CreateEnv.irqResults (env : CreateEnv) (i : Nat) : Int := env.rc (.bindIrq i)

theorem shareDomainIomems_eq (env : CreateEnv) (iomems : List XenDomainIomem) :
    (shareDomainIomems env iomems.length 0 0).val = (shareIomems env.iomemResults iomems).rc := by
  have hlast := (lastCounts_shareIomemsLoop iomems (@lastCounts_start env.iomemResults)).rc
  rw [show shareIomemsLoop env.iomemResults iomems ⟨0, []⟩ = shareIomems env.iomemResults iomems
    from rfl, made_shareIomems, length_calls] at hlast
  rw [hlast, val_shareDomainIomems]
  cases iomems with
  | nil => rfl
  | cons iomem rest =>
    have hodd : (2 * (rest.length + 1) - 1) % 2 = 1 := by omega
    have hplace : (2 * (rest.length + 1) - 1) / 2 = rest.length := by omega
    simp [XenDomainIomem.calls, CreateEnv.iomemResults, hodd, hplace]

theorem bindDomainIrqs_eq (env : CreateEnv) (irqs : List UInt32) :
    (bindDomainIrqs env irqs.length 0 0).val = (bindIrqs env.irqResults irqs).rc := by
  have hlast := (lastCounts_bindIrqsLoop irqs (@lastCounts_start env.irqResults)).rc
  rw [show bindIrqsLoop env.irqResults irqs ⟨0, []⟩ = bindIrqs env.irqResults irqs from rfl,
    made_bindIrqs, List.length_map] at hlast
  rw [hlast, val_bindDomainIrqs]
  cases irqs with
  | nil => rfl
  | cons irq rest => simp [CreateEnv.irqResults]

/-- Every element is attempted, and both loops report every failure. -/
structure GrantsReported (results results' : Nat → Int) (iomems : List XenDomainIomem)
    (irqs : List UInt32) : Prop where
  iomemsTried : (shareIomems results iomems).made = iomems.flatMap XenDomainIomem.calls
  irqsTried : (bindIrqs results' irqs).made = irqs.map irqCall
  iomems : FailureReported results (shareIomems results iomems)
  irqs : FailureReported results' (bindIrqs results' irqs)

/-- Every failed hypercall is reported exactly when in each loop either none fails or the last one
does: the mapping of the last range, and the binding of the last interrupt. -/
theorem grantsReported_iff (results results' : Nat → Int) (iomems : List XenDomainIomem)
    (irqs : List UInt32) :
    GrantsReported results results' iomems irqs ↔
      LastFailsToo results (2 * iomems.length) ∧ LastFailsToo results' irqs.length := by
  have hiomems : FailureReported results (shareIomems results iomems) ↔
      LastFailsToo results (2 * iomems.length) := by
    rw [← length_calls, ← @made_shareIomems results]
    exact (lastCounts_shareIomemsLoop iomems lastCounts_start).reported_iff
  have hirqs : FailureReported results' (bindIrqs results' irqs) ↔
      LastFailsToo results' irqs.length := by
    rw [← List.length_map irqCall, ← @made_bindIrqs results']
    exact (lastCounts_bindIrqsLoop irqs lastCounts_start).reported_iff
  constructor
  · intro h
    exact ⟨hiomems.mp h.iomems, hirqs.mp h.irqs⟩
  · rintro ⟨hi, hr⟩
    exact ⟨made_shareIomems iomems, made_bindIrqs irqs, hiomems.mpr hi, hirqs.mpr hr⟩

/-- Xen refuses the permission for the only range and maps it all the same: 0 is returned. -/
theorem permission_failure_lost :
    ¬ ∀ (results results' : Nat → Int) (iomems : List XenDomainIomem) (irqs : List UInt32),
      GrantsReported results results' iomems irqs := by
  intro h
  have hrep := (h (fun i => if i = 0 then -1 else 0) (fun _ => 0) [⟨0, 0x9000, 1⟩] []).iomems
  exact absurd (hrep.mp rfl 0 (by decide)) (by decide)

end Xenlib
