import Xenlib.DomMgmt
import Mathlib.Algebra.Order.BigOperators.Group.List
import Mathlib.Algebra.Order.Group.Nat
import Mathlib.Algebra.Ring.Nat

/-!
The references to a domain. Registration counts as one of them, and `domain_destroy` gives it
back. It does so every time it is called, so a second call takes the reference of somebody
else; and the registration of a dom0less domain was never counted.
-/

set_option autoImplicit false

namespace Xenlib

open Wp Machine

/-- Every domain is torn down at most once, after `domain_destroy` and while nobody holds it,
and is in the list until then. -/
structure RefState.Counted (w : RefState) : Prop where
  once : w.registry.teardowns.Nodup
  destroyed : ∀ d ∈ w.registry.teardowns, d ∈ w.destroyed
  unheld : ∀ d ∈ w.registry.teardowns, ∀ c ∈ w.calls, ¬ c.Holds d
  listed : ∀ d < w.registry.heap.length, d ∉ w.registry.teardowns → d ∈ w.registry.domainList
  unfreed : w.fault ≠ some .freed

/-- The domain `get_domain` finds. -/
def DomainRegistry.find? (r : DomainRegistry) (domid : UInt32) : Option (DomainPtr × XenDomain) :=
  r.domainList.findSome? fun d =>
    match r.heap[d]? with
    | some (some dom) => if dom.domid = domid then some (d, dom) else none
    | _ => none

def intMax : BitVec 32 := 0x7FFFFFFF#32

/-- The condition on a step: no reference count is at the end of its range, no domain is
destroyed that has been before, and none is put whose registration counts no reference,
unless the assertion is there to stop it. -/
def Orderly (w : RefState) : RefAction → Prop
  | .get domid | .pause domid | .unpause domid =>
    ∀ p ∈ w.registry.find? domid, p.2.refcount ≠ intMax
  | .destroy domid => ∀ p ∈ w.registry.find? domid,
    p.2.refcount ≠ intMax ∧ (p.2.fDom0less = false → p.1 ∉ w.destroyed)
  | .put i => ∀ c ∈ w.calls[i]?, ∀ dom ∈ w.registry.heap[c.domain]?.join,
    dom.fDom0less = true → w.asserts = true
  | .create _ | .dom0less _ => True

instance (w : RefState) : ∀ a, Decidable (Orderly w a)
  | .get domid | .pause domid | .unpause domid =>
    inferInstanceAs (Decidable (∀ p ∈ w.registry.find? domid, p.2.refcount ≠ intMax))
  | .destroy domid => inferInstanceAs (Decidable (∀ p ∈ w.registry.find? domid,
    p.2.refcount ≠ intMax ∧ (p.2.fDom0less = false → p.1 ∉ w.destroyed)))
  | .put i => inferInstanceAs (Decidable (∀ c ∈ w.calls[i]?,
    ∀ dom ∈ w.registry.heap[c.domain]?.join, dom.fDom0less = true → w.asserts = true))
  | .create _ | .dom0less _ => isTrue trivial

/-- How often a call will still put its domain. -/
def CallPc.puts : CallPc → Nat
  | .destroyFirst => 2
  | _ => 1

def Call.owes (d : DomainPtr) (c : Call) : Nat := if c.domain = d then c.pc.puts else 0

def owed (calls : List Call) (d : DomainPtr) : Nat := (calls.map (Call.owes d)).sum

@[simp] theorem owed_append (calls : List Call) (c : Call) (d : DomainPtr) :
    owed (calls ++ [c]) d = owed calls d + c.owes d := by
  simp [owed]

theorem owed_cons (c : Call) (calls : List Call) (d : DomainPtr) :
    owed (c :: calls) d = c.owes d + owed calls d := by
  simp [owed]

theorem owed_advance {calls : List Call} {i : Nat} {c : Call} (h : calls[i]? = some c)
    (d : DomainPtr) :
    owed calls d = owed (advance calls i c) d + if c.domain = d then 1 else 0 := by
  induction calls generalizing i with
  | nil => simp at h
  | cons c' calls ih =>
    cases i with
    | zero =>
      obtain rfl : c' = c := by simpa using h
      obtain ⟨pc, dom⟩ := c'
      cases pc <;> simp [advance, CallPc.next, owed_cons, Call.owes, CallPc.puts] <;> split <;>
        omega
    | succ i =>
      have htail : calls[i]? = some c := by simpa using h
      have hadv : advance (c' :: calls) (i + 1) c = c' :: advance calls i c := by
        unfold advance
        cases c.pc.next <;> simp
      rw [hadv, owed_cons, owed_cons, ih htail]
      omega

theorem owes_le_owed {calls : List Call} {c : Call} (h : c ∈ calls) (d : DomainPtr) :
    c.owes d ≤ owed calls d :=
  List.le_sum_of_mem (List.mem_map_of_mem h)

theorem Call.owes_pos (c : Call) : 0 < c.owes c.domain := by
  obtain ⟨pc, d⟩ := c
  cases pc <;> simp [Call.owes, CallPc.puts]

def DomainRegistry.AllLive (r : DomainRegistry) : Prop :=
  ∀ d ∈ r.domainList, ∃ dom, r.heap[d]? = some (some dom)

theorem wp_derefDomain {r : DomainRegistry} {d : DomainPtr} {dom : XenDomain}
    {Q : XenDomain → DomainRegistry → Prop} {E : DomFault → Prop}
    (hd : r.heap[d]? = some (some dom)) (h : Q dom r) : wp (derefDomain d) Q E r := by
  unfold derefDomain
  simp only [wp_bind, wp_get, hd]
  exact h

def DomainRegistry.addRef (r : DomainRegistry) (d : DomainPtr) (dom : XenDomain) :
    DomainRegistry :=
  { r with heap := r.heap.set d (some { dom with refcount := dom.refcount + 1 }) }

theorem wp_getDomainLoop {r : DomainRegistry} {domid : UInt32} {iters : List DomainPtr}
    {Q : Option DomainPtr → DomainRegistry → Prop} {E : DomFault → Prop}
    (hlive : ∀ d ∈ iters, ∃ dom, r.heap[d]? = some (some dom)) (hnone : Q none r)
    (hsome : ∀ d dom, (iters.findSome? fun d =>
      match r.heap[d]? with
      | some (some dom) => if dom.domid = domid then some (d, dom) else none
      | _ => none) = some (d, dom) → r.heap[d]? = some (some dom) → Q (some d) (r.addRef d dom)) :
    wp (getDomainLoop domid iters) Q E r := by
  induction iters with
  | nil => exact hnone
  | cons iter rest ih =>
    obtain ⟨dom, hdom⟩ := hlive iter List.mem_cons_self
    unfold getDomainLoop
    rw [wp_bind]
    refine wp_derefDomain hdom (wp_ite (fun heq => ?_) (fun hne => ?_))
    · refine hsome iter dom ?_ hdom
      simp [hdom, heq]
    · refine ih (fun d hd => hlive d (List.mem_cons_of_mem _ hd))
        fun d dom' hfind => hsome d dom' ?_
      simp only [List.findSome?_cons, hdom, if_neg hne]
      exact hfind

theorem wp_getDomain {r : DomainRegistry} {domid : UInt32}
    {Q : Option DomainPtr → DomainRegistry → Prop} {E : DomFault → Prop} (hlive : r.AllLive)
    (hnone : Q none r)
    (hsome : ∀ d dom, r.find? domid = some (d, dom) → r.heap[d]? = some (some dom) →
      Q (some d) (r.addRef d dom)) : wp (getDomain domid) Q E r := by
  unfold getDomain
  rw [wp_bind, wp_get]
  exact wp_getDomainLoop hlive hnone hsome

def DomainRegistry.dropRef (r : DomainRegistry) (d : DomainPtr) (dom : XenDomain) :
    DomainRegistry :=
  { r with heap := r.heap.set d (some { dom with refcount := dom.refcount - 1 }) }

theorem wp_putDomain {r : DomainRegistry} {asserts : Bool} {d : DomainPtr} {dom : XenDomain}
    {Q : Unit → DomainRegistry → Prop} {E : DomFault → Prop} (hd : r.heap[d]? = some (some dom))
    (hassert : asserts = true → dom.fDom0less = true → E .assertion)
    (hlast : (asserts = true → dom.fDom0less = false) → dom.refcount = 1 →
      Q () ((r.dropRef d dom).teardown d))
    (hkeep : (asserts = true → dom.fDom0less = false) → dom.refcount ≠ 1 →
      Q () (r.dropRef d dom)) :
    wp (putDomain asserts (some d)) Q E r := by
  unfold putDomain
  rw [wp_bind]
  refine wp_derefDomain hd (wp_ite (fun hstop => ?_) (fun hgo => ?_))
  · rw [Bool.and_eq_true] at hstop
    exact hassert hstop.1 hstop.2
  · have hgo' : asserts = true → dom.fDom0less = false := by
      intro ha
      simpa [ha] using hgo
    simp only [storeDomain, wp_bind, wp_modify]
    refine wp_ite (fun h0 => hlast hgo' ?_) (fun h0 => hkeep hgo' fun h1 => h0 ?_)
    · bv_omega
    · simp [h1]

/-- The references to a domain that was created: one of the registration until `domain_destroy`
is called, and those that calls still have to put. -/
def RefState.total (w : RefState) (d : DomainPtr) : Nat :=
  (if d ∈ w.destroyed then 0 else 1) + owed w.calls d

structure RefState.Live (w : RefState) (d : DomainPtr) (dom : XenDomain) : Prop where
  listed : d ∈ w.registry.domainList
  refcount : dom.fDom0less = false → dom.refcount = BitVec.ofNat 32 (w.total d)
  bound : dom.fDom0less = false → w.total d < 2 ^ 31

structure RefInv (w : RefState) : Prop where
  live : ∀ d dom, w.registry.heap[d]? = some (some dom) → w.Live d dom
  dead : ∀ d, (∀ dom, w.registry.heap[d]? ≠ some (some dom)) →
    d ∉ w.registry.domainList ∧ owed w.calls d = 0
  torn : ∀ d, d ∈ w.registry.teardowns ↔ w.registry.heap[d]? = some none
  destroyed : ∀ d ∈ w.registry.teardowns, d ∈ w.destroyed
  known : ∀ d ∈ w.destroyed, d < w.registry.heap.length
  once : w.registry.teardowns.Nodup
  unfreed : w.fault ≠ some .freed

theorem RefInv.boot (asserts : Bool) : RefInv (.boot asserts) where
  live d dom hd := by simp [RefState.boot] at hd
  dead d _ := by simp [RefState.boot, owed]
  torn d := by simp [RefState.boot]
  destroyed d hd := by simp [RefState.boot] at hd
  known d hd := by simp [RefState.boot] at hd
  once := List.nodup_nil
  unfreed := nofun

theorem RefInv.counted {w : RefState} (h : RefInv w) : w.Counted where
  once := h.once
  destroyed := h.destroyed
  unheld d hd c hc hholds := by
    have htorn := (h.torn d).mp hd
    have hzero := (h.dead d (by simp [htorn])).2
    have hle := owes_le_owed hc d
    have hpos := c.owes_pos
    rw [hholds.1] at hpos
    omega
  listed d hlt hd := by
    cases hh : w.registry.heap[d]? with
    | none =>
      rw [List.getElem?_eq_none_iff] at hh
      omega
    | some o =>
      cases o with
      | none => exact absurd ((h.torn d).mpr hh) hd
      | some dom => exact (h.live d dom hh).listed
  unfreed := h.unfreed

theorem RefInv.allLive {w : RefState} (h : RefInv w) : w.registry.AllLive := by
  intro d hd
  by_contra hno
  exact (h.dead d fun dom hdom => hno ⟨dom, hdom⟩).1 hd

theorem RefInv.call_live {w : RefState} (h : RefInv w) {c : Call} (hc : c ∈ w.calls) :
    ∃ dom, w.registry.heap[c.domain]? = some (some dom) := by
  by_contra hno
  have hzero := (h.dead c.domain fun dom hdom => hno ⟨dom, hdom⟩).2
  have hle := owes_le_owed hc c.domain
  have hpos := c.owes_pos
  omega

theorem RefInv.fault {w : RefState} (h : RefInv w) {e : DomFault} (he : e ≠ .freed) :
    RefInv { w with fault := some e } where
  live d dom hd := ⟨(h.live d dom hd).listed, (h.live d dom hd).refcount, (h.live d dom hd).bound⟩
  dead := h.dead
  torn := h.torn
  destroyed := h.destroyed
  known := h.known
  once := h.once
  unfreed := fun hf => he (Option.some.inj hf)

theorem RefInv.register {w : RefState} (h : RefInv w) {dom : XenDomain}
    (hdom : dom.fDom0less = false → dom.refcount = 1) :
    RefInv { w with registry := w.registry.register dom } := by
  have hnew : owed w.calls w.registry.heap.length = 0 :=
    (h.dead _ fun _ => by simp).2
  have hget : ∀ d, (w.registry.register dom).heap[d]? =
      if d = w.registry.heap.length then some (some dom) else w.registry.heap[d]? := by
    intro d
    simp only [DomainRegistry.register]
    rw [List.getElem?_append]
    split
    · rw [if_neg (by omega)]
    · split
      · next heq => simp [heq]
      · next hlt hne =>
        rw [List.getElem?_eq_none (by simp; omega), List.getElem?_eq_none (by omega)]
  have hfresh : w.registry.heap.length ∉ w.destroyed := fun hd => Nat.lt_irrefl _ (h.known _ hd)
  refine ⟨fun d dom' hd => ?_, fun d hd => ?_, fun d => ?_, h.destroyed, fun d hd => ?_, h.once,
    h.unfreed⟩
  · rw [hget] at hd
    split at hd
    · next heq =>
      subst heq
      cases hd
      have htotal : RefState.total { w with registry := w.registry.register dom }
          w.registry.heap.length = 1 := by
        simp [RefState.total, hfresh, hnew]
      refine ⟨by simp [DomainRegistry.register], fun hless => ?_, fun _ => ?_⟩
      · rw [htotal, hdom hless]
        rfl
      · rw [htotal]
        decide
    · have hlive := h.live d dom' hd
      exact ⟨List.mem_append_left _ hlive.listed, hlive.refcount, hlive.bound⟩
  · have hne : d ≠ w.registry.heap.length := by
      intro heq
      exact hd dom (by rw [hget, if_pos heq])
    have hold := h.dead d fun dom' => by
      have := hd dom'
      rwa [hget, if_neg hne] at this
    refine ⟨?_, hold.2⟩
    simp [DomainRegistry.register, hold.1, hne]
  · rw [hget]
    split
    · next heq =>
      subst heq
      have hno : w.registry.heap.length ∉ w.registry.teardowns := by
        rw [h.torn]
        simp
      simpa [DomainRegistry.register] using hno
    · exact h.torn d
  · have hlt := h.known d hd
    simp only [DomainRegistry.register, List.length_append]
    exact Nat.lt_add_right _ hlt

theorem RefInv.update {w : RefState} (h : RefInv w) {d : DomainPtr} {dom dom' : XenDomain}
    {calls : List Call} {destroyed : List DomainPtr} (hd : w.registry.heap[d]? = some (some dom))
    (hless : dom'.fDom0less = dom.fDom0less) (hcalls : ∀ d' ≠ d, owed calls d' = owed w.calls d')
    (hdestroyed : ∀ d' ≠ d, d' ∈ destroyed ↔ d' ∈ w.destroyed)
    (hcount : dom.fDom0less = false →
      dom'.refcount = BitVec.ofNat 32 ((if d ∈ destroyed then 0 else 1) + owed calls d) ∧
        (if d ∈ destroyed then 0 else 1) + owed calls d < 2 ^ 31) :
    RefInv { w with
      registry := { w.registry with heap := w.registry.heap.set d (some dom') }
      calls := calls
      destroyed := destroyed } := by
  have hlt : d < w.registry.heap.length := (List.getElem?_eq_some_iff.mp hd).1
  have hother : ∀ d' ≠ d, (w.registry.heap.set d (some dom'))[d']? = w.registry.heap[d']? :=
    fun d' hne => List.getElem?_set_ne hne.symm
  have hself : (w.registry.heap.set d (some dom'))[d]? = some (some dom') :=
    List.getElem?_set_self hlt
  have hnot : d ∉ w.registry.teardowns := by
    rw [h.torn, hd]
    nofun
  refine ⟨fun d' dom'' hd' => ?_, fun d' hd' => ?_, fun d' => ?_, fun d' hd' => ?_,
    fun d' hd' => ?_, h.once, h.unfreed⟩
  · by_cases heq : d' = d
    · subst heq
      obtain rfl : dom' = dom'' := by simpa [hself] using hd'
      rw [← hless] at hcount
      exact ⟨(h.live d' dom hd).listed, fun hl => (hcount hl).1, fun hl => (hcount hl).2⟩
    · rw [hother d' heq] at hd'
      obtain ⟨hl, hr, hb⟩ := h.live d' dom'' hd'
      have htotal : (if d' ∈ destroyed then 0 else 1) + owed calls d' = w.total d' := by
        simp only [RefState.total, hcalls d' heq, hdestroyed d' heq]
      refine ⟨hl, fun hf => ?_, fun hf => ?_⟩
      · rw [hr hf, ← htotal]
        rfl
      · exact lt_of_eq_of_lt htotal (hb hf)
  · have hne : d' ≠ d := by
      rintro rfl
      exact hd' dom' hself
    have hold := h.dead d' fun dom'' => by
      have := hd' dom''
      rwa [hother d' hne] at this
    exact ⟨hold.1, (hcalls d' hne).trans hold.2⟩
  · by_cases heq : d' = d
    · subst heq
      simp [hself, hnot]
    · rw [hother d' heq]
      exact h.torn d'
  · have hne : d' ≠ d := by
      rintro rfl
      exact hnot hd'
    exact (hdestroyed d' hne).mpr (h.destroyed d' hd')
  · rw [List.length_set]
    by_cases heq : d' = d
    · rw [heq]
      exact hlt
    · exact h.known d' ((hdestroyed d' heq).mp hd')

theorem Call.owes_of_ne {c : Call} {d : DomainPtr} (h : d ≠ c.domain) : c.owes d = 0 :=
  if_neg fun heq => h heq.symm

theorem RefInv.got {w : RefState} (h : RefInv w) {d : DomainPtr} {dom : XenDomain}
    (hd : w.registry.heap[d]? = some (some dom)) (hmax : dom.refcount ≠ intMax) {pc : CallPc}
    (hpc : pc = .reference ∨ pc = .pause ∨
      pc = .destroyFirst ∧ (dom.fDom0less = false → d ∉ w.destroyed)) :
    RefInv { w with
      registry := w.registry.addRef d dom
      calls := w.calls ++ [⟨pc, d⟩]
      destroyed := if pc = .destroyFirst then w.destroyed ++ [d] else w.destroyed } := by
  have htotal : dom.fDom0less = false →
      (if d ∈ (if pc = .destroyFirst then w.destroyed ++ [d] else w.destroyed) then 0 else 1) +
        owed (w.calls ++ [⟨pc, d⟩]) d = w.total d + 1 := by
    intro hless
    rw [owed_append, RefState.total]
    rcases hpc with rfl | rfl | ⟨rfl, hnew⟩
    · simp [Call.owes, CallPc.puts, Nat.add_assoc]
    · simp [Call.owes, CallPc.puts, Nat.add_assoc]
    · simp [Call.owes, CallPc.puts, hnew hless]
      omega
  refine h.update hd rfl (fun d' hne => ?_) (fun d' hne => ?_) (fun hless => ?_)
  · rw [owed_append, Call.owes_of_ne hne, Nat.add_zero]
  · split
    · simp [hne]
    · rfl
  · have hlive := h.live d dom hd
    have hcount := hlive.refcount hless
    have hbound := hlive.bound hless
    rw [htotal hless]
    refine ⟨?_, ?_⟩
    · rw [hcount, BitVec.ofNat_add]
      rfl
    · have hne : w.total d ≠ 2 ^ 31 - 1 := by
        intro heq
        rw [heq] at hcount
        exact hmax hcount
      omega

theorem RefInv.dropped {w : RefState} (h : RefInv w) {i : Nat} {c : Call} {dom : XenDomain}
    (hc : w.calls[i]? = some c) (hd : w.registry.heap[c.domain]? = some (some dom)) :
    RefInv { w with
      registry := w.registry.dropRef c.domain dom
      calls := advance w.calls i c } := by
  have howed := owed_advance hc
  refine h.update hd rfl (fun d' hne => ?_) (fun d' hne => Iff.rfl) (fun hless => ?_)
  · have hother := howed d'
    rw [if_neg hne.symm, Nat.add_zero] at hother
    exact hother.symm
  · have hlive := h.live c.domain dom hd
    have hcount := hlive.refcount hless
    have hbound := hlive.bound hless
    have hself := howed c.domain
    rw [if_pos rfl] at hself
    have htotal : w.total c.domain =
        ((if c.domain ∈ w.destroyed then 0 else 1) + owed (advance w.calls i c) c.domain) + 1 := by
      unfold RefState.total
      omega
    rw [htotal] at hcount hbound
    refine ⟨?_, by omega⟩
    show dom.refcount - 1 = _
    rw [hcount, BitVec.ofNat_add]
    bv_omega

/-- The last reference is put: there is no other, and `domain_destroy` was called. -/
theorem RefInv.torndown {w : RefState} (h : RefInv w) {i : Nat} {c : Call} {dom : XenDomain}
    (hc : w.calls[i]? = some c) (hd : w.registry.heap[c.domain]? = some (some dom))
    (hless : dom.fDom0less = false) (hone : dom.refcount = 1) :
    RefInv { w with
      registry := (w.registry.dropRef c.domain dom).teardown c.domain
      calls := advance w.calls i c } := by
  have howed := owed_advance hc
  have hlive := h.live c.domain dom hd
  have hbound := hlive.bound hless
  have htotal : w.total c.domain = 1 := by
    have hcount := hlive.refcount hless
    rw [hone] at hcount
    have hnat := congrArg BitVec.toNat hcount
    rw [BitVec.toNat_ofNat, Nat.mod_eq_of_lt (by omega)] at hnat
    exact hnat.symm
  have hself := howed c.domain
  rw [if_pos rfl] at hself
  have hdestroyed : c.domain ∈ w.destroyed := by
    by_contra hno
    rw [RefState.total, if_neg hno] at htotal
    omega
  have hzero : owed (advance w.calls i c) c.domain = 0 := by
    rw [RefState.total, if_pos hdestroyed] at htotal
    omega
  have hlt : c.domain < w.registry.heap.length := (List.getElem?_eq_some_iff.mp hd).1
  have hheap : ∀ d', ((w.registry.dropRef c.domain dom).teardown c.domain).heap[d']? =
      if d' = c.domain then some none else w.registry.heap[d']? := by
    intro d'
    simp only [DomainRegistry.teardown, DomainRegistry.dropRef, List.set_set]
    split
    · next heq => rw [heq, List.getElem?_set_self hlt]
    · next hne => rw [List.getElem?_set_ne (Ne.symm hne)]
  have hnot : c.domain ∉ w.registry.teardowns := by
    rw [h.torn, hd]
    nofun
  have hother : ∀ d' ≠ c.domain, owed (advance w.calls i c) d' = owed w.calls d' := by
    intro d' hne
    have hd' := howed d'
    rw [if_neg hne.symm, Nat.add_zero] at hd'
    exact hd'.symm
  refine ⟨fun d' dom' hd' => ?_, fun d' hd' => ?_, fun d' => ?_, fun d' hd' => ?_,
    fun d' hd' => ?_, ?_, h.unfreed⟩
  · rw [hheap] at hd'
    split at hd'
    · cases hd'
    · next hne =>
      obtain ⟨hl, hr, hb⟩ := h.live d' dom' hd'
      have hsame : (if d' ∈ w.destroyed then 0 else 1) + owed (advance w.calls i c) d' =
          w.total d' := by
        rw [RefState.total, hother d' hne]
      refine ⟨?_, fun hf => ?_, fun hf => ?_⟩
      · simp [DomainRegistry.teardown, DomainRegistry.dropRef, hl, hne]
      · rw [hr hf, ← hsame]
        rfl
      · exact lt_of_eq_of_lt hsame (hb hf)
  · by_cases heq : d' = c.domain
    · subst heq
      refine ⟨by simp [DomainRegistry.teardown], hzero⟩
    · have hold := h.dead d' fun dom' => by
        have := hd' dom'
        rwa [hheap, if_neg heq] at this
      refine ⟨?_, (hother d' heq).trans hold.2⟩
      simp [DomainRegistry.teardown, DomainRegistry.dropRef, hold.1]
  · rw [hheap]
    simp only [DomainRegistry.teardown, DomainRegistry.dropRef, List.mem_append,
      List.mem_singleton]
    split
    · next heq => simp [heq]
    · next hne => simp [hne, h.torn]
  · simp only [DomainRegistry.teardown, DomainRegistry.dropRef, List.mem_append,
      List.mem_singleton] at hd'
    rcases hd' with hd' | rfl
    · exact h.destroyed d' hd'
    · exact hdestroyed
  · simp only [DomainRegistry.teardown, DomainRegistry.dropRef, List.length_set]
    exact h.known d' hd'
  · simp only [DomainRegistry.teardown, DomainRegistry.dropRef]
    refine List.nodup_append.mpr ⟨h.once, by simp, fun a ha b hb heq => hnot ?_⟩
    rw [List.mem_singleton] at hb
    exact hb ▸ heq ▸ ha

theorem RefInv.enter {w : RefState} (h : RefInv w) {pc : CallPc} {domid : UInt32}
    (hpc : ∀ p ∈ w.registry.find? domid, p.2.refcount ≠ intMax ∧ (pc = .reference ∨ pc = .pause ∨
      pc = .destroyFirst ∧ (p.2.fDom0less = false → p.1 ∉ w.destroyed))) :
    RefInv (w.enter pc domid) := by
  have hwp : wp (getDomain domid) (fun o r => (o = none ∧ r = w.registry) ∨
      ∃ d dom, o = some d ∧ r = w.registry.addRef d dom ∧ w.registry.find? domid = some (d, dom) ∧
        w.registry.heap[d]? = some (some dom)) (fun _ => False) w.registry :=
    wp_getDomain h.allLive (Or.inl ⟨rfl, rfl⟩)
      fun d dom hfind hd => Or.inr ⟨d, dom, rfl, rfl, hfind, hd⟩
  obtain ⟨o, r, hok, hcase⟩ := wp_total hwp
  unfold RefState.enter
  rw [hok]
  rcases hcase with ⟨rfl, rfl⟩ | ⟨d, dom, rfl, rfl, hfind, hd⟩
  · exact h
  · obtain ⟨hmax, hkind⟩ := hpc (d, dom) hfind
    exact h.got hd hmax hkind

theorem RefInv.put {w : RefState} (h : RefInv w) {i : Nat} {c : Call} (hc : w.calls[i]? = some c)
    (hless : ∀ dom ∈ w.registry.heap[c.domain]?.join, dom.fDom0less = true → w.asserts = true) :
    RefInv (w.put i c) := by
  obtain ⟨dom, hd⟩ := h.call_live (List.mem_of_getElem? hc)
  have hjoin : dom ∈ w.registry.heap[c.domain]?.join := by simp [hd]
  have hwp : wp (putDomain w.asserts (some c.domain))
      (fun _ r => RefInv { w with registry := r, calls := advance w.calls i c })
      (fun e => e = .assertion) w.registry := by
    refine wp_putDomain hd (fun _ _ => rfl) (fun hgo hone => ?_) (fun _ _ => h.dropped hc hd)
    refine h.torndown hc hd ?_ hone
    cases hl : dom.fDom0less with
    | false => rfl
    | true => rw [← hl]; exact hgo (hless dom hjoin hl)
  unfold RefState.put
  unfold wp at hwp
  cases hr : putDomain w.asserts (some c.domain) w.registry with
  | error e =>
    rw [hr] at hwp
    subst hwp
    exact h.fault (by decide)
  | ok r =>
    rw [hr] at hwp
    exact hwp

theorem RefInv.step {w w' : RefState} {a : RefAction} (h : RefInv w) (ha : Orderly w a)
    (hstep : w.step a = some w') : RefInv w' := by
  unfold RefState.step at hstep
  split at hstep
  · cases hstep
  cases a with
  | create domid => cases hstep; exact h.register fun _ => rfl
  | dom0less domid => cases hstep; exact h.register fun hl => (by cases hl)
  | get domid => cases hstep; exact h.enter fun p hp => ⟨ha p hp, Or.inl rfl⟩
  | pause domid => cases hstep; exact h.enter fun p hp => ⟨ha p hp, Or.inr (Or.inl rfl)⟩
  | unpause domid => cases hstep; exact h.enter fun p hp => ⟨ha p hp, Or.inr (Or.inl rfl)⟩
  | destroy domid =>
    cases hstep
    exact h.enter fun p hp => ⟨(ha p hp).1, Or.inr (Or.inr ⟨rfl, (ha p hp).2⟩)⟩
  | put i =>
    obtain ⟨c, hc, rfl⟩ := Option.map_eq_some_iff.mp hstep
    exact h.put hc (ha c hc)

/-- In every state of a run whose steps are orderly the references are counted right. -/
theorem references_counted {asserts : Bool} {as : List RefAction} {w : RefState}
    (hc : Along RefState.step Orderly (.boot asserts) as)
    (hrun : run RefState.step (.boot asserts) as = some w) : w.Counted :=
  (run_invariant (fun _ _ _ h ha hs => h.step ha hs) (RefInv.boot asserts) hc hrun).counted

/-- A domain that is destroyed while a caller holds it goes when the caller puts it. -/
theorem references_counted_held : ∃ w, run RefState.step (.boot false)
      [.create 1, .get 1, .destroy 1, .put 1, .put 1, .put 0] = some w ∧
    w.registry.teardowns = [0] ∧ w.Counted := by
  refine ⟨_, rfl, rfl, ?_⟩
  exact @references_counted false [.create 1, .get 1, .destroy 1, .put 1, .put 1, .put 0] _
    (by decide) rfl

/-- Two calls of `domain_destroy` tear a domain down under the caller that holds it, and without
assertions a dom0less domain goes when it has been paused once. -/
theorem references_miscounted :
    (∃ w, run RefState.step (.boot true) [.create 1, .get 1, .destroy 1, .put 1, .put 1,
      .destroy 1, .put 1, .put 1] = some w ∧ ¬ w.Counted) ∧
    ∃ w, run RefState.step (.boot false) [.dom0less 1, .pause 1, .put 0] = some w ∧
      ¬ w.Counted := by
  refine ⟨⟨_, rfl, fun h => ?_⟩, ⟨_, rfl, fun h => ?_⟩⟩
  · exact h.unheld 0 (by decide) ⟨.reference, 0⟩ (by decide) ⟨rfl, by decide⟩
  · exact absurd (h.destroyed 0 (by decide)) (by decide)

end Xenlib
