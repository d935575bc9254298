import Xenlib.HandlerFrames
import Xenlib.RingSteps
import Xenlib.Lib.Machine

/-!
Starting and stopping the service of domains: `domain_create`, `put_domain` and what runs
in between. `stop_domain_stored` is reached from `put_domain` and, after a protocol
violation of the guest, from the thread of the client itself. Only the first of the two
routes is ordered after the end of the thread.
-/

set_option autoImplicit false

namespace Xenlib

open Wp Machine

theorem bitSet_lt {used : UInt32} {i : Nat} (h : bitSet used i = true) : i < 32 :=
  BitVec.lt_of_getLsbD h

theorem bitSet_bit {k : Nat} (hk : k < 32) (i : Nat) :
    bitSet (UInt32.ofNat (2 ^ k)) i = decide (i = k) := by
  unfold bitSet
  rw [UInt32.toBitVec_ofNat', BitVec.getLsbD_ofNat, Nat.testBit_two_pow]
  by_cases h : i = k
  · subst h
    simp [hk]
  · have h' : ¬ k = i := fun he => h he.symm
    simp [h, h']

theorem bitSet_set (used : UInt32) {k : Nat} (hk : k < 32) (i : Nat) :
    bitSet (used ||| UInt32.ofNat (2 ^ k)) i = (bitSet used i || decide (i = k)) := by
  rw [← bitSet_bit hk i]
  unfold bitSet
  rw [UInt32.toBitVec_or, BitVec.getLsbD_or]

theorem bitSet_clear (used : UInt32) {k : Nat} (hk : k < 32) (i : Nat) :
    bitSet (used &&& ~~~ UInt32.ofNat (2 ^ k)) i = (bitSet used i && !decide (i = k)) := by
  rw [← bitSet_bit hk i]
  unfold bitSet
  rw [UInt32.toBitVec_and, UInt32.toBitVec_not, BitVec.getLsbD_and, BitVec.getLsbD_not]
  by_cases hi : i < 32
  · simp [hi]
  · have h : used.toBitVec.getLsbD i = false := BitVec.getLsbD_of_ge _ _ (by omega)
    simp [h]

theorem lowestClear_spec {used : UInt32} {k : Nat} (h : lowestClear used = some k) :
    k < 32 ∧ bitSet used k = false := by
  unfold lowestClear at h
  have hmem := List.mem_of_find?_eq_some h
  have hprop := List.find?_some h
  exact ⟨List.mem_range.mp hmem, by simpa using hprop⟩

theorem wp_getStackIdx (s : Shared) :
    wp getStackIdx (fun k s' => (k < 32 ∧ bitSet s.usedThreads k = false) ∧
      s'.usedThreads = s.usedThreads ||| UInt32.ofNat (2 ^ k)) (fun _ => True) s := by
  unfold getStackIdx
  simp only [wp_bind, wp_get]
  cases hk : lowestClear s.usedThreads with
  | none => trivial
  | some k => exact ⟨lowestClear_spec hk, rfl⟩

inductive Phase where
  | running | stopping | stopped
  deriving DecidableEq, Repr

/-- The service of one domain from its start on. `phase` says how far `put_domain` is. -/
structure Service where
  phase : Phase
  thread : Thread

/-- Every service that was ever started is kept, in the order of the starts. -/
structure World where
  shared : Shared
  domNum : Nat
  services : List Service

inductive LifeAction where
  /-- `domain_create`, with what the ring page holds. -/
  | create (domid : UInt32) (page : XenstoreDomainInterface) (stackWord : Nat → UInt32)
  /-- The guest writes to its ring page, whatever it likes. -/
  | guest (i : Nat) (page : XenstoreDomainInterface)
  | thread (i : Nat)
  /-- `put_domain` drops the last reference and asks the thread to stop. -/
  | destroy (i : Nat)
  /-- The join in `stop_domain_stored` returns, and the release steps run. -/
  | join (i : Nat)
  /-- Dom0 and other threads, which use no stack slot. -/
  | other (s : Shared)

def World.setService (w : World) (s : Shared) (i : Nat) (sv : Service) : World :=
  { w with shared := s, services := w.services.set i sv }

def World.step (w : World) : LifeAction → Option World
  | .create domid page stackWord =>
    if w.shared.domuMax ≤ w.domNum then none
    else match getStackIdx w.shared with
      | .error _ => none
      | .ok (slot, s) => some ⟨s, w.domNum + 1,
          w.services ++ [⟨.running, .loopTest, .started domid page slot stackWord⟩]⟩
  | .guest i page =>
    match w.services[i]? with
    | none => none
    | some sv =>
      if sv.thread.xenstore.mapped then
        some (w.setService w.shared i { sv with
          thread := { sv.thread with xenstore := { sv.thread.xenstore with domint := page } } })
      else none
  | .thread i =>
    match w.services[i]? with
    | none => none
    | some sv =>
      if sv.thread.pc = .dead then none
      else match threadStep sv.thread w.shared with
        | .error _ => none
        | .ok (t, s) => some (w.setService s i { sv with thread := t })
  | .destroy i =>
    match w.services[i]? with
    | none => none
    | some sv =>
      if sv.phase = .running then
        some (w.setService w.shared i ⟨.stopping,
          { sv.thread with xenstore := { sv.thread.xenstore with thrdStop := true } }⟩)
      else none
  | .join i =>
    match w.services[i]? with
    | none => none
    | some sv =>
      if sv.phase = .stopping ∧ sv.thread.pc = .dead then
        match releaseDomainStored sv.thread.xenstore w.shared with
        | .error _ => none
        | .ok (x, s) => some { w.setService s i ⟨.stopped, sv.thread.pc, x⟩ with
            domNum := w.domNum - 1 }
      else none
  | .other s =>
    if s.usedThreads = w.shared.usedThreads ∧ s.domuMax = w.shared.domuMax then
      some { w with shared := s }
    else none

def Service.Live (sv : Service) : Prop := sv.thread.xenstore.releases = 0

def Service.slot (sv : Service) : Nat := sv.thread.xenstore.xsStackSlot

/-- Each service is released at most once; a bit of `used_threads` is set exactly when one live
service holds the slot; no two threads run on one stack. -/
structure TornDownOnce (w : World) : Prop where
  once : ∀ sv ∈ w.services, sv.thread.xenstore.releases ≤ 1
  bits : ∀ i, bitSet w.shared.usedThreads i = true ↔
    ∃ (j : Nat) (sv : Service), (w.services[j]? = some sv ∧ sv.Live ∧ sv.slot = i) ∧
      ∀ (j' : Nat) (sv' : Service),
        w.services[j']? = some sv' → sv'.Live → sv'.slot = i → j' = j
  ownStack : ∀ (j j' : Nat) (sv sv' : Service),
    w.services[j]? = some sv → w.services[j']? = some sv' →
    sv.thread.pc ≠ .dead → sv'.thread.pc ≠ .dead → sv.slot = sv'.slot → j = j'

/-- The next step of the thread does not run into one of the places that invalidate a client:
too many unread replies, ring indexes that are too far apart, no memory for an input buffer. -/
def NoViolation (s : Shared) (t : Thread) : Prop :=
  match t.pc with
  | .endTransaction => t.xenstore.pendingStopTransaction = true → BelowLimit t.xenstore
  | .header => false ∉ s.allocs ∧
      ((t.xenstore.input.getD emptyInput).used < headerSize → requestIndexesOk t.xenstore)
  | .payload => requestIndexesOk t.xenstore
  | .process => BelowLimit t.xenstore
  | .output => responseIndexesOk t.xenstore
  | _ => True

def LifeAction.Clean (w : World) : LifeAction → Prop
  | .thread i => ∀ sv, w.services[i]? = some sv → NoViolation w.shared sv.thread
  | _ => True

/-- The client still holds the slot it held, and was not released. -/
structure SameTenure (x x' : Xenstore) : Prop where
  xsStackSlot : x'.xsStackSlot = x.xsStackSlot
  releases : x'.releases = x.releases

theorem SameTenure.refl (x : Xenstore) : SameTenure x x := ⟨rfl, rfl⟩

theorem SameTenure.trans {x y z : Xenstore} (h₁ : SameTenure x y) (h₂ : SameTenure y z) :
    SameTenure x z :=
  ⟨h₂.xsStackSlot.trans h₁.xsStackSlot, h₂.releases.trans h₁.releases⟩

theorem SameService.tenure {x x' : Xenstore} (h : SameService x x') : SameTenure x x' :=
  ⟨h.xsStackSlot, h.releases⟩

theorem HeaderStep.tenure {x : Xenstore} {r : Xenstore × Bool} (h : HeaderStep x r) :
    SameTenure x r.1 := by
  cases h <;> exact ⟨rfl, rfl⟩

/-- Below the limit a message keeps the slot of its client. -/
theorem wp_processMessage_tenure {x : Xenstore} (hlim : BelowLimit x) (s : Shared) :
    wp (processMessage x) (fun x' s' => SameTenure x x' ∧ s'.usedThreads = s.usedThreads)
      (fun _ => True) s := by
  cases hin : x.input with
  | none =>
    unfold processMessage
    rw [hin]
    trivial
  | some inp =>
    refine wp_processMessage hin (fun _ => ?_) (fun h hh => ?_)
    · refine wp_conseq (slots_sendErrno 0 .enosys s fun _ => rfl) fun x' s' hx' => ?_
      have hsame := hx'.1.same hlim
      exact ⟨⟨hsame.xsStackSlot, hsame.releases⟩, hx'.2 hlim⟩
    · refine wp_conseq (slots_messageHandle hh _ _ s fun _ => rfl) fun x' s' hx' => ?_
      have hsame := hx'.1.same hlim
      exact ⟨fun _ => trivial, fun _ => ⟨⟨hsame.xsStackSlot, hsame.releases⟩, hx'.2 hlim⟩⟩

theorem threadStep_tenure {t t' : Thread} {s s' : Shared} (hv : NoViolation s t)
    (h : threadStep t s = .ok (t', s')) :
    SameTenure t.xenstore t'.xenstore ∧ s'.usedThreads = s.usedThreads := by
  refine wp_ok (Q := fun r s₁ => SameTenure t.xenstore r.xenstore ∧
    s₁.usedThreads = s.usedThreads) (E := fun _ => True) ?_ h
  obtain ⟨pc, x⟩ := t
  have hrefl : SameTenure x x := SameTenure.refl x
  cases pc with
  | loopTest | dead => exact ⟨hrefl, rfl⟩
  | endTransaction =>
    simp only [threadStep, wp_bind, wp_pure]
    refine wp_conseq (slots_sendTransactionEnd s fun _ => rfl) fun x' s' hx' => ?_
    exact ⟨(hx'.1.same hv).tenure, hx'.2 hv⟩
  | events =>
    simp only [threadStep]
    refine wp_ite (fun _ => ?_) (fun _ => ⟨hrefl, rfl⟩)
    simp only [wp_bind, wp_pure]
    refine wp_conseq (slots_processPendingWatchEvents s rfl) fun x' s' hx' => ?_
    exact ⟨hx'.1.tenure, hx'.2⟩
  | idle =>
    simp only [threadStep, wp_bind]
    refine wp_lift (fun b _ => wp_ite (fun _ => ⟨hrefl, rfl⟩) (fun _ => ?_)) (fun _ _ => trivial)
    rw [wp_bind]
    exact wp_lift (fun _ _ => ⟨hrefl, rfl⟩) (fun _ _ => trivial)
  | readTest | writeTest =>
    simp only [threadStep, wp_bind]
    exact wp_lift (fun _ _ => ⟨hrefl, rfl⟩) (fun _ _ => trivial)
  | header =>
    simp only [threadStep, wp_bind]
    exact wp_inputHeader (fun hf => absurd hf hv.1) hv.2 (fun _ => trivial)
      fun r rest _ hr => ⟨hr.tenure, rfl⟩
  | payload =>
    simp only [threadStep, wp_bind]
    cases hin : x.input with
    | none =>
      unfold inputPayload
      rw [hin]
      trivial
    | some inp => exact wp_inputPayload hin hv (fun _ => trivial) fun n _ => ⟨⟨rfl, rfl⟩, rfl⟩
  | process =>
    simp only [threadStep, wp_bind, wp_pure]
    exact wp_processMessage_tenure hv s
  | output =>
    simp only [threadStep, wp_bind]
    exact wp_handleOutput hv (fun _ => trivial) (fun _ => ⟨hrefl, rfl⟩)
      (fun _ _ _ _ _ _ => ⟨⟨rfl, rfl⟩, rfl⟩) (fun _ _ _ _ _ _ => ⟨⟨rfl, rfl⟩, rfl⟩)
      (fun _ _ _ _ => trivial)
  | cleanup => exact ⟨hrefl, rfl⟩

/-- `held` says for each service which slot it holds, if any. -/
structure SlotTable (used : UInt32) (held : List (Option Nat)) : Prop where
  bits : ∀ i, bitSet used i = true ↔ some i ∈ held
  distinct : ∀ (j j' i : Nat),
    held[j]? = some (some i) → held[j']? = some (some i) → j = j'

theorem SlotTable.add {used : UInt32} {held : List (Option Nat)} {k : Nat}
    (h : SlotTable used held) (hk : k < 32) (hfree : bitSet used k = false) :
    SlotTable (used ||| UInt32.ofNat (2 ^ k)) (held ++ [some k]) where
  bits i := by
    rw [bitSet_set used hk, Bool.or_eq_true, h.bits i, decide_eq_true_eq, List.mem_append,
      List.mem_singleton, Option.some.injEq]
  distinct j j' i hj hj' := by
    have hnew : some k ∉ held := by
      intro hmem
      rw [← h.bits k, hfree] at hmem
      cases hmem
    -- a slot of the old part is not `k`, and the new part has one place
    have hcase : ∀ l, (held ++ [some k])[l]? = some (some i) →
        held[l]? = some (some i) ∧ i ≠ k ∨ l = held.length ∧ i = k := by
      intro l hl
      rcases Nat.lt_or_ge l held.length with hlt | hge
      · rw [List.getElem?_append_left hlt] at hl
        refine Or.inl ⟨hl, fun hik => hnew ?_⟩
        subst hik
        exact List.mem_of_getElem? hl
      · rw [List.getElem?_append_right hge, List.getElem?_singleton] at hl
        split at hl
        · simp only [Option.some.injEq] at hl
          exact Or.inr ⟨by omega, hl.symm⟩
        · cases hl
    rcases hcase j hj with ⟨ho, hne⟩ | ⟨hl, hik⟩ <;>
      rcases hcase j' hj' with ⟨ho', hne'⟩ | ⟨hl', hik'⟩
    · exact h.distinct j j' i ho ho'
    · exact absurd hik' hne
    · exact absurd hik hne'
    · rw [hl, hl']

theorem SlotTable.remove {used : UInt32} {held : List (Option Nat)} {j k : Nat}
    (h : SlotTable used held) (hj : held[j]? = some (some k)) :
    SlotTable (used &&& ~~~ UInt32.ofNat (2 ^ k)) (held.set j none) := by
  have hk : k < 32 := bitSet_lt ((h.bits k).mpr (List.mem_of_getElem? hj))
  have hset : ∀ (l i : Nat), (held.set j none)[l]? = some (some i) ↔
      held[l]? = some (some i) ∧ l ≠ j := by
    intro l i
    rw [List.getElem?_set]
    by_cases hl : j = l
    · subst hl
      simp only [if_true, ne_eq, not_true_eq_false, and_false, iff_false]
      split <;> simp
    · rw [if_neg hl]
      exact ⟨fun hi => ⟨hi, fun he => hl he.symm⟩, fun hi => hi.1⟩
  constructor
  · intro i
    rw [bitSet_clear used hk, Bool.and_eq_true, h.bits i, Bool.not_eq_true',
      decide_eq_false_iff_not, List.mem_iff_getElem?, List.mem_iff_getElem?]
    constructor
    · rintro ⟨⟨l, hl⟩, hne⟩
      refine ⟨l, (hset l i).mpr ⟨hl, fun hlj => hne ?_⟩⟩
      rw [hlj, hj] at hl
      simpa using hl.symm
    · rintro ⟨l, hl⟩
      obtain ⟨hl, hlj⟩ := (hset l i).mp hl
      refine ⟨⟨l, hl⟩, fun hik => hlj ?_⟩
      subst hik
      exact h.distinct l j i hl hj
  · intro l l' i hl hl'
    exact h.distinct l l' i ((hset l i).mp hl).1 ((hset l' i).mp hl').1

def Service.holding (sv : Service) : Option Nat :=
  if sv.thread.xenstore.releases = 0 then some sv.slot else none

/-- A service is released when it is stopped, and not before. -/
structure Service.Ordered (sv : Service) : Prop where
  stopped : sv.phase = .stopped → sv.thread.pc = .dead ∧ sv.thread.xenstore.releases = 1
  started : sv.phase ≠ .stopped → sv.thread.xenstore.releases = 0

structure LifeInv (w : World) : Prop where
  ordered : ∀ sv ∈ w.services, sv.Ordered
  slots : SlotTable w.shared.usedThreads (w.services.map Service.holding)

def World.boot (s : Shared) : World := ⟨s, 0, []⟩

theorem LifeInv.boot {s : Shared} (h : s.usedThreads = 0) : LifeInv (.boot s) where
  ordered sv hsv := by cases hsv
  slots := by
    constructor
    · intro i
      simp only [World.boot, h, List.map_nil, List.not_mem_nil, iff_false, Bool.not_eq_true]
      exact BitVec.getLsbD_zero
    · intro j j' i hj
      cases hj

theorem LifeInv.set {w : World} {s : Shared} {i : Nat} {sv sv' : Service} (h : LifeInv w)
    (hi : w.services[i]? = some sv) (hord : sv'.Ordered) (hs : s.usedThreads = w.shared.usedThreads)
    (hten : SameTenure sv.thread.xenstore sv'.thread.xenstore) :
    LifeInv (w.setService s i sv') where
  ordered v hv := by
    rcases List.mem_or_eq_of_mem_set hv with hv | hv
    · exact h.ordered v hv
    · rw [hv]; exact hord
  slots := by
    have hhold : sv'.holding = sv.holding := by
      simp only [Service.holding, Service.slot, hten.releases, hten.xsStackSlot]
    have hmap : (w.services.set i sv').map Service.holding = w.services.map Service.holding := by
      rw [List.map_set, hhold]
      apply List.ext_getElem?
      intro j
      rw [List.getElem?_set]
      split
      · next hij =>
        subst hij
        split
        · simp [hi]
        · next hlen => simp only [List.length_map] at hlen; simp; omega
      · rfl
    simp only [World.setService, hmap, hs]
    exact h.slots

theorem LifeInv.join {w : World} {s : Shared} {i : Nat} {sv : Service} {x : Xenstore}
    (h : LifeInv w) (hi : w.services[i]? = some sv)
    (hready : sv.phase = .stopping ∧ sv.thread.pc = .dead)
    (hr : releaseDomainStored sv.thread.xenstore w.shared = .ok (x, s)) :
    LifeInv { w.setService s i ⟨.stopped, sv.thread.pc, x⟩ with domNum := w.domNum - 1 } := by
  have hlive : sv.thread.xenstore.releases = 0 :=
    (h.ordered sv (List.mem_of_getElem? hi)).started (by rw [hready.1]; decide)
  have hrel : wp (releaseDomainStored sv.thread.xenstore) (fun x s =>
      x = sv.thread.xenstore.released ∧
        s.usedThreads = w.shared.usedThreads &&& ~~~ UInt32.ofNat (2 ^ sv.slot))
      (fun _ => True) w.shared :=
    wp_releaseDomainStored (fun _ _ _ => ⟨rfl, rfl⟩) (fun _ => trivial) fun _ => trivial
  obtain ⟨hx, hused⟩ := wp_ok hrel hr
  subst hx
  constructor
  · intro v hv
    rcases List.mem_or_eq_of_mem_set hv with hv | hv
    · exact h.ordered v hv
    · rw [hv]
      refine ⟨fun _ => ⟨hready.2, ?_⟩, fun hp => absurd rfl hp⟩
      simp [Xenstore.released, hlive]
  · have hheld : (w.services.map Service.holding)[i]? = some (some sv.slot) := by
      rw [List.getElem?_map, hi]
      simp [Service.holding, hlive]
    have hnone : Service.holding ⟨.stopped, sv.thread.pc, sv.thread.xenstore.released⟩ = none := by
      simp [Service.holding, Xenstore.released]
    simp only [World.setService, hused, List.map_set, hnone]
    exact h.slots.remove hheld

theorem LifeInv.step {w w' : World} {a : LifeAction} (h : LifeInv w) (hc : a.Clean w)
    (hstep : w.step a = some w') : LifeInv w' := by
  have hget : ∀ {i : Nat} {sv : Service}, w.services[i]? = some sv → sv.Ordered :=
    fun hi => h.ordered _ (List.mem_of_getElem? hi)
  cases a with
  | create domid page stackWord =>
    simp only [World.step] at hstep
    split at hstep
    · cases hstep
    · cases hg : getStackIdx w.shared with
      | error e => simp [hg] at hstep
      | ok r =>
        obtain ⟨k, s⟩ := r
        simp only [hg, Option.some.injEq] at hstep
        subst hstep
        obtain ⟨⟨hk, hfree⟩, hused⟩ := wp_ok (wp_getStackIdx w.shared) hg
        constructor
        · intro sv hsv
          rcases List.mem_append.mp hsv with hsv | hsv
          · exact h.ordered sv hsv
          · rw [List.mem_singleton.mp hsv]
            exact ⟨fun hp => (by cases hp), fun _ => rfl⟩
        · rw [hused, List.map_append]
          exact h.slots.add hk hfree
  | guest i page =>
    simp only [World.step] at hstep
    cases hi : w.services[i]? with
    | none => simp [hi] at hstep
    | some sv =>
      simp only [hi] at hstep
      split at hstep
      · cases hstep
        exact h.set hi ⟨(hget hi).stopped, (hget hi).started⟩ rfl ⟨rfl, rfl⟩
      · cases hstep
  | thread i =>
    simp only [World.step] at hstep
    cases hi : w.services[i]? with
    | none => simp [hi] at hstep
    | some sv =>
      simp only [hi] at hstep
      split at hstep
      · cases hstep
      · next hpc =>
        cases ht : threadStep sv.thread w.shared with
        | error e => simp [ht] at hstep
        | ok r =>
          obtain ⟨t, s⟩ := r
          simp only [ht, Option.some.injEq] at hstep
          subst hstep
          obtain ⟨hten, hused⟩ := threadStep_tenure (hc sv hi) ht
          -- a thread that still steps belongs to a service that is not stopped
          have hphase : sv.phase ≠ .stopped := fun hp => hpc ((hget hi).stopped hp).1
          refine h.set hi ⟨fun hp => absurd hp hphase, fun _ => ?_⟩ hused hten
          rw [hten.releases]
          exact (hget hi).started hphase
  | destroy i =>
    simp only [World.step] at hstep
    cases hi : w.services[i]? with
    | none => simp [hi] at hstep
    | some sv =>
      simp only [hi] at hstep
      split at hstep
      · next hphase =>
        cases hstep
        refine h.set hi ⟨fun hp => (by cases hp), fun _ => (hget hi).started ?_⟩ rfl ⟨rfl, rfl⟩
        rw [hphase]
        decide
      · cases hstep
  | join i =>
    simp only [World.step] at hstep
    cases hi : w.services[i]? with
    | none => simp [hi] at hstep
    | some sv =>
      simp only [hi] at hstep
      split at hstep
      · next hready =>
        cases hr : releaseDomainStored sv.thread.xenstore w.shared with
        | error e => simp [hr] at hstep
        | ok r =>
          obtain ⟨x, s⟩ := r
          simp only [hr, Option.some.injEq] at hstep
          subst hstep
          exact h.join hi hready hr
      · cases hstep
  | other s =>
    simp only [World.step] at hstep
    split at hstep
    · next hs =>
      cases hstep
      exact ⟨h.ordered, by rw [hs.1]; exact h.slots⟩
    · cases hstep

/-- What holds in every state of a run in which no thread step meets a violation. -/
theorem LifeInv.tornDownOnce {w : World} (h : LifeInv w) : TornDownOnce w := by
  have hlive : ∀ (j i : Nat), (w.services.map Service.holding)[j]? = some (some i) ↔
      ∃ sv, w.services[j]? = some sv ∧ sv.Live ∧ sv.slot = i := by
    intro j i
    rw [List.getElem?_map, Option.map_eq_some_iff]
    refine exists_congr fun sv => and_congr_right fun _ => ?_
    unfold Service.holding Service.Live
    split <;> simp_all
  have hdead : ∀ (j : Nat) (sv : Service), w.services[j]? = some sv → sv.thread.pc ≠ .dead →
      sv.Live := by
    intro j sv hj hpc
    have hord := h.ordered sv (List.mem_of_getElem? hj)
    exact hord.started fun hp => hpc (hord.stopped hp).1
  constructor
  · intro sv hsv
    have hord := h.ordered sv hsv
    by_cases hp : sv.phase = .stopped
    · exact Nat.le_of_eq (hord.stopped hp).2
    · rw [hord.started hp]
      exact Nat.zero_le 1
  · intro i
    rw [h.slots.bits i, List.mem_iff_getElem?]
    constructor
    · rintro ⟨j, hj⟩
      obtain ⟨sv, hsv⟩ := (hlive j i).mp hj
      refine ⟨j, sv, hsv, fun j' sv' hj' hl' hs' => ?_⟩
      exact h.slots.distinct j' j i ((hlive j' i).mpr ⟨sv', hj', hl', hs'⟩) hj
    · rintro ⟨j, sv, hsv, _⟩
      exact ⟨j, (hlive j i).mpr ⟨sv, hsv⟩⟩
  · intro j j' sv sv' hj hj' hpc hpc' hslot
    exact h.slots.distinct j j' sv.slot ((hlive j _).mpr ⟨sv, hj, hdead j sv hj hpc, rfl⟩)
      ((hlive j' _).mpr ⟨sv', hj', hdead j' sv' hj' hpc', hslot.symm⟩)

/-- In every run of creations, guest activity and destructions in which no thread meets a
violation, every service is torn down at most once and no two share a slot. -/
theorem run_tornDownOnce {s : Shared} {as : List LifeAction} {w : World}
    (hs : s.usedThreads = 0) (hclean : Along World.step (fun w a => a.Clean w) (.boot s) as)
    (hrun : run World.step (.boot s) as = some w) : TornDownOnce w :=
  (run_invariant (fun _ _ _ => LifeInv.step) (LifeInv.boot hs) hclean hrun).tornDownOnce

/-- A domain that is created, destroyed, and whose thread ends before the join returns. -/
def createDestroy : List LifeAction :=
  [.create 1 (idleClient 1).domint fun _ => 0, .destroy 0, .thread 0, .thread 0, .join 0]

theorem run_tornDownOnce_createDestroy :
    ∃ w, run World.step (.boot (.boot 16)) createDestroy = some w ∧ TornDownOnce w := by
  refine ⟨_, rfl, @run_tornDownOnce (.boot 16) createDestroy _ rfl ?_ rfl⟩
  refine ⟨trivial, fun w₁ h₁ => ?_⟩
  cases h₁
  refine ⟨trivial, fun w₂ h₂ => ?_⟩
  cases h₂
  refine ⟨fun sv hsv => ?_, fun w₃ h₃ => ?_⟩
  · cases hsv; trivial
  cases h₃
  refine ⟨fun sv hsv => ?_, fun w₄ h₄ => ?_⟩
  · cases hsv; trivial
  cases h₄
  exact ⟨trivial, fun w₅ _ => trivial⟩

/-- A guest whose request index runs far ahead is invalidated by its own thread. The next
domain gets the slot, and the destruction of the first one releases it a second time. -/
def violationRun : List LifeAction :=
  [.create 1 { (idleClient 1).domint with reqProd := 5000 } fun _ => 0] ++
    List.replicate 6 (.thread 0) ++ [.create 2 (idleClient 2).domint fun _ => 0] ++
    List.replicate 3 (.thread 0) ++ [.destroy 0, .join 0]

theorem violationRun_not_tornDownOnce :
    ∃ w, run World.step (.boot (.boot 16)) violationRun = some w ∧
      w.services.map (fun sv => sv.thread.xenstore.releases) = [2, 0] ∧
      w.services.map Service.slot = [0, 0] ∧ w.shared.usedThreads = 0 ∧ ¬ TornDownOnce w := by
  have hrun : (run World.step (.boot (.boot 16)) violationRun).map (fun w =>
      (w.services.map (fun sv => sv.thread.xenstore.releases), w.services.map Service.slot,
        w.shared.usedThreads)) = some ([2, 0], [0, 0], 0) := by decide
  obtain ⟨w, hw, hvals⟩ := Option.map_eq_some_iff.mp hrun
  simp only [Prod.mk.injEq] at hvals
  refine ⟨w, hw, hvals.1, hvals.2.1, hvals.2.2, fun h => ?_⟩
  have hmem : 2 ∈ w.services.map fun sv => sv.thread.xenstore.releases := by simp [hvals.1]
  obtain ⟨sv, hsv, htwice⟩ := List.mem_map.mp hmem
  have honce := h.once sv hsv
  omega

end Xenlib
