import Xenlib.BareNode
import Xenlib.Lifecycle
import Xenlib.SetupCalls

/-!
`domain_create` when one of its calls or allocations fails. Every failure that it reports takes the
services down again, the console before the store; all others it passes over, and the domain is
created without what was to be done.
-/

set_option autoImplicit false

namespace Xenlib

open Keyed Wp

/-- How many of the first `n` slots are taken. -/
def takenSlots (n : Nat) (used : UInt32) : Nat := (List.range n).countP (bitSet used)

theorem exists_slot {n : Nat} {used : UInt32} (hn : n ≤ 32) (h : takenSlots n used < n) :
    ∃ k, lowestClear used = some k ∧ k < n := by
  have hclear : ∃ i ∈ List.range n, ¬ bitSet used i = true := by
    by_contra hall
    push Not at hall
    rw [takenSlots, List.countP_eq_length.mpr hall, List.length_range] at h
    exact Nat.lt_irrefl _ h
  obtain ⟨i, hi, hbit⟩ := hclear
  rw [List.mem_range] at hi
  cases hk : lowestClear used with
  | none =>
    rw [lowestClear, List.find?_range_eq_none] at hk
    exact absurd (hk i (by omega)) (by simpa using hbit)
  | some k =>
    refine ⟨k, rfl, ?_⟩
    rw [lowestClear, List.find?_range_eq_some] at hk
    by_contra hlt
    exact absurd (hk.2.2 i (by omega)) (by simpa using hbit)

theorem slot_returned {used : UInt32} {k : Nat} (hk : k < 32) (h : bitSet used k = false) :
    (used ||| UInt32.ofNat (2 ^ k)) &&& ~~~ UInt32.ofNat (2 ^ k) = used := by
  rw [← UInt32.toBitVec_inj]
  refine BitVec.eq_of_getLsbD_eq fun i _ => ?_
  show bitSet _ i = bitSet used i
  rw [bitSet_clear _ hk, bitSet_set _ hk]
  by_cases hi : i = k
  · rw [hi, h]
    simp
  · simp [hi]

/-- Where `domain_create` starts: the store has the directories and nothing of the domain, every
slot that is taken belongs to a domain of the list, and Xen gives out ports that are not bound. -/
structure CreateStart (env : CreateEnv) (w : CreateState) : Prop where
  wellFormed : WellFormed w.shared.root
  quiet : Quiet w.shared
  dirs : DomainDirs w.shared.root
  noDomain : NoDomain env.domid w.shared.root
  few : w.shared.domuMax ≤ 32
  storeSlots : (takenSlots w.shared.domuMax w.shared.usedThreads : Int) ≤ w.registry.domNum
  consoleSlots : (takenSlots w.shared.domuMax w.consoleThreads : Int) ≤ w.registry.domNum
  storePort : env.rc .bindStore ∉ w.handlers
  consolePort : env.rc .bindConsole ∉ w.handlers
  made : w.made = []

/-- Nothing is left of the domain. The service of the store drops what the id has in the tree when
it stops. -/
structure Undone (env : CreateEnv) (w : CreateState) (rc : Int) (w' : CreateState) : Prop where
  error : rc < 0
  registry : w'.registry = w.registry
  usedThreads : w'.shared.usedThreads = w.shared.usedThreads
  consoleThreads : w'.consoleThreads = w.consoleThreads
  handlers : w'.handlers = w.handlers
  tree : w'.shared.root = if CreateCall.paramStore ∈ w'.made then
    departedRoot env.domid w.shared.root else w.shared.root

/-- The domain is in `domain_list`, and the caller gets its id. -/
structure Created (env : CreateEnv) (w : CreateState) (rc : Int) (w' : CreateState) : Prop where
  value : rc = env.domid.toInt32.toInt
  registry : w'.registry = w.registry.register (createdDomain env.domid)

/-- The failures of calls that `domain_create` passes over. -/
def PassedOver (cfg : XenDomainCfg) (c : CreateCall) : Prop :=
  Logged cfg c ∨ c.ofUimage = true ∨ c = .domainInfo

def Sound (env : CreateEnv) (cfg : XenDomainCfg) (made : List CreateCall) : Prop :=
  ∀ c ∈ made, 0 ≤ env.rc c ∨ PassedOver cfg c

theorem Sound.append {env : CreateEnv} {cfg : XenDomainCfg} {made calls : List CreateCall}
    (h : Sound env cfg made) (hcalls : Sound env cfg calls) : Sound env cfg (made ++ calls) := by
  intro c hc
  rcases List.mem_append.mp hc with hc | hc
  · exact h c hc
  · exact hcalls c hc

theorem Sound.call {env : CreateEnv} {cfg : XenDomainCfg} {made : List CreateCall} {c : CreateCall}
    (h : Sound env cfg made) (hc : 0 ≤ env.rc c ∨ PassedOver cfg c) :
    Sound env cfg (made ++ [c]) := by
  refine h.append fun c' hc' => ?_
  rw [List.mem_singleton.mp hc']
  exact hc

theorem CreateEnv.Plain.neg {env : CreateEnv} (hle : env.Plain) {c : CreateCall}
    (hport : c.givesPort = false) (hne : env.rc c ≠ 0) : env.rc c < 0 :=
  lt_of_le_of_ne (hle.gives hport) hne

@[simp] theorem wp_traced {α : Type} (x : Traced α) (Q : α → CreateState → Prop)
    (E : Fault → Prop) (w : CreateState) :
    wp (traced x) Q E w = Q x.val { w with made := w.made ++ x.calls } := rfl

structure StoreRuns (env : CreateEnv) (w : CreateState) (store : RunningService)
    (v : CreateState) : Prop where
  slot : store.slot < w.shared.domuMax ∧ bitSet w.shared.usedThreads store.slot = false
  registry : v.registry = w.registry
  domuMax : v.shared.domuMax = w.shared.domuMax
  usedThreads : v.shared.usedThreads = w.shared.usedThreads ||| UInt32.ofNat (2 ^ store.slot)
  consoleThreads : v.consoleThreads = w.consoleThreads
  handlers : v.handlers.filter (· ≠ store.localEvtchn) = w.handlers
  root : v.shared.root = w.shared.root
  started : CreateCall.paramStore ∈ v.made

/-- So does that of the console. -/
structure BothRun (env : CreateEnv) (w : CreateState) (store console : RunningService)
    (v : CreateState) : Prop where
  slot : console.slot < w.shared.domuMax ∧ bitSet w.consoleThreads console.slot = false
  consoleThreads : v.consoleThreads = w.consoleThreads ||| UInt32.ofNat (2 ^ console.slot)
  store : StoreRuns env w store { v with
    consoleThreads := w.consoleThreads
    handlers := v.handlers.filter (· ≠ console.localEvtchn) }

section Services
variable {env : CreateEnv} {cfg : XenDomainCfg} {w v : CreateState} {store console : RunningService}
  {rc : Int}

theorem StoreRuns.stop (h : StoreRuns env w store v) (hstart : CreateStart env w) (hrc : rc < 0) :
    wp (do stopDomainStored env.domid store; pure rc : CreateM Int) (Undone env w)
      (fun _ => False) v := by
  have hlt : store.slot < 32 := lt_of_lt_of_le h.slot.1 hstart.few
  have hnodes := hstart.wellFormed.nodes
  rw [← h.root] at hnodes
  unfold stopDomainStored unbindEventChannel
  simp only [wp_bind]
  refine wp_onShared (wp_releaseDomainStored (fun children _ hc => ?_) (fun hbad => ?_)
    (fun he => ?_))
  · rw [removeRefEntriesRecursive_prune _ hnodes] at hc
    cases hc
    refine ⟨hrc, h.registry, ?_, h.consoleThreads, h.handlers, ?_⟩
    · show v.shared.usedThreads &&& ~~~ UInt32.ofNat (2 ^ store.slot) = _
      rw [h.usedThreads, slot_returned hlt h.slot.2]
    · rw [if_pos h.started, ← h.root]
      rfl
  · have hset : bitSet v.shared.usedThreads store.slot = true := by
      rw [h.usedThreads, bitSet_set _ hlt]
      simp
    rcases hbad with hbad | hbad
    · rw [h.domuMax] at hbad
      exact absurd h.slot.1 (Nat.not_lt.mpr hbad)
    · rw [show (freshClient env.domid store.slot).xsStackSlot = store.slot from rfl, hset] at hbad
      cases hbad
  · rw [removeRefEntriesRecursive_prune _ hnodes] at he
    cases he

theorem BothRun.stop (h : BothRun env w store console v) (hstart : CreateStart env w)
    (hrc : rc < 0) :
    wp (stopServices env store console rc) (Undone env w) (fun _ => False) v := by
  have hlt : console.slot < 32 := lt_of_lt_of_le h.slot.1 hstart.few
  have hset : bitSet v.consoleThreads console.slot = true := by
    rw [h.consoleThreads, bitSet_set _ hlt]
    simp
  have hmax : ¬ v.shared.domuMax ≤ console.slot := by
    rw [show v.shared.domuMax = w.shared.domuMax from h.store.domuMax]
    exact Nat.not_le.mpr h.slot.1
  unfold stopServices xenStopDomainConsole consoleFreeStackIdx unbindEventChannel
  simp only [wp_bind, wp_get, hmax, hset, if_false, Bool.not_true, Bool.false_eq_true, wp_modify]
  rw [← wp_bind]
  have hthreads : v.consoleThreads &&& ~~~ UInt32.ofNat (2 ^ console.slot) = w.consoleThreads := by
    rw [h.consoleThreads, slot_returned hlt h.slot.2]
  rw [hthreads]
  exact h.store.stop hstart hrc

theorem free_slot {n : Nat} {used : UInt32} {domNum : Int} (hn : n ≤ 32)
    (hslots : (takenSlots n used : Int) ≤ domNum) (hnum : domNum < n) :
    ∃ k, lowestClear used = some k ∧ k < n ∧ bitSet used k = false := by
  obtain ⟨k, hk, hlt⟩ := exists_slot hn (by omega : takenSlots n used < n)
  exact ⟨k, hk, hlt, (lowestClear_spec hk).2⟩

theorem filter_port {ports : List Int} {port : Int} (h : port ∉ ports) :
    ports.filter (· ≠ port) = ports := by
  refine List.filter_eq_self.mpr fun other hother => ?_
  have hne : other ≠ port := by
    rintro rfl
    exact h hother
  simpa using hne

theorem wp_startDomainStored {m : List CreateCall} (hstart : CreateStart env w)
    (hnum : w.registry.domNum < w.shared.domuMax) (hparam : env.rc .paramStore = 0)
    (hm : CreateCall.paramStore ∉ m) (hsound : Sound env cfg m) :
    wp (startDomainStored env) (fun r v => match r with
      | .error rc => Undone env w rc v
      | .ok store => StoreRuns env w store v ∧ Sound env cfg v.made ∧
        v.shared = { w.shared with usedThreads := v.shared.usedThreads }) (fun _ => False)
      { w with made := m } := by
  obtain ⟨k, hk, hlt, hbit⟩ := free_slot hstart.few hstart.storeSlots hnum
  unfold startDomainStored
  simp only [wp_bind, wp_traced, CreateEnv.call]
  refine wp_ite (fun hmap => ?_) (fun hmap => ?_)
  · exact ⟨hmap, rfl, rfl, rfl, rfl, (if_neg (by simp [hm])).symm⟩
  simp only [wp_bind, wp_traced]
  refine wp_ite (fun hbind => ?_) (fun hbind => ?_)
  · exact ⟨hbind, rfl, rfl, rfl, rfl, (if_neg (by simp [hm])).symm⟩
  unfold bindHandler
  simp only [wp_bind, wp_modify, wp_traced, hparam, ne_eq, not_true_eq_false, if_false]
  refine wp_onShared ?_
  unfold getStackIdx
  simp only [wp_bind, wp_get, hk, wp_modify, wp_pure]
  have hports : (w.handlers ++ [env.rc .bindStore]).filter (· ≠ env.rc .bindStore) =
      w.handlers := by
    rw [List.filter_append, filter_port hstart.storePort]
    simp
  refine ⟨⟨⟨hlt, hbit⟩, rfl, rfl, rfl, rfl, hports, rfl, by simp⟩, ?_, trivial⟩
  exact ((hsound.call (Or.inl (not_lt.mp hmap))).call (Or.inl (not_lt.mp hbind))).call
    (Or.inl (le_of_eq hparam.symm))

theorem StoreRuns.unbound (h : StoreRuns env w store v) (hstart : CreateStart env w)
    (made : List CreateCall) (hmade : v.made ⊆ made) :
    StoreRuns env w store { v with
      handlers := (v.handlers ++ [env.rc .bindConsole]).filter (· ≠ env.rc .bindConsole)
      made := made } := by
  refine ⟨h.slot, h.registry, h.domuMax, h.usedThreads, h.consoleThreads, ?_, h.root,
    hmade h.started⟩
  have hlast : [env.rc .bindConsole].filter (· ≠ env.rc .bindConsole) = [] := by simp
  rw [List.filter_append, hlast, List.append_nil, List.filter_comm, h.handlers]
  exact filter_port hstart.consolePort

theorem StoreRuns.startConsole (h : StoreRuns env w store v) (hstart : CreateStart env w)
    (hnum : w.registry.domNum < w.shared.domuMax) (hle : env.Plain)
    (hsound : Sound env cfg v.made) :
    wp (xenStartDomainConsole env) (fun r v' => match r with
      | .error rc => rc < 0 ∧ StoreRuns env w store v'
      | .ok console => BothRun env w store console v' ∧ Sound env cfg v'.made ∧
        v'.shared = v.shared) (fun _ => False) v := by
  obtain ⟨k, hk, hlt, hbit⟩ := free_slot hstart.few hstart.consoleSlots hnum
  have hmade (calls : List CreateCall) : StoreRuns env w store { v with made := v.made ++ calls } :=
    ⟨h.slot, h.registry, h.domuMax, h.usedThreads, h.consoleThreads, h.handlers, h.root,
      List.mem_append_left _ h.started⟩
  unfold xenStartDomainConsole xenInitDomainConsole
  simp only [wp_bind, wp_traced, CreateEnv.call]
  refine wp_ite (fun hmap => ⟨hmap, hmade _⟩) (fun hmap => ?_)
  simp only [wp_bind, wp_traced]
  refine wp_ite (fun _ => ⟨by decide, ?_⟩) (fun halloc => ?_)
  · rw [List.append_assoc]
    exact hmade _
  simp only [wp_bind, wp_traced]
  refine wp_ite (fun hbind => ⟨hbind, ?_⟩) (fun hbind => ?_)
  · rw [List.append_assoc, List.append_assoc]
    exact hmade _
  unfold bindHandler unbindEventChannel
  simp only [wp_bind, wp_modify, wp_traced]
  have hcalls : v.made ⊆ v.made ++ [.mapConsole] ++ [.allocConsole] ++ [.bindConsole] ++
      [.paramConsole] := by
    simp [List.append_assoc]
  have hunbound := h.unbound hstart _ hcalls
  refine wp_ite (fun hparam => ?_) (fun hparam => ?_)
  · exact ⟨hle.neg rfl hparam, hunbound⟩
  unfold consoleGetStackIdx
  simp only [wp_bind, wp_get, wp_pure, h.consoleThreads, hk, wp_modify]
  refine ⟨⟨⟨hlt, hbit⟩, rfl, ?_⟩, ?_, trivial⟩
  · exact ⟨h.slot, h.registry, h.domuMax, h.usedThreads, rfl, hunbound.handlers, h.root,
      hunbound.started⟩
  · refine Sound.call (.call (.call (.call hsound ?_) ?_) ?_) ?_
    · exact Or.inl (not_lt.mp hmap)
    · exact Or.inl (not_lt.mp halloc)
    · exact Or.inl (not_lt.mp hbind)
    · exact Or.inl (le_of_eq (not_not.mp hparam).symm)

end Services

theorem Errno.rc_neg (e : Errno) : e.rc < 0 := by
  cases e <;> decide

/-- The domains the scan for the name goes through. -/
def CreateEnv.visible (env : CreateEnv) : List UInt16 :=
  if env.rc .domainInfo < 0 then [] else env.infos

/-- What the allocations of the store are for, as long as they succeed. -/
def storeUses (env : CreateEnv) (cfg : XenDomainCfg) (s : Shared) : List AllocUse :=
  List.replicate (scanned s.root cfg.chosenName env.visible) .scan ++
    writeUses env.domid (linkedWatches s)
      (nodeWrites env.domid (cfg.chosenName.take (containerNameSize - 1)) cfg.numVcpus
        cfg.maxMemKb) s.root

section Publish
variable {env : CreateEnv} {cfg : XenDomainCfg} {w v : CreateState} {store console : RunningService}
  {o : Option Nat} {use : Option AllocUse}

theorem BothRun.frame {s : Shared} {made : List CreateCall} (h : BothRun env w store console v)
    (hu : Undisturbed v.shared s) (hroot : s.root = v.shared.root) (hmade : v.made ⊆ made) :
    BothRun env w store console { v with shared := s, made := made } :=
  ⟨h.slot, h.consoleThreads, h.store.slot, h.store.registry, hu.domuMax.trans h.store.domuMax,
    hu.usedThreads.trans h.store.usedThreads, rfl, h.store.handlers, hroot.trans h.store.root,
    hmade h.store.started⟩

theorem wp_findDomainByName {name : CString} (hallocs : v.shared.allocs = failAfter o) :
    wp (findDomainByName env name) (fun _ v' => v' = { v with
      shared := { v.shared with
        allocs := failAfter (behind (scanned v.shared.root name env.visible) o) }
      made := v.made ++ [.domainInfo] }) (fun _ => False) v := by
  unfold findDomainByName CreateEnv.visible
  simp only [wp_bind, wp_traced, CreateEnv.call]
  refine wp_ite (fun hfail => ?_) (fun hok => ?_)
  · rw [if_pos hfail, scanned, behind_zero, ← hallocs]
    exact rfl
  · rw [if_neg hok]
    refine wp_onShared (wp_conseq (wp_findNameLoop_after env.infos hallocs) fun r s' hs' => ?_)
    rw [hs']

theorem useAt_storeUses :
    useAt (storeUses env cfg w.shared) o =
      if within (scanned w.shared.root cfg.chosenName env.visible) o then some .scan
      else useAt (writeUses env.domid (linkedWatches w.shared)
        (nodeWrites env.domid (cfg.chosenName.take (containerNameSize - 1)) cfg.numVcpus
          cfg.maxMemKb) w.shared.root)
        (behind (scanned w.shared.root cfg.chosenName env.visible) o) := by
  rw [storeUses, useAt_append, List.length_replicate, useAt_replicate]
  cases within (scanned w.shared.root cfg.chosenName env.visible) o with
  | true => rfl
  | false => rfl

theorem BothRun.publish {u : UInt32} (h : BothRun env w store console v)
    (hstart : CreateStart env w) (hsound : Sound env cfg v.made)
    (hshared : v.shared = { w.shared with usedThreads := u }) (hunpause : env.rc .unpause = 0)
    (hallocs : w.shared.allocs = failAfter o)
    (huse : useAt (storeUses env cfg w.shared) o = use)
    (huntold : ¬ Blocked (domainDirs env.domid) (linkedWatches w.shared) use) :
    wp (publishDomain env cfg store console) (fun rc w' => Undone env w rc w' ∨
      Created env w rc w' ∧ Sound env cfg w'.made ∧ use.any AllocUse.ofWrite = false)
      (fun _ => False) v := by
  have hfind := @wp_findDomainByName env v o cfg.chosenName (by rw [hshared]; exact hallocs)
  rw [hshared] at hfind
  generalize hseen : scanned w.shared.root cfg.chosenName env.visible = seen at *
  unfold publishDomain
  rw [wp_bind]
  refine wp_conseq hfind fun r v₁ hv₁ => ?_
  subst hv₁
  have hboth : BothRun env w store console { v with
      shared := { w.shared with usedThreads := u, allocs := failAfter (behind seen o) }
      made := v.made ++ [.domainInfo] } :=
    h.frame (by rw [hshared]; exact ⟨rfl, rfl, rfl⟩) (by rw [hshared])
      (List.subset_append_left _ _)
  have hsound₁ : Sound env cfg (v.made ++ [.domainInfo]) :=
    hsound.call (Or.inr (Or.inr (Or.inr rfl)))
  refine wp_ite (fun _ => ?_) (fun _ => ?_)
  · exact wp_conseq (hboth.stop hstart (by decide)) fun _ _ hundone => Or.inl hundone
  rw [useAt_storeUses, hseen] at huse
  have hwrites : ∃ use', useAt (writeUses env.domid (linkedWatches w.shared)
      (nodeWrites env.domid (cfg.chosenName.take (containerNameSize - 1)) cfg.numVcpus
        cfg.maxMemKb) w.shared.root) (behind seen o) = use' ∧
      use'.any AllocUse.ofWrite = use.any AllocUse.ofWrite ∧
      ¬ Blocked (domainDirs env.domid) (linkedWatches w.shared) use' := by
    cases hin : within seen o with
    | true =>
      rw [hin, if_pos rfl] at huse
      refine ⟨none, by rw [behind_of_within hin]; rfl, by rw [← huse]; rfl, ?_⟩
      rintro ⟨q, hq, -⟩
      cases hq
    | false =>
      rw [hin, if_neg Bool.false_ne_true] at huse
      exact ⟨use, huse, rfl, huntold⟩
  obtain ⟨use', huse', hsame, huntold'⟩ := hwrites
  rw [wp_bind]
  refine wp_onShared (wp_conseq (wp_xsInitialize_after
    hstart.wellFormed ⟨hstart.quiet.idle, hstart.quiet.relative⟩ hstart.dirs hstart.noDomain rfl
    huse' huntold') fun rc s hs => ?_)
  obtain ⟨hu, hrc, hroot⟩ := hs
  rw [hsame] at hrc
  cases rc with
  | some e =>
    have hframe := hboth.frame hu (hroot rfl) (List.Subset.refl _)
    exact wp_conseq (hframe.stop hstart e.rc_neg) fun _ _ hundone => Or.inl hundone
  | none =>
    have hregistry : v.registry = w.registry := h.store.registry
    have hcreated (made : List CreateCall) (hmade : Sound env cfg made) :
        wp (do
          modify fun w => { w with registry := w.registry.register (createdDomain env.domid) }
          return env.domid.toInt32.toInt : CreateM Int)
          (fun rc w' => Undone env w rc w' ∨
            Created env w rc w' ∧ Sound env cfg w'.made ∧ use.any AllocUse.ofWrite = false)
          (fun _ => False) { v with shared := s, made := made } :=
      Or.inr ⟨⟨rfl, by rw [← hregistry]⟩, hmade, hrc.symm⟩
    refine wp_ite (fun _ => ?_) (fun _ => ?_)
    · rw [wp_bind, wp_pure]
      exact wp_ite (fun hne => absurd rfl hne) (fun _ => hcreated _ hsound₁)
    · rw [wp_bind, wp_traced]
      refine wp_ite (fun hne => absurd hunpause hne) (fun _ => ?_)
      exact hcreated _ (hsound₁.call (Or.inl (le_of_eq hunpause.symm)))

end Publish

section Create
variable {env : CreateEnv} {cfg : XenDomainCfg} {w : CreateState} {o : Option Nat}

theorem notMem_prepare {c : CreateCall} (hc : c ≠ .flaskContext) :
    c ∉ (prepareDomainCfg env cfg).calls := by
  intro hmem
  unfold prepareDomainCfg at hmem
  split at hmem
  · exact hc (by simpa [CreateEnv.call] using hmem)
  · cases hmem

theorem paramStore_notMem_setup : CreateCall.paramStore ∉ (setupDomain env cfg).calls := by
  have honly : Only (fun c => c.inSetup = true) (setupDomain env cfg) := by
    refine only_setupDomain (fun hc => .call ?_) (fun c hc => ?_)
    · exact ((Bool.and_eq_true _ _).mp hc).1
    · obtain ⟨call, rfl⟩ := only_probeUimage cfg c hc
      rfl
  intro hmem
  exact absurd (honly _ hmem) Bool.false_ne_true

theorem sound_setup (hle : env.Plain) (hval : (setupDomain env cfg).val = 0) :
    Sound env cfg (setupDomain env cfg).calls := by
  intro c hc
  by_contra hfail
  rw [not_or, not_le, PassedOver, not_or, not_or] at hfail
  obtain ⟨hneg, hlog, hu, -⟩ := hfail
  have hattempt : ¬ c.OfAttempt true := by
    rintro ⟨call, rfl⟩
    exact hu rfl
  have hreported := (reports_setupDomain hle hneg hlog hattempt).failed hc
  rw [hval] at hreported
  exact Int.lt_irrefl 0 hreported

theorem sound_prepare : Sound env cfg (prepareDomainCfg env cfg).calls := by
  intro c hc
  unfold prepareDomainCfg at hc
  split at hc
  · obtain rfl : c = .flaskContext := by simpa [CreateEnv.call] using hc
    exact Or.inr (Or.inl trivial)
  · cases hc

/-- Whatever fails, but for the three calls whose failure is handled wrongly and the memory of a
node that a guest is told of: either nothing is left of the domain, or it is in the list. -/
theorem wp_domainCreate (hstart : CreateStart env w) (hle : env.Plain) (hsize : cfg.SizeOrError)
    (halloc : 0 ≤ env.rc .allocDomain) (hparam : env.rc .paramStore = 0)
    (hunpause : env.rc .unpause = 0) (hallocs : w.shared.allocs = failAfter o)
    (huntold : ¬ Blocked (domainDirs env.domid) (linkedWatches w.shared)
      (useAt (storeUses env cfg w.shared) o)) :
    wp (domainCreate env cfg) (fun rc w' => Undone env w rc w' ∨
      Created env w rc w' ∧ Sound env cfg w'.made ∧
        (useAt (storeUses env cfg w.shared) o).any AllocUse.ofWrite = false)
      (fun _ => False) w := by
  have hprepare : CreateCall.paramStore ∉ (prepareDomainCfg env cfg).calls := notMem_prepare nofun
  have hearly {m : List CreateCall} {rc : Int} (hm : CreateCall.paramStore ∉ m) (hrc : rc < 0) :
      Undone env w rc { w with made := m } :=
    ⟨hrc, rfl, rfl, rfl, rfl, (if_neg hm).symm⟩
  unfold domainCreate
  rw [wp_bind, wp_get]
  refine wp_ite (fun _ => Or.inl ⟨by decide, rfl, rfl, rfl, rfl, ?_⟩) (fun hnum => ?_)
  · rw [hstart.made]
    rfl
  rw [not_le] at hnum
  simp only [wp_bind, wp_traced, CreateEnv.call, hstart.made, List.nil_append]
  refine wp_ite (fun hcreate => Or.inl (hearly (by simp [hprepare]) ?_)) (fun hcreate => ?_)
  · exact hle.neg rfl hcreate
  simp only [wp_bind, wp_traced]
  refine wp_ite (fun hfail => absurd halloc (not_le.mpr hfail)) (fun _ => ?_)
  simp only [wp_bind, wp_traced]
  have hm : CreateCall.paramStore ∉ (prepareDomainCfg env cfg).calls ++ [.createDomain] ++
      [.allocDomain] ++ (setupDomain env cfg).calls := by
    simp [hprepare, paramStore_notMem_setup]
  refine wp_ite (fun hsetup => Or.inl (hearly hm ?_)) (fun hsetup => ?_)
  · exact lt_of_le_of_ne (gives_setupDomain hle hsize) hsetup
  have hsound : Sound env cfg ((prepareDomainCfg env cfg).calls ++ [.createDomain] ++
      [.allocDomain] ++ (setupDomain env cfg).calls) :=
    ((sound_prepare.call (Or.inl (le_of_eq (not_not.mp hcreate).symm))).call (Or.inl halloc)).append
      (sound_setup hle (not_not.mp hsetup))
  rw [wp_bind]
  refine wp_conseq (wp_startDomainStored hstart hnum hparam hm hsound) fun r v hv => ?_
  cases r with
  | error rc => exact Or.inl hv
  | ok store =>
    obtain ⟨hruns, hsound, hshared⟩ := hv
    rw [wp_bind]
    refine wp_conseq (hruns.startConsole hstart hnum hle hsound) fun r v' hv' => ?_
    cases r with
    | error rc =>
      exact wp_conseq (hv'.2.stop hstart hv'.1) fun _ _ hundone => Or.inl hundone
    | ok console =>
      obtain ⟨hboth, hsound', hshared'⟩ := hv'
      exact hboth.publish hstart hsound' (hshared'.trans hshared) hunpause hallocs rfl huntold

end Create

/-- The domain is one of `domain_list`. -/
def InList (env : CreateEnv) (w : CreateState) : Prop :=
  ∃ domain ∈ w.registry.domainList,
    w.registry.heap[domain]? = some (some (createdDomain env.domid))

section Value
variable {env : CreateEnv} {cfg : XenDomainCfg} {w : CreateState}

theorem inList_register (r : DomainRegistry) :
    InList env { w with registry := r.register (createdDomain env.domid) } :=
  ⟨r.heap.length, List.mem_append_right _ List.mem_cons_self, by simp [DomainRegistry.register]⟩

theorem wp_startDomainStored_error (hle : env.Plain) :
    wp (startDomainStored env) (fun r _ => ∀ rc, r = .error rc → rc < 0) (fun _ => True) w := by
  unfold startDomainStored
  simp only [wp_bind, wp_traced, CreateEnv.call]
  refine wp_ite (fun hmap rc hrc => by cases hrc; exact hmap) (fun _ => ?_)
  simp only [wp_bind, wp_traced]
  refine wp_ite (fun hbind rc hrc => by cases hrc; exact hbind) (fun _ => ?_)
  unfold bindHandler
  simp only [wp_bind, wp_modify, wp_traced]
  refine wp_ite (fun hparam rc hrc => ?_) (fun _ => ?_)
  · cases hrc
    exact hle.neg rfl hparam
  · rw [wp_bind]
    refine wp_conseq (wp_trivial _ _) fun slot v _ rc hrc => ?_
    cases hrc

theorem wp_xenStartDomainConsole_error (hle : env.Plain) :
    wp (xenStartDomainConsole env) (fun r _ => ∀ rc, r = .error rc → rc < 0) (fun _ => True)
      w := by
  unfold xenStartDomainConsole xenInitDomainConsole
  simp only [wp_bind, wp_traced, CreateEnv.call]
  refine wp_ite (fun hmap rc hrc => by cases hrc; exact hmap) (fun _ => ?_)
  simp only [wp_bind, wp_traced]
  refine wp_ite (fun _ rc hrc => by cases hrc; decide) (fun _ => ?_)
  simp only [wp_bind, wp_traced]
  refine wp_ite (fun hbind rc hrc => by cases hrc; exact hbind) (fun _ => ?_)
  unfold bindHandler unbindEventChannel
  simp only [wp_bind, wp_modify, wp_traced]
  refine wp_ite (fun hparam rc hrc => ?_) (fun _ => ?_)
  · cases hrc
    exact hle.neg rfl hparam
  · rw [wp_pure, wp_bind]
    refine wp_conseq (wp_trivial _ _) fun slot v _ rc hrc => ?_
    cases hrc

theorem wp_stopServices_error (store console : RunningService) {rc : Int} (hrc : rc < 0) :
    wp (stopServices env store console rc) (fun rc w' => 0 ≤ rc → InList env w') (fun _ => True)
      w := by
  unfold stopServices
  rw [wp_bind]
  refine wp_conseq (wp_trivial _ _) fun _ v _ => ?_
  rw [wp_bind]
  exact wp_conseq (wp_trivial _ _) fun _ _ _ h => absurd h (not_le.mpr hrc)

theorem wp_publishDomain_listed (hle : env.Plain) (store console : RunningService) :
    wp (publishDomain env cfg store console) (fun rc w' => 0 ≤ rc → InList env w')
      (fun _ => True) w := by
  unfold publishDomain
  rw [wp_bind]
  refine wp_conseq (wp_trivial _ _) fun r v _ => ?_
  refine wp_ite (fun _ => wp_stopServices_error store console (by decide)) (fun _ => ?_)
  rw [wp_bind]
  refine wp_conseq (wp_trivial _ _) fun rc v₁ _ => ?_
  cases rc with
  | some e => exact wp_stopServices_error store console e.rc_neg
  | none =>
    refine wp_ite (fun _ => ?_) (fun _ => ?_)
    · rw [wp_bind, wp_pure]
      exact wp_ite (fun hne => absurd rfl hne) (fun _ _ => inList_register _)
    · rw [wp_bind, wp_traced]
      refine wp_ite (fun hne => ?_) (fun _ _ => inList_register _)
      exact wp_stopServices_error store console (hle.neg rfl hne)

/-- Whatever fails, but for the memory of the structure, a result that is no error means that the
domain is in the list. -/
theorem wp_domainCreate_listed (hle : env.Plain) (hsize : cfg.SizeOrError)
    (halloc : 0 ≤ env.rc .allocDomain) :
    wp (domainCreate env cfg) (fun rc w' => 0 ≤ rc → InList env w') (fun _ => True) w := by
  have herror {rc : Int} {v : CreateState} (hrc : rc < 0) : 0 ≤ rc → InList env v :=
    fun h => absurd h (not_le.mpr hrc)
  unfold domainCreate
  rw [wp_bind, wp_get]
  refine wp_ite (fun _ => herror (by decide)) (fun _ => ?_)
  simp only [wp_bind, wp_traced, CreateEnv.call]
  refine wp_ite (fun hcreate => herror ?_) (fun _ => ?_)
  · exact hle.neg rfl hcreate
  simp only [wp_bind, wp_traced]
  refine wp_ite (fun hfail => absurd halloc (not_le.mpr hfail)) (fun _ => ?_)
  simp only [wp_bind, wp_traced]
  refine wp_ite (fun hsetup => herror ?_) (fun _ => ?_)
  · exact lt_of_le_of_ne (gives_setupDomain hle hsize) hsetup
  rw [wp_bind]
  refine wp_conseq (wp_startDomainStored_error hle) fun r v hv => ?_
  cases r with
  | error rc => exact herror (hv rc rfl)
  | ok store =>
    rw [wp_bind]
    refine wp_conseq (wp_xenStartDomainConsole_error hle) fun r v' hv' => ?_
    cases r with
    | error rc =>
      rw [wp_bind]
      exact wp_conseq (wp_trivial _ _) fun _ _ _ => herror (hv' rc rfl)
    | ok console => exact wp_publishDomain_listed hle store console

end Value

inductive FailPoint where
  | call (c : CreateCall)
  /-- The allocation of the store behind `k` others. -/
  | alloc (k : Nat)

def FailPoint.Fails (env : CreateEnv) (w : CreateState) : FailPoint → Prop
  | .call c => env.rc c < 0 ∧ env.OthersSucceed c ∧ w.shared.allocs = []
  | .alloc k => (∀ c, env.Succeeds c) ∧ w.shared.allocs = failAfter (some k)

def FailPoint.Reached (w' : CreateState) : FailPoint → Prop
  | .call c => c ∈ w'.made
  | .alloc _ => True

def FailPoint.use (env : CreateEnv) (cfg : XenDomainCfg) (w : CreateState) :
    FailPoint → Option AllocUse
  | .call _ => none
  | .alloc k => useAt (storeUses env cfg w.shared) (some k)

/-- A failure that `domain_create` passes over: of a tolerated call, or of an allocation that is not
for a write. -/
def FailPoint.Passed (env : CreateEnv) (cfg : XenDomainCfg) (w : CreateState) :
    FailPoint → Prop
  | .call c => PassedOver cfg c
  | .alloc k => (FailPoint.use env cfg w (.alloc k)).any AllocUse.ofWrite = false

/-- A failure that is handled wrongly. The result for a structure without memory is that of the
creation; the handler of the store's port stays bound when its parameter cannot be set; a domain
that cannot be unpaused leaves its nodes; and a node without permissions stops the notification that
is to tell a guest of it. -/
def FailPoint.Amiss (env : CreateEnv) (cfg : XenDomainCfg) (w : CreateState) (p : FailPoint) :
    Prop :=
  p = .call .allocDomain ∨ p = .call .paramStore ∨ p = .call .unpause ∨
    Blocked (domainDirs env.domid) (linkedWatches w.shared) (p.use env cfg w)

section Fails
variable {env : CreateEnv} {cfg : XenDomainCfg} {w : CreateState} {p : FailPoint} {c : CreateCall}

theorem CreateEnv.Succeeds.nonneg (h : env.Succeeds c) : 0 ≤ env.rc c := by
  unfold CreateEnv.Succeeds at h
  split at h
  · exact h
  · exact le_of_eq h.symm

theorem CreateEnv.Succeeds.zero (h : env.Succeeds c) (hc : c.givesPort = false) :
    env.rc c = 0 := by
  simpa [CreateEnv.Succeeds, hc] using h

theorem FailPoint.Fails.succeeds (h : p.Fails env w) (hc : p ≠ .call c) : env.Succeeds c := by
  cases p with
  | call c' => exact h.2.1 c fun heq => hc (by rw [heq])
  | alloc k => exact h.1 c

theorem FailPoint.Fails.plain (h : p.Fails env w) : env.Plain := by
  intro c h₁ h₂ h₃ h₄
  have hport : c.givesPort = false := by
    cases c <;> first | rfl | contradiction
  by_cases hc : p = .call c
  · subst hc
    exact le_of_lt h.1
  · exact le_of_eq ((h.succeeds hc).zero hport)

theorem FailPoint.Fails.allocs (h : p.Fails env w) :
    ∃ o, w.shared.allocs = failAfter o ∧
      useAt (storeUses env cfg w.shared) o = p.use env cfg w := by
  cases p with
  | call c => exact ⟨none, h.2.2, rfl⟩
  | alloc k => exact ⟨some k, h.2, rfl⟩

theorem not_passed_sound {w' : CreateState} (h : p.Fails env w) (hreached : p.Reached w')
    (hpassed : ¬ p.Passed env cfg w) (hsound : Sound env cfg w'.made)
    (huse : (p.use env cfg w).any AllocUse.ofWrite = false) : False := by
  cases p with
  | call c =>
    rcases hsound c hreached with hok | htolerated
    · exact absurd h.1 (not_lt.mpr hok)
    · exact hpassed htolerated
  | alloc k => exact hpassed huse

end Fails

structure Restored (w w' : CreateState) : Prop where
  registry : w'.registry = w.registry
  usedThreads : w'.shared.usedThreads = w.shared.usedThreads
  consoleThreads : w'.consoleThreads = w.consoleThreads
  handlers : w'.handlers = w.handlers
  root : w'.shared.root = w.shared.root

theorem Undone.restored {env : CreateEnv} {w w' : CreateState} {rc : Int} (h : Undone env w rc w')
    (hroot : w'.shared.root = w.shared.root) : Restored w w' :=
  ⟨h.registry, h.usedThreads, h.consoleThreads, h.handlers, hroot⟩

/-- The call that fails was made, or the failing allocation was asked for. -/
def FailPoint.Met (w' : CreateState) : FailPoint → Prop
  | .call c => c ∈ w'.made
  | .alloc _ => false ∉ w'.shared.allocs

/-- The failure is reported and leaves no trace, and success is reported for a domain in the list
only. -/
def AllOrNothing (env : CreateEnv) (cfg : XenDomainCfg) (w : CreateState) (p : FailPoint) : Prop :=
  ∃ rc w', domainCreate env cfg w = .ok (rc, w') ∧ (p.Met w' → rc < 0 ∧ Restored w w') ∧
    (0 ≤ rc → InList env w')

section Slips
variable {env : CreateEnv} {cfg : XenDomainCfg} {w : CreateState}

theorem wp_domainCreate_allocDomain (hmade : w.made = []) (hfail : env.rc .allocDomain < 0) :
    wp (domainCreate env cfg) (fun rc w' => CreateCall.allocDomain ∈ w'.made → rc = 0)
      (fun _ => True) w := by
  have hprepare : CreateCall.allocDomain ∉ (prepareDomainCfg env cfg).calls := notMem_prepare nofun
  unfold domainCreate
  rw [wp_bind, wp_get]
  refine wp_ite (fun _ hmem => ?_) (fun _ => ?_)
  · rw [hmade] at hmem
    cases hmem
  simp only [wp_bind, wp_traced, CreateEnv.call, hmade, List.nil_append]
  refine wp_ite (fun _ hmem => absurd hmem (by simp [hprepare])) (fun hcreate => ?_)
  simp only [wp_bind, wp_traced]
  exact wp_ite (fun _ _ => not_not.mp hcreate) (fun hok => absurd hfail hok)

theorem wp_domainCreate_paramStore (hmade : w.made = []) (hfail : env.rc .paramStore < 0) :
    wp (domainCreate env cfg)
      (fun _ w' => CreateCall.paramStore ∈ w'.made → w'.handlers ≠ w.handlers)
      (fun _ => True) w := by
  have hprepare : CreateCall.paramStore ∉ (prepareDomainCfg env cfg).calls := notMem_prepare nofun
  unfold domainCreate
  rw [wp_bind, wp_get]
  refine wp_ite (fun _ hmem => ?_) (fun _ => ?_)
  · rw [hmade] at hmem
    cases hmem
  simp only [wp_bind, wp_traced, CreateEnv.call, hmade, List.nil_append]
  refine wp_ite (fun _ hmem => absurd hmem (by simp [hprepare])) (fun _ => ?_)
  simp only [wp_bind, wp_traced]
  refine wp_ite (fun _ hmem => absurd hmem (by simp [hprepare])) (fun _ => ?_)
  simp only [wp_bind, wp_traced]
  refine wp_ite (fun _ hmem => absurd hmem (by simp [hprepare, paramStore_notMem_setup]))
    (fun _ => ?_)
  unfold startDomainStored
  simp only [wp_bind, wp_traced, CreateEnv.call]
  refine wp_ite (fun _ hmem => absurd hmem (by simp [hprepare, paramStore_notMem_setup]))
    (fun _ => ?_)
  simp only [wp_bind, wp_traced]
  refine wp_ite (fun _ hmem => absurd hmem (by simp [hprepare, paramStore_notMem_setup]))
    (fun _ => ?_)
  unfold bindHandler
  simp only [wp_bind, wp_modify, wp_traced]
  refine wp_ite (fun _ _ => ?_) (fun hzero => absurd (ne_of_lt hfail) hzero)
  exact fun heq => by simpa using congrArg List.length heq

end Slips

def labelledCfg : XenDomainCfg where
  name := cstr "a"
  domainName := []
  memKb := 524288
  gntFrames := 1
  maxVcpus := 1
  nrIomems := 0
  nrIrqs := 0
  nrDtdevs := 0
  seclabel := some (cstr "l")
  loadImageBytes := some fun _ _ => (0, [])
  getImageSize := some (0, 4096)
  fPaused := false

/-- All calls succeed but one. -/
def failingEnv (c : CreateCall) : CreateEnv where
  rc := Function.update (fun _ => 0) c (-12)
  flask := true
  domid := 1
  fdtSize := 4096
  infos := [0]

def idleState : CreateState := ⟨threeDirs [], ⟨[], [], 0, []⟩, 0, [], []⟩

theorem idleState_start (c : CreateCall) : CreateStart (failingEnv c) idleState where
  wellFormed := threeDirs_wellFormed []
  quiet := threeDirs_quiet []
  dirs := threeDirs_dirs []
  noDomain := threeDirs_noDomain []
  few := by decide
  storeSlots := by decide
  consoleSlots := by decide
  storePort := List.not_mem_nil
  consolePort := List.not_mem_nil
  made := rfl

theorem labelledCfg_size : labelledCfg.SizeOrError := by
  intro size hsize
  cases hsize
  decide

theorem failingEnv_fails (c : CreateCall) : (FailPoint.call c).Fails (failingEnv c) idleState := by
  refine ⟨?_, fun c' hc' => ?_, rfl⟩
  · show Function.update (fun _ => (0 : Int)) c (-12) c < 0
    rw [Function.update_self]
    decide
  · have hrc : (failingEnv c).rc c' = 0 := Function.update_of_ne hc' (-12) fun _ => (0 : Int)
    rw [CreateEnv.Succeeds, hrc]
    split <;> rfl

def labelledRun (c : CreateCall) : Option (Int × List CreateCall) :=
  match domainCreate (failingEnv c) labelledCfg idleState with
  | .ok (rc, w') => some (rc, w'.made)
  | .error _ => none

end Xenlib
