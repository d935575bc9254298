import Xenlib.Removals

/-!
`put_domain` when it drops the last reference: what the teardown takes away, what it leaves, and
when it comes to its end.
-/

set_option autoImplicit false

namespace Xenlib

open Keyed Wp

def firstDir (kind : DeviceKind) (domid : UInt32) (backends : List UInt32) :
    List (List CString) :=
  backends.head?.toList.map fun b => backendDir kind b domid

/-- The directories that `xs_remove_xenstore_backends` removes. -/
def firstDirs (cfg : BackendConfiguration) (domid : UInt32) : List (List CString) :=
  firstDir .vif domid (cfg.backends .vif) ++ firstDir .vbd domid (cfg.backends .vbd)

/-- The removals of these directories and of the one of the domain itself find memory to copy
their paths. -/
def TeardownAfforded (cfg : BackendConfiguration) (domid : UInt32) (s : Shared) : Prop :=
  Afforded (firstDirs cfg domid ++ [localDomainDir domid]) s

/-- `remove_ref_entries` comes to its end. -/
def Departs (domid : UInt32) (root : XsEntry) : Prop :=
  ∃ children, removeRefEntriesRecursive domid root.children = .ok children

/-- `put_domain` dropping the last reference: first the directories of the first devices go, then
what the domain owns, and then its own nodes. -/
structure TornDown (cfg : BackendConfiguration) (domid : UInt32) (s s' : Shared) : Prop where
  stages : ∃ s₁, Swept (firstDirs cfg domid) s s₁ ∧ Departs domid s₁.root ∧
    Cut (domainDirs domid) (departedRoot domid s₁.root) s'.root
  own : TeardownAfforded cfg domid s → ∀ q, localDomainDir domid <+: q → s'.root.node q = none

section Teardown
variable {cfg : BackendConfiguration} {domain : ServedDomain} {domid : UInt32} {s : Shared}

theorem mem_firstDirs {p : List CString} :
    p ∈ firstDirs cfg domid ↔
      ∃ kind b, (cfg.backends kind).head? = some b ∧ p = backendDir kind b domid := by
  have hone (kind : DeviceKind) : p ∈ firstDir kind domid (cfg.backends kind) ↔
      ∃ b, (cfg.backends kind).head? = some b ∧ p = backendDir kind b domid := by
    unfold firstDir
    cases (cfg.backends kind).head? with
    | none => simp
    | some b => simp
  rw [firstDirs, List.mem_append, hone, hone]
  constructor
  · rintro (⟨b, hb, hp⟩ | ⟨b, hb, hp⟩)
    · exact ⟨.vif, b, hb, hp⟩
    · exact ⟨.vbd, b, hb, hp⟩
  · rintro ⟨kind, b, hb, hp⟩
    cases kind with
    | vif => exact Or.inl ⟨b, hb, hp⟩
    | vbd => exact Or.inr ⟨b, hb, hp⟩

theorem removable_firstDirs : ∀ p ∈ firstDirs cfg domid, Removable p := by
  intro p hp
  obtain ⟨kind, b, -, rfl⟩ := mem_firstDirs.mp hp
  exact removable_backendDir kind b domid

theorem wp_removeAll_append {ps qs : List (List CString)} {Q : Shared → Prop} {E : Fault → Prop} :
    wp (removeAll (ps ++ qs)) (fun _ => Q) E s ↔
      wp (removeAll ps) (fun _ s' => wp (removeAll qs) (fun _ => Q) E s') E s := by
  induction ps generalizing s with
  | nil => rfl
  | cons p ps ih =>
    rw [List.cons_append, removeAll, removeAll, wp_bind, wp_bind]
    simp only [ih]

theorem wp_xsDeinitialize_swept (domid : UInt32) (hd : s.root.children.Distinct) :
    wp (xsDeinitializeDomainXenstore domid) (fun _ s' => Cut (domainDirs domid) s.root s'.root ∧
      (Afforded [localDomainDir domid] s →
        ∀ q, localDomainDir domid <+: q → s'.root.node q = none)) (fun _ => True) s := by
  have hrm := removable_domainDirs domid
  have hsplit : domainDirs domid = [localDomainDir domid] ++ [vmDir domid, libxlDir domid] := rfl
  rw [xsDeinitialize_eq, hsplit, wp_removeAll_append]
  refine wp_conseq (wp_removeAll_swept _ [] (fun p hp => hrm p ?_) hd) fun _ s₁ h₁ => ?_
  · rw [List.mem_singleton.mp hp]
    exact List.mem_cons_self
  refine wp_conseq (wp_removeAll_swept _ [] (fun p hp => hrm p (List.mem_cons_of_mem _ hp))
    h₁.1.cut.distinct) fun _ s₂ h₂ => ?_
  exact ⟨h₁.1.cut.trans h₂.1.cut, fun haff q hpre =>
    h₂.1.cut.gone (h₁.1.gone haff _ (List.mem_singleton_self _) q hpre)⟩

theorem wp_removeBackends {C : Type} {configured : C → Bool} {backendDomainId : C → UInt32}
    (kind : DeviceKind) (cfgs : List C) (rc : Option Errno) {Q : Shared → Prop}
    {E : Fault → Prop} :
    wp (removeBackends kind domid (placedStates configured backendDomainId cfgs) rc)
      (fun _ => Q) E s ↔
    wp (removeAll (firstDir kind domid (configuredBackends configured backendDomainId cfgs)))
      (fun _ => Q) E s := by
  unfold removeBackends firstDir
  rw [find?_placedStates]
  cases (configuredBackends configured backendDomainId cfgs).head? with
  | none => rfl
  | some b =>
    show _ ↔ wp (removeAll [backendDir kind b domid]) _ _ _
    rw [removeAll, wp_bind]
    rfl

theorem wp_xsRemoveXenstoreBackends (hback : domain.backState = cfg.placed) {Q : Shared → Prop}
    {E : Fault → Prop} :
    wp (xsRemoveXenstoreBackends domain) (fun _ => Q) E s ↔
      wp (removeAll (firstDirs cfg domain.domid)) (fun _ => Q) E s := by
  unfold xsRemoveXenstoreBackends
  rw [wp_bind, hback, firstDirs, wp_removeAll_append]
  simp only [BackendConfiguration.placed, wp_removeBackends]
  rfl

theorem afforded_departed {s' : Shared} (hd : s.root.children.Distinct)
    (hroot : s'.root = departedRoot domid s.root) (hallocs : s'.allocs = s.allocs)
    (h : Afforded [localDomainDir domid] s) : Afforded [localDomainDir domid] s' := by
  refine ⟨fun hsome => ?_, fun _ _ _ => trivial⟩
  rw [nextAlloc, hallocs]
  refine h.1 ?_
  by_contra hnone
  have habsent : (departedRoot domid s.root).node (localDomainDir domid) = none :=
    departedRoot_absent (List.cons_ne_nil _ _) hd
      (lookup_eq_none_iff.mp (Option.not_isSome_iff_eq_none.mp hnone))
  rw [hroot, lookup_eq_none_iff.mpr habsent] at hsome
  cases hsome

theorem wp_putServedDomain_last {w : CreateState} (hback : domain.backState = cfg.placed)
    (hd : w.shared.root.children.Distinct) :
    wp (putServedDomain domain)
      (fun r w' => r = none → TornDown cfg domain.domid w.shared w'.shared) (fun _ => True) w := by
  unfold putServedDomain
  refine wp_ite (fun _ => ?_) (fun _ => nofun)
  rw [wp_bind]
  refine wp_onShared ((wp_xsRemoveXenstoreBackends hback).mpr ?_)
  refine wp_conseq (wp_removeAll_swept _ [localDomainDir domain.domid] removable_firstDirs hd)
    fun _ s₁ h₁ => ?_
  obtain ⟨hswept, haff⟩ := h₁
  rw [wp_bind]
  refine wp_onShared (wp_releaseDomainStored (fun children _ hc => ?_) (fun _ => trivial)
    (fun _ => trivial))
  have hdepart : ({ s₁.root with children := children } : XsEntry) =
      departedRoot domain.domid s₁.root := by
    rw [departedRoot, removeRefEntriesRecursive_ok hc]
    rfl
  rw [hdepart]
  unfold unbindEventChannel
  rw [wp_bind, wp_modify, wp_bind]
  refine wp_onShared (wp_conseq (wp_xsDeinitialize_swept _
    (distinct_departedRoot hswept.cut.distinct)) fun _ s₂ h₂ => ?_)
  have hdown : TornDown cfg domain.domid w.shared s₂ :=
    ⟨⟨s₁, hswept, ⟨children, hc⟩, h₂.1⟩, fun hall =>
      h₂.2 (afforded_departed hswept.cut.distinct rfl rfl (haff hall))⟩
  -- The console leaves the store alone.
  unfold xenStopDomainConsole consoleFreeStackIdx unbindEventChannel
  simp only [wp_bind, wp_get]
  refine wp_ite (fun _ => trivial) (fun _ => wp_ite (fun _ => trivial) (fun _ => ?_))
  exact fun _ => hdown

end Teardown

/-- The domain owns a node on the way to the directory, or the directory itself. -/
def OwnsWay (domid : UInt32) (root : XsEntry) (dir : List CString) : Prop :=
  ∃ r m, r ≠ [] ∧ r <+: dir ∧ root.node r = some m ∧ isOwner m domid = true

/-- A directory that the teardown reaches: it is that of the first device of its kind, or the
domain serves the device itself, or it owns a node on the way. -/
def BackendReached (cfg : BackendConfiguration) (domid : UInt32) (root : XsEntry)
    (kind : DeviceKind) (b : UInt32) : Prop :=
  (cfg.backends kind).head? = some b ∨ b = domid ∨ OwnsWay domid root (backendDir kind b domid)

def AllBackendsReached (cfg : BackendConfiguration) (domid : UInt32) (root : XsEntry) : Prop :=
  ∀ kind, ∀ b ∈ cfg.backends kind, BackendReached cfg domid root kind b

section Left
variable {cfg : BackendConfiguration} {domid : UInt32} {s s' : Shared}

theorem backendDir_not_departed {kind : DeviceKind} {b : UInt32} (hb : b ≠ domid) :
    ∀ p ∈ domainDirs domid, ¬ p <+: backendDir kind b domid := by
  unfold domainDirs
  simp only [List.forall_mem_cons]
  refine ⟨fun h => hb (localDomainDir_prefix_backendDir h).symm, fun h => ?_, fun h => ?_, nofun⟩
  · exact absurd (List.cons_prefix_cons.mp h).1 (by decide)
  · exact absurd (List.cons_prefix_cons.mp h).1 (by decide)

/-- A directory that the teardown does not reach is still there. -/
theorem TornDown.survives (h : TornDown cfg domid s s') {kind : DeviceKind} {b : UInt32}
    (hthere : (s.root.node (backendDir kind b domid)).isSome)
    (hr : ¬ BackendReached cfg domid s.root kind b) :
    (s'.root.node (backendDir kind b domid)).isSome := by
  obtain ⟨s₁, hfirst, -, hlast⟩ := h.stages
  obtain ⟨hhead, hself, hown⟩ : (cfg.backends kind).head? ≠ some b ∧ b ≠ domid ∧
      ¬ OwnsWay domid s.root (backendDir kind b domid) := by
    unfold BackendReached at hr
    push Not at hr
    exact hr
  have hsame {r : List CString} (hpre : r <+: backendDir kind b domid) :
      s₁.root.node r = s.root.node r := by
    refine hfirst.cut.same fun p hp hpr => hhead ?_
    obtain ⟨kind', b', hb', rfl⟩ := mem_firstDirs.mp hp
    have hprefix : backendDir kind' b' domid <+: backendDir kind b domid ++ [] := by
      rw [List.append_nil]
      exact hpr.trans hpre
    obtain ⟨rfl, rfl⟩ := backendDir_prefix_iff.mp hprefix
    exact hb'
  obtain ⟨n, hn⟩ := Option.isSome_iff_exists.mp hthere
  have hn₂ : (departedRoot domid s₁.root).node (backendDir kind b domid) =
      some (stripPerms domid n) := by
    refine (node_departedRoot (backendDir_ne_nil kind b domid) hfirst.cut.distinct).mpr
      ⟨n, (hsame List.prefix_rfl).trans hn, rfl, fun r m hne hpre hm => ?_⟩
    rw [hsame hpre] at hm
    by_contra howner
    exact hown ⟨r, m, hne, hpre, hm, by simpa using howner⟩
  rw [hlast.same (backendDir_not_departed hself), hn₂]
  rfl

/-- A directory that the teardown reaches is gone, as long as its removals can be afforded. -/
theorem TornDown.gone (h : TornDown cfg domid s s') (haff : TeardownAfforded cfg domid s)
    {kind : DeviceKind} {b : UInt32} (hr : BackendReached cfg domid s.root kind b) :
    s'.root.node (backendDir kind b domid) = none := by
  obtain ⟨s₁, hfirst, -, hlast⟩ := h.stages
  have hgone := hfirst.gone (afforded_left haff)
  rcases hr with hhead | rfl | ⟨r, m, hne, hpre, hm, howner⟩
  · refine hlast.gone (departedRoot_absent (backendDir_ne_nil kind b domid) hfirst.cut.distinct ?_)
    exact hgone _ (mem_firstDirs.mpr ⟨kind, b, hhead, rfl⟩) _ List.prefix_rfl
  · exact h.own haff _ (List.prefix_append _ _)
  · refine hlast.gone ?_
    by_contra hsome
    obtain ⟨n', hn'⟩ := Option.ne_none_iff_exists'.mp hsome
    obtain ⟨n, hn, -, hkept⟩ :=
      (node_departedRoot (backendDir_ne_nil kind b domid) hfirst.cut.distinct).mp hn'
    rcases hfirst.cut.nodes r with heq | ⟨-, p, hp, hpr⟩
    · have hfalse := hkept r m hne hpre (heq.trans hm)
      rw [howner] at hfalse
      cases hfalse
    · rw [hgone p hp _ (hpr.trans hpre)] at hn
      cases hn

theorem TornDown.absent (h : TornDown cfg domid s s') {kind : DeviceKind} {b : UInt32}
    (hnone : s.root.node (backendDir kind b domid) = none) :
    s'.root.node (backendDir kind b domid) = none := by
  obtain ⟨s₁, hfirst, -, hlast⟩ := h.stages
  exact hlast.gone (departedRoot_absent (backendDir_ne_nil kind b domid) hfirst.cut.distinct
    (hfirst.cut.gone hnone))

end Left

/-- Every node without permissions goes with a directory of a first device, or the domain owns one
on the way to it. -/
def Sheltered (cfg : BackendConfiguration) (domid : UInt32) (root : XsEntry) : Prop :=
  ∀ q n, root.node q = some n → n.perms = [] →
    (∃ p ∈ firstDirs cfg domid, p <+: q) ∨ OwnsWay domid root q

structure Held (domain : ServedDomain) (w : CreateState) : Prop where
  store : domain.xenstore.xsStackSlot < w.shared.domuMax ∧
    bitSet w.shared.usedThreads domain.xenstore.xsStackSlot = true
  console : domain.console.slot < w.shared.domuMax ∧
    bitSet w.consoleThreads domain.console.slot = true

section Departure
variable {cfg : BackendConfiguration} {domid : UInt32} {t : XsEntry} {s s' : Shared}

theorem node_cons_self (a node : XsNode) (key : CString) (children next : EntryList)
    (ks : List CString) :
    (⟨a, .cons key node children next⟩ : XsEntry).node (key :: ks) =
      (⟨node, children⟩ : XsEntry).node ks := by
  rw [Keyed.Tree.node, Tree.lookup_cons, Forest.find?, if_pos rfl]
  rfl

theorem node_cons_ne (a node : XsNode) {key k : CString} (children next : EntryList)
    (ks : List CString) (hk : k ≠ key) :
    (⟨a, .cons key node children next⟩ : XsEntry).node (k :: ks) =
      (⟨a, next⟩ : XsEntry).node (k :: ks) := by
  rw [Keyed.Tree.node, Keyed.Tree.node, Tree.lookup_cons, Tree.lookup_cons, Forest.find?,
    if_neg hk.symm]

theorem departs_cons {a node : XsNode} {key : CString} {children next : EntryList} :
    Departs domid ⟨a, .cons key node children next⟩ ↔ node.perms ≠ [] ∧
      (isOwner node domid = false → Departs domid ⟨node, children⟩) ∧ Departs domid ⟨a, next⟩ := by
  unfold Departs
  rw [removeRefEntriesRecursive]
  cases hp : node.perms with
  | nil => simp
  | cons owner ps =>
    by_cases ho : owner.domid.toUInt32 = domid
    · simp [ho, hp, isOwner]
    · cases removeRefEntriesRecursive domid children with
      | error e => simp [ho, hp, isOwner]
      | ok c =>
        cases removeRefEntriesRecursive domid next with
        | error e => simp [ho, hp, isOwner]
        | ok n => simp [ho, hp, isOwner]

theorem ownsWay_self {a node : XsNode} {key : CString} {children next : EntryList}
    {ks : List CString} :
    OwnsWay domid ⟨a, .cons key node children next⟩ (key :: ks) ↔
      isOwner node domid = true ∨ OwnsWay domid ⟨node, children⟩ ks := by
  constructor
  · rintro ⟨r, m, hne, hpre, hr, howner⟩
    obtain ⟨k, r, rfl⟩ := List.exists_cons_of_ne_nil hne
    obtain ⟨rfl, hrest⟩ := List.cons_prefix_cons.mp hpre
    rw [node_cons_self] at hr
    by_cases hnil : r = []
    · subst hnil
      cases hr
      exact .inl howner
    · exact .inr ⟨r, m, hnil, hrest, hr, howner⟩
  · rintro (howner | ⟨r, m, -, hpre, hr, howner⟩)
    · refine ⟨[key], node, List.cons_ne_nil _ _, List.prefix_append [key] ks, ?_, howner⟩
      rw [node_cons_self]
      rfl
    · refine ⟨key :: r, m, List.cons_ne_nil _ _, (List.prefix_cons_inj key).mpr hpre, ?_, howner⟩
      rw [node_cons_self]
      exact hr

theorem ownsWay_other {a node : XsNode} {key k : CString} {children next : EntryList}
    {ks : List CString} (hk : k ≠ key) :
    OwnsWay domid ⟨a, .cons key node children next⟩ (k :: ks) ↔
      OwnsWay domid ⟨a, next⟩ (k :: ks) := by
  unfold OwnsWay
  refine exists_congr fun r => exists_congr fun m => and_congr_right fun hne =>
    and_congr_right fun hpre => ?_
  obtain ⟨k', r, rfl⟩ := List.exists_cons_of_ne_nil hne
  obtain ⟨rfl, -⟩ := List.cons_prefix_cons.mp hpre
  rw [node_cons_ne _ _ _ _ _ hk]

/-- The recursion reads the permissions of every node that lies below no node of the domain. -/
theorem departs_iff (hd : t.children.Distinct) :
    Departs domid t ↔
      ∀ q n, q ≠ [] → t.node q = some n → n.perms = [] → OwnsWay domid t q := by
  obtain ⟨a, f⟩ := t
  induction f generalizing a with
  | nil =>
    refine ⟨fun _ q n hq hn => ?_, fun _ => ⟨_, rfl⟩⟩
    obtain ⟨k, ks, rfl⟩ := List.exists_cons_of_ne_nil hq
    cases hn
  | cons key node children next ihc ihn =>
    obtain ⟨hkey, hdc, hdn⟩ := hd
    rw [departs_cons, ihn a hdn]
    constructor
    · rintro ⟨hperms, hchildren, hnext⟩ q n hq hn hbare
      obtain ⟨k, ks, rfl⟩ := List.exists_cons_of_ne_nil hq
      by_cases hk : k = key
      · subst hk
        rw [node_cons_self] at hn
        rw [ownsWay_self]
        cases ho : isOwner node domid with
        | true => exact .inl rfl
        | false =>
          have hks : ks ≠ [] := by
            rintro rfl
            cases hn
            exact hperms hbare
          exact .inr ((ihc node hdc).mp (hchildren ho) ks n hks hn hbare)
      · rw [node_cons_ne _ _ _ _ _ hk] at hn
        rw [ownsWay_other hk]
        exact hnext _ n hq hn hbare
    · intro h
      refine ⟨fun hbare => ?_, fun ho => (ihc node hdc).mpr fun q n hq hn hbare => ?_,
        fun q n hq hn hbare => ?_⟩
      · have hway := ownsWay_self.mp (h [key] node (List.cons_ne_nil _ _)
          (by rw [node_cons_self]; rfl) hbare)
        rcases hway with howner | ⟨r, m, hne, hpre, -⟩
        · rw [isOwner, hbare] at howner
          cases howner
        · exact hne (List.prefix_nil.mp hpre)
      · have hway := ownsWay_self.mp (h (key :: q) n (List.cons_ne_nil _ _)
          (by rw [node_cons_self]; exact hn) hbare)
        rw [ho] at hway
        exact hway.resolve_left Bool.false_ne_true
      · obtain ⟨k, ks, rfl⟩ := List.exists_cons_of_ne_nil hq
        have hk : k ≠ key := by
          rintro rfl
          rw [Keyed.Tree.node, Tree.lookup_cons, Forest.find?_eq_none.mpr hkey] at hn
          cases hn
        exact (ownsWay_other hk).mp
          (h _ n hq (by rw [node_cons_ne _ _ _ _ _ hk]; exact hn) hbare)

theorem Departs.permsOk (h : Departs domid t) (hroot : t.label.perms ≠ []) :
    PermsOk (departedRoot domid t) := by
  obtain ⟨a, f⟩ := t
  refine ⟨hroot, ?_⟩
  show (f.prune (fun n => isOwner n domid) (stripPerms domid)).All fun _ n => n.perms ≠ []
  induction f generalizing a with
  | nil => trivial
  | cons key node children next ihc ihn =>
    obtain ⟨hperms, hchildren, hnext⟩ := departs_cons.mp h
    rw [Forest.prune]
    split
    · exact ihn a hnext hroot
    · rename_i ho
      have howner : isOwner node domid = false := Bool.not_eq_true _ ▸ ho
      exact ⟨stripPerms_ne_nil hperms howner, ihc node (hchildren howner) hperms,
        ihn a hnext hroot⟩

theorem Cut.ownsWay {ps : List (List CString)} {t' : XsEntry} {q : List CString} (h : Cut ps t t')
    (hq : ∀ p ∈ ps, ¬ p <+: q) : OwnsWay domid t' q ↔ OwnsWay domid t q := by
  have hsame {r : List CString} (hpre : r <+: q) : t'.node r = t.node r :=
    h.same fun p hp hpr => hq p hp (hpr.trans hpre)
  constructor
  · rintro ⟨r, m, hne, hpre, hr, howner⟩
    exact ⟨r, m, hne, hpre, (hsame hpre).symm.trans hr, howner⟩
  · rintro ⟨r, m, hne, hpre, hr, howner⟩
    exact ⟨r, m, hne, hpre, (hsame hpre).trans hr, howner⟩

theorem Swept.departs (h : Swept (firstDirs cfg domid) s s')
    (haff : Afforded (firstDirs cfg domid) s)
    (hbare : Sheltered cfg domid s.root) : Departs domid s'.root := by
  refine (departs_iff h.cut.distinct).mpr fun q n hq hn hperms => ?_
  have hapart : ∀ p ∈ firstDirs cfg domid, ¬ p <+: q := by
    intro p hp hpre
    rw [h.gone haff p hp q hpre] at hn
    cases hn
  rw [h.cut.ownsWay hapart]
  rw [h.cut.same hapart] at hn
  exact (hbare q n hn hperms).resolve_left fun ⟨p, hp, hpre⟩ => hapart p hp hpre

theorem Sheltered.rootPerms (h : Sheltered cfg domid t) : t.label.perms ≠ [] := by
  intro hperms
  rcases h [] t.label rfl hperms with ⟨p, hp, hpre⟩ | ⟨r, m, hne, hpre, -⟩
  · exact (removable_firstDirs p hp).ne_nil (List.prefix_nil.mp hpre)
  · exact hne (List.prefix_nil.mp hpre)

theorem TornDown.sheltered (h : TornDown cfg domid s s') (hroot : s.root.label.perms ≠ []) :
    Sheltered cfg domid s.root := by
  obtain ⟨s₁, hswept, hdeparts, -⟩ := h.stages
  intro q n hn hperms
  have hq : q ≠ [] := by
    rintro rfl
    cases hn
    exact hroot hperms
  by_cases hin : ∃ p ∈ firstDirs cfg domid, p <+: q
  · exact Or.inl hin
  · have hapart : ∀ p ∈ firstDirs cfg domid, ¬ p <+: q := fun p hp hpre => hin ⟨p, hp, hpre⟩
    refine Or.inr ((hswept.cut.ownsWay hapart).mp ?_)
    exact (departs_iff hswept.cut.distinct).mp hdeparts q n hq
      ((hswept.cut.same hapart).trans hn) hperms

end Departure

section Returns
variable {cfg : BackendConfiguration} {domain : ServedDomain} {w : CreateState}

/-- The last reference can be dropped: the guests are spared, the removals find memory, and the
departure does not come to a node without permissions. -/
theorem wp_putServedDomain_returns (hback : domain.backState = cfg.placed)
    (hlast : domain.refcount - 1 = 0) (hheld : Held domain w) (hq : Quiet w.shared)
    (hd : w.shared.root.children.Distinct)
    (hbare : Sheltered cfg domain.domid w.shared.root)
    (hspared : Spared (linkedWatches w.shared) (firstDirs cfg domain.domid) w.shared.root)
    (haff : Afforded (firstDirs cfg domain.domid) w.shared) :
    wp (putServedDomain domain) (fun r _ => r = none) (fun _ => False) w := by
  unfold putServedDomain
  refine wp_ite (fun _ => ?_) (fun h => absurd hlast h)
  rw [wp_bind]
  refine wp_onShared ((wp_xsRemoveXenstoreBackends hback).mpr ?_)
  refine wp_mono (wp_and (wp_removeAll_swept _ [] removable_firstDirs hd)
    (wp_removeAll_spared _ removable_firstDirs hq hspared haff)) (fun _ s₁ h₁ => ?_)
    (fun _ h => h.2)
  obtain ⟨⟨hswept, -⟩, hu⟩ := h₁
  have hdeparts := hswept.departs haff hbare
  have hlabel : s₁.root.label = w.shared.root.label := by
    have hsame := hswept.cut.same (q := []) fun p hp hpre =>
      (removable_firstDirs p hp).ne_nil (List.prefix_nil.mp hpre)
    exact Option.some.inj hsame
  rw [wp_bind]
  refine wp_onShared (wp_releaseDomainStored (fun children _ hc => ?_) (fun hbad => ?_)
    (fun herr => ?_))
  · have hdepart : ({ s₁.root with children := children } : XsEntry) =
        departedRoot domain.domid s₁.root := by
      rw [departedRoot, removeRefEntriesRecursive_ok hc]
      rfl
    rw [hdepart]
    unfold unbindEventChannel
    rw [wp_bind, wp_modify, wp_bind]
    have hok := hdeparts.permsOk (hlabel ▸ hbare.rootPerms)
    refine wp_onShared ?_
    rw [xsDeinitialize_eq]
    refine wp_conseq (wp_removeAll _ (removable_domainDirs _) (apart_domainDirs _)
      ?_ hok (distinct_departedRoot hswept.cut.distinct)) fun _ s₂ h₂ => ?_
    · have hquiet := hq.undisturbed hu
      exact ⟨hquiet.idle, hquiet.relative⟩
    · unfold xenStopDomainConsole consoleFreeStackIdx unbindEventChannel
      have hmax : s₂.domuMax = w.shared.domuMax := h₂.1.domuMax.trans hu.domuMax
      simp only [wp_bind, wp_get]
      refine wp_ite (fun h => ?_) (fun _ => wp_ite (fun h => ?_) (fun _ => rfl))
      · rw [show _ = w.shared.domuMax from hmax] at h
        exact absurd hheld.console.1 (Nat.not_lt.mpr h)
      · simp [hheld.console.2] at h
  · rcases hbad with hmax | hfree
    · have hslot := hheld.store.1
      rw [← hu.domuMax] at hslot
      exact absurd hslot (Nat.not_lt.mpr hmax)
    · have htaken := hheld.store.2
      rw [← hu.usedThreads] at htaken
      cases hfree.symm.trans htaken
  · obtain ⟨children, hc⟩ := hdeparts
    cases herr.symm.trans hc

theorem apart_firstDirs (cfg : BackendConfiguration) (domid : UInt32) :
    (firstDirs cfg domid).Pairwise fun p q => ¬ p <+: q := by
  have hne : DeviceKind.vif ≠ .vbd := by decide
  have hapart (b b' : UInt32) : ¬ backendDir .vif b domid <+: backendDir .vbd b' domid := by
    intro hpre
    rw [← List.append_nil (backendDir .vbd b' domid)] at hpre
    exact hne (backendDir_prefix_iff.mp hpre).1
  unfold firstDirs firstDir
  cases (cfg.backends .vif).head? with
  | none =>
    cases (cfg.backends .vbd).head? with
    | none => exact .nil
    | some b => exact List.pairwise_singleton _ _
  | some b =>
    cases (cfg.backends .vbd).head? with
    | none => exact List.pairwise_singleton _ _
    | some b' => exact List.pairwise_pair.mpr (hapart b b')

/-- With memory at hand the last reference is dropped only if the guests are spared. -/
theorem wp_putServedDomain_spares (hback : domain.backState = cfg.placed) (hq : Quiet w.shared)
    (hd : w.shared.root.children.Distinct)
    (hthere : ∀ p ∈ firstDirs cfg domain.domid, (w.shared.root.node p).isSome)
    (hmem : false ∉ w.shared.allocs) :
    wp (putServedDomain domain) (fun r _ => r = none →
      Spared (linkedWatches w.shared) (firstDirs cfg domain.domid) w.shared.root)
      (fun _ => True) w := by
  unfold putServedDomain
  refine wp_ite (fun _ => ?_) (fun _ => nofun)
  rw [wp_bind]
  refine wp_onShared ((wp_xsRemoveXenstoreBackends hback).mpr ?_)
  refine wp_conseq (wp_removeAll_read _ removable_firstDirs (apart_firstDirs cfg domain.domid) hq
    hd hthere hmem) fun _ s₁ hspared => ?_
  exact wp_conseq (wp_trivial _ _) fun _ _ _ _ => hspared

end Returns

section Labelled
variable {cfg : BackendConfiguration} {domid : UInt32} {t : XsEntry}

theorem PermsOk.node {q : List CString} {n : XsNode} (h : PermsOk t) (hn : t.node q = some n) :
    n.perms ≠ [] := by
  obtain ⟨e, he, rfl⟩ := Option.map_eq_some_iff.mp hn
  exact (h.lookup he).1

theorem PermsOk.sheltered (h : PermsOk t) : Sheltered cfg domid t :=
  fun _ _ hn hperms => absurd hperms (h.node hn)

theorem PermsOk.spared {watches : List WatchEntry} (ps : List (List CString)) (h : PermsOk t) :
    Spared watches ps t := by
  induction ps generalizing t with
  | nil => trivial
  | cons p ps ih =>
    refine ⟨fun w _ hmeets => ?_, ih h.remove⟩
    obtain ⟨-, eventPath, -, e, he, hperms⟩ := hmeets
    exact h.node (foundEntry_node he).2 hperms

end Labelled

end Xenlib
