import Xenlib.DeviceSetups

/-!
A `domain_post_create` that fails. The devices before the one that fails are remembered, and their
directories are looked for; what the failing device has written is not.
-/

set_option autoImplicit false

namespace Xenlib

open Keyed Wp

structure FailurePoint where
  kind : DeviceKind
  index : Nat
  step : Nat

/-- The devices before that one are put in place, its own steps before that one succeed, and the
step fails. -/
structure FailsAt (cfg : BackendConfiguration) (domid : UInt32) (f : FailurePoint) (e : Errno)
    (s s' : Shared) : Prop where
  run : ∃ d pre step post s₁, cfg.device? domid f.kind f.index = some d ∧
    d.steps = pre ++ step :: post ∧ pre.length = f.step ∧
    runDevice (setupSteps ((cfg.before f.kind f.index).setups domid) ++ pre) s = .ok (none, s₁) ∧
    runDevice [step] s₁ = .ok (some e, s')

theorem runDevice_stop {step : DeviceStep} {s s' : Shared} {e : Errno} (post : List DeviceStep)
    (h : runDevice [step] s = .ok (some e, s')) :
    runDevice (step :: post) s = .ok (some e, s') := by
  cases step with
  | refuse e' => exact h
  | write w =>
    obtain ⟨rc, s₁, hw, h⟩ := bind_ok_iff.mp h
    refine bind_ok_iff.mpr ⟨rc, s₁, hw, ?_⟩
    cases rc with
    | some e' => exact h
    | none => cases h
  | attempt w =>
    obtain ⟨rc, s₁, -, h⟩ := bind_ok_iff.mp h
    cases h

theorem FailsAt.split {cfg : BackendConfiguration} {domid : UInt32} {f : FailurePoint} {e : Errno}
    {s s' : Shared} (h : FailsAt cfg domid f e s s') :
    ∃ d s₁, cfg.device? domid f.kind f.index = some d ∧
      runDevice (setupSteps ((cfg.before f.kind f.index).setups domid)) s = .ok (none, s₁) ∧
      runDevice d.steps s₁ = .ok (some e, s') := by
  obtain ⟨d, pre, step, post, s₁, hdevice, hsteps, -, hrun, hfail⟩ := h.run
  obtain ⟨s₀, hbefore, hpre⟩ := runDevice_split hrun
  refine ⟨d, s₀, hdevice, hbefore, ?_⟩
  rw [hsteps, runDevice_append hpre]
  exact runDevice_stop post hfail

section Fails
variable {cfg : BackendConfiguration} {domain : ServedDomain} {domid : UInt32}
  {w w' : CreateState}

theorem onShared_ok {α : Type} {x : SrvM α} {a : α} (h : onShared x w = .ok (a, w')) :
    ∃ s, x w.shared = .ok (a, s) ∧ w' = { w with shared := s } := by
  unfold onShared at h
  cases hx : x w.shared with
  | error e =>
    rw [hx] at h
    cases h
  | ok r =>
    rw [hx] at h
    cases h
    exact ⟨_, rfl, rfl⟩

theorem putServedDomain_more {n : BitVec 32} (h : domain.refcount - 1 = n) (hn : n ≠ 0) :
    putServedDomain domain w = .ok (some { domain with refcount := n }, w) := by
  unfold putServedDomain
  rw [h, if_neg hn]
  rfl

theorem putServedDomain_last_none {r : Option ServedDomain}
    (h : putServedDomain domain w = .ok (r, w')) (hlast : domain.refcount - 1 = 0) : r = none := by
  unfold putServedDomain at h
  rw [if_pos hlast] at h
  obtain ⟨_, _, -, h⟩ := bind_ok_iff.mp h
  obtain ⟨_, _, -, h⟩ := bind_ok_iff.mp h
  obtain ⟨_, _, -, h⟩ := bind_ok_iff.mp h
  obtain ⟨_, _, -, h⟩ := bind_ok_iff.mp h
  obtain ⟨_, _, -, h⟩ := bind_ok_iff.mp h
  cases h
  rfl

theorem undoPostCreate_two {e : Errno} (href : domain.refcount = 2) :
    undoPostCreate domain e w =
      (do return (some e, ← putServedDomain { domain with refcount := 1 }) :
        CreateM (Option Errno × Option ServedDomain)) w := by
  have hone : domain.refcount - 1 = 1 := by
    rw [href]
    decide
  have hmore : (1 : BitVec 32) + 1 - 1 = 1 := by decide
  have hnone : (1 : BitVec 32) ≠ 0 := by decide
  have hput := putServedDomain_more (w := w) hone hnone
  have hget : putServedDomain (ServedDomain.getDomain { domain with refcount := 1 }) w =
      .ok (some { domain with refcount := 1 }, w) := putServedDomain_more hmore hnone
  unfold undoPostCreate destroyServedDomain
  simp only [bind, StateT.bind, Except.bind, hput, hget]

theorem setupSteps_append (a b : List DeviceSetup) :
    setupSteps (a ++ b) = setupSteps a ++ setupSteps b := List.flatMap_append

theorem before_setups_vbd (n : Nat) : (cfg.before .vbd n).setups domid =
    setupsFrom (·.configured) (fun disk _ => diskSetup domid disk) 0 (cfg.disks.take n) := by
  rw [BackendConfiguration.setups, BackendConfiguration.before,
    setupsFrom_onlyFirst (fun _ => rfl), setupsFrom_onlyFirst (fun _ => rfl), List.take_zero]
  exact List.append_nil _

theorem before_setups_vif (n : Nat) : (cfg.before .vif n).setups domid =
    setupsFrom (·.configured) (fun disk _ => diskSetup domid disk) 0 cfg.disks ++
      setupsFrom (·.configured) (vifSetup domid) 0 (cfg.vifs.take n) := by
  rw [BackendConfiguration.setups, BackendConfiguration.before,
    setupsFrom_onlyFirst (fun _ => rfl)]

theorem xsAddPvblockXenstore_steps (domid : UInt32) (disk : PvBlockConfiguration) (_ : Nat)
    (hc : disk.configured = true) :
    xsAddPvblockXenstore disk domid = runDevice (diskSetup domid disk).steps := by
  rw [xsAddPvblockXenstore, if_neg (by simp [hc]), diskSetup]
  split
  · rfl
  · rfl

theorem xsAddPvnetXenstore_steps (domid : UInt32) (vif : PvNetConfiguration) (i : Nat)
    (hc : vif.configured = true) :
    xsAddPvnetXenstore vif domid i = runDevice (vifSetup domid vif i).steps := by
  rw [xsAddPvnetXenstore, if_neg (by simp [hc]), vifSetup]

theorem before_placed_vbd (n : Nat) : (cfg.before .vbd n).placed =
    ⟨cfg.vifs.map fun _ => ⟨false, 0⟩,
      placedStates (·.configured) (·.backendDomainId) (cfg.disks.take n) ++
        (cfg.disks.drop n).map fun _ => ⟨false, 0⟩⟩ := by
  rw [BackendConfiguration.before, BackendConfiguration.placed,
    placedStates_onlyFirst (fun _ => rfl), placedStates_onlyFirst (fun _ => rfl)]
  rfl

theorem before_placed_vif (n : Nat) : (cfg.before .vif n).placed =
    ⟨placedStates (·.configured) (·.backendDomainId) (cfg.vifs.take n) ++
        (cfg.vifs.drop n).map fun _ => ⟨false, 0⟩,
      placedStates (·.configured) (·.backendDomainId) cfg.disks⟩ := by
  rw [BackendConfiguration.before, BackendConfiguration.placed,
    placedStates_onlyFirst (fun _ => rfl)]

/-- The domain when the clean-up comes to its last reference. The devices before the failing one
are remembered. -/
def ServedDomain.remembering (domain : ServedDomain) (cfg : BackendConfiguration)
    (f : FailurePoint) : ServedDomain :=
  { domain with refcount := 1, backState := (cfg.before f.kind f.index).placed }

theorem getDomain_two (href : domain.refcount = 1) : domain.getDomain.refcount = 2 := by
  show domain.refcount + 1 = 2
  rw [href]
  decide

theorem getDomain_disks (hfresh : domain.backState = cfg.cleared) :
    domain.getDomain.backState.disks = cfg.disks.map fun _ => ⟨false, 0⟩ := by
  rw [ServedDomain.getDomain, hfresh]
  rfl

theorem getDomain_vifs (hfresh : domain.backState = cfg.cleared) :
    domain.getDomain.backState.vifs = cfg.vifs.map fun _ => ⟨false, 0⟩ := by
  rw [ServedDomain.getDomain, hfresh]
  rfl

theorem domainPostCreate_failed {e : Errno} {gone : Option ServedDomain}
    (hfresh : domain.backState = cfg.cleared) (href : domain.refcount = 1)
    (h : domainPostCreate cfg domain w = .ok ((some e, gone), w')) :
    ∃ f s', FailsAt cfg domain.domid f e w.shared s' := by
  have htwo := getDomain_two href
  have hdisks := getDomain_disks hfresh
  have hvifs := getDomain_vifs hfresh
  unfold domainPostCreate at h
  obtain ⟨⟨rc, disks⟩, w₁, hfirst, h⟩ := bind_ok_iff.mp h
  obtain ⟨s₁, hadd, rfl⟩ := onShared_ok hfirst
  rw [addDisks, hdisks] at hadd
  obtain ⟨hdone, hfail⟩ := addDevices_ok (xsAddPvblockXenstore_steps domain.domid) hadd
  cases rc with
  | some e' =>
    dsimp only at h
    obtain ⟨r, w₂, -, h⟩ := bind_ok_iff.mp ((undoPostCreate_two (by exact htwo)).symm.trans h)
    cases h
    obtain ⟨n, disk, s₂, hn, hc, hbefore, hrun, rfl⟩ := hfail e rfl
    obtain ⟨pre, step, post, s₃, hsteps, hpre, hstep⟩ := runDevice_failed hrun
    refine ⟨⟨.vbd, n, pre.length⟩, s₁, ⟨_, pre, step, post, s₃, ?_, hsteps, rfl, ?_, hstep⟩⟩
    · simp [BackendConfiguration.device?, hn, hc]
    · rw [before_setups_vbd, runDevice_append hbefore]
      exact hpre
  | none =>
    obtain ⟨hrunDisks, rfl⟩ := hdone rfl
    obtain ⟨⟨rc, vifs⟩, w₂, hsecond, h⟩ := bind_ok_iff.mp h
    obtain ⟨s₂, hadd', rfl⟩ := onShared_ok hsecond
    simp only [addVifs, hvifs] at hadd'
    obtain ⟨-, hfail⟩ := addDevices_ok (xsAddPvnetXenstore_steps domain.domid) hadd'
    cases rc with
    | none =>
      obtain ⟨r, w₃, -, h⟩ := bind_ok_iff.mp h
      cases h
    | some e' =>
      dsimp only at h
      obtain ⟨r, w₃, -, h⟩ := bind_ok_iff.mp ((undoPostCreate_two (by exact htwo)).symm.trans h)
      cases h
      obtain ⟨n, vif, s₃, hn, hc, hbefore, hrun, rfl⟩ := hfail e rfl
      obtain ⟨pre, step, post, s₄, hsteps, hpre, hstep⟩ := runDevice_failed hrun
      refine ⟨⟨.vif, n, pre.length⟩, s₂, ⟨_, pre, step, post, s₄, ?_, hsteps, rfl, ?_, hstep⟩⟩
      · rw [Nat.zero_add]
        simp [BackendConfiguration.device?, hn, hc]
      · rw [before_setups_vif, setupSteps_append, List.append_assoc, runDevice_append hrunDisks,
          runDevice_append hbefore]
        exact hpre

theorem domainPostCreate_fails {f : FailurePoint} {e : Errno} {s' : Shared}
    (hfresh : domain.backState = cfg.cleared) (href : domain.refcount = 1)
    (h : FailsAt cfg domain.domid f e w.shared s') :
    domainPostCreate cfg domain w =
      (do return (some e, ← putServedDomain (domain.remembering cfg f)) :
        CreateM (Option Errno × Option ServedDomain)) { w with shared := s' } := by
  obtain ⟨d, s₁, hdevice, hbefore, hrun⟩ := h.split
  obtain ⟨kind, n, step⟩ := f
  have htwo := getDomain_two href
  have hdisks := getDomain_disks hfresh
  have hvifs := getDomain_vifs hfresh
  unfold domainPostCreate
  cases kind with
  | vbd =>
    obtain ⟨disk, hfilter, rfl⟩ := Option.map_eq_some_iff.mp hdevice
    obtain ⟨hn, hc⟩ := Option.filter_eq_some_iff.mp hfilter
    rw [before_setups_vbd] at hbefore
    have hadd : addDisks cfg domain.getDomain w.shared =
        .ok ((some e, (cfg.before .vbd n).placed.disks), s') := by
      rw [addDisks, hdisks, before_placed_vbd]
      exact addDevices_stopped (xsAddPvblockXenstore_steps domain.domid) hn hc hbefore hrun
    simp only [bind, StateT.bind, Except.bind, onShared, hadd]
    refine (undoPostCreate_two (by exact htwo)).trans ?_
    rw [ServedDomain.remembering, hvifs, before_placed_vbd]
    rfl
  | vif =>
    obtain ⟨vif, hfilter, rfl⟩ := Option.map_eq_some_iff.mp hdevice
    obtain ⟨hn, hc⟩ := Option.filter_eq_some_iff.mp hfilter
    rw [before_setups_vif, setupSteps_append] at hbefore
    obtain ⟨s₀, hblock, hnet⟩ := runDevice_split hbefore
    have hadd : addDisks cfg domain.getDomain w.shared =
        .ok ((none, (cfg.before .vif n).placed.disks), s₀) := by
      rw [addDisks, hdisks]
      exact addDevices_placed (xsAddPvblockXenstore_steps domain.domid) hblock
    have hadd' (disks : List BackendState) : addVifs cfg { domain.getDomain with
        backState := { domain.getDomain.backState with disks := disks } } s₀ =
        .ok ((some e, (cfg.before .vif n).placed.vifs), s') := by
      rw [addVifs, before_placed_vif]
      simp only [hvifs]
      refine addDevices_stopped (xsAddPvnetXenstore_steps domain.domid) hn hc hnet ?_
      rw [Nat.zero_add]
      exact hrun
    simp only [bind, StateT.bind, Except.bind, onShared, hadd, hadd']
    exact undoPostCreate_two (by exact htwo)

end Fails

/-- The directory of the domain below the backend has been made when the failure comes: by a
device before the one that fails, or by that one, which has got past the step that makes it. -/
def FailurePoint.Made (cfg : BackendConfiguration) (domid : UInt32) (f : FailurePoint)
    (kind : DeviceKind) (b : UInt32) : Prop :=
  b ∈ (cfg.before f.kind f.index).backends kind ∨
    (kind = f.kind ∧ dirStep kind < f.step ∧
      (cfg.device? domid f.kind f.index).map DeviceSetup.backend = some b)

/-- Every directory that has been made is that of the first device of its kind before the failing
one, or the domain serves the device itself, or it owned a node on the way from the start. -/
def FailurePoint.Covered (cfg : BackendConfiguration) (domid : UInt32) (root : XsEntry)
    (f : FailurePoint) : Prop :=
  ∀ kind b, f.Made cfg domid kind b →
    BackendReached (cfg.before f.kind f.index) domid root kind b

/-- No backend has a directory for the domain, and the domain has none itself. -/
def LeftNothing (domid : UInt32) (root : XsEntry) : Prop :=
  NoBackends domid root ∧ ∀ q, localDomainDir domid <+: q → root.lookup q = none

section Made
variable {cfg : BackendConfiguration} {domid : UInt32} {f : FailurePoint} {kind : DeviceKind}
  {b : UInt32} {d : DeviceSetup}

theorem setups_ok (cfg : BackendConfiguration) (domid : UInt32) :
    ∀ d ∈ cfg.setups domid, SetupOk domid d := by
  intro d hd
  rcases List.mem_append.mp hd with hd | hd
  · obtain ⟨disk, i, -, rfl⟩ := mem_setupsFrom hd
    exact setupOk_disk domid disk
  · obtain ⟨vif, i, -, rfl⟩ := mem_setupsFrom hd
    exact setupOk_vif domid vif i

theorem diskSetups_backends (cfg : BackendConfiguration) (domid : UInt32) :
    (setupsFrom (·.configured) (fun disk _ => diskSetup domid disk) 0 cfg.disks).map
      DeviceSetup.backend = cfg.backends .vbd := by
  refine @setupsFrom_backends _ _ (·.backendDomainId) _ ?_ 0 cfg.disks
  exact fun _ _ => rfl

theorem vifSetups_backends (cfg : BackendConfiguration) (domid : UInt32) :
    (setupsFrom (·.configured) (vifSetup domid) 0 cfg.vifs).map DeviceSetup.backend =
      cfg.backends .vif := by
  refine @setupsFrom_backends _ _ (·.backendDomainId) _ ?_ 0 cfg.vifs
  exact fun _ _ => rfl

theorem exists_setup (h : b ∈ cfg.backends kind) :
    ∃ d ∈ cfg.setups domid, d.kind = kind ∧ d.backend = b := by
  cases kind with
  | vbd =>
    rw [← diskSetups_backends cfg domid] at h
    obtain ⟨d, hd, rfl⟩ := List.mem_map.mp h
    refine ⟨d, List.mem_append_left _ hd, ?_, rfl⟩
    obtain ⟨disk, i, -, rfl⟩ := mem_setupsFrom hd
    rfl
  | vif =>
    rw [← vifSetups_backends cfg domid] at h
    obtain ⟨d, hd, rfl⟩ := List.mem_map.mp h
    refine ⟨d, List.mem_append_right _ hd, ?_, rfl⟩
    obtain ⟨vif, i, -, rfl⟩ := mem_setupsFrom hd
    rfl

theorem setup_backend (h : d ∈ cfg.setups domid) : d.backend ∈ cfg.backends d.kind := by
  rcases List.mem_append.mp h with h | h
  · have hkind : d.kind = .vbd := by
      obtain ⟨disk, i, -, rfl⟩ := mem_setupsFrom h
      rfl
    rw [hkind, ← diskSetups_backends cfg domid]
    exact List.mem_map_of_mem h
  · have hkind : d.kind = .vif := by
      obtain ⟨vif, i, -, rfl⟩ := mem_setupsFrom h
      rfl
    rw [hkind, ← vifSetups_backends cfg domid]
    exact List.mem_map_of_mem h

theorem mem_configuredBackends {C : Type} {configured : C → Bool} {backendDomainId : C → UInt32}
    {cfgs : List C} : b ∈ configuredBackends configured backendDomainId cfgs ↔
      ∃ cfg ∈ cfgs, configured cfg = true ∧ backendDomainId cfg = b := by
  simp [configuredBackends, and_assoc]

theorem mem_of_mem_onlyFirst {C : Type} {configured : C → Bool} {backendDomainId : C → UInt32}
    {off : C → C} (hoff : ∀ cfg, configured (off cfg) = false) {n : Nat} {cfgs : List C}
    (h : b ∈ configuredBackends configured backendDomainId (onlyFirst off n cfgs)) :
    b ∈ configuredBackends configured backendDomainId cfgs := by
  obtain ⟨c, hc, hconf, rfl⟩ := mem_configuredBackends.mp h
  rcases List.mem_append.mp hc with hc | hc
  · exact mem_configuredBackends.mpr ⟨c, List.mem_of_mem_take hc, hconf, rfl⟩
  · obtain ⟨c', -, rfl⟩ := List.mem_map.mp hc
    rw [hoff] at hconf
    cases hconf

theorem before_backends {n : Nat} {kind' : DeviceKind}
    (h : b ∈ (cfg.before kind' n).backends kind) : b ∈ cfg.backends kind := by
  cases kind' with
  | vbd =>
    cases kind with
    | vbd => exact mem_of_mem_onlyFirst (fun _ => rfl) h
    | vif => exact mem_of_mem_onlyFirst (fun _ => rfl) h
  | vif =>
    cases kind with
    | vbd => exact h
    | vif => exact mem_of_mem_onlyFirst (fun _ => rfl) h

theorem device?_ok {n : Nat} (h : cfg.device? domid kind n = some d) :
    d.kind = kind ∧ SetupOk domid d ∧ d.backend ∈ cfg.backends kind := by
  cases kind with
  | vbd =>
    obtain ⟨disk, hdisk, rfl⟩ := Option.map_eq_some_iff.mp h
    obtain ⟨hmem, hconf⟩ := Option.filter_eq_some_iff.mp hdisk
    exact ⟨rfl, setupOk_disk domid disk,
      mem_configuredBackends.mpr ⟨disk, List.mem_of_getElem? hmem, hconf, rfl⟩⟩
  | vif =>
    obtain ⟨vif, hvif, rfl⟩ := Option.map_eq_some_iff.mp h
    obtain ⟨hmem, hconf⟩ := Option.filter_eq_some_iff.mp hvif
    exact ⟨rfl, setupOk_vif domid vif n,
      mem_configuredBackends.mpr ⟨vif, List.mem_of_getElem? hmem, hconf, rfl⟩⟩

theorem SetupOk.path {st : DeviceStep} {w : DeviceWrite} (h : SetupOk domid d) (hst : st ∈ d.steps)
    (hw : st.write? = some w) : DevicePath domid (ServedBy d.kind d.backend) w.path :=
  h.fits st hst _ (DeviceStep.path?_of_write? hw)

theorem FailurePoint.Made.configured (h : f.Made cfg domid kind b) : b ∈ cfg.backends kind := by
  rcases h with h | ⟨rfl, -, h⟩
  · exact before_backends h
  · obtain ⟨d, hd, rfl⟩ := Option.map_eq_some_iff.mp h
    exact (device?_ok hd).2.2

end Made

section Failure
variable {cfg : BackendConfiguration} {domid : UInt32} {f : FailurePoint} {e : Errno}
  {s s' : Shared}

/-- What the store looks like when the failure comes. -/
structure AtFailure (cfg : BackendConfiguration) (domid : UInt32) (f : FailurePoint)
    (t t' : XsEntry) : Prop where
  distinct : t'.children.Distinct
  /-- A directory that is there has been made, or it has no permissions. -/
  dirs : ∀ kind b n, t'.node (backendDir kind b domid) = some n →
    f.Made cfg domid kind b ∨ n.perms = []
  made : ∀ kind b, f.Made cfg domid kind b → (t'.node (backendDir kind b domid)).isSome
  kept : ∀ q n, t.node q = some n → ∃ n', t'.node q = some n' ∧ n'.perms = n.perms
  owner : ∀ b q n', b ≠ domid → localDomainDir b <+: q → t.node q = none →
    t'.node q = some n' → n'.perms = [] ∨ n'.perms.head?.map XsPermEntry.domid = some 0 ∨
      n'.perms.head?.map XsPermEntry.domid = some b.toUInt16

theorem FailsAt.atFailure (h : FailsAt cfg domid f e s s') (hd : s.root.children.Distinct)
    (hclean : NoBackends domid s.root) : AtFailure cfg domid f s.root s'.root := by
  obtain ⟨d, pre, step, post, s₁, hdevice, hsteps, hlen, hrun, hfail⟩ := h.run
  obtain ⟨hkind, hok, -⟩ := device?_ok hdevice
  have hbefore := setups_ok (cfg.before f.kind f.index) domid
  -- Every step belongs to a device before the failing one, or to that one.
  have hof : ∀ st ∈ setupSteps ((cfg.before f.kind f.index).setups domid) ++ pre,
      ∃ d', SetupOk domid d' ∧ st ∈ d'.steps ∧
        (d' ∈ (cfg.before f.kind f.index).setups domid ∨ d' = d ∧ st ∈ pre) := by
    intro st hst
    rcases List.mem_append.mp hst with hst | hst
    · obtain ⟨d', hd', hst⟩ := List.mem_flatMap.mp hst
      exact ⟨d', hbefore d' hd', hst, Or.inl hd'⟩
    · refine ⟨d, hok, ?_, Or.inr ⟨rfl, hst⟩⟩
      rw [hsteps]
      exact List.mem_append_left _ hst
  have hstep : step ∈ d.steps := by
    rw [hsteps]
    simp
  have hpaths : WritesPaths (setupSteps ((cfg.before f.kind f.index).setups domid) ++ pre) := by
    intro st hst w hw
    obtain ⟨d', hok', hst', -⟩ := hof st hst
    exact ⟨(hok'.path hst' hw).components, (hok'.path hst' hw).ne_nil⟩
  have hpath : WritesPaths [step] := by
    intro st hst w hw
    rw [List.mem_singleton.mp hst] at hw
    exact ⟨(hok.path hstep hw).components, (hok.path hstep hw).ne_nil⟩
  obtain ⟨htrack, hwritten⟩ := wp_ok (wp_runDevice_tracked _ hpaths hd) hrun
  have hwritten := hwritten rfl
  have hlast := (wp_ok (wp_runDevice_tracked [step] hpath htrack.distinct) hfail).1
  have hbare := failed_step_bare hpath htrack.distinct hfail
  have hall := htrack.trans hlast
  refine ⟨hall.distinct, fun kind b n hn => ?_, fun kind b hm => ?_, hall.kept,
    fun b q n' hb hpre hq hn' => ?_⟩
  · cases hn₁ : s₁.root.node (backendDir kind b domid) with
    | none => exact Or.inr (hbare _ n hn₁ hn)
    | some n₁ =>
      obtain ⟨st, hst, w, hw, hpre, -⟩ :=
        htrack.added _ n₁ (lookup_eq_none_iff.mp (hclean kind b)) hn₁
      obtain ⟨d', hok', hst', hor⟩ := hof st hst
      obtain ⟨rfl, rfl⟩ := (hok'.path hst' hw).dirs kind b hpre
      rcases hor with hd' | ⟨rfl, hstpre⟩
      · exact Or.inl (Or.inl (setup_backend hd'))
      · refine Or.inl (Or.inr ⟨hkind, ?_, by rw [hdevice]; rfl⟩)
        by_contra hle
        refine hok'.early st ?_ w hw hpre
        rw [hsteps, List.take_append, List.take_of_length_le (by omega)]
        exact List.mem_append_left _ hstpre
  · have hthere : (s₁.root.node (backendDir kind b domid)).isSome := by
      rcases hm with hb | ⟨rfl, hlt, hback⟩
      · obtain ⟨d', hd', rfl, rfl⟩ := exists_setup hb
        have hlong : dirStep d'.kind < d'.steps.length := by
          by_contra hshort
          obtain ⟨e', he'⟩ := (hbefore d' hd').short (by omega)
          exact runDevice_not_refused hrun
            (List.mem_append_left _ (List.mem_flatMap.mpr ⟨d', hd', he'⟩))
        obtain ⟨call, hget⟩ := (hbefore d' hd').dir hlong
        exact hwritten _ (List.mem_append_left _
          (List.mem_flatMap.mpr ⟨d', hd', List.mem_of_getElem? hget⟩))
      · rw [hdevice] at hback
        cases hback
        rw [← hkind] at hlt ⊢
        obtain ⟨call, hget⟩ := hok.dir (by rw [hsteps, List.length_append]; omega)
        rw [hsteps, List.getElem?_append_left (by omega)] at hget
        exact hwritten _ (List.mem_append_right _ (List.mem_of_getElem? hget))
    obtain ⟨n, hn⟩ := Option.isSome_iff_exists.mp hthere
    obtain ⟨n', hn', -⟩ := hlast.kept _ n hn
    rw [hn']
    rfl
  · obtain ⟨st, hst, w, hw, hway, hperms⟩ := hall.added q n' hq hn'
    refine hperms.imp id fun hcall => ?_
    rw [hcall]
    rcases List.mem_append.mp hst with hst | hst
    · obtain ⟨d', hok', hst', -⟩ := hof st hst
      exact (hok'.places st hst' w hw).owner hb (hpre.trans hway)
    · rw [List.mem_singleton.mp hst] at hw
      exact (hok.places step hstep w hw).owner hb (hpre.trans hway)

theorem localDomainDir_prefix {kind : DeviceKind} {b domid : UInt32} :
    localDomainDir b <+: backendDir kind b domid := List.prefix_append _ _

section Owners
variable {t t' : XsEntry} (h : AtFailure cfg domid f t t')
include h

theorem AtFailure.kept_owner {r : List CString} {m : XsNode} (hr : t.node r = some m) :
    ∃ m', t'.node r = some m' ∧ isOwner m' domid = isOwner m domid := by
  obtain ⟨m', hm', hperms⟩ := h.kept r m hr
  exact ⟨m', hm', by rw [isOwner, isOwner, hperms]⟩

theorem AtFailure.owned_before {kind : DeviceKind} {b : UInt32}
    (hlocal : (t.lookup [cstr "local", cstr "domain"]).isSome) (hid : domid ≠ 0)
    (hids : b.toUInt16.toUInt32 = domid → b = domid) (hb : b ≠ domid)
    (hway : OwnsWay domid t' (backendDir kind b domid)) :
    OwnsWay domid t (backendDir kind b domid) := by
  obtain ⟨r, m, hne, hpre, hr, howner⟩ := hway
  cases hr₀ : t.node r with
  | some n =>
    obtain ⟨n', hn', heq⟩ := h.kept_owner hr₀
    rw [hr] at hn'
    cases hn'
    exact ⟨r, n, hne, hpre, hr₀, heq ▸ howner⟩
  | none =>
    have hdir : localDomainDir b <+: backendDir kind b domid := localDomainDir_prefix
    -- A node that is new lies below the directory of the backend's domain.
    have hlong : 2 < r.length := by
      by_contra hshort
      have htop : [cstr "local", cstr "domain"] <+: backendDir kind b domid :=
        List.IsPrefix.trans ⟨[decimalInt b], rfl⟩ hdir
      obtain ⟨rest, heq⟩ := List.prefix_of_prefix_length_le hpre htop (Nat.le_of_not_lt hshort)
      rw [← heq] at hlocal
      have hsome := Tree.lookup_isSome_of_append hlocal
      rw [lookup_eq_none_iff.mpr hr₀] at hsome
      cases hsome
    have hbelow := List.prefix_of_prefix_length_le hdir hpre hlong
    unfold isOwner at howner
    rcases h.owner b r m hb hbelow hr₀ hr with hperms | hperms | hperms
    · rw [hperms] at howner
      cases howner
    · obtain ⟨p, hp, hzero⟩ := Option.map_eq_some_iff.mp hperms
      rw [hp, Option.any_some, hzero, decide_eq_true_eq] at howner
      exact absurd howner.symm hid
    · obtain ⟨p, hp, hsame⟩ := Option.map_eq_some_iff.mp hperms
      rw [hp, Option.any_some, hsame, decide_eq_true_eq] at howner
      exact absurd (hids howner) hb

end Owners

end Failure

/-- The call returns the error, the domain is gone, and nothing is left of it. -/
def FailsClean (cfg : BackendConfiguration) (domain : ServedDomain) (e : Errno) (w : CreateState) :
    Prop :=
  ∃ w', domainPostCreate cfg domain w = .ok ((some e, none), w') ∧
    LeftNothing domain.domid w'.shared.root

section Clean
variable {cfg : BackendConfiguration} {domain : ServedDomain} {w : CreateState}
  {f : FailurePoint} {e : Errno} {s' : Shared}

theorem failsClean_iff (hfresh : domain.backState = cfg.cleared) (href : domain.refcount = 1)
    (h : FailsAt cfg domain.domid f e w.shared s') :
    FailsClean cfg domain e w ↔
      ∃ w', putServedDomain (domain.remembering cfg f) { w with shared := s' } = .ok (none, w') ∧
        LeftNothing domain.domid w'.shared.root := by
  unfold FailsClean
  rw [domainPostCreate_fails hfresh href h]
  constructor
  · rintro ⟨w', hrun, hleft⟩
    obtain ⟨r, w₂, hput, hret⟩ := bind_ok_iff.mp hrun
    cases hret
    exact ⟨w', hput, hleft⟩
  · rintro ⟨w', hput, hleft⟩
    exact ⟨w', bind_ok_iff.mpr ⟨none, w', hput, rfl⟩, hleft⟩

theorem FailsAt.undisturbed (h : FailsAt cfg domain.domid f e w.shared s')
    (hq : Quiet w.shared) : Undisturbed w.shared s' := by
  obtain ⟨d, s₁, -, hbefore, hrun⟩ := h.split
  have hstays {steps : List DeviceStep} {s s' : Shared} {rc : Option Errno} (hq : Quiet s)
      (hrun : runDevice steps s = .ok (rc, s')) : Undisturbed s s' :=
    wp_ok (Q := fun _ s' => Undisturbed s s') (wp_runDevice_undisturbed steps hq) hrun
  have hfirst := hstays hq hbefore
  exact hfirst.trans (hstays (hq.undisturbed hfirst) hrun)

/-- What the clean-up leaves of the domain when it does not reach a directory is that directory. -/
theorem TornDown.covered {s'' : Shared}
    (h : TornDown (cfg.before f.kind f.index) domain.domid s' s'')
    (hat : AtFailure cfg domain.domid f w.shared.root s'.root)
    (hlocal : (w.shared.root.lookup [cstr "local", cstr "domain"]).isSome)
    (hid : domain.domid ≠ 0)
    (hids : ∀ kind, ∀ b ∈ cfg.backends kind, b.toUInt16.toUInt32 = domain.domid →
      b = domain.domid)
    (hleft : LeftNothing domain.domid s''.root) :
    f.Covered cfg domain.domid w.shared.root := by
  intro kind b hm
  by_contra hnot
  have hstill := h.survives (hat.made kind b hm) fun hreached => hnot ?_
  · rw [lookup_eq_none_iff.mp (hleft.1 kind b)] at hstill
    cases hstill
  · by_cases hb : b = domain.domid
    · exact Or.inr (Or.inl hb)
    · rcases hreached with hhead | hself | hway
      · exact Or.inl hhead
      · exact absurd hself hb
      · exact Or.inr (Or.inr (hat.owned_before hlocal hid (hids kind b hm.configured) hb hway))

/-- Where it reaches all directories and finds memory nothing is left. -/
theorem TornDown.leftNothing {s'' : Shared}
    (h : TornDown (cfg.before f.kind f.index) domain.domid s' s'')
    (hat : AtFailure cfg domain.domid f w.shared.root s'.root)
    (hcovered : f.Covered cfg domain.domid w.shared.root)
    (hbare : Sheltered (cfg.before f.kind f.index) domain.domid s'.root)
    (haff : TeardownAfforded (cfg.before f.kind f.index) domain.domid s') :
    LeftNothing domain.domid s''.root := by
  refine ⟨fun kind b => ?_, fun q hpre => lookup_eq_none_iff.mpr (h.own haff q hpre)⟩
  rw [lookup_eq_none_iff]
  cases hn : s'.root.node (backendDir kind b domain.domid) with
  | none => exact h.absent hn
  | some n =>
    refine h.gone haff ?_
    rcases hat.dirs kind b n hn with hm | hperms
    · rcases hcovered kind b hm with hhead | hself | ⟨r, m, hr, hpre, hrm, howner⟩
      · exact Or.inl hhead
      · exact Or.inr (Or.inl hself)
      · obtain ⟨m', hm', heq⟩ := hat.kept_owner hrm
        exact Or.inr (Or.inr ⟨r, m', hr, hpre, hm', heq.trans howner⟩)
    · rcases hbare _ n hn hperms with ⟨p, hp, hpre⟩ | hway
      · obtain ⟨kind', b', hhead, rfl⟩ := mem_firstDirs.mp hp
        rw [← List.append_nil (backendDir kind b domain.domid)] at hpre
        obtain ⟨rfl, rfl⟩ := backendDir_prefix_iff.mp hpre
        exact Or.inl hhead
      · exact Or.inr (Or.inr hway)

theorem Held.remembering (h : Held domain w) (hu : Undisturbed w.shared s') :
    Held (domain.remembering cfg f) { w with shared := s' } := by
  refine ⟨?_, ?_⟩
  · show _ < s'.domuMax ∧ bitSet s'.usedThreads _ = true
    rw [hu.domuMax, hu.usedThreads]
    exact h.store
  · show _ < s'.domuMax ∧ _
    rw [hu.domuMax]
    exact h.console

section Teardown
variable (hwf : WellFormed w.shared.root) (hclean : NoBackends domain.domid w.shared.root)
  (hfresh : domain.backState = cfg.cleared) (href : domain.refcount = 1)
  (hfails : FailsAt cfg domain.domid f e w.shared s')

include hwf hclean hfresh href hfails

theorem FailsClean.reached
    (hlocal : (w.shared.root.lookup [cstr "local", cstr "domain"]).isSome) (hid : domain.domid ≠ 0)
    (hids : ∀ kind, ∀ b ∈ cfg.backends kind, b.toUInt16.toUInt32 = domain.domid →
      b = domain.domid) (h : FailsClean cfg domain e w) :
    f.Covered cfg domain.domid w.shared.root ∧
      Sheltered (cfg.before f.kind f.index) domain.domid s'.root := by
  have hat := hfails.atFailure hwf.distinct hclean
  obtain ⟨n, hn, hperms⟩ := hat.kept [] w.shared.root.label rfl
  have hroot : s'.root.label.perms ≠ [] := by
    cases hn
    rw [hperms]
    exact hwf.rootPerms
  obtain ⟨w', hput, hleft⟩ := (failsClean_iff hfresh href hfails).mp h
  have hdown := wp_ok (@wp_putServedDomain_last _ (domain.remembering cfg f)
    { w with shared := s' } rfl hat.distinct) hput rfl
  exact ⟨hdown.covered hat hlocal hid hids hleft, hdown.sheltered hroot⟩

theorem failsClean_of (hquiet : Quiet w.shared) (hheld : Held domain w)
    (hcovered : f.Covered cfg domain.domid w.shared.root)
    (hbare : Sheltered (cfg.before f.kind f.index) domain.domid s'.root)
    (hspared : Spared (linkedWatches s') (firstDirs (cfg.before f.kind f.index) domain.domid)
      s'.root)
    (haff : TeardownAfforded (cfg.before f.kind f.index) domain.domid s') :
    FailsClean cfg domain e w := by
  have hat := hfails.atFailure hwf.distinct hclean
  have hu := hfails.undisturbed hquiet
  have hlast : (1 : BitVec 32) - 1 = 0 := by decide
  obtain ⟨r, w', hput, rfl⟩ := wp_total (@wp_putServedDomain_returns _
    (domain.remembering cfg f) { w with shared := s' } rfl hlast (hheld.remembering hu)
    (hquiet.undisturbed hu) hat.distinct hbare hspared (afforded_left haff))
  have hdown := wp_ok (@wp_putServedDomain_last _ (domain.remembering cfg f)
    { w with shared := s' } rfl hat.distinct) hput rfl
  exact (failsClean_iff hfresh href hfails).mpr
    ⟨w', hput, hdown.leftNothing hat hcovered hbare haff⟩

theorem FailsClean.spared (hquiet : Quiet w.shared) (hmem : false ∉ s'.allocs)
    (h : FailsClean cfg domain e w) :
    Spared (linkedWatches s') (firstDirs (cfg.before f.kind f.index) domain.domid) s'.root := by
  have hat := hfails.atFailure hwf.distinct hclean
  obtain ⟨w', hput, -⟩ := (failsClean_iff hfresh href hfails).mp h
  refine wp_ok (@wp_putServedDomain_spares _ (domain.remembering cfg f)
    { w with shared := s' } rfl (hquiet.undisturbed (hfails.undisturbed hquiet)) hat.distinct
    (fun p hp => ?_) hmem) hput rfl
  obtain ⟨kind, b, hhead, rfl⟩ := mem_firstDirs.mp hp
  exact hat.made kind b (Or.inl (List.mem_of_mem_head? hhead))

end Teardown

end Clean

/-- A failed `domain_post_create` returns and leaves nothing behind only if every directory that
has been made is one that the clean-up reaches, and no node without permissions is in its way.
Where it finds memory and tells no guest of such a node, it does so whenever that is so. -/
theorem failed_post_create_clean (cfg : BackendConfiguration) (domain : ServedDomain)
    (w : CreateState) (hwf : WellFormed w.shared.root) (hquiet : Quiet w.shared)
    (hheld : Held domain w)
    (hlocal : (w.shared.root.lookup [cstr "local", cstr "domain"]).isSome)
    (hclean : NoBackends domain.domid w.shared.root) (hfresh : domain.backState = cfg.cleared)
    (href : domain.refcount = 1) (hid : domain.domid ≠ 0)
    (hids : ∀ kind, ∀ b ∈ cfg.backends kind, b.toUInt16.toUInt32 = domain.domid →
      b = domain.domid) :
    (∀ e gone w', domainPostCreate cfg domain w = .ok ((some e, gone), w') →
      gone = none ∧ ∃ f s', FailsAt cfg domain.domid f e w.shared s') ∧
    ∀ f e s', FailsAt cfg domain.domid f e w.shared s' →
      (FailsClean cfg domain e w → f.Covered cfg domain.domid w.shared.root ∧
        Sheltered (cfg.before f.kind f.index) domain.domid s'.root) ∧
      (f.Covered cfg domain.domid w.shared.root →
        Sheltered (cfg.before f.kind f.index) domain.domid s'.root →
        Spared (linkedWatches s') (firstDirs (cfg.before f.kind f.index) domain.domid) s'.root →
        TeardownAfforded (cfg.before f.kind f.index) domain.domid s' →
        FailsClean cfg domain e w) ∧
      (false ∉ s'.allocs → (FailsClean cfg domain e w ↔
        f.Covered cfg domain.domid w.shared.root ∧
        Sheltered (cfg.before f.kind f.index) domain.domid s'.root ∧
        Spared (linkedWatches s') (firstDirs (cfg.before f.kind f.index) domain.domid)
          s'.root)) := by
  refine ⟨fun e gone w' hrun => ?_, fun f e s' hfails => ?_⟩
  · obtain ⟨f, s', hfails⟩ := domainPostCreate_failed hfresh href hrun
    rw [domainPostCreate_fails hfresh href hfails] at hrun
    obtain ⟨r, w₂, hput, hret⟩ := bind_ok_iff.mp hrun
    cases hret
    have hlast : (1 : BitVec 32) - 1 = 0 := by decide
    exact ⟨putServedDomain_last_none hput hlast, f, s', hfails⟩
  · have hneeds := FailsClean.reached hwf hclean hfresh href hfails hlocal hid hids
    have hdoes := failsClean_of hwf hclean hfresh href hfails hquiet hheld
    refine ⟨hneeds, hdoes, fun hmem => ⟨fun hfc => ?_, fun h => ?_⟩⟩
    · obtain ⟨hcovered, hbare⟩ := hneeds hfc
      exact ⟨hcovered, hbare, hfc.spared hwf hclean hfresh href hfails hquiet hmem⟩
    · exact hdoes h.1 h.2.1 h.2.2 (afforded_of_granted _ (removable_teardown _ _) hmem)

/-- Domain 1 and the new domain 3 have their directories. -/
def twoDomains : CreateState :=
  { noNodes with shared := { noNodes.shared with
      root := ⟨⟨none, [⟨0, .none⟩]⟩,
        .cons (cstr "local") ⟨none, [⟨0, .none⟩]⟩
          (.cons (cstr "domain") ⟨none, [⟨0, .none⟩]⟩
            (.cons (cstr "1") ⟨none, [⟨1, .none⟩]⟩ .nil
              (.cons (cstr "3") ⟨none, [⟨3, .none⟩]⟩ .nil .nil)) .nil) .nil⟩ } }

theorem twoDomains_wellFormed : WellFormed twoDomains.shared.root :=
  ⟨by decide, by decide, by decide⟩

theorem twoDomains_noBackends : NoBackends 3 twoDomains.shared.root := by
  intro kind b
  have hdomains : twoDomains.shared.root.lookup [cstr "local", cstr "domain"] =
      some ⟨⟨none, [⟨0, .none⟩]⟩, .cons (cstr "1") ⟨none, [⟨1, .none⟩]⟩ .nil
        (.cons (cstr "3") ⟨none, [⟨3, .none⟩]⟩ .nil .nil)⟩ := by decide
  have hsplit : backendDir kind b 3 = [cstr "local", cstr "domain"] ++
      (decimalInt b :: [cstr "backend", kind.text, decimalInt 3]) := rfl
  rw [hsplit, Tree.lookup_append, hdomains, Option.bind_some, Tree.lookup_cons]
  unfold Forest.find?
  split
  · rfl
  · unfold Forest.find?
    split
    · rfl
    · rfl

/-- An interface that domain 1 serves. -/
def vifOf (mac : CString) : PvNetConfiguration :=
  ⟨true, 1, [], mac, cstr "xenbr0", cstr "vif", []⟩

/-- The second interface lacks its MAC. -/
def vifs (mac : CString) : BackendConfiguration := ⟨[vifOf mac, vifOf []], []⟩

def failedPostCreate (cfg : BackendConfiguration) :
    Option (Errno × Option ServedDomain × CreateState) :=
  match domainPostCreate cfg servedDomain twoDomains with
  | .ok ((some e, gone), w') => some (e, gone, w')
  | _ => none

theorem failedPostCreate_spec {cfg : BackendConfiguration} {e : Errno}
    {gone : Option ServedDomain} {w' : CreateState}
    (h : failedPostCreate cfg = some (e, gone, w')) :
    domainPostCreate cfg servedDomain twoDomains = .ok ((some e, gone), w') := by
  unfold failedPostCreate at h
  split at h
  · rename_i hrun
    cases h
    exact hrun
  · cases h

/-- The first interface lacks its MAC, which is found out after twenty writes. -/
theorem failing_device_left :
    ¬ ∀ (cfg : BackendConfiguration) (domain : ServedDomain) (w w' : CreateState) (e : Errno)
      (gone : Option ServedDomain), WellFormed w.shared.root →
      (w.shared.root.lookup [cstr "local", cstr "domain"]).isSome →
      NoBackends domain.domid w.shared.root → domain.backState = cfg.cleared →
      domain.refcount = 1 → w.shared.allocs = [] →
      domainPostCreate cfg domain w = .ok ((some e, gone), w') →
      LeftNothing domain.domid w'.shared.root := by
  intro h
  have hrun : (failedPostCreate (vifs [])).any (fun r =>
      (r.2.2.shared.root.lookup (backendDir .vif 1 3)).isSome) = true := by decide +kernel
  obtain ⟨⟨e, gone, w'⟩, hsome, hleft⟩ := (Option.any_eq_true _ _).mp hrun
  have hnone := (h (vifs []) servedDomain twoDomains w' e gone twoDomains_wellFormed rfl
    twoDomains_noBackends rfl rfl rfl (failedPostCreate_spec hsome)).1 .vif 1
  rw [show servedDomain.domid = 3 from rfl] at hnone
  rw [hnone] at hleft
  cases hleft

def stepsState (steps : List DeviceStep) (s : Shared) : Option Shared :=
  match runDevice steps s with
  | .ok (none, s') => some s'
  | _ => none

theorem stepsState_spec {steps : List DeviceStep} {s s' : Shared}
    (h : stepsState steps s = some s') : runDevice steps s = .ok (none, s') := by
  unfold stepsState at h
  split at h
  · rename_i hrun
    cases h
    exact hrun
  · cases h

/-- The second interface lacks its MAC, and the first one has the same backend. -/
theorem shared_backend_clean :
    FailsClean (vifs (cstr "00:16:3e:00:00:01")) servedDomain .einval twoDomains := by
  generalize hcfg : vifs (cstr "00:16:3e:00:00:01") = cfg
  have hrun : (stepsState (setupSteps ((cfg.before .vif 1).setups 3) ++
      (vifSetup 3 (vifOf []) 1).steps.take 18) twoDomains.shared).any (fun s' =>
        !s'.allocs.contains false && s'.root.label.perms ≠ [] &&
        (s'.root.children.All fun _ n => n.perms ≠ [])) = true := by
    rw [← hcfg]
    decide +kernel
  obtain ⟨s', hsome, hstate⟩ := (Option.any_eq_true _ _).mp hrun
  simp only [Bool.and_eq_true, Bool.not_eq_true', List.contains_eq_mem, decide_eq_false_iff_not,
    decide_eq_true_eq] at hstate
  obtain ⟨⟨hmem, hroot⟩, hnodes⟩ := hstate
  have hok : PermsOk s'.root := ⟨hroot, hnodes⟩
  have hids : ∀ kind, ∀ b ∈ cfg.backends kind, b.toUInt16.toUInt32 = 3 → b = 3 := by
    rw [← hcfg]
    intro kind b hb
    cases kind with
    | vif =>
      have hb : b ∈ ([1, 1] : List UInt32) := hb
      have hone : b = 1 := by simpa using hb
      rw [hone]
      decide
    | vbd => cases hb
  have hfails : FailsAt cfg 3 ⟨.vif, 1, 18⟩ .einval twoDomains.shared s' := by
    refine ⟨vifSetup 3 (vifOf []) 1, _, .refuse .einval, (vifSetup 3 (vifOf []) 1).steps.drop 19,
      s', ?_, ?_, rfl, stepsState_spec hsome, rfl⟩
    · rw [← hcfg]
      rfl
    · rfl
  have hall := failed_post_create_clean cfg servedDomain twoDomains twoDomains_wellFormed
    ⟨nofun, nofun⟩ ⟨by decide, by decide⟩ rfl twoDomains_noBackends (by rw [← hcfg]; rfl) rfl
    (by decide) hids
  refine ((hall.2 ⟨.vif, 1, 18⟩ .einval s' hfails).2.2 hmem).mpr
    ⟨fun kind b hm => Or.inl ?_, hok.sheltered, hok.spared _⟩
  rw [← hcfg] at hm ⊢
  rcases hm with hb | ⟨rfl, -, hback⟩
  · cases kind with
    | vbd => cases hb
    | vif =>
      have hb : b ∈ ([1] : List UInt32) := hb
      rw [List.mem_singleton.mp hb]
      rfl
  · cases hback
    rfl

end Xenlib
