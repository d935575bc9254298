import Xenlib.BackendRemoval

/-!
The devices of a configuration as one list of steps, in the order in which `domain_post_create`
takes them: where a run of it stops, and what it leaves in the tree until then.
-/

set_option autoImplicit false

namespace Xenlib

open Keyed Wp

section Run
variable {steps a b : List DeviceStep} {s s' s₁ : Shared} {rc : Option Errno} {e : Errno}

theorem runDevice_append (h : runDevice a s = .ok (none, s₁)) :
    runDevice (a ++ b) s = runDevice b s₁ := by
  induction a generalizing s with
  | nil =>
    cases h
    rfl
  | cons step a ih =>
    cases step with
    | refuse e => cases h
    | write w =>
      obtain ⟨rc, s₂, hw, h⟩ := bind_ok_iff.mp h
      cases rc with
      | some e => cases h
      | none =>
        rw [List.cons_append, runDevice]
        simp only [bind, StateT.bind, Except.bind, hw]
        exact ih h
    | attempt w =>
      obtain ⟨rc, s₂, hw, h⟩ := bind_ok_iff.mp h
      rw [List.cons_append, runDevice]
      simp only [bind, StateT.bind, Except.bind, hw]
      exact ih h

theorem runDevice_split (h : runDevice (a ++ b) s = .ok (none, s')) :
    ∃ s₁, runDevice a s = .ok (none, s₁) ∧ runDevice b s₁ = .ok (none, s') := by
  induction a generalizing s with
  | nil => exact ⟨s, rfl, h⟩
  | cons step a ih =>
    cases step with
    | refuse e => cases h
    | write w =>
      obtain ⟨rc, s₂, hw, h⟩ := bind_ok_iff.mp h
      cases rc with
      | some e => cases h
      | none =>
        obtain ⟨s₁, ha, hb⟩ := ih h
        exact ⟨s₁, bind_ok_iff.mpr ⟨none, s₂, hw, ha⟩, hb⟩
    | attempt w =>
      obtain ⟨rc, s₂, hw, h⟩ := bind_ok_iff.mp h
      obtain ⟨s₁, ha, hb⟩ := ih h
      exact ⟨s₁, bind_ok_iff.mpr ⟨rc, s₂, hw, ha⟩, hb⟩

theorem runDevice_failed (h : runDevice steps s = .ok (some e, s')) :
    ∃ pre step post s₁, steps = pre ++ step :: post ∧ runDevice pre s = .ok (none, s₁) ∧
      runDevice [step] s₁ = .ok (some e, s') := by
  induction steps generalizing s with
  | nil => cases h
  | cons step steps ih =>
    have hlater {s₂ : Shared} (hstep : runDevice [step] s = .ok (none, s₂))
        (h : runDevice steps s₂ = .ok (some e, s')) :
        ∃ pre step' post s₁, step :: steps = pre ++ step' :: post ∧
          runDevice pre s = .ok (none, s₁) ∧ runDevice [step'] s₁ = .ok (some e, s') := by
      obtain ⟨pre, step', post, s₁, rfl, hpre, hfail⟩ := ih h
      exact ⟨step :: pre, step', post, s₁, rfl, (runDevice_append hstep).trans hpre, hfail⟩
    cases step with
    | refuse e' => exact ⟨[], _, steps, s, rfl, rfl, h⟩
    | write w =>
      obtain ⟨rc, s₂, hw, h⟩ := bind_ok_iff.mp h
      cases rc with
      | some e' =>
        cases h
        exact ⟨[], _, steps, s, rfl, rfl, bind_ok_iff.mpr ⟨some e, s', hw, rfl⟩⟩
      | none => exact hlater (bind_ok_iff.mpr ⟨none, s₂, hw, rfl⟩) h
    | attempt w =>
      obtain ⟨rc, s₂, hw, h⟩ := bind_ok_iff.mp h
      exact hlater (bind_ok_iff.mpr ⟨rc, s₂, hw, rfl⟩) h

theorem runDevice_not_refused (h : runDevice steps s = .ok (none, s')) : .refuse e ∉ steps := by
  intro hmem
  obtain ⟨pre, post, rfl⟩ := List.append_of_mem hmem
  induction pre generalizing s with
  | nil => cases h
  | cons step pre ih =>
    cases step with
    | refuse e' => cases h
    | write w =>
      obtain ⟨rc, s₂, -, h⟩ := bind_ok_iff.mp h
      cases rc with
      | some e' => cases h
      | none => exact ih h (by simp)
    | attempt w =>
      obtain ⟨rc, s₂, -, h⟩ := bind_ok_iff.mp h
      exact ih h (by simp)

theorem wp_write_undisturbed (w : DeviceWrite) (hq : Quiet s) :
    wp w.run (fun _ s' => Undisturbed s s') (fun _ => True) s := by
  unfold DeviceWrite.run
  rw [w.call.run_eq]
  unfold xssWriteWith
  rw [wp_bind]
  refine wp_xssDoWriteDeadline (fun rc root rest locks _ _ => ?_) (fun _ => trivial)
  cases rc with
  | some e => exact ⟨rfl, rfl, rfl⟩
  | none =>
    rw [wp_bind]
    refine wp_notifyWatchers (fun s₁ s' evs hn hf hw _ => ?_) (fun _ _ => trivial)
    have hf' := hn.frame.trans hf
    refine ⟨hf'.usedThreads, hf'.domuMax, ?_⟩
    rw [hw, hn.watches]
    exact clear_markPending hq.idle

theorem wp_runDevice_undisturbed (steps : List DeviceStep) (hq : Quiet s) :
    wp (runDevice steps) (fun _ s' => Undisturbed s s') (fun _ => True) s := by
  induction steps generalizing s with
  | nil => exact ⟨rfl, rfl, rfl⟩
  | cons step steps ih =>
    cases step with
    | refuse e => exact ⟨rfl, rfl, rfl⟩
    | write w =>
      unfold runDevice
      rw [wp_bind]
      refine wp_conseq (wp_write_undisturbed w hq) fun rc s₁ h₁ => ?_
      cases rc with
      | some e => exact h₁
      | none => exact wp_conseq (ih (hq.undisturbed h₁)) fun _ _ h₂ => h₁.trans h₂
    | attempt w =>
      unfold runDevice
      rw [wp_bind]
      refine wp_conseq (wp_write_undisturbed w hq) fun rc s₁ h₁ => ?_
      exact wp_conseq (ih (hq.undisturbed h₁)) fun _ _ h₂ => h₁.trans h₂

end Run

/-- The step that fails leaves nodes without permissions, if any. -/
theorem failed_step_bare {step : DeviceStep} {s s' : Shared} {e : Errno}
    (hpaths : WritesPaths [step]) (hd : s.root.children.Distinct)
    (h : runDevice [step] s = .ok (some e, s')) : Bare s.root s'.root := by
  cases step with
  | refuse e' =>
    cases h
    intro q n' hq hn'
    rw [hq] at hn'
    cases hn'
  | write w =>
    obtain ⟨rc, s₁, hw, h⟩ := bind_ok_iff.mp h
    have hrun := wp_ok (wp_write_tracked (.write w) rfl
      (hpaths _ List.mem_cons_self w rfl) hd) hw
    cases rc with
    | none => cases h
    | some e' =>
      cases h
      exact hrun.2.2 (Option.some_ne_none _)
  | attempt w =>
    obtain ⟨rc, s₁, hw, h⟩ := bind_ok_iff.mp h
    cases h

structure DeviceSetup where
  kind : DeviceKind
  backend : UInt32
  steps : List DeviceStep

def diskSetup (domid : UInt32) (cfg : PvBlockConfiguration) : DeviceSetup :=
  ⟨.vbd, cfg.backendDomainId, if getXvdDiskId cfg.vdev = 0 then [.refuse .einval]
    else blockSteps cfg domid (getXvdDiskId cfg.vdev)⟩

def vifSetup (domid : UInt32) (cfg : PvNetConfiguration) (i : Nat) : DeviceSetup :=
  ⟨.vif, cfg.backendDomainId, netSteps cfg domid i⟩

/-- The configured devices from the device `i` on. -/
def setupsFrom {C : Type} (configured : C → Bool) (setup : C → Nat → DeviceSetup) :
    Nat → List C → List DeviceSetup
  | _, [] => []
  | i, cfg :: cfgs =>
    if configured cfg then setup cfg i :: setupsFrom configured setup (i + 1) cfgs
    else setupsFrom configured setup (i + 1) cfgs

def BackendConfiguration.setups (cfg : BackendConfiguration) (domid : UInt32) :
    List DeviceSetup :=
  setupsFrom (·.configured) (fun disk _ => diskSetup domid disk) 0 cfg.disks ++
    setupsFrom (·.configured) (vifSetup domid) 0 cfg.vifs

def setupSteps (setups : List DeviceSetup) : List DeviceStep := setups.flatMap DeviceSetup.steps

/-- The devices from the device `n` on are not configured. -/
def onlyFirst {C : Type} (off : C → C) (n : Nat) (cfgs : List C) : List C :=
  cfgs.take n ++ (cfgs.drop n).map off

def PvNetConfiguration.off (cfg : PvNetConfiguration) : PvNetConfiguration :=
  { cfg with configured := false }

def PvBlockConfiguration.off (cfg : PvBlockConfiguration) : PvBlockConfiguration :=
  { cfg with configured := false }

/-- The configuration of the devices that come before the device `n` of the kind. -/
def BackendConfiguration.before (cfg : BackendConfiguration) : DeviceKind → Nat →
    BackendConfiguration
  | .vbd, n => ⟨onlyFirst .off 0 cfg.vifs, onlyFirst .off n cfg.disks⟩
  | .vif, n => ⟨onlyFirst .off n cfg.vifs, cfg.disks⟩

def BackendConfiguration.device? (cfg : BackendConfiguration) (domid : UInt32) :
    DeviceKind → Nat → Option DeviceSetup
  | .vbd, n => (cfg.disks[n]?.filter (·.configured)).map (diskSetup domid)
  | .vif, n => (cfg.vifs[n]?.filter (·.configured)).map (vifSetup domid · n)

section Setups
variable {C : Type} {configured : C → Bool} {backendDomainId : C → UInt32}
  {setup : C → Nat → DeviceSetup} {add : C → Nat → SrvM (Option Errno)} {off : C → C}

theorem setupsFrom_append (i : Nat) (a b : List C) :
    setupsFrom configured setup i (a ++ b) =
      setupsFrom configured setup i a ++ setupsFrom configured setup (i + a.length) b := by
  induction a generalizing i with
  | nil => rfl
  | cons cfg a ih =>
    have hlen : i + (cfg :: a).length = i + 1 + a.length := by
      rw [List.length_cons]
      omega
    rw [hlen, List.cons_append, setupsFrom, setupsFrom, ih]
    split
    · rfl
    · rfl

theorem setupsFrom_off (hoff : ∀ cfg, configured (off cfg) = false) (i : Nat) (cfgs : List C) :
    setupsFrom configured setup i (cfgs.map off) = [] := by
  induction cfgs generalizing i with
  | nil => rfl
  | cons cfg cfgs ih =>
    rw [List.map_cons, setupsFrom, if_neg (by simp [hoff]), ih]

theorem setupsFrom_onlyFirst (hoff : ∀ cfg, configured (off cfg) = false) (i n : Nat)
    (cfgs : List C) :
    setupsFrom configured setup i (onlyFirst off n cfgs) =
      setupsFrom configured setup i (cfgs.take n) := by
  rw [onlyFirst, setupsFrom_append, setupsFrom_off hoff, List.append_nil]

theorem placedStates_onlyFirst (hoff : ∀ cfg, configured (off cfg) = false) (n : Nat)
    (cfgs : List C) :
    placedStates configured backendDomainId (onlyFirst off n cfgs) =
      placedStates configured backendDomainId (cfgs.take n) ++
        (cfgs.drop n).map fun _ => ⟨false, 0⟩ := by
  simp [placedStates, onlyFirst, hoff, Function.comp_def]

theorem setupsFrom_backends (hbackend : ∀ cfg i, (setup cfg i).backend = backendDomainId cfg)
    (i : Nat) (cfgs : List C) :
    (setupsFrom configured setup i cfgs).map DeviceSetup.backend =
      configuredBackends configured backendDomainId cfgs := by
  induction cfgs generalizing i with
  | nil => rfl
  | cons cfg cfgs ih =>
    unfold configuredBackends at ih ⊢
    rw [setupsFrom]
    by_cases h : configured cfg = true
    · simp [h, hbackend, ih]
    · simp [h, ih]

theorem mem_setupsFrom {d : DeviceSetup} {i : Nat} {cfgs : List C}
    (h : d ∈ setupsFrom configured setup i cfgs) :
    ∃ cfg j, configured cfg = true ∧ d = setup cfg j := by
  induction cfgs generalizing i with
  | nil => cases h
  | cons cfg cfgs ih =>
    rw [setupsFrom] at h
    split at h
    · rename_i hcfg
      rcases List.mem_cons.mp h with rfl | h
      · exact ⟨cfg, i, hcfg, rfl⟩
      · exact ih h
    · exact ih h

theorem setupSteps_cons {cfg : C} (hcfg : configured cfg = true) (i : Nat) (cfgs : List C) :
    setupSteps (setupsFrom configured setup i (cfg :: cfgs)) =
      (setup cfg i).steps ++ setupSteps (setupsFrom configured setup (i + 1) cfgs) := by
  rw [setupsFrom, if_pos hcfg, setupSteps, List.flatMap_cons]
  rfl

theorem addDevices_ok (hadd : ∀ cfg i, configured cfg = true →
      add cfg i = runDevice (setup cfg i).steps) {i : Nat} {cfgs : List C} {s s' : Shared}
    {rc : Option Errno} {states : List BackendState}
    (h : addDevices configured backendDomainId add i cfgs (cfgs.map fun _ => ⟨false, 0⟩) s =
      .ok ((rc, states), s')) :
    (rc = none → runDevice (setupSteps (setupsFrom configured setup i cfgs)) s = .ok (none, s') ∧
      states = placedStates configured backendDomainId cfgs) ∧
    ∀ e, rc = some e → ∃ n cfg s₁, cfgs[n]? = some cfg ∧ configured cfg = true ∧
      runDevice (setupSteps (setupsFrom configured setup i (cfgs.take n))) s = .ok (none, s₁) ∧
      runDevice (setup cfg (i + n)).steps s₁ = .ok (some e, s') ∧
      states = placedStates configured backendDomainId (cfgs.take n) ++
        (cfgs.drop n).map fun _ => ⟨false, 0⟩ := by
  induction cfgs generalizing i s rc states with
  | nil =>
    cases h
    exact ⟨fun _ => ⟨rfl, rfl⟩, fun e he => absurd he.symm (Option.some_ne_none e)⟩
  | cons cfg cfgs ih =>
    rw [List.map_cons, addDevices] at h
    by_cases hcfg : configured cfg = true
    · rw [if_pos hcfg] at h
      obtain ⟨rc₁, s₁, hrun, h⟩ := bind_ok_iff.mp h
      rw [hadd cfg i hcfg] at hrun
      cases rc₁ with
      | some e =>
        cases h
        refine ⟨fun hrc => absurd hrc (Option.some_ne_none _),
          fun e' he => ⟨0, cfg, s, rfl, hcfg, rfl, ?_, rfl⟩⟩
        cases he
        exact hrun
      | none =>
        obtain ⟨⟨rc₂, states₂⟩, s₂, hrest, h⟩ := bind_ok_iff.mp h
        cases h
        obtain ⟨hdone, hfail⟩ := ih hrest
        have hcons := @setupSteps_cons _ _ setup _ hcfg i
        refine ⟨fun hrc => ?_, fun e he => ?_⟩
        · obtain ⟨hrun', rfl⟩ := hdone hrc
          rw [hcons, runDevice_append hrun]
          exact ⟨hrun', by simp [placedStates, hcfg]⟩
        · obtain ⟨n, c, s₃, hn, hc, hbefore, hrun', rfl⟩ := hfail e he
          refine ⟨n + 1, c, s₃, hn, hc, ?_, ?_, by simp [placedStates, hcfg]⟩
          · rw [List.take_succ_cons, hcons, runDevice_append hrun]
            exact hbefore
          · rw [show i + (n + 1) = i + 1 + n by omega]
            exact hrun'
    · rw [if_neg hcfg] at h
      obtain ⟨⟨rc₂, states₂⟩, s₂, hrest, h⟩ := bind_ok_iff.mp h
      cases h
      obtain ⟨hdone, hfail⟩ := ih hrest
      have hcons (cs : List C) : setupsFrom configured setup i (cfg :: cs) =
          setupsFrom configured setup (i + 1) cs := by
        rw [setupsFrom, if_neg hcfg]
      refine ⟨fun hrc => ?_, fun e he => ?_⟩
      · obtain ⟨hrun', rfl⟩ := hdone hrc
        rw [hcons]
        exact ⟨hrun', by simp [placedStates, hcfg]⟩
      · obtain ⟨n, c, s₃, hn, hc, hbefore, hrun', rfl⟩ := hfail e he
        refine ⟨n + 1, c, s₃, hn, hc, ?_, ?_, by simp [placedStates, hcfg]⟩
        · rw [List.take_succ_cons, hcons]
          exact hbefore
        · rw [show i + (n + 1) = i + 1 + n by omega]
          exact hrun'

section Forward
variable (hadd : ∀ cfg i, configured cfg = true → add cfg i = runDevice (setup cfg i).steps)
include hadd

theorem addDevices_placed {i : Nat} {cfgs : List C} {s s' : Shared}
    (h : runDevice (setupSteps (setupsFrom configured setup i cfgs)) s = .ok (none, s')) :
    addDevices configured backendDomainId add i cfgs (cfgs.map fun _ => ⟨false, 0⟩) s =
      .ok ((none, placedStates configured backendDomainId cfgs), s') := by
  induction cfgs generalizing i s with
  | nil =>
    cases h
    rfl
  | cons cfg cfgs ih =>
    rw [List.map_cons, addDevices]
    by_cases hcfg : configured cfg = true
    · rw [setupSteps_cons hcfg] at h
      obtain ⟨s₁, hfirst, hrest⟩ := runDevice_split h
      rw [← hadd cfg i hcfg] at hfirst
      rw [if_pos hcfg]
      refine bind_ok_iff.mpr ⟨none, s₁, hfirst, bind_ok_iff.mpr ⟨_, s', ih hrest, ?_⟩⟩
      simp [placedStates, hcfg]
      rfl
    · rw [setupsFrom, if_neg hcfg] at h
      rw [if_neg hcfg]
      refine bind_ok_iff.mpr ⟨_, s', ih h, ?_⟩
      simp [placedStates, hcfg]
      rfl

theorem addDevices_stopped {i n : Nat} {cfgs : List C} {cfg : C} {e : Errno} {s s₁ s' : Shared}
    (hn : cfgs[n]? = some cfg) (hc : configured cfg = true)
    (hbefore : runDevice (setupSteps (setupsFrom configured setup i (cfgs.take n))) s =
      .ok (none, s₁))
    (hrun : runDevice (setup cfg (i + n)).steps s₁ = .ok (some e, s')) :
    addDevices configured backendDomainId add i cfgs (cfgs.map fun _ => ⟨false, 0⟩) s =
      .ok ((some e, placedStates configured backendDomainId (cfgs.take n) ++
        (cfgs.drop n).map fun _ => ⟨false, 0⟩), s') := by
  induction n generalizing i cfgs s with
  | zero =>
    cases cfgs with
    | nil => cases hn
    | cons first cfgs =>
      cases hn
      cases hbefore
      rw [List.map_cons, addDevices, if_pos hc]
      exact bind_ok_iff.mpr ⟨some e, s', (congrFun (hadd cfg i hc) _).trans hrun, rfl⟩
  | succ n ih =>
    cases cfgs with
    | nil => cases hn
    | cons first cfgs =>
      have hnext : i + (n + 1) = i + 1 + n := by omega
      rw [hnext] at hrun
      rw [List.take_succ_cons] at hbefore
      rw [List.map_cons, addDevices]
      by_cases hfirst : configured first = true
      · rw [setupSteps_cons hfirst] at hbefore
        obtain ⟨s₂, hplaced, hrest⟩ := runDevice_split hbefore
        rw [← hadd first i hfirst] at hplaced
        rw [if_pos hfirst]
        refine bind_ok_iff.mpr ⟨none, s₂, hplaced, bind_ok_iff.mpr ⟨_, s', ih hn hrest hrun, ?_⟩⟩
        simp [placedStates, hfirst]
        rfl
      · rw [setupsFrom, if_neg hfirst] at hbefore
        rw [if_neg hfirst]
        refine bind_ok_iff.mpr ⟨_, s', ih hn hbefore hrun, ?_⟩
        simp [placedStates, hfirst]
        rfl

end Forward

end Setups

/-- The step that writes the directory of the domain below the backend. -/
def dirStep : DeviceKind → Nat
  | .vbd => 2
  | .vif => 1

/-- A write for a device: one below the backend, or one below the domain itself. -/
def DeviceWrite.Places (domid backend : UInt32) (w : DeviceWrite) : Prop :=
  localDomainDir domid <+: w.path ∨ localDomainDir backend <+: w.path ∧
    (w.call = .domainRo backend ∨ w.call = .withPermissions backend domid)

def DeviceStep.Places (domid backend : UInt32) (step : DeviceStep) : Prop :=
  ∀ w, step.write? = some w → w.Places domid backend

/-- What the steps of a device have in common. -/
structure SetupOk (domid : UInt32) (d : DeviceSetup) : Prop where
  fits : ∀ step ∈ d.steps, step.Fits domid (ServedBy d.kind d.backend)
  places : ∀ step ∈ d.steps, step.Places domid d.backend
  early : ∀ step ∈ d.steps.take (dirStep d.kind), ∀ w, step.write? = some w →
    ¬ backendDir d.kind d.backend domid <+: w.path
  dir : dirStep d.kind < d.steps.length → ∃ call,
    d.steps[dirStep d.kind]? = some (.write ⟨call, backendDir d.kind d.backend domid, []⟩)
  short : d.steps.length ≤ dirStep d.kind → ∃ e, .refuse e ∈ d.steps

section Shapes
variable {domid backend : UInt32} {kind : DeviceKind} {value : CString} {call : GuestWrite}
  {names : List CString}

theorem places_back (hcall : call = .domainRo backend ∨ call = .withPermissions backend domid) :
    (DeviceStep.write ⟨call, localDomainDir backend ++ names, value⟩).Places domid backend := by
  intro w hw
  cases hw
  exact Or.inr ⟨List.prefix_append _ _, hcall⟩

theorem places_front :
    (DeviceStep.write ⟨call, localDomainDir domid ++ names, value⟩).Places domid backend := by
  intro w hw
  cases hw
  exact Or.inl (List.prefix_append _ _)

theorem not_dir_above {steps : List DeviceStep}
    (h : ∀ step ∈ steps, ∃ call names value, names.length < 3 ∧
      step = .write ⟨call, localDomainDir backend ++ names, value⟩) :
    ∀ step ∈ steps, ∀ w, step.write? = some w → ¬ backendDir kind backend domid <+: w.path := by
  intro step hstep w hw hpre
  obtain ⟨call, names, value, hlen, rfl⟩ := h step hstep
  cases hw
  exact not_backendDir_prefix_above hlen hpre

theorem places_blockSteps (cfg : PvBlockConfiguration) (vbdId : Nat) :
    ∀ step ∈ blockSteps cfg domid vbdId, step.Places domid cfg.backendDomainId := by
  have hro {names : List CString} :
      (DeviceStep.write ⟨.domainRo cfg.backendDomainId,
        localDomainDir cfg.backendDomainId ++ names, []⟩).Places domid cfg.backendDomainId :=
    places_back (Or.inl rfl)
  have hback {names : List CString} {value : CString} :
      (DeviceStep.write ⟨.withPermissions cfg.backendDomainId domid,
        localDomainDir cfg.backendDomainId ++ names, value⟩).Places domid
        cfg.backendDomainId := places_back (Or.inr rfl)
  unfold blockSteps backendDir deviceDir
  simp only [List.forall_mem_cons, List.append_assoc]
  refine ⟨hro, hro, hro, hback, hback, hback, hback, hback, hback, hback, hback, hback, hback, ?_,
    hback, hback, hback, hback, places_front, places_front, places_front, places_front,
    places_front, places_front, places_front, nofun⟩
  split
  · exact hback
  · split
    · exact hback
    · exact nofun

theorem places_netSteps (cfg : PvNetConfiguration) (i : Nat) :
    ∀ step ∈ netSteps cfg domid i, step.Places domid cfg.backendDomainId := by
  have hback {names : List CString} {value : CString} :
      (DeviceStep.write ⟨.withPermissions cfg.backendDomainId domid,
        localDomainDir cfg.backendDomainId ++ names, value⟩).Places domid
        cfg.backendDomainId := places_back (Or.inr rfl)
  unfold netSteps backendDir deviceDir
  simp only [List.forall_mem_append, List.forall_mem_cons]
  simp only [List.append_assoc]
  refine ⟨⟨⟨⟨⟨hback, hback, hback, hback, hback, hback, hback, hback, hback, hback, hback, hback,
    nofun⟩, ?_⟩, hback, places_front, places_front, places_front, places_front, places_front,
    nofun⟩, ?_⟩, places_front, places_front, places_front, places_front, places_front, nofun⟩
  · split
    · exact List.forall_mem_singleton.mpr hback
    · exact nofun
  · split
    · exact List.forall_mem_singleton.mpr nofun
    · exact nofun

theorem setupOk_disk (domid : UInt32) (cfg : PvBlockConfiguration) :
    SetupOk domid (diskSetup domid cfg) := by
  unfold diskSetup
  by_cases hid : getXvdDiskId cfg.vdev = 0
  · simp only [hid, if_true]
    exact {
      fits := List.forall_mem_singleton.mpr nofun
      places := List.forall_mem_singleton.mpr nofun
      early := fun step hstep w hw => by
        rw [List.mem_singleton.mp (List.mem_of_mem_take hstep)] at hw
        cases hw
      dir := fun h => absurd h (by simp [dirStep])
      short := fun _ => ⟨.einval, List.mem_singleton_self _⟩ }
  · simp only [hid, if_false]
    exact {
      fits := fits_blockSteps cfg _
      places := places_blockSteps cfg _
      early := not_dir_above (List.forall_mem_cons.mpr
        ⟨⟨_, [cstr "backend"], _, by decide, rfl⟩, List.forall_mem_singleton.mpr
          ⟨_, [cstr "backend", cstr "vbd"], _, by decide, rfl⟩⟩)
      dir := fun _ => ⟨_, rfl⟩
      short := fun h => absurd h (by simp [blockSteps, dirStep]) }

theorem setupOk_vif (domid : UInt32) (cfg : PvNetConfiguration) (i : Nat) :
    SetupOk domid (vifSetup domid cfg i) where
  fits := fits_netSteps cfg i
  places := places_netSteps cfg i
  early := not_dir_above (List.forall_mem_singleton.mpr
    ⟨_, [cstr "backend", cstr "vif"], _, by decide, rfl⟩)
  dir _ := ⟨_, rfl⟩
  short h := absurd h (by simp [vifSetup, netSteps, dirStep])

theorem DeviceWrite.Places.owner {w : DeviceWrite} {b : UInt32} (h : w.Places domid backend)
    (hb : b ≠ domid) (hpre : localDomainDir b <+: w.path) :
    w.call.perms.head?.map XsPermEntry.domid = some 0 ∨
      w.call.perms.head?.map XsPermEntry.domid = some b.toUInt16 := by
  have hsame {c : UInt32} (hc : localDomainDir c <+: w.path) : b = c := by
    have heq := (List.prefix_of_prefix_length_le hpre hc (Nat.le_refl 3)).eq_of_length rfl
    simp only [localDomainDir, List.cons.injEq, and_true, true_and] at heq
    exact decimalInt_injective heq
  rcases h with hself | ⟨hback, hcall⟩
  · exact absurd (hsame hself) hb
  · obtain rfl := hsame hback
    rcases hcall with hcall | hcall
    · rw [hcall, GuestWrite.perms]
      split
      · exact Or.inl rfl
      · exact Or.inl rfl
    · rw [hcall]
      exact Or.inr rfl

end Shapes

end Xenlib
