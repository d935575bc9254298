import Xenlib.Backends
import Xenlib.Decimal
import Xenlib.StoreEffects

/-!
The nodes of split devices. A device adds one directory, below the domain that serves it, and
`domain_post_create` succeeds only with the directories of all devices in place.
-/

set_option autoImplicit false

namespace Xenlib

open Keyed Wp

section Dirs
variable {kind kind' : DeviceKind} {b b' domid : UInt32} {rest : List CString}

theorem DeviceKind.text_injective (h : kind.text = kind'.text) : kind = kind' := by
  revert h
  cases kind <;> cases kind' <;> decide

theorem components_backendDir (kind : DeviceKind) (b domid : UInt32) :
    Components (backendDir kind b domid) := by
  refine (components_localDomainDir b).append fun t ht => ?_
  rcases List.mem_cons.mp ht with rfl | ht
  · decide
  rcases List.mem_cons.mp ht with rfl | ht
  · cases kind <;> decide
  · rw [List.mem_singleton.mp ht]
    exact decimalInt_digits domid

theorem backendDir_ne_nil (kind : DeviceKind) (b domid : UInt32) : backendDir kind b domid ≠ [] :=
  List.cons_ne_nil _ _

theorem backendDir_prefix_iff :
    backendDir kind b domid <+: backendDir kind' b' domid ++ rest ↔ kind = kind' ∧ b = b' := by
  constructor
  · intro h
    simp only [backendDir, localDomainDir, List.cons_append, List.nil_append,
      List.cons_prefix_cons] at h
    exact ⟨DeviceKind.text_injective h.2.2.2.2.1, decimalInt_injective h.2.2.1⟩
  · rintro ⟨rfl, rfl⟩
    exact List.prefix_append _ _

theorem not_backendDir_prefix_device (h : backendDir kind b domid <+: deviceDir kind' b' ++ rest) :
    False := by
  simp only [backendDir, deviceDir, localDomainDir, List.cons_append, List.nil_append,
    List.cons_prefix_cons] at h
  exact absurd h.2.2.2.1 (by decide)

theorem not_backendDir_prefix_above {names : List CString} (hlen : names.length < 3)
    (h : backendDir kind b domid <+: localDomainDir b' ++ names) : False := by
  have hle := h.length_le
  simp only [backendDir, localDomainDir, List.length_append, List.length_cons,
    List.length_nil] at hle
  omega

theorem localDomainDir_prefix_backendDir (h : localDomainDir b' <+: backendDir kind b domid) :
    b' = b := by
  simp only [backendDir, localDomainDir, List.cons_append, List.nil_append,
    List.cons_prefix_cons] at h
  exact decimalInt_injective h.2.2.1

end Dirs

def DeviceStep.write? : DeviceStep → Option DeviceWrite
  | .write w | .attempt w => some w
  | .refuse _ => none

/-- Nodes keep their permissions. A new node lies on the way of a write and has the permissions of
the write, or none where it could not get them. -/
structure Tracked (steps : List DeviceStep) (t t' : XsEntry) : Prop where
  distinct : t'.children.Distinct
  kept : ∀ q n, t.node q = some n → ∃ n', t'.node q = some n' ∧ n'.perms = n.perms
  added : ∀ q n', t.node q = none → t'.node q = some n' → ∃ step ∈ steps, ∃ w,
    step.write? = some w ∧ q <+: w.path ∧ (n'.perms = [] ∨ n'.perms = w.call.perms)

def Bare (t t' : XsEntry) : Prop :=
  ∀ q n', t.node q = none → t'.node q = some n' → n'.perms = []

section Track
variable {steps a b : List DeviceStep} {t t' t'' : XsEntry} {s : Shared} {w : DeviceWrite}

theorem Tracked.refl (h : t.children.Distinct) : Tracked steps t t where
  distinct := h
  kept q n hn := ⟨n, hn, rfl⟩
  added q n' hq hn' := by rw [hq] at hn'; cases hn'

theorem Tracked.trans (h : Tracked a t t') (h' : Tracked b t' t'') : Tracked (a ++ b) t t'' where
  distinct := h'.distinct
  kept q n hn := by
    obtain ⟨n', hn', hperms⟩ := h.kept q n hn
    obtain ⟨n'', hn'', hperms'⟩ := h'.kept q n' hn'
    exact ⟨n'', hn'', hperms'.trans hperms⟩
  added q n'' hq hn'' := by
    cases hn' : t'.node q with
    | none =>
      obtain ⟨step, hstep, hw⟩ := h'.added q n'' hn' hn''
      exact ⟨step, List.mem_append_right _ hstep, hw⟩
    | some n' =>
      obtain ⟨step, hstep, w, hw, hpre, hperms⟩ := h.added q n' hq hn'
      obtain ⟨m, hm, hkept⟩ := h'.kept q n' hn'
      rw [hn''] at hm
      cases hm
      rw [hkept]
      exact ⟨step, List.mem_append_left _ hstep, w, hw, hpre, hperms⟩

theorem Wrote.tracked {step : DeviceStep} {rc : Option Errno} (hstep : step.write? = some w)
    (hc : Components w.path) (hne : w.path ≠ []) (hd : s.root.children.Distinct)
    (h : Wrote (renderPath w.path) (some w.value) 0 w.call.perms s rc t') :
    Tracked [step] s.root t' ∧ (rc = none → (t'.node w.path).isSome) ∧
      (rc ≠ none → Bare s.root t') := by
  have htoks := tokens_renderPath hc
  rcases h with ⟨hnil, -, -⟩ | h
  · rw [htoks] at hnil
    exact absurd hnil hne
  rw [htoks] at h
  have hbare : Bare s.root s.root := by
    intro q n' hq hn'
    rw [hq] at hn'
    cases hn'
  cases h with
  | refused e =>
    exact ⟨.refl hd, fun hrc => absurd hrc (Option.some_ne_none _), fun _ => hbare⟩
  | dropped h => cases h
  | written =>
    have hfresh (n : XsNode) : (freshNode w.call.perms n).perms = w.call.perms :=
      if_pos w.call.perms_ne_nil
    have hnode := @Tree.node_plant CString XsNode _ (freshNode w.call.perms)
      (updNode (some w.value)) (freshNode_idem w.call.perms) w.path
    refine ⟨⟨Tree.distinct_plant hd, fun q n hn => ?_, fun q n' hq hn' => ?_⟩, fun _ => ?_,
      fun hrc => absurd rfl hrc⟩
    · rw [hnode, hn]
      refine ⟨_, rfl, ?_⟩
      split
      · exact updNode_perms _ n
      · rfl
    · simp only [hnode, hq] at hn'
      split at hn'
      · rename_i hpre
        refine ⟨step, List.mem_singleton_self step, w, hstep, hpre, Or.inr ?_⟩
        cases hn'
        split
        · rw [updNode_perms, hfresh]
        · exact hfresh _
      · cases hn'
    · rw [hnode]
      cases hp : s.root.node w.path with
      | some n => rfl
      | none => simp
  | leftover q rest k n _ htoks =>
    have hnode := @Tree.node_plant CString XsNode _ (fun _ => ⟨none, []⟩) id (fun _ => rfl)
      (q ++ [k])
    have hbare : ∀ r n', s.root.node r = none →
        (s.root.plant (fun _ => ⟨none, []⟩) id (q ++ [k])).node r = some n' →
        r <+: q ++ [k] ∧ n'.perms = [] := by
      intro r n' hr hn'
      simp only [hnode, hr] at hn'
      split at hn'
      · rename_i hpre
        refine ⟨hpre, ?_⟩
        cases hn'
        split
        · rfl
        · rfl
      · cases hn'
    refine ⟨⟨Tree.distinct_plant hd, fun r n hn => ?_, fun r n' hr hn' => ?_⟩,
      fun hrc => absurd hrc (Option.some_ne_none _), fun _ r n' hr hn' => (hbare r n' hr hn').2⟩
    · rw [hnode, hn]
      exact ⟨_, rfl, by simp⟩
    · obtain ⟨hpre, hperms⟩ := hbare r n' hr hn'
      have hway : q ++ [k] <+: w.path := by
        rw [htoks]
        exact ⟨rest, by simp⟩
      exact ⟨step, List.mem_singleton_self step, w, hstep, hpre.trans hway, Or.inl hperms⟩

def WritesPaths (steps : List DeviceStep) : Prop :=
  ∀ step ∈ steps, ∀ w, step.write? = some w → Components w.path ∧ w.path ≠ []

theorem wp_write_tracked (step : DeviceStep) (hstep : step.write? = some w)
    (hpath : Components w.path ∧ w.path ≠ []) (hd : s.root.children.Distinct) :
    wp w.run (fun rc s' => Tracked [step] s.root s'.root ∧
      (rc = none → (s'.root.node w.path).isSome) ∧ (rc ≠ none → Bare s.root s'.root))
      (fun _ => True) s := by
  unfold DeviceWrite.run
  rw [w.call.run_eq]
  exact wp_conseq (wp_xssWriteWith_wrote _ s) fun _ _ hw =>
    hw.tracked hstep hpath.1 hpath.2 hd

theorem wp_runDevice_tracked (steps : List DeviceStep) (hpaths : WritesPaths steps)
    (hd : s.root.children.Distinct) :
    wp (runDevice steps) (fun rc s' => Tracked steps s.root s'.root ∧
      (rc = none → ∀ w, .write w ∈ steps → (s'.root.node w.path).isSome)) (fun _ => True) s := by
  induction steps generalizing s with
  | nil => exact ⟨.refl hd, fun _ w hw => absurd hw List.not_mem_nil⟩
  | cons step steps ih =>
    have hfirst := hpaths step List.mem_cons_self
    have hrest : WritesPaths steps := fun step' h => hpaths step' (List.mem_cons_of_mem _ h)
    cases step with
    | refuse e => exact ⟨.refl hd, fun hrc => absurd hrc (Option.some_ne_none e)⟩
    | write w =>
      unfold runDevice
      rw [wp_bind]
      refine wp_conseq (wp_write_tracked (.write w) rfl (hfirst w rfl) hd) fun rc s₁ h₁ => ?_
      obtain ⟨htrack, hdone, -⟩ := h₁
      cases rc with
      | some e =>
        exact ⟨htrack.trans (b := steps) (.refl htrack.distinct),
          fun hrc => absurd hrc (Option.some_ne_none e)⟩
      | none =>
        refine wp_conseq (ih hrest htrack.distinct) fun rc s₂ h₂ =>
          ⟨htrack.trans h₂.1, fun hrc v hv => ?_⟩
        rcases List.mem_cons.mp hv with heq | hv
        · cases heq
          obtain ⟨n, hn⟩ := Option.isSome_iff_exists.mp (hdone rfl)
          obtain ⟨n', hn', -⟩ := h₂.1.kept _ n hn
          rw [hn']
          rfl
        · exact h₂.2 hrc v hv
    | attempt w =>
      unfold runDevice
      rw [wp_bind]
      refine wp_conseq (wp_write_tracked (.attempt w) rfl (hfirst w rfl) hd) fun rc s₁ h₁ => ?_
      refine wp_conseq (ih hrest h₁.1.distinct) fun rc s₂ h₂ =>
        ⟨h₁.1.trans h₂.1, fun hrc v hv => ?_⟩
      rcases List.mem_cons.mp hv with heq | hv
      · cases heq
      · exact h₂.2 hrc v hv

end Track

/-- Nodes are added to the tree; new directories of backends are of the kind `R`. -/
structure DevicesAdded (domid : UInt32) (R : DeviceKind → UInt32 → Prop) (t t' : XsEntry) :
    Prop where
  distinct : t'.children.Distinct
  kept : ∀ q, (t.node q).isSome → (t'.node q).isSome
  dirs : ∀ kind b, (t'.node (backendDir kind b domid)).isSome →
    (t.node (backendDir kind b domid)).isSome ∨ R kind b

section Added
variable {domid : UInt32} {R R' : DeviceKind → UInt32 → Prop} {t t' t'' : XsEntry}

theorem DevicesAdded.refl (h : t.children.Distinct) : DevicesAdded domid R t t :=
  ⟨h, fun _ hq => hq, fun _ _ hq => Or.inl hq⟩

theorem DevicesAdded.trans (h : DevicesAdded domid R t t') (h' : DevicesAdded domid R t' t'') :
    DevicesAdded domid R t t'' where
  distinct := h'.distinct
  kept q hq := h'.kept q (h.kept q hq)
  dirs kind b hq := by
    rcases h'.dirs kind b hq with hq | hr
    · exact h.dirs kind b hq
    · exact Or.inr hr

theorem DevicesAdded.mono (h : DevicesAdded domid R t t') (hR : ∀ kind b, R kind b → R' kind b) :
    DevicesAdded domid R' t t' :=
  ⟨h.distinct, h.kept, fun kind b hq => (h.dirs kind b hq).imp id (hR kind b)⟩

structure DevicePath (domid : UInt32) (R : DeviceKind → UInt32 → Prop) (p : List CString) :
    Prop where
  components : Components p
  ne_nil : p ≠ []
  dirs : ∀ kind b, backendDir kind b domid <+: p → R kind b

def DeviceStep.path? : DeviceStep → Option (List CString)
  | .write w | .attempt w => some w.path
  | .refuse _ => none

theorem DeviceStep.path?_of_write? {step : DeviceStep} {w : DeviceWrite}
    (h : step.write? = some w) : step.path? = some w.path := by
  cases step with
  | write v => cases h; rfl
  | attempt v => cases h; rfl
  | refuse e => cases h

theorem Tracked.devices {steps : List DeviceStep}
    (hsteps : ∀ step ∈ steps, ∀ p ∈ step.path?, DevicePath domid R p) (h : Tracked steps t t') :
    DevicesAdded domid R t t' where
  distinct := h.distinct
  kept q hq := by
    obtain ⟨n, hn⟩ := Option.isSome_iff_exists.mp hq
    obtain ⟨n', hn', -⟩ := h.kept q n hn
    rw [hn']
    rfl
  dirs kind b hq := by
    obtain ⟨n', hn'⟩ := Option.isSome_iff_exists.mp hq
    cases hn : t.node (backendDir kind b domid) with
    | some n => exact Or.inl rfl
    | none =>
      obtain ⟨step, hstep, w, hw, hpre, -⟩ := h.added _ n' hn hn'
      exact Or.inr ((hsteps step hstep _ (DeviceStep.path?_of_write? hw)).dirs kind b hpre)

theorem wp_runDevice (steps : List DeviceStep)
    (hsteps : ∀ step ∈ steps, ∀ p ∈ step.path?, DevicePath domid R p) {s : Shared}
    (hd : s.root.children.Distinct) :
    wp (runDevice steps) (fun rc s' => DevicesAdded domid R s.root s'.root ∧
      (rc = none → ∀ w, .write w ∈ steps → (s'.root.node w.path).isSome)) (fun _ => True) s := by
  have hpaths : WritesPaths steps := by
    intro step hstep w hw
    have hpath := hsteps step hstep _ (DeviceStep.path?_of_write? hw)
    exact ⟨hpath.components, hpath.ne_nil⟩
  exact wp_conseq (wp_runDevice_tracked steps hpaths hd) fun rc s' h => ⟨h.1.devices hsteps, h.2⟩

end Added

section Steps
variable {kind : DeviceKind} {b domid : UInt32}

/-- The device of the kind that `b` serves. -/
def ServedBy (kind : DeviceKind) (b : UInt32) (kind' : DeviceKind) (b' : UInt32) : Prop :=
  kind' = kind ∧ b' = b

theorem devicePath_backend {names : List CString} (h : Components names) :
    DevicePath domid (ServedBy kind b) (backendDir kind b domid ++ names) where
  components := (components_backendDir kind b domid).append h
  ne_nil := List.cons_ne_nil _ _
  dirs _ _ hpre := backendDir_prefix_iff.mp hpre

theorem devicePath_device {names : List CString} (h : Components names) :
    DevicePath domid (ServedBy kind b) (deviceDir kind domid ++ names) where
  components := by
    refine Components.append ((components_localDomainDir domid).append ?_) h
    cases kind <;> decide
  ne_nil := List.cons_ne_nil _ _
  dirs _ _ hpre := (not_backendDir_prefix_device hpre).elim

theorem devicePath_above {names : List CString} (h : Components names) (hlen : names.length < 3) :
    DevicePath domid (ServedBy kind b) (localDomainDir b ++ names) where
  components := (components_localDomainDir b).append h
  ne_nil := List.cons_ne_nil _ _
  dirs _ _ hpre := (not_backendDir_prefix_above hlen hpre).elim

theorem components_decimal (n : Nat) : Components [decimal n] :=
  List.forall_mem_singleton.mpr (decimal_digits n)

def DeviceStep.Fits (domid : UInt32) (R : DeviceKind → UInt32 → Prop) (step : DeviceStep) : Prop :=
  ∀ p ∈ step.path?, DevicePath domid R p

theorem fits_write {R : DeviceKind → UInt32 → Prop} {w : DeviceWrite}
    (h : DevicePath domid R w.path) : (DeviceStep.write w).Fits domid R := by
  intro p hp
  cases hp
  exact h

theorem fits_backend {call : GuestWrite} {value : CString} (id : Nat) {names : List CString}
    (h : Components names) :
    (DeviceStep.write ⟨call, backendDir kind b domid ++ [decimal id] ++ names, value⟩).Fits domid
      (ServedBy kind b) := by
  refine fits_write ?_
  rw [List.append_assoc]
  exact devicePath_backend ((components_decimal id).append h)

theorem fits_device {call : GuestWrite} {value : CString} (id : Nat) {names : List CString}
    (h : Components names) :
    (DeviceStep.write ⟨call, deviceDir kind domid ++ [decimal id] ++ names, value⟩).Fits domid
      (ServedBy kind b) := by
  refine fits_write ?_
  rw [List.append_assoc]
  exact devicePath_device ((components_decimal id).append h)

theorem fits_above {call : GuestWrite} {value : CString} {names : List CString}
    (h : Components names) (hlen : names.length < 3) :
    (DeviceStep.write ⟨call, localDomainDir b ++ names, value⟩).Fits domid (ServedBy kind b) :=
  fits_write (devicePath_above h hlen)

theorem fits_dir {call : GuestWrite} {value : CString} :
    (DeviceStep.write ⟨call, backendDir kind b domid, value⟩).Fits domid (ServedBy kind b) := by
  refine fits_write ?_
  have h := @devicePath_backend kind b domid [] nofun
  rwa [List.append_nil] at h

theorem fits_blockSteps (cfg : PvBlockConfiguration) (vbdId : Nat) :
    ∀ step ∈ blockSteps cfg domid vbdId, step.Fits domid (ServedBy .vbd cfg.backendDomainId) := by
  have hnode {call : GuestWrite} {value : CString} :
      (DeviceStep.write ⟨call, backendDir .vbd cfg.backendDomainId domid ++ [decimal vbdId],
        value⟩).Fits domid (ServedBy .vbd cfg.backendDomainId) :=
    fits_write (devicePath_backend (components_decimal vbdId))
  have hfront {call : GuestWrite} {value : CString} :
      (DeviceStep.write ⟨call, deviceDir .vbd domid ++ [decimal vbdId], value⟩).Fits domid
        (ServedBy .vbd cfg.backendDomainId) :=
    fits_write (devicePath_device (components_decimal vbdId))
  unfold blockSteps
  simp only [List.forall_mem_cons]
  refine ⟨fits_above (by decide) (by decide), fits_above (by decide) (by decide), fits_dir, hnode,
    fits_backend _ (by decide), fits_backend _ (by decide), fits_backend _ (by decide),
    fits_backend _ (by decide), fits_backend _ (by decide), fits_backend _ (by decide),
    fits_backend _ (by decide), fits_backend _ (by decide), fits_backend _ (by decide), ?_,
    fits_backend _ (by decide), fits_backend _ (by decide), fits_backend _ (by decide),
    fits_backend _ (by decide), hfront, fits_device _ (by decide), fits_device _ (by decide),
    fits_device _ (by decide), fits_device _ (by decide), fits_device _ (by decide),
    fits_device _ (by decide), nofun⟩
  split
  · exact fits_backend _ (by decide)
  · split
    · exact fits_backend _ (by decide)
    · exact nofun

theorem fits_netSteps (cfg : PvNetConfiguration) (i : Nat) :
    ∀ step ∈ netSteps cfg domid i, step.Fits domid (ServedBy .vif cfg.backendDomainId) := by
  have hnode {call : GuestWrite} {value : CString} :
      (DeviceStep.write ⟨call, backendDir .vif cfg.backendDomainId domid ++ [decimal i],
        value⟩).Fits domid (ServedBy .vif cfg.backendDomainId) :=
    fits_write (devicePath_backend (components_decimal i))
  have hfront {call : GuestWrite} {value : CString} :
      (DeviceStep.write ⟨call, deviceDir .vif domid ++ [decimal i], value⟩).Fits domid
        (ServedBy .vif cfg.backendDomainId) :=
    fits_write (devicePath_device (components_decimal i))
  have hdevices {call : GuestWrite} {value : CString} :
      (DeviceStep.write ⟨call, deviceDir .vif domid, value⟩).Fits domid
        (ServedBy .vif cfg.backendDomainId) := by
    have h := @devicePath_device .vif cfg.backendDomainId domid [] nofun
    rw [List.append_nil] at h
    exact fits_write h
  unfold netSteps
  simp only [List.forall_mem_append, List.forall_mem_cons]
  refine ⟨⟨⟨⟨⟨fits_above (by decide) (by decide), fits_dir, hnode, fits_backend _ (by decide),
    fits_backend _ (by decide), fits_backend _ (by decide), fits_backend _ (by decide),
    fits_backend _ (by decide), fits_backend _ (by decide), fits_backend _ (by decide),
    fits_backend _ (by decide), fits_backend _ (by decide), nofun⟩, ?_⟩,
    fits_backend _ (by decide), hdevices, hfront, fits_device _ (by decide),
    fits_device _ (by decide), fits_device _ (by decide), nofun⟩, ?_⟩,
    fits_device _ (by decide), fits_device _ (by decide), fits_device _ (by decide),
    fits_device _ (by decide), fits_device _ (by decide), nofun⟩
  · split
    · exact List.forall_mem_singleton.mpr (fits_backend _ (by decide))
    · exact nofun
  · split
    · exact List.forall_mem_singleton.mpr nofun
    · exact nofun

/-- A device that is put in place has its directory, and no other is added. -/
def PutsDevice (kind : DeviceKind) (b domid : UInt32) (x : SrvM (Option Errno)) : Prop :=
  ∀ s : Shared, s.root.children.Distinct →
    wp x (fun rc s' => DevicesAdded domid (ServedBy kind b) s.root s'.root ∧
      (rc = none → (s'.root.node (backendDir kind b domid)).isSome)) (fun _ => True) s

theorem puts_runDevice {steps : List DeviceStep} (call : GuestWrite)
    (hsteps : ∀ step ∈ steps, step.Fits domid (ServedBy kind b))
    (hdir : .write ⟨call, backendDir kind b domid, []⟩ ∈ steps) :
    PutsDevice kind b domid (runDevice steps) := by
  intro s hd
  exact wp_conseq (wp_runDevice steps hsteps hd) fun rc s' h => ⟨h.1, fun hrc => h.2 hrc _ hdir⟩

theorem puts_pvblock {cfg : PvBlockConfiguration} (h : cfg.configured = true) (domid : UInt32) :
    PutsDevice .vbd cfg.backendDomainId domid (xsAddPvblockXenstore cfg domid) := by
  intro s hd
  unfold xsAddPvblockXenstore
  rw [if_neg (by simp [h])]
  split
  · exact ⟨.refl hd, fun hrc => absurd hrc (Option.some_ne_none _)⟩
  · exact puts_runDevice (.domainRo cfg.backendDomainId) (fits_blockSteps cfg _)
      (by simp [blockSteps]) s hd

theorem puts_pvnet {cfg : PvNetConfiguration} (h : cfg.configured = true) (domid : UInt32)
    (i : Nat) : PutsDevice .vif cfg.backendDomainId domid (xsAddPvnetXenstore cfg domid i) := by
  intro s hd
  unfold xsAddPvnetXenstore
  rw [if_neg (by simp [h])]
  exact puts_runDevice (.withPermissions cfg.backendDomainId domid) (fits_netSteps cfg i)
    (by simp [netSteps]) s hd

end Steps

section Loop
variable {C : Type} {configured : C → Bool} {backendDomainId : C → UInt32}
  {add : C → Nat → SrvM (Option Errno)} {kind : DeviceKind} {domid : UInt32}

def configuredBackends (configured : C → Bool) (backendDomainId : C → UInt32) (cfgs : List C) :
    List UInt32 :=
  (cfgs.filter configured).map backendDomainId

def placedStates (configured : C → Bool) (backendDomainId : C → UInt32) (cfgs : List C) :
    List BackendState :=
  cfgs.map fun cfg => if configured cfg then ⟨true, backendDomainId cfg⟩ else ⟨false, 0⟩

theorem find?_placedStates (cfgs : List C) :
    (placedStates configured backendDomainId cfgs).find? (·.functional) =
      (configuredBackends configured backendDomainId cfgs).head?.map fun b => ⟨true, b⟩ := by
  induction cfgs with
  | nil => rfl
  | cons cfg cfgs ih =>
    unfold placedStates configuredBackends at ih ⊢
    by_cases h : configured cfg = true
    · simp [h]
    · simpa [h] using ih

/-- All directories of the list are there, and no other is new. -/
structure DevicesPlaced (domid : UInt32) (kind : DeviceKind) (backends : List UInt32)
    (t t' : XsEntry) : Prop where
  added : DevicesAdded domid (fun kind' b => kind' = kind ∧ b ∈ backends) t t'
  placed : ∀ b ∈ backends, (t'.node (backendDir kind b domid)).isSome

theorem wp_addDevices
    (hadd : ∀ cfg i, configured cfg = true →
      PutsDevice kind (backendDomainId cfg) domid (add cfg i))
    (i : Nat) (cfgs : List C) {s : Shared} (hd : s.root.children.Distinct) :
    wp (addDevices configured backendDomainId add i cfgs (cfgs.map fun _ => ⟨false, 0⟩))
      (fun r s' => r.1 = none →
        DevicesPlaced domid kind (configuredBackends configured backendDomainId cfgs) s.root
          s'.root ∧ r.2 = placedStates configured backendDomainId cfgs) (fun _ => True) s := by
  induction cfgs generalizing i s with
  | nil => exact fun _ => ⟨⟨.refl hd, nofun⟩, rfl⟩
  | cons cfg cfgs ih =>
    simp only [List.map_cons, addDevices]
    by_cases h : configured cfg = true
    · have hbackends : configuredBackends configured backendDomainId (cfg :: cfgs) =
          backendDomainId cfg :: configuredBackends configured backendDomainId cfgs := by
        simp [configuredBackends, h]
      rw [if_pos h, wp_bind, hbackends]
      refine wp_conseq (hadd cfg i h s hd) fun rc s₁ h₁ => ?_
      cases rc with
      | some e => exact nofun
      | none =>
        rw [wp_bind]
        refine wp_conseq (ih (i + 1) h₁.1.distinct) fun r s₂ h₂ => ?_
        obtain ⟨rc, states⟩ := r
        intro hrc
        obtain ⟨hplaced, hstates⟩ := h₂ hrc
        refine ⟨⟨?_, fun b hb => ?_⟩, ?_⟩
        · refine (h₁.1.mono ?_).trans (hplaced.added.mono ?_)
          · rintro _ _ ⟨rfl, rfl⟩
            exact ⟨rfl, List.mem_cons_self⟩
          · exact fun _ _ hr => ⟨hr.1, List.mem_cons_of_mem _ hr.2⟩
        · rcases List.mem_cons.mp hb with rfl | hb
          · exact hplaced.added.kept _ (h₁.2 rfl)
          · exact hplaced.placed b hb
        · rw [placedStates, List.map_cons, if_pos h]
          exact congrArg (_ :: ·) hstates
    · have hbackends : configuredBackends configured backendDomainId (cfg :: cfgs) =
          configuredBackends configured backendDomainId cfgs := by
        simp [configuredBackends, h]
      rw [if_neg h, wp_bind, hbackends]
      refine wp_conseq (ih (i + 1) hd) fun r s₂ h₂ => ?_
      obtain ⟨rc, states⟩ := r
      intro hrc
      obtain ⟨hplaced, hstates⟩ := h₂ hrc
      refine ⟨hplaced, ?_⟩
      rw [placedStates, List.map_cons, if_neg h]
      exact congrArg (_ :: ·) hstates

end Loop

theorem wp_onShared {α : Type} {x : SrvM α} {Q : α → CreateState → Prop} {E : Fault → Prop}
    {w : CreateState} (h : wp x (fun a s => Q a { w with shared := s }) E w.shared) :
    wp (onShared x) Q E w := by
  unfold wp onShared at *
  cases hx : x w.shared with
  | error e =>
    rw [hx] at h
    exact h
  | ok r =>
    rw [hx] at h
    exact h

def BackendConfiguration.backends (cfg : BackendConfiguration) : DeviceKind → List UInt32
  | .vif => configuredBackends (·.configured) (·.backendDomainId) cfg.vifs
  | .vbd => configuredBackends (·.configured) (·.backendDomainId) cfg.disks

def BackendConfiguration.cleared (cfg : BackendConfiguration) : BackendsState :=
  ⟨cfg.vifs.map fun _ => ⟨false, 0⟩, cfg.disks.map fun _ => ⟨false, 0⟩⟩

def BackendConfiguration.placed (cfg : BackendConfiguration) : BackendsState :=
  ⟨placedStates (·.configured) (·.backendDomainId) cfg.vifs,
    placedStates (·.configured) (·.backendDomainId) cfg.disks⟩

section PostCreate
variable {cfg : BackendConfiguration} {domain : ServedDomain} {w : CreateState}

theorem wp_putServedDomain_some (domain : ServedDomain) (w : CreateState) :
    wp (putServedDomain domain)
      (fun r w' => ∀ domain', r = some domain' →
        domain' = { domain with refcount := domain.refcount - 1 } ∧ w' = w) (fun _ => True) w := by
  unfold putServedDomain
  refine wp_ite (fun _ => ?_) (fun _ => ?_)
  · simp only [wp_bind]
    refine wp_conseq (wp_trivial _ w) fun _ w₁ _ => wp_conseq (wp_trivial _ w₁) fun _ w₂ _ => ?_
    refine wp_conseq (wp_trivial _ w₂) fun _ w₃ _ => wp_conseq (wp_trivial _ w₃) fun _ w₄ _ => ?_
    exact wp_conseq (wp_trivial _ w₄) fun _ w₅ _ => nofun
  · rintro domain' h
    cases h
    exact ⟨rfl, rfl⟩

theorem wp_undoPostCreate (domain : ServedDomain) (e : Errno) (w : CreateState) :
    wp (undoPostCreate domain e) (fun r _ => r.1 = some e) (fun _ => True) w := by
  unfold undoPostCreate
  rw [wp_bind]
  refine wp_conseq (wp_trivial _ w) fun r w₁ _ => ?_
  cases r with
  | none => exact rfl
  | some domain =>
    rw [wp_bind]
    exact wp_conseq (wp_trivial _ w₁) fun _ _ _ => rfl

/-- What `domain_post_create` leaves where it succeeds. -/
structure PostCreated (cfg : BackendConfiguration) (domain domain' : ServedDomain)
    (t t' : XsEntry) : Prop where
  xenstore : domain'.xenstore = domain.xenstore
  backState : domain'.backState = cfg.placed
  added : DevicesAdded domain.domid (fun kind b => b ∈ cfg.backends kind) t t'
  placed : ∀ kind, ∀ b ∈ cfg.backends kind, (t'.node (backendDir kind b domain.domid)).isSome

theorem wp_domainPostCreate (hd : w.shared.root.children.Distinct)
    (hfresh : domain.backState = cfg.cleared) :
    wp (domainPostCreate cfg domain)
      (fun r w' => ∀ domain', r = (none, some domain') →
        PostCreated cfg domain domain' w.shared.root w'.shared.root) (fun _ => True) w := by
  unfold domainPostCreate
  rw [wp_bind]
  refine wp_onShared ?_
  have hdisks : domain.getDomain.backState.disks = cfg.disks.map fun _ => ⟨false, 0⟩ := by
    rw [ServedDomain.getDomain, hfresh]
    rfl
  unfold addDisks
  rw [hdisks]
  refine wp_conseq (wp_addDevices (fun disk _ h => puts_pvblock h domain.domid) 0 cfg.disks hd)
    fun r s₁ h₁ => ?_
  obtain ⟨rc, disks⟩ := r
  cases rc with
  | some e =>
    refine wp_conseq (wp_undoPostCreate _ e _) fun r w' hr domain' heq => ?_
    rw [heq] at hr
    cases hr
  | none =>
    obtain ⟨hplaced₁, rfl⟩ := h₁ rfl
    simp only [wp_bind]
    refine wp_onShared ?_
    have hvifs : domain.getDomain.backState.vifs = cfg.vifs.map fun _ => ⟨false, 0⟩ := by
      rw [ServedDomain.getDomain, hfresh]
      rfl
    unfold addVifs
    simp only [hvifs]
    refine wp_conseq (wp_addDevices (fun vif i h => puts_pvnet h domain.domid i) 0 cfg.vifs
      hplaced₁.added.distinct) fun r s₂ h₂ => ?_
    obtain ⟨rc, vifs⟩ := r
    cases rc with
    | some e =>
      refine wp_conseq (wp_undoPostCreate _ e _) fun r w' hr domain' heq => ?_
      rw [heq] at hr
      cases hr
    | none =>
      obtain ⟨hplaced₂, rfl⟩ := h₂ rfl
      simp only [wp_bind]
      refine wp_conseq (wp_putServedDomain_some _ _) fun r w' hr domain' heq => ?_
      cases heq
      obtain ⟨rfl, rfl⟩ := hr _ rfl
      refine ⟨rfl, rfl, ?_, fun kind b hb => ?_⟩
      · refine (hplaced₁.added.mono ?_).trans (hplaced₂.added.mono ?_)
        · rintro _ b ⟨rfl, hb⟩
          exact hb
        · rintro _ b ⟨rfl, hb⟩
          exact hb
      · cases kind with
        | vif => exact hplaced₂.placed b hb
        | vbd => exact hplaced₂.added.kept _ (hplaced₁.placed b hb)

end PostCreate

end Xenlib
