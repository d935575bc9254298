import Xenlib.Teardown

/-!
What is left of the devices of a domain. `domain_post_create` makes a directory below every
domain that serves a device, `xs_remove_xenstore_backends` removes the one of the first device of
each kind.
-/

set_option autoImplicit false

namespace Xenlib

open Keyed Wp

/-- No domain has a directory for the devices of `domid`. -/
def NoBackends (domid : UInt32) (root : XsEntry) : Prop :=
  ∀ kind b, root.lookup (backendDir kind b domid) = none

theorem removable_teardown (cfg : BackendConfiguration) (domid : UInt32) :
    ∀ p ∈ firstDirs cfg domid ++ [localDomainDir domid], Removable p := by
  intro p hp
  rcases List.mem_append.mp hp with hp | hp
  · exact removable_firstDirs p hp
  · rw [List.mem_singleton.mp hp]
    exact removable_domainDirs domid _ List.mem_cons_self

/-- When a domain is destroyed after a `domain_post_create` that has succeeded, no backend keeps a
directory for it only if the teardown reaches them all, and whenever it does and its removals
find memory. The second part says when `put_domain` returns. -/
theorem backends_removed (cfg : BackendConfiguration) (domain domain' : ServedDomain)
    (w₀ w₁ : CreateState) (hwf : WellFormed w₀.shared.root)
    (hclean : NoBackends domain.domid w₀.shared.root) (hfresh : domain.backState = cfg.cleared)
    (hpost : domainPostCreate cfg domain w₀ = .ok ((none, some domain'), w₁)) :
    (∀ w₂, putServedDomain { domain' with refcount := 1 } w₁ = .ok (none, w₂) →
      (NoBackends domain.domid w₂.shared.root →
        AllBackendsReached cfg domain.domid w₁.shared.root) ∧
      (AllBackendsReached cfg domain.domid w₁.shared.root →
        TeardownAfforded cfg domain.domid w₁.shared → NoBackends domain.domid w₂.shared.root)) ∧
    (Quiet w₁.shared → Held domain' w₁ → Sheltered cfg domain.domid w₁.shared.root →
      Spared (linkedWatches w₁.shared) (firstDirs cfg domain.domid) w₁.shared.root →
      TeardownAfforded cfg domain.domid w₁.shared →
      ∃ w₂, putServedDomain { domain' with refcount := 1 } w₁ = .ok (none, w₂)) := by
  have hcreated := wp_ok (wp_domainPostCreate hwf.distinct hfresh) hpost domain' rfl
  have hdomid : ServedDomain.domid { domain' with refcount := 1 } = domain.domid := by
    rw [ServedDomain.domid, hcreated.xenstore]
    rfl
  have hlast : (1 : BitVec 32) - 1 = 0 := by decide
  refine ⟨fun w₂ hput => ?_, fun hq hheld hbare hspared haff => ?_⟩
  · have hdown := wp_ok (@wp_putServedDomain_last cfg { domain' with refcount := 1 } w₁
      hcreated.backState hcreated.added.distinct) hput rfl
    rw [hdomid] at hdown
    constructor
    · intro hnone kind b hb
      by_contra hr
      have hleft := hdown.survives (hcreated.placed kind b hb) hr
      rw [lookup_eq_none_iff.mp (hnone kind b)] at hleft
      cases hleft
    · intro hreached haff kind b
      rw [lookup_eq_none_iff]
      by_cases hb : b ∈ cfg.backends kind
      · exact hdown.gone haff (hreached kind b hb)
      · refine hdown.absent ?_
        rw [← Option.not_isSome_iff_eq_none]
        intro hsome
        rcases hcreated.added.dirs kind b hsome with hold | hnew
        · rw [lookup_eq_none_iff.mp (hclean kind b)] at hold
          cases hold
        · exact hb hnew
  · rw [← hdomid] at hbare hspared haff
    obtain ⟨r, w₂, hput, rfl⟩ := wp_total (@wp_putServedDomain_returns cfg
      { domain' with refcount := 1 } w₁ hcreated.backState hlast ⟨hheld.store, hheld.console⟩
      hq hcreated.added.distinct hbare hspared (afforded_left haff))
    exact ⟨w₂, hput⟩

/-- The domain with its devices and the states before and after it is destroyed. -/
def createAndDestroy (cfg : BackendConfiguration) (domain : ServedDomain) (w : CreateState) :
    Option (ServedDomain × CreateState × CreateState) :=
  match domainPostCreate cfg domain w with
  | .ok ((none, some domain'), w₁) =>
    match putServedDomain { domain' with refcount := 1 } w₁ with
    | .ok (none, w₂) => some (domain', w₁, w₂)
    | _ => none
  | _ => none

theorem createAndDestroy_spec {cfg : BackendConfiguration} {domain domain' : ServedDomain}
    {w w₁ w₂ : CreateState} (h : createAndDestroy cfg domain w = some (domain', w₁, w₂)) :
    domainPostCreate cfg domain w = .ok ((none, some domain'), w₁) ∧
      putServedDomain { domain' with refcount := 1 } w₁ = .ok (none, w₂) := by
  unfold createAndDestroy at h
  split at h
  · rename_i hpost
    split at h
    · rename_i hput
      cases h
      exact ⟨hpost, hput⟩
    · cases h
  · cases h

/-- A new domain with two network interfaces, and a store without nodes. -/
def servedDomain : ServedDomain :=
  ⟨1, ⟨[⟨false, 0⟩, ⟨false, 0⟩], []⟩, idleClient 3, 5, ⟨0, 6⟩⟩

def twoVifs (b b' : UInt32) : BackendConfiguration :=
  ⟨[⟨true, b, [], cstr "08:00:27:ff:cb:ce", cstr "xenbr0", cstr "vif", []⟩,
    ⟨true, b', [], cstr "08:00:27:ff:cb:cf", cstr "xenbr0", cstr "vif", []⟩], []⟩

def noNodes : CreateState :=
  ⟨{ Shared.boot 4 with root := ⟨⟨none, [⟨0, .none⟩]⟩, .nil⟩, usedThreads := 1 },
    ⟨[], [], 0, []⟩, 1, [], []⟩

theorem noNodes_wellFormed : WellFormed noNodes.shared.root := ⟨by decide, trivial, trivial⟩

theorem noNodes_noBackends (domid : UInt32) : NoBackends domid noNodes.shared.root :=
  fun _ _ => rfl

/-- The interfaces are served by domains 1 and 2: the directory at domain 2 is left. -/
theorem second_backend_left :
    ¬ ∀ (cfg : BackendConfiguration) (domain domain' : ServedDomain) (w₀ w₁ w₂ : CreateState),
      WellFormed w₀.shared.root → NoBackends domain.domid w₀.shared.root →
      domain.backState = cfg.cleared →
      domainPostCreate cfg domain w₀ = .ok ((none, some domain'), w₁) →
      false ∉ w₁.shared.allocs →
      putServedDomain { domain' with refcount := 1 } w₁ = .ok (none, w₂) →
      NoBackends domain.domid w₂.shared.root := by
  intro h
  have hrun : (createAndDestroy (twoVifs 1 2) servedDomain noNodes).any (fun r =>
      !r.2.1.shared.allocs.contains false &&
        (r.2.2.shared.root.lookup (backendDir .vif 2 3)).isSome) = true := by decide +kernel
  obtain ⟨⟨domain', w₁, w₂⟩, hsome, hleft⟩ := (Option.any_eq_true _ _).mp hrun
  obtain ⟨hpost, hput⟩ := createAndDestroy_spec hsome
  simp only [Bool.and_eq_true, Bool.not_eq_true', List.contains_eq_mem, decide_eq_false_iff_not]
    at hleft
  have hnone := h (twoVifs 1 2) servedDomain domain' noNodes w₁ w₂ noNodes_wellFormed
    (noNodes_noBackends _) rfl hpost hleft.1 hput .vif 2
  rw [show servedDomain.domid = 3 from rfl] at hnone
  rw [hnone] at hleft
  cases hleft.2

/-- Both interfaces are served by domain 1. -/
theorem backends_removed_one : ∃ domain' w₁ w₂,
    domainPostCreate (twoVifs 1 1) servedDomain noNodes = .ok ((none, some domain'), w₁) ∧
      putServedDomain { domain' with refcount := 1 } w₁ = .ok (none, w₂) ∧
      NoBackends 3 w₂.shared.root := by
  have hrun : (createAndDestroy (twoVifs 1 1) servedDomain noNodes).any (fun r =>
      !r.2.1.shared.allocs.contains false && r.2.1.shared.watches.isEmpty &&
      (r.2.1.shared.domuMax = 4 && r.1.xenstore.xsStackSlot = 0 && r.1.console.slot = 0 &&
        bitSet r.2.1.shared.usedThreads 0 && bitSet r.2.1.consoleThreads 0) &&
      (r.2.1.shared.root.label.perms ≠ [] &&
        r.2.1.shared.root.children.All fun _ n => n.perms ≠ [])) = true := by decide +kernel
  obtain ⟨⟨domain', w₁, w₂⟩, hsome, hstate⟩ := (Option.any_eq_true _ _).mp hrun
  simp only [Bool.and_eq_true, Bool.not_eq_true', List.contains_eq_mem, decide_eq_false_iff_not,
    decide_eq_true_eq, List.isEmpty_iff] at hstate
  obtain ⟨⟨⟨hmem, hwatches⟩, ⟨⟨⟨hmax, hslot⟩, hconsole⟩, hbit⟩, hbit'⟩, hperms⟩ := hstate
  have hok : PermsOk w₁.shared.root := hperms
  have hquiet : Quiet w₁.shared := by
    constructor
    · rw [hwatches]
      nofun
    · rw [hwatches]
      nofun
  have hheld : Held domain' w₁ := by
    refine ⟨⟨?_, ?_⟩, ?_, ?_⟩
    · rw [hmax, hslot]
      decide
    · rw [hslot]
      exact hbit
    · rw [hmax, hconsole]
      decide
    · rw [hconsole]
      exact hbit'
  have haff := afforded_of_granted _ (removable_teardown (twoVifs 1 1) 3) hmem
  obtain ⟨hpost, -⟩ := createAndDestroy_spec hsome
  have hall := backends_removed (twoVifs 1 1) servedDomain domain' noNodes w₁ noNodes_wellFormed
    (noNodes_noBackends _) rfl hpost
  obtain ⟨w₃, hput⟩ := hall.2 hquiet hheld hok.sheltered (hok.spared _) haff
  refine ⟨domain', w₁, w₃, hpost, hput, (hall.1 w₃ hput).2 (fun kind b hb => Or.inl ?_) haff⟩
  cases kind with
  | vif =>
    have hb : b ∈ ([1, 1] : List UInt32) := hb
    have hone : b = 1 := by simpa using hb
    rw [hone]
    rfl
  | vbd => cases hb

end Xenlib
