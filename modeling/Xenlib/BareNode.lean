import Xenlib.CreateStore

/-!
The teardown of `xs_initialize_xenstore` when a write left a node without permissions: it stops at
a removal that is to tell a guest of that node.
-/

set_option autoImplicit false

namespace Xenlib

open Keyed Wp

def TellsOf (p q : List CString) (w : WatchEntry) : Prop :=
  w.domain.getD 0 ≠ 0 ∧ ∃ eventPath, watchEventPath w (renderPath p) true = some eventPath ∧
    eventPath.length ≤ xenstoreAbsPathMax ∧ tokens eventPath = q

/-- The node without permissions is one that a removal has to tell a guest of. -/
def Blocked (ps : List (List CString)) (watches : List WatchEntry) (use : Option AllocUse) : Prop :=
  ∃ q, use = some (.perms q) ∧ ∃ p ∈ ps, ∃ w ∈ watches, TellsOf p q w

section Remove
variable {use : Option AllocUse} {p : List CString} {s : Shared}

theorem BareOnly.remove {t : XsEntry} (h : BareOnly use t) (hp : p ≠ [])
    (hd : t.children.Distinct) : BareOnly use (t.remove p) := by
  intro q n hn hperms
  rw [Tree.node_remove hp q hd] at hn
  split at hn
  · cases hn
  · exact h q n hn hperms

theorem wp_xssRm_untold (hp : Removable p) (hq : Quiet s) (hbare : BareOnly use s.root)
    (huntold : ¬ Blocked [p] (linkedWatches s) use) :
    wp (xssRm (some (renderPath p))) (fun _ s' => Undisturbed s s' ∧ s'.allocs <:+ s.allocs ∧
      s'.root = if nextAlloc s then s.root.remove p else s.root) (fun _ => False) s := by
  refine wp_xssRm_spared hp hq fun w hw hmeets => ?_
  obtain ⟨hdom, eventPath, hev, e', hfound, hperms⟩ := hmeets
  obtain ⟨hlen, hnode⟩ := foundEntry_node hfound
  exact huntold ⟨tokens eventPath, hbare _ _ hnode hperms, p, List.mem_singleton_self p, w, hw,
    hdom, eventPath, hev, hlen, rfl⟩

theorem wp_removeAll_untold (ps : List (List CString)) (hps : ∀ p ∈ ps, Removable p)
    (hq : Quiet s) (hd : s.root.children.Distinct) (hallocs : s.allocs = [])
    (hbare : BareOnly use s.root) (huntold : ¬ Blocked ps (linkedWatches s) use) :
    wp (removeAll ps) (fun _ s' => Undisturbed s s' ∧
      s'.root = ps.foldl (fun t p => t.remove p) s.root) (fun _ => False) s := by
  induction ps generalizing s with
  | nil => exact ⟨⟨rfl, rfl, rfl⟩, rfl⟩
  | cons p ps ih =>
    have hp := hps p List.mem_cons_self
    have hfirst : ¬ Blocked [p] (linkedWatches s) use := by
      rintro ⟨q, huse, p', hp', hw⟩
      exact huntold ⟨q, huse, p', List.mem_cons.mpr (Or.inl (List.mem_singleton.mp hp')), hw⟩
    unfold removeAll
    rw [wp_bind]
    refine wp_conseq (wp_xssRm_untold hp hq hbare hfirst) fun _ s₁ h₁ => ?_
    obtain ⟨hu, hrest, hroot⟩ := h₁
    rw [nextAlloc, hallocs] at hroot
    have hremoved : s₁.root = s.root.remove p := hroot
    have hlinked : linkedWatches s₁ = linkedWatches s := by
      rw [linkedWatches, hu.watches]
      rfl
    rw [hallocs, List.suffix_nil] at hrest
    refine wp_conseq (ih (fun q hq => hps q (List.mem_cons_of_mem _ hq)) (hq.undisturbed hu) ?_
      hrest ?_ ?_) fun _ s₂ h₂ => ?_
    · rw [hremoved]
      exact Tree.distinct_remove hd
    · rw [hremoved]
      exact hbare.remove hp.ne_nil hd
    · rw [hlinked]
      rintro ⟨q, huse, p', hp', hw⟩
      exact huntold ⟨q, huse, p', List.mem_cons_of_mem _ hp', hw⟩
    · rw [List.foldl_cons, ← hremoved]
      exact ⟨hu.trans h₂.1, h₂.2⟩

end Remove

section Initialize
variable {domid : UInt32} {name : CString} {numVcpus maxMemKb : Nat} {o : Option Nat} {s : Shared}
  {use : Option AllocUse}

/-- The setup fails exactly where an allocation of a write does, and leaves no trace then. -/
theorem wp_xsInitialize_after (hwf : WellFormed s.root) (hq : Quiet s) (hdirs : DomainDirs s.root)
    (hnone : NoDomain domid s.root) (hallocs : s.allocs = failAfter o)
    (huse : useAt (writeUses domid (linkedWatches s) (nodeWrites domid name numVcpus maxMemKb)
      s.root) o = use)
    (huntold : ¬ Blocked (domainDirs domid) (linkedWatches s) use) :
    wp (xsInitializeXenstore domid name numVcpus maxMemKb) (fun rc s' => Undisturbed s s' ∧
      rc.isSome = use.any AllocUse.ofWrite ∧ (rc.isSome → s'.root = s.root)) (fun _ => False)
      s := by
  have hok := @nodeOk_nodeWrites domid name numVcpus maxMemKb
  have hg : Grown domid s.root s.root := .refl hdirs
  have hlib : LibxlOwned domid s.root := by
    intro e he
    have hgone := hnone (libxlDir domid) (by simp [domainDirs])
    rw [← Tree.view_eq_none] at hgone
    rw [hgone] at he
    cases he
  unfold xsInitializeXenstore
  rw [wp_bind]
  refine wp_mono (wp_and (wp_and (wp_writeNodes _ hok hq hwf hg hlib)
    (wp_writeNodes_after _ hok hq hwf hg hallocs)) (wp_writeNodes_only _ hok hwf.distinct hdirs))
    (fun rc s₁ h => ?_) (fun _ h => h.1.1)
  obtain ⟨⟨⟨-, hu, hgrown, -⟩, hrc, hrest, hbare⟩, honly⟩ := h
  rw [huse] at hrc hbare
  cases rc with
  | none => exact ⟨hu, hrc, fun h => by cases h⟩
  | some e =>
    have hsome : (useAt (writeUses domid (linkedWatches s) (nodeWrites domid name numVcpus maxMemKb)
        s.root) o).isSome = true := by
      rw [huse]
      cases use with
      | none => cases hrc
      | some use => rfl
    rw [useAt_isSome] at hsome
    rw [behind_of_within hsome] at hrest
    have hlinked : linkedWatches s₁ = linkedWatches s := by
      rw [linkedWatches, hu.watches]
      rfl
    rw [wp_bind, xsDeinitialize_eq]
    refine wp_conseq (wp_removeAll_untold _ (removable_domainDirs domid)
      (hq.undisturbed hu) honly.distinct hrest (hbare rfl) (by rwa [hlinked])) fun _ s₂ h₂ => ?_
    refine ⟨hu.trans h₂.1, hrc, fun _ => h₂.2.trans ?_⟩
    exact hgrown.without.trans (withoutDomain_of_none hnone)

end Initialize

end Xenlib
