import Xenlib.BackendRemoval

/-!
`xs_initialize_xenstore` and `xs_deinitialize_domain_xenstore`. All that the writes add lies in
the three directories of the domain, and the removals take these away; a removal that finds no
memory to copy its path takes nothing away, and nobody is told.
-/

set_option autoImplicit false

namespace Xenlib

open Keyed Wp

theorem digitsValue_zeroPadded (width n : Nat) : digitsValue (zeroPadded width n) = n := by
  have hzeros (k : Nat) : (ascii (List.replicate k '0')).foldl
      (fun n d => 10 * n + (d.val.toNat - 48)) 0 = 0 := by
    induction k with
    | zero => rfl
    | succ k ih => exact ih
  rw [digitsValue, zeroPadded, List.foldl_append, hzeros]
  exact digitsValue_decimal n

theorem zeroPadded_isDigit {width n : Nat} {c : CChar} (h : c ∈ zeroPadded width n) :
    isDigit c = true := by
  rcases List.mem_append.mp h with h | h
  · obtain ⟨d, hd, heq⟩ := List.mem_filterMap.mp h
    rw [(List.mem_replicate.mp hd).2] at heq
    rw [← Option.some.inj heq]
    decide
  · exact decimal_isDigit h

theorem zeroPadded_ne_minus (width n : Nat) (cs : CString) :
    zeroPadded width n ≠ cstr "-" ++ cs := by
  intro h
  have hmem : (⟨45, by decide⟩ : CChar) ∈ zeroPadded width n := by
    rw [h]
    exact List.mem_append_left _ (by decide)
  exact absurd (zeroPadded_isDigit hmem) (by decide)

theorem uuidOf_injective {n m : UInt32} (h : uuidOf n = uuidOf m) : n = m := by
  have hn := n.toNat_lt
  have hm := m.toNat_lt
  rw [← UInt32.toNat_inj]
  have hpad : paddedInt n = paddedInt m := List.append_cancel_left h
  unfold paddedInt at hpad
  split at hpad <;> split at hpad
  · rw [← digitsValue_zeroPadded 12 n.toNat, hpad, digitsValue_zeroPadded]
  · exact absurd hpad (zeroPadded_ne_minus _ _ _)
  · exact absurd hpad.symm (zeroPadded_ne_minus _ _ _)
  · have hval := congrArg digitsValue (List.append_cancel_left hpad)
    rw [digitsValue_zeroPadded, digitsValue_zeroPadded] at hval
    omega

theorem head_unique {a b : CString} {as bs q : List CString} (ha : a :: as <+: q)
    (hb : b :: bs <+: q) : a = b := by
  cases q with
  | nil => cases List.prefix_nil.mp ha
  | cons c q =>
    rw [(List.cons_prefix_cons.mp ha).1, (List.cons_prefix_cons.mp hb).1]

theorem OfDomain.unique {domid other : UInt32} {q : List CString} (h : OfDomain domid q)
    (h' : OfDomain other q) : domid = other := by
  have hsame {a b : List CString} (ha : a <+: q) (hb : b <+: q) (hlen : a.length = b.length) :
      a = b :=
    (List.prefix_of_prefix_length_le ha hb hlen.le).eq_of_length hlen
  have hlv : cstr "local" ≠ cstr "vm" := by decide
  have hlx : cstr "local" ≠ cstr "libxl" := by decide
  have hvx : cstr "vm" ≠ cstr "libxl" := by decide
  rcases h with h | h | h <;> rcases h' with h' | h' | h'
  · have heq := hsame h h' rfl
    simp only [localDomainDir, List.cons.injEq, and_true, true_and] at heq
    exact decimalInt_injective heq
  · exact absurd (head_unique h h') hlv
  · exact absurd (head_unique h h') hlx
  · exact absurd (head_unique h' h) hlv
  · have heq := hsame h h' rfl
    simp only [vmDir, List.cons.injEq, and_true, true_and] at heq
    exact uuidOf_injective heq
  · exact absurd (head_unique h h') hvx
  · exact absurd (head_unique h' h) hlx
  · exact absurd (head_unique h' h) hvx
  · have heq := hsame h h' rfl
    simp only [libxlDir, List.cons.injEq, and_true, true_and] at heq
    exact decimalInt_injective heq

/-- Only nodes of the domain were changed. -/
structure OnlyDomain (domid : UInt32) (t t' : XsEntry) : Prop where
  distinct : t'.children.Distinct
  dirs : DomainDirs t'
  others : ∀ q, ¬ OfDomain domid q → t'.node q = t.node q

section Only
variable {domid : UInt32} {t t' t'' : XsEntry} {s : Shared}

theorem OnlyDomain.refl (hd : t.children.Distinct) (hdirs : DomainDirs t) :
    OnlyDomain domid t t := ⟨hd, hdirs, fun _ _ => rfl⟩

theorem OnlyDomain.trans (h : OnlyDomain domid t t') (h' : OnlyDomain domid t' t'') :
    OnlyDomain domid t t'' :=
  ⟨h'.distinct, h'.dirs, fun q hq => (h'.others q hq).trans (h.others q hq)⟩

theorem DomainDirs.of_node (h : DomainDirs t)
    (hsame : ∀ q, ¬ OfDomain domid q → t'.node q = t.node q) : DomainDirs t' := by
  have hkept {q : List CString} (hq : ¬ OfDomain domid q) (hsome : (t.lookup q).isSome) :
      (t'.lookup q).isSome := by
    have hnode := hsame q hq
    rw [Keyed.Tree.node, Keyed.Tree.node] at hnode
    rw [← Option.isSome_map (f := Tree.label), hnode, Option.isSome_map]
    exact hsome
  have hshort {q : List CString} (hlen : q.length ≤ 2) (hv : ¬ vmDir domid <+: q)
      (hx : ¬ libxlDir domid <+: q) : ¬ OfDomain domid q := by
    rintro (h | h | h)
    · have hle := h.length_le
      simp [localDomainDir] at hle
      omega
    · exact hv h
    · exact hx h
  refine ⟨hkept (hshort (Nat.le_refl 2) ?_ ?_) h.domains, hkept (hshort (by simp) ?_ ?_) h.vm,
    hkept (hshort (by simp) ?_ ?_) h.libxl⟩
  · exact fun hv => absurd (List.cons_prefix_cons.mp hv).1 (by decide)
  · exact fun hx => absurd (List.cons_prefix_cons.mp hx).1 (by decide)
  · exact fun hv => absurd hv.length_le (by simp [vmDir])
  · exact fun hx => absurd hx.length_le (by simp [libxlDir])
  · exact fun hv => absurd hv.length_le (by simp [vmDir])
  · exact fun hx => absurd hx.length_le (by simp [libxlDir])

theorem OfDomain.of_missing {p q : List CString} (hdirs : DomainDirs t) (hp : OfDomain domid p)
    (hpre : q <+: p) (hq : t.node q = none) : OfDomain domid q := by
  obtain ⟨rest, rfl⟩ := hpre
  rcases List.eq_nil_or_concat q with rfl | ⟨r, k, rfl⟩
  · cases hq
  · rw [List.concat_eq_append] at hp hq ⊢
    refine @OfDomain.missing _ _ r rest k hdirs ?_ (lookup_eq_none_iff.mpr hq)
    rwa [List.append_assoc] at hp

theorem NodeWritten.onlyDomain {p : List CString} {value : CString} {rc : Option Errno}
    (h : NodeWritten p value rc t t') (hdirs : DomainDirs t) (hp : OfDomain domid p) :
    OnlyDomain domid t t' := by
  have hothers : ∀ q, ¬ OfDomain domid q → t'.node q = t.node q := by
    intro q hq
    cases hn : t.node q with
    | some n =>
      obtain ⟨n', hn', heq⟩ := h.kept q n hn
      rcases heq with rfl | ⟨rfl, -⟩
      · exact hn'
      · exact absurd hp hq
    | none =>
      cases hn' : t'.node q with
      | none => rfl
      | some n' => exact absurd (hp.of_missing hdirs (h.added q n' hn hn').1 hn) hq
  exact ⟨h.distinct, hdirs.of_node hothers, hothers⟩

theorem wp_writeNodes_only (ws : List NodeWrite) (hws : ∀ w ∈ ws, NodeOk domid w)
    (hd : s.root.children.Distinct) (hdirs : DomainDirs s.root) :
    wp (writeNodes domid ws) (fun _ s' => OnlyDomain domid s.root s'.root) (fun _ => True) s := by
  induction ws generalizing s with
  | nil => exact .refl hd hdirs
  | cons w ws ih =>
    have hw := hws w List.mem_cons_self
    have hne := hw.ofDomain.ne_nil
    unfold writeNodes
    rw [wp_bind, NodeWrite.run_eq]
    refine wp_conseq (wp_xssWriteWith_nodes hw.components hne hd) fun rc s₁ h₁ => ?_
    have honly := h₁.onlyDomain hdirs hw.ofDomain
    cases rc with
    | some e => exact honly
    | none =>
      refine wp_conseq (ih (fun v hv => hws v (List.mem_cons_of_mem _ hv)) honly.distinct
        honly.dirs) fun rc s₂ h₂ => ?_
      exact honly.trans h₂

theorem wp_xsDeinitialize_only (hd : s.root.children.Distinct) (hdirs : DomainDirs s.root) :
    wp (xsDeinitializeDomainXenstore domid) (fun _ s' => OnlyDomain domid s.root s'.root)
      (fun _ => True) s := by
  rw [xsDeinitialize_eq]
  refine wp_conseq (wp_removeAll_swept _ [] (removable_domainDirs domid) hd) fun _ s' h => ?_
  have hothers : ∀ q, ¬ OfDomain domid q → s'.root.node q = s.root.node q := by
    intro q hq
    refine h.1.cut.same ?_
    simp only [domainDirs, List.forall_mem_cons]
    exact ⟨fun h => hq (Or.inl h), fun h => hq (Or.inr (Or.inl h)),
      fun h => hq (Or.inr (Or.inr h)), List.forall_mem_nil _⟩
  exact ⟨h.1.cut.distinct, hdirs.of_node hothers, hothers⟩

theorem wp_xsInitialize_only (name : CString) (numVcpus maxMemKb : Nat)
    (hd : s.root.children.Distinct) (hdirs : DomainDirs s.root) :
    wp (xsInitializeXenstore domid name numVcpus maxMemKb)
      (fun _ s' => OnlyDomain domid s.root s'.root) (fun _ => True) s := by
  unfold xsInitializeXenstore
  rw [wp_bind]
  refine wp_conseq (wp_writeNodes_only _ (nodeOk_nodeWrites name numVcpus maxMemKb) hd hdirs)
    fun rc s₁ h₁ => ?_
  cases rc with
  | none => exact h₁
  | some e =>
    rw [wp_bind]
    refine wp_conseq (wp_xsDeinitialize_only h₁.distinct h₁.dirs) fun _ s₂ h₂ => ?_
    exact h₁.trans h₂

end Only

/-- The store has none of the three directories of the domain. -/
def NoDomain (domid : UInt32) (t : XsEntry) : Prop := ∀ p ∈ domainDirs domid, t.lookup p = none

section Undone
variable {domid : UInt32} {name : CString} {numVcpus maxMemKb : Nat} {t : XsEntry}
  {s s₁ s₂ s₃ : Shared}

theorem withoutDomain_of_none (h : NoDomain domid t) : withoutDomain domid t = t := by
  unfold NoDomain domainDirs at h
  simp only [List.forall_mem_cons] at h
  rw [withoutDomain, Tree.remove_eq_self h.1, Tree.remove_eq_self h.2.1,
    Tree.remove_eq_self h.2.2.1]

/-- The teardown brings the store back exactly when it can afford its removals. -/
theorem wp_xsDeinitialize_exact (hnone : NoDomain domid t) (hg : Grown domid t s.root)
    (hq : Quiet s) (hwf : WellFormed s.root) :
    wp (xsDeinitializeDomainXenstore domid)
      (fun _ s' => Undisturbed s s' ∧ (s'.root = t ↔ Afforded (domainDirs domid) s))
      (fun _ => False) s := by
  rw [xsDeinitialize_eq]
  refine wp_conseq (wp_removeAll _ (removable_domainDirs domid) (apart_domainDirs domid) hq
    hwf.permsOk hwf.distinct) fun _ s' h => ?_
  obtain ⟨hu, -, hfold, hgone⟩ := h
  refine ⟨hu, ?_⟩
  constructor
  · rintro rfl
    exact hgone hnone
  · intro haff
    rw [hfold haff]
    exact hg.without.trans (withoutDomain_of_none hnone)

theorem writeNodes_append {before : List NodeWrite} (after : List NodeWrite)
    (h : writeNodes domid before s = .ok (none, s₁)) :
    writeNodes domid (before ++ after) s = writeNodes domid after s₁ := by
  induction before generalizing s with
  | nil =>
    cases h
    rfl
  | cons w before ih =>
    obtain ⟨rc, s', hw, h⟩ := bind_ok_iff.mp h
    cases rc with
    | some e => cases h
    | none =>
      rw [List.cons_append]
      simp only [writeNodes, bind, StateT.bind, Except.bind, hw]
      exact ih h

theorem xsInitialize_written
    (h : xsInitializeXenstore domid name numVcpus maxMemKb s = .ok (none, s₁)) :
    writeNodes domid (nodeWrites domid name numVcpus maxMemKb) s = .ok (none, s₁) := by
  obtain ⟨rc, s', hw, h⟩ := bind_ok_iff.mp h
  cases rc with
  | none =>
    cases h
    exact hw
  | some e =>
    obtain ⟨_, s'', -, h⟩ := bind_ok_iff.mp h
    cases h

theorem xsInitialize_failed {e : Errno}
    (hw : writeNodes domid (nodeWrites domid name numVcpus maxMemKb) s = .ok (some e, s₂))
    (hd : xsDeinitializeDomainXenstore domid s₂ = .ok ((), s₃)) :
    xsInitializeXenstore domid name numVcpus maxMemKb s = .ok (some e, s₃) :=
  bind_ok_iff.mpr ⟨some e, s₂, hw, bind_ok_iff.mpr ⟨(), s₃, hd, rfl⟩⟩

end Undone

/-- Whether all writes succeed or one of them fails and leaves the tree as it was, the store is
the original one exactly when the removals find the memory they need. Nodes of other domains
stay as they are in every case. -/
theorem initialize_undone (domid : UInt32) (name : CString) (numVcpus maxMemKb : Nat) (s : Shared)
    (hwf : WellFormed s.root) (hq : Quiet s) (hdirs : DomainDirs s.root)
    (hnone : NoDomain domid s.root) :
    (∃ rc s₁, writeNodes domid (nodeWrites domid name numVcpus maxMemKb) s = .ok (rc, s₁)) ∧
    (∀ s₁, xsInitializeXenstore domid name numVcpus maxMemKb s = .ok (none, s₁) →
      ∃ s₂, xsDeinitializeDomainXenstore domid s₁ = .ok ((), s₂) ∧
        (s₂.root = s.root ↔ Afforded (domainDirs domid) s₁)) ∧
    (∀ before w after s₁ e s₂, nodeWrites domid name numVcpus maxMemKb = before ++ w :: after →
      writeNodes domid before s = .ok (none, s₁) → w.run domid s₁ = .ok (some e, s₂) →
      s₂.root = s₁.root →
      ∃ s₃, xsInitializeXenstore domid name numVcpus maxMemKb s = .ok (some e, s₃) ∧
        (s₃.root = s.root ↔ Afforded (domainDirs domid) s₂)) ∧
    ∀ other, other ≠ domid → ∀ q, OfDomain other q → ∀ rc s₁,
      xsInitializeXenstore domid name numVcpus maxMemKb s = .ok (rc, s₁) →
      s₁.root.node q = s.root.node q ∧
      ∀ s₂, xsDeinitializeDomainXenstore domid s₁ = .ok ((), s₂) →
        s₂.root.node q = s.root.node q := by
  have hok := @nodeOk_nodeWrites domid name numVcpus maxMemKb
  have hg : Grown domid s.root s.root := .refl hdirs
  have hlib : LibxlOwned domid s.root := by
    intro e he
    have hgone := hnone (libxlDir domid) (by simp [domainDirs])
    rw [← Tree.view_eq_none] at hgone
    rw [hgone] at he
    cases he
  have hwrites (ws : List NodeWrite) (hws : ∀ w ∈ ws, NodeOk domid w) :=
    wp_writeNodes ws hws hq hwf hg hlib
  refine ⟨?_, fun s₁ hinit => ?_, fun before w after s₁ e s₂ hsplit hbefore hrun hroot => ?_,
    fun other hother q hofq rc s₁ hinit => ?_⟩
  · obtain ⟨rc, s₁, hrun, -⟩ := wp_total (hwrites _ hok)
    exact ⟨rc, s₁, hrun⟩
  · obtain ⟨-, hu, hgrown, hdone⟩ := wp_ok (hwrites _ hok) (xsInitialize_written hinit)
    obtain ⟨⟨⟩, s₂, hrm, -, hiff⟩ := wp_total (wp_xsDeinitialize_exact hnone hgrown
      (hq.undisturbed hu) (hdone rfl).wellFormed)
    exact ⟨s₂, hrm, hiff⟩
  · have hmem : ∀ v ∈ before, NodeOk domid v := fun v hv =>
      hok v (by rw [hsplit]; exact List.mem_append_left _ hv)
    have hw : NodeOk domid w := hok w (by rw [hsplit]; simp)
    obtain ⟨-, hu, hgrown, hdone⟩ := wp_ok (hwrites before hmem) hbefore
    have hq₁ := hq.undisturbed hu
    have hwf₁ := (hdone rfl).wellFormed
    obtain ⟨-, hu₂, hgrown₂, -⟩ :=
      wp_ok (wp_nodeWrite hq₁ hwf₁ hgrown hw.components hw.ofDomain) hrun
    obtain ⟨⟨⟩, s₃, hrm, -, hiff⟩ := wp_total (wp_xsDeinitialize_exact hnone hgrown₂
      (hq₁.undisturbed hu₂) (by rw [hroot]; exact hwf₁))
    have hfailed : writeNodes domid (nodeWrites domid name numVcpus maxMemKb) s =
        .ok (some e, s₂) := by
      rw [hsplit, writeNodes_append _ hbefore]
      exact bind_ok_iff.mpr ⟨some e, s₂, hrun, rfl⟩
    exact ⟨s₃, xsInitialize_failed hfailed hrm, hiff⟩
  · have hothers : ¬ OfDomain domid q := fun h => hother (hofq.unique h)
    have honly := wp_ok (wp_xsInitialize_only name numVcpus maxMemKb hwf.distinct hdirs) hinit
    refine ⟨honly.others q hothers, fun s₂ hrm => ?_⟩
    have hrest := wp_ok (wp_xsDeinitialize_only honly.distinct honly.dirs) hrm
    exact (hrest.others q hothers).trans (honly.others q hothers)

/-- A store with the three directories and no domain, and so much memory. -/
def threeDirs (allocs : List Bool) : Shared :=
  { Shared.boot 4 with
    root := ⟨⟨none, [⟨0, .none⟩]⟩,
      .cons (cstr "local") ⟨none, [⟨0, .none⟩]⟩
        (.cons (cstr "domain") ⟨none, [⟨0, .none⟩]⟩ .nil .nil)
        (.cons (cstr "vm") ⟨none, [⟨0, .none⟩]⟩ .nil
          (.cons (cstr "libxl") ⟨none, [⟨0, .none⟩]⟩ .nil .nil))⟩
    allocs := allocs }

theorem threeDirs_wellFormed (allocs : List Bool) : WellFormed (threeDirs allocs).root := by
  have hroot : WellFormed (threeDirs []).root := ⟨by decide, by decide, by decide⟩
  exact hroot

theorem threeDirs_quiet (allocs : List Bool) : Quiet (threeDirs allocs) := ⟨nofun, nofun⟩

theorem threeDirs_dirs (allocs : List Bool) : DomainDirs (threeDirs allocs).root :=
  ⟨rfl, rfl, rfl⟩

theorem threeDirs_noDomain (allocs : List Bool) : NoDomain 1 (threeDirs allocs).root := by
  have hnone : ∀ p ∈ domainDirs 1, (threeDirs []).root.lookup p = none := by decide
  exact hnone

/-- The setup and the teardown of a domain with one vcpu, and the states after them. -/
def setupTeardown (s : Shared) : Option (Option Errno × Shared × Shared) :=
  match xsInitializeXenstore 1 (cstr "a") 1 65536 s with
  | .ok (rc, s₁) =>
    match xsDeinitializeDomainXenstore 1 s₁ with
    | .ok (_, s₂) => some (rc, s₁, s₂)
    | .error _ => none
  | .error _ => none

theorem setupTeardown_spec {s s₁ s₂ : Shared} {rc : Option Errno}
    (h : setupTeardown s = some (rc, s₁, s₂)) :
    xsInitializeXenstore 1 (cstr "a") 1 65536 s = .ok (rc, s₁) ∧
      xsDeinitializeDomainXenstore 1 s₁ = .ok ((), s₂) := by
  unfold setupTeardown at h
  split at h
  · rename_i hinit
    split at h
    · rename_i hrm
      cases h
      exact ⟨hinit, hrm⟩
    · cases h
  · cases h

/-- With memory at hand the domain comes and goes without a trace. -/
theorem initialize_undone_one : ∃ s₁ s₂,
    xsInitializeXenstore 1 (cstr "a") 1 65536 (threeDirs []) = .ok (none, s₁) ∧
      xsDeinitializeDomainXenstore 1 s₁ = .ok ((), s₂) ∧ s₂.root = (threeDirs []).root := by
  have hrun : (setupTeardown (threeDirs [])).any (fun r =>
      r.1.isNone && !r.2.1.allocs.contains false) = true := by decide +kernel
  obtain ⟨⟨rc, s₁, s₂⟩, hsome, hdone⟩ := (Option.any_eq_true _ _).mp hrun
  obtain ⟨hinit, hrm⟩ := setupTeardown_spec hsome
  simp only [Bool.and_eq_true, Option.isNone_iff_eq_none, Bool.not_eq_true',
    List.contains_eq_mem, decide_eq_false_iff_not] at hdone
  obtain ⟨rfl, hmem⟩ := hdone
  have hall := initialize_undone 1 (cstr "a") 1 65536 (threeDirs []) (threeDirs_wellFormed [])
    (threeDirs_quiet []) (threeDirs_dirs []) (threeDirs_noDomain [])
  obtain ⟨s₂', hrm', hiff⟩ := hall.2.1 s₁ hinit
  rw [hrm] at hrm'
  cases hrm'
  exact ⟨s₁, s₂, hinit, hrm, hiff.mpr (afforded_of_granted _ (removable_domainDirs 1) hmem)⟩

/-- All writes succeed, but the first removal finds no memory to copy its path. -/
theorem removal_without_memory :
    ¬ ∀ (domid : UInt32) (name : CString) (numVcpus maxMemKb : Nat) (s s₁ s₂ : Shared),
      WellFormed s.root → Quiet s → DomainDirs s.root → NoDomain domid s.root →
      xsInitializeXenstore domid name numVcpus maxMemKb s = .ok (none, s₁) →
      xsDeinitializeDomainXenstore domid s₁ = .ok ((), s₂) → s₂.root = s.root := by
  intro h
  have hrun : (setupTeardown (threeDirs (List.replicate 180 true ++ [false]))).any (fun r =>
      r.1.isNone && (r.2.2.root.lookup (localDomainDir 1)).isSome) = true := by decide +kernel
  obtain ⟨⟨rc, s₁, s₂⟩, hsome, hleft⟩ := (Option.any_eq_true _ _).mp hrun
  obtain ⟨hinit, hrm⟩ := setupTeardown_spec hsome
  simp only [Bool.and_eq_true, Option.isNone_iff_eq_none] at hleft
  obtain ⟨rfl, hleft⟩ := hleft
  have hroot := h 1 (cstr "a") 1 65536 _ s₁ s₂ (threeDirs_wellFormed _) (threeDirs_quiet _)
    (threeDirs_dirs _) (threeDirs_noDomain _) hinit hrm
  rw [hroot, threeDirs_noDomain _ _ List.mem_cons_self] at hleft
  cases hleft

end Xenlib
