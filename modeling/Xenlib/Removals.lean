import Xenlib.DeviceNodes
import Xenlib.Notification

/-!
The removals of a teardown. Each takes its node away unless the copy of the path finds no memory,
and on the way to that it tells the watches. `check_perms` reads the first permission of a node
for a guest, so that the notification stops at a node that a failed write has left without any.
-/

set_option autoImplicit false

namespace Xenlib

open Keyed Wp

theorem lookup_eq_none_iff {t : XsEntry} {q : List CString} :
    t.lookup q = none ↔ t.node q = none := by
  rw [Keyed.Tree.node, Option.map_eq_none_iff]

/-- Nodes are taken out of the tree, all of them at or below one of the paths. -/
structure Cut (ps : List (List CString)) (t t' : XsEntry) : Prop where
  distinct : t'.children.Distinct
  nodes : ∀ q, t'.node q = t.node q ∨ t'.node q = none ∧ ∃ p ∈ ps, p <+: q

section Cut
variable {ps ps' : List (List CString)} {p q : List CString} {t t' t'' : XsEntry}

theorem Cut.refl (h : t.children.Distinct) : Cut ps t t := ⟨h, fun _ => Or.inl rfl⟩

theorem Cut.remove (hp : p ≠ []) (h : t.children.Distinct) : Cut [p] t (t.remove p) where
  distinct := Tree.distinct_remove h
  nodes q := by
    rw [Tree.node_remove hp q h]
    by_cases hpre : p <+: q
    · exact Or.inr ⟨if_pos hpre, p, List.mem_singleton_self p, hpre⟩
    · exact Or.inl (if_neg hpre)

theorem Cut.gone (h : Cut ps t t') (hq : t.node q = none) : t'.node q = none := by
  rcases h.nodes q with heq | ⟨hnone, -⟩
  · rw [heq, hq]
  · exact hnone

theorem Cut.same (h : Cut ps t t') (hq : ∀ p ∈ ps, ¬ p <+: q) : t'.node q = t.node q := by
  rcases h.nodes q with heq | ⟨-, p, hp, hpre⟩
  · exact heq
  · exact absurd hpre (hq p hp)

theorem Cut.trans (h : Cut ps t t') (h' : Cut ps' t' t'') : Cut (ps ++ ps') t t'' where
  distinct := h'.distinct
  nodes q := by
    rcases h'.nodes q with heq' | ⟨hnone, p, hp, hpre⟩
    · rcases h.nodes q with heq | ⟨hnone, p, hp, hpre⟩
      · exact Or.inl (heq'.trans heq)
      · exact Or.inr ⟨heq'.trans hnone, p, List.mem_append_left _ hp, hpre⟩
    · exact Or.inr ⟨hnone, p, List.mem_append_right _ hp, hpre⟩

/-- A path that can be removed. -/
structure Removable (p : List CString) : Prop where
  components : Components p
  ne_nil : p ≠ []
  length : (renderPath p).length ≤ xenstoreAbsPathMax

end Cut

theorem removable_of {p : List CString} (hc : Components p) (hne : p ≠ [])
    (hlen : (p.map List.length).sum + p.length ≤ 200) : Removable p := by
  refine ⟨hc, hne, ?_⟩
  have hjoined (a : List CString) : (joined a).length = (a.map List.length).sum + a.length := by
    induction a with
    | nil => rfl
    | cons t a ih =>
      rw [joined_cons, List.length_cons, List.length_append, ih, List.map_cons, List.sum_cons,
        List.length_cons]
      omega
  rw [renderPath, if_neg hne, hjoined]
  exact hlen.trans (by decide)

theorem removable_backendDir (kind : DeviceKind) (b domid : UInt32) :
    Removable (backendDir kind b domid) := by
  refine removable_of (components_backendDir kind b domid) (backendDir_ne_nil kind b domid) ?_
  have hb := decimalInt_length_le b
  have hdomid := decimalInt_length_le domid
  have hlocal : (cstr "local").length = 5 := by decide
  have hdomain : (cstr "domain").length = 6 := by decide
  have hback : (cstr "backend").length = 7 := by decide
  have hkind : kind.text.length = 3 := by cases kind <;> decide
  simp only [backendDir, localDomainDir, List.cons_append, List.nil_append, List.map_cons,
    List.map_nil, List.sum_cons, List.sum_nil, List.length_cons, List.length_nil, hlocal, hdomain,
    hback, hkind]
  omega

theorem zeroPadded_length_le {width n : Nat} (h : (decimal n).length ≤ width) :
    (zeroPadded width n).length ≤ width := by
  have hzeros : (ascii (List.replicate (width - (decimal n).length) '0')).length ≤
      width - (decimal n).length :=
    (List.length_filterMap_le _ _).trans (List.length_replicate).le
  rw [zeroPadded, List.length_append]
  omega

theorem uuidOf_length_le (domid : UInt32) : (uuidOf domid).length ≤ 36 := by
  have hn := domid.toNat_lt
  have hhead : (cstr "00000000-0000-0000-0000-").length = 24 := by decide
  have hminus : (cstr "-").length = 1 := by decide
  rw [uuidOf, List.length_append, hhead, paddedInt]
  split
  · have hlen := @zeroPadded_length_le 12 domid.toNat
      ((decimal_length_le (k := 10) (by decide) (by omega)).trans (by decide))
    omega
  · have hlen := @zeroPadded_length_le 11 (2 ^ 32 - domid.toNat)
      ((decimal_length_le (k := 10) (by decide) (by omega)).trans (by decide))
    rw [List.length_append, hminus]
    omega

theorem removable_domainDirs (domid : UInt32) : ∀ p ∈ domainDirs domid, Removable p := by
  have hint := decimalInt_length_le domid
  have huuid := uuidOf_length_le domid
  have hlocal : (cstr "local").length = 5 := by decide
  have hdomain : (cstr "domain").length = 6 := by decide
  have hvm : (cstr "vm").length = 2 := by decide
  have hlibxl : (cstr "libxl").length = 5 := by decide
  unfold domainDirs
  simp only [List.forall_mem_cons]
  refine ⟨removable_of (components_localDomainDir domid) (List.cons_ne_nil _ _) ?_,
    removable_of (components_vmDir domid) (List.cons_ne_nil _ _) ?_,
    removable_of (components_libxlDir domid) (List.cons_ne_nil _ _) ?_, nofun⟩
  · simp [localDomainDir, hlocal, hdomain]
    omega
  · simp [vmDir, hvm]
    omega
  · simp [libxlDir, hlibxl]
    omega

theorem apart_domainDirs (domid : UInt32) :
    (domainDirs domid).Pairwise fun p q => ¬ q <+: p := by
  have hvl : cstr "vm" ≠ cstr "local" := by decide
  have hxl : cstr "libxl" ≠ cstr "local" := by decide
  have hxv : cstr "libxl" ≠ cstr "vm" := by decide
  unfold domainDirs
  simp only [List.pairwise_cons, List.forall_mem_cons]
  refine ⟨⟨fun h => ?_, fun h => ?_, nofun⟩, ⟨fun h => ?_, nofun⟩, nofun, .nil⟩
  · exact hvl (List.cons_prefix_cons.mp h).1
  · exact hxl (List.cons_prefix_cons.mp h).1
  · exact hxv (List.cons_prefix_cons.mp h).1

theorem ne_zero_of_checkPerms_error {n : XsNode} {perms : XsPerm} {domid : UInt32} {e : Fault}
    (h : checkPerms n perms domid = .error e) : domid ≠ 0 := by
  rintro rfl
  rw [checkPerms_zero] at h
  cases h

/-- The notification of a change comes to a node without permissions. -/
def MeetsBare (root : XsEntry) (path : CString) (recursiveRemove : Bool) (w : WatchEntry) : Prop :=
  w.domain.getD 0 ≠ 0 ∧ ∃ eventPath, watchEventPath w path recursiveRemove = some eventPath ∧
    ∃ e, foundEntry root eventPath = some e ∧ e.entry.label.perms = []

section Notify
variable {path : CString} {recursiveRemove : Bool} {deadline : Deadline}

theorem wp_keyToEntryCheckPerm_fault (root : XsEntry) (key : CString) (domid : UInt32)
    (perms : XsPerm) (allocs : List Bool) :
    wp (keyToEntryCheckPerm root key domid perms) (fun _ _ => True)
      (fun _ => domid ≠ 0 ∧ ∃ e, foundEntry root key = some e ∧ e.entry.label.perms = [])
      allocs := by
  unfold keyToEntryCheckPerm
  rw [wp_bind]
  refine wp_keyToEntry (fun rest _ => ?_) (fun rest _ _ => ?_)
  · rw [wp_bind]
    refine wp_lift (fun b _ => wp_ite (fun _ => trivial) (fun _ => trivial)) (fun e he => ?_)
    cases hf : foundEntry root key with
    | none =>
      rw [hf] at he
      cases he
    | some entry =>
      rw [hf] at he
      exact ⟨ne_zero_of_checkPerms_error he, entry, rfl, checkPerms_error he⟩
  · exact trivial

theorem wp_queueWatchLoop_bare (iters : List WatchEntry) (localEvents : List Nat) (s : Shared) :
    wp (queueWatchLoop path recursiveRemove deadline iters localEvents) (fun _ _ => True)
      (fun e => e = .emptyPerms → ∃ w ∈ iters, MeetsBare s.root path recursiveRemove w) s := by
  induction iters generalizing localEvents s with
  | nil => exact trivial
  | cons iter rest ih =>
    have hnext (localEvents : List Nat) (s₁ : Shared) (hroot : s₁.root = s.root) :
        wp (queueWatchLoop path recursiveRemove deadline rest localEvents) (fun _ _ => True)
          (fun e => e = .emptyPerms → ∃ w ∈ iter :: rest, MeetsBare s.root path recursiveRemove w)
          s₁ := by
      refine wp_mono (ih localEvents s₁) (fun _ _ h => h) (fun e h he => ?_)
      obtain ⟨w, hw, hmeets⟩ := h he
      rw [hroot] at hmeets
      exact ⟨w, List.mem_cons_of_mem _ hw, hmeets⟩
    unfold queueWatchLoop
    cases hq : watchEventPath iter path recursiveRemove with
    | none => exact hnext localEvents s rfl
    | some eventPath =>
      simp only [wp_bind, wp_get, wp_alloc]
      refine wp_mono (wp_keyToEntryCheckPerm_fault _ _ _ _ _) (fun entry rest' _ => ?_)
        (fun e h _ => ⟨iter, List.mem_cons_self, h.1, eventPath, hq, h.2⟩)
      cases entry with
      | none => exact hnext _ _ rfl
      | some entry =>
        cases hd : iter.domain with
        | none =>
          refine wp_ite (fun _ h => by cases h) (fun _ => ?_)
          rw [wp_bind]
          exact wp_queueLocalWatchEventLocked hd (fun rc s₁ hf _ _ _ => hnext _ s₁ hf.root)
            (fun s₁ hf _ _ _ _ => hnext _ s₁ hf.root) (fun _ h => by cases h)
        | some domid =>
          rw [wp_bind]
          refine wp_queuePendingWatchEvent fun rc s₁ hf _ _ _ => ?_
          cases rc with
          | none => exact hnext _ s₁ hf.root
          | some e => cases e <;> exact trivial

theorem wp_keyToEntryCheckPerm_read {root : XsEntry} {key : CString} {domid : UInt32}
    {perms : XsPerm} {allocs : List Bool} (hmem : false ∉ allocs) :
    wp (keyToEntryCheckPerm root key domid perms) (fun _ rest => false ∉ rest ∧
      (domid ≠ 0 → ∀ e, foundEntry root key = some e → e.entry.label.perms ≠ []))
      (fun _ => True) allocs := by
  unfold keyToEntryCheckPerm
  rw [wp_bind]
  refine wp_keyToEntry (fun rest hrest => ?_) (fun _ _ h => absurd h hmem)
  have hleft : false ∉ rest := fun h => hmem (hrest.subset h)
  rw [wp_bind]
  refine wp_lift (fun b hb => ?_) (fun _ _ => trivial)
  have hread (hdom : domid ≠ 0) (e : EntryRef) (he : foundEntry root key = some e) :
      e.entry.label.perms ≠ [] := by
    intro hperms
    rw [he] at hb
    simp [checkPermsForEntry, checkPerms, isOwner, hdom, hperms] at hb
  exact wp_ite (fun _ => ⟨hleft, hread⟩) (fun _ => ⟨hleft, hread⟩)

theorem wp_queueWatchLoop_read (iters : List WatchEntry) (localEvents : List Nat) (s : Shared)
    (hmem : false ∉ s.allocs) :
    wp (queueWatchLoop path recursiveRemove .forever iters localEvents)
      (fun _ _ => ∀ w ∈ iters, ¬ MeetsBare s.root path recursiveRemove w) (fun _ => True) s := by
  induction iters generalizing localEvents s with
  | nil => exact fun _ h => absurd h List.not_mem_nil
  | cons iter rest ih =>
    have hnext (localEvents : List Nat) (s₁ : Shared) (hroot : s₁.root = s.root)
        (hmem₁ : false ∉ s₁.allocs) (hiter : ¬ MeetsBare s.root path recursiveRemove iter) :
        wp (queueWatchLoop path recursiveRemove .forever rest localEvents)
          (fun _ _ => ∀ w ∈ iter :: rest, ¬ MeetsBare s.root path recursiveRemove w)
          (fun _ => True) s₁ := by
      refine wp_conseq (ih localEvents s₁ hmem₁) fun _ _ h w hw => ?_
      rw [hroot] at h
      rcases List.mem_cons.mp hw with rfl | hw
      · exact hiter
      · exact h w hw
    unfold queueWatchLoop
    cases hq : watchEventPath iter path recursiveRemove with
    | none =>
      refine hnext localEvents s rfl hmem fun h => ?_
      obtain ⟨-, eventPath, hev, -⟩ := h
      rw [hq] at hev
      cases hev
    | some eventPath =>
      simp only [wp_bind, wp_get, wp_alloc]
      refine wp_conseq (wp_keyToEntryCheckPerm_read hmem) fun entry rest' h => ?_
      obtain ⟨hmem', hread⟩ := h
      have hiter : ¬ MeetsBare s.root path recursiveRemove iter := by
        rintro ⟨hdom, eventPath', hev, e, he, hperms⟩
        rw [hq] at hev
        cases hev
        exact hread hdom e he hperms
      cases entry with
      | none => exact hnext _ _ rfl hmem' hiter
      | some entry =>
        cases hd : iter.domain with
        | none =>
          refine wp_ite (fun _ => trivial) (fun _ => ?_)
          rw [wp_bind]
          have hlocal : wp (queueLocalWatchEventLocked localEvents iter
              (if iter.isRelative then eventPath.drop (localDomainPath 0).length else eventPath))
              (fun _ s₁ => s₁.root = s.root) (fun _ => True) { s with allocs := rest' } :=
            wp_queueLocalWatchEventLocked hd (fun _ _ hf _ _ _ => hf.root)
              (fun _ hf _ _ _ _ => hf.root) (fun _ => trivial)
          refine wp_mono (wp_and hlocal (draws_queueLocalWatchEventLocked _ _ _ _))
            (fun r s₁ h => ?_) (fun _ _ => trivial)
          exact hnext _ s₁ h.1 (fun hf => hmem' (h.2.subset hf)) hiter
        | some domid =>
          rw [wp_bind]
          refine wp_queuePendingWatchEvent_cases hmem' (fun _ _ h => by cases h.1)
            (fun allocs hallocs _ => ?_)
          exact hnext _ _ rfl hallocs hiter

end Notify

theorem foundEntry_node {root : XsEntry} {key : CString} {e : EntryRef}
    (h : foundEntry root key = some e) :
    key.length ≤ xenstoreAbsPathMax ∧ root.node (tokens key) = some e.entry.label := by
  unfold foundEntry at h
  split at h
  · cases h
  · rename_i hlen
    refine ⟨Nat.le_of_not_lt hlen, ?_⟩
    split at h
    · rename_i hroot
      rw [xenstoreIsRootPath_iff] at hroot
      cases h
      rw [hroot]
      rfl
    · cases ht : tokens key with
      | nil =>
        rw [ht] at h
        cases h
      | cons tok toks =>
        rw [ht] at h
        obtain ⟨e', he', rfl⟩ := Option.map_eq_some_iff.mp h
        rw [Keyed.Tree.node, he']
        rfl

section Remove
variable {p : List CString} {s : Shared}

theorem wp_xssRm_bare (hp : Removable p) :
    wp (xssRm (some (renderPath p))) (fun _ _ => True)
      (fun e => e = .emptyPerms →
        ∃ w ∈ linkedWatches s, MeetsBare s.root (renderPath p) true w) s := by
  unfold xssRm xssDoRmDeadline xssDoRmLocked
  simp only [wp_bind, wp_pure]
  refine wp_lock fun rc locks₁ hrc => ?_
  obtain rfl : rc = none := hrc.resolve_right (by simp)
  simp only [wp_bind]
  refine wp_lock fun rc locks₂ hrc => ?_
  obtain rfl : rc = none := hrc.resolve_right (by simp)
  simp only [wp_bind, wp_get, wp_alloc]
  refine wp_keyToEntryCheckPerm_zero hp.components hp.ne_nil hp.length (fun e _ _ => ?_)
    (fun _ => trivial)
  unfold queueWatchNotificationsXselLocked
  simp only [wp_bind]
  refine wp_lock fun rc locks₃ hrc => ?_
  obtain rfl : rc = none := hrc.resolve_right (by simp)
  simp only [wp_bind, wp_get]
  refine wp_conseq (wp_queueWatchLoop_bare _ _ _) fun r s₁ _ => ?_
  obtain ⟨rc, localEvents⟩ := r
  cases rc with
  | some e => exact wp_dispatchLocalWatchEventsLocked _ _ fun _ _ _ _ => trivial
  | none =>
    simp only [wp_bind]
    refine wp_of_ok (freeEntry_below hp.ne_nil) ?_
    exact wp_dispatchLocalWatchEventsLocked _ _ fun _ _ _ _ => trivial

theorem wp_xssRm_spared (hp : Removable p) (hq : Quiet s)
    (hspared : ∀ w ∈ linkedWatches s, ¬ MeetsBare s.root (renderPath p) true w) :
    wp (xssRm (some (renderPath p))) (fun _ s' => Undisturbed s s' ∧ s'.allocs <:+ s.allocs ∧
      s'.root = if nextAlloc s then s.root.remove p else s.root) (fun _ => False) s := by
  refine wp_mono (wp_and (wp_xssRm_told hp.components hp.ne_nil hp.length) (wp_xssRm_bare hp))
    (fun _ s' h => ?_) (fun e he => ?_)
  · exact ⟨⟨h.1.usedThreads, h.1.domuMax, h.1.watches hq.idle⟩, h.1.allocs, h.1.root⟩
  · obtain ⟨hfault, hmeets⟩ := he
    obtain ⟨w, hw, hbare⟩ := hmeets (hfault.emptyPerms hq.idle hq.relative)
    exact hspared w hw hbare

/-- With memory at hand a node that is there is removed only if no guest is told of a node
without permissions. -/
theorem wp_xssRm_read (hp : Removable p) (hmem : false ∉ s.allocs)
    (hthere : (s.root.node p).isSome) :
    wp (xssRm (some (renderPath p)))
      (fun _ _ => ∀ w ∈ linkedWatches s, ¬ MeetsBare s.root (renderPath p) true w)
      (fun _ => True) s := by
  unfold xssRm xssDoRmDeadline xssDoRmLocked
  simp only [wp_bind, wp_pure]
  refine wp_lock fun rc locks₁ hrc => ?_
  obtain rfl : rc = none := hrc.resolve_right (by simp)
  simp only [wp_bind]
  refine wp_lock fun rc locks₂ hrc => ?_
  obtain rfl : rc = none := hrc.resolve_right (by simp)
  simp only [wp_bind, wp_get, wp_alloc]
  have hnext : nextAlloc s = true := nextAlloc_of_granted hmem
  refine wp_keyToEntryCheckPerm_zero hp.components hp.ne_nil hp.length (fun e _ _ => ?_)
    (fun hnone => ?_)
  · unfold queueWatchNotificationsXselLocked
    simp only [wp_bind]
    refine wp_lock fun rc locks₃ hrc => ?_
    obtain rfl : rc = none := hrc.resolve_right (by simp)
    simp only [wp_bind, wp_get]
    refine wp_conseq (wp_queueWatchLoop_read _ _ _ ?_) fun r s₁ hread => ?_
    · exact fun h => hmem ((List.tail_suffix _).subset h)
    obtain ⟨rc, localEvents⟩ := r
    cases rc with
    | some e => exact wp_dispatchLocalWatchEventsLocked _ _ fun _ _ _ _ => hread
    | none =>
      simp only [wp_bind]
      refine wp_of_ok (freeEntry_below hp.ne_nil) ?_
      exact wp_dispatchLocalWatchEventsLocked _ _ fun _ _ _ _ => hread
  · rcases hnone with hnone | hno
    · rw [lookup_eq_none_iff.mp hnone] at hthere
      cases hthere
    · rw [nextAlloc, hno] at hnext
      cases hnext

end Remove

def removeAll : List (List CString) → SrvM Unit
  | [] => pure ()
  | p :: ps => do
    let _ ← xssRm (some (renderPath p))
    removeAll ps

theorem xsDeinitialize_eq (domid : UInt32) :
    xsDeinitializeDomainXenstore domid = removeAll (domainDirs domid) := rfl

/-- Every removal of a node that is there finds memory to copy its path. -/
def Afforded : List (List CString) → Shared → Prop
  | [], _ => True
  | p :: ps, s => ((s.root.lookup p).isSome → nextAlloc s = true) ∧
    ∀ rc s', xssRm (some (renderPath p)) s = .ok (rc, s') → Afforded ps s'

section Exact
variable {p : List CString} {s s' : Shared}

/-- A removal takes the node away unless the copy of the path finds no memory. -/
theorem wp_xssRm_exact (hp : Removable p) (hq : Quiet s) (hok : PermsOk s.root) :
    wp (xssRm (some (renderPath p))) (fun _ s' => Undisturbed s s' ∧
      s'.root = if nextAlloc s then s.root.remove p else s.root) (fun _ => False) s := by
  refine wp_mono (wp_xssRm_told hp.components hp.ne_nil hp.length) (fun _ s' h => ?_)
    (fun e he => not_notifyFault hok hq.idle hq.relative he)
  exact ⟨⟨h.usedThreads, h.domuMax, h.watches hq.idle⟩, h.root⟩

theorem PermsOk.remove {t : XsEntry} (h : PermsOk t) : PermsOk (t.remove p) :=
  ⟨by rw [Tree.remove_label]; exact h.1, Tree.all_remove h.2⟩

/-- The removals take away what they can afford; a node they cannot afford stays. -/
theorem wp_removeAll (ps : List (List CString)) (hps : ∀ p ∈ ps, Removable p)
    (hapart : ps.Pairwise fun p q => ¬ q <+: p) (hq : Quiet s) (hok : PermsOk s.root)
    (hd : s.root.children.Distinct) :
    wp (removeAll ps) (fun _ s' => Undisturbed s s' ∧ Cut ps s.root s'.root ∧
      (Afforded ps s → s'.root = ps.foldl (fun t p => t.remove p) s.root) ∧
      ((∀ p ∈ ps, s'.root.lookup p = none) → Afforded ps s)) (fun _ => False) s := by
  induction ps generalizing s with
  | nil => exact ⟨⟨rfl, rfl, rfl⟩, .refl hd, fun _ => rfl, fun _ => trivial⟩
  | cons p ps ih =>
    have hp := hps p List.mem_cons_self
    obtain ⟨hfirst, hrest⟩ := List.pairwise_cons.mp hapart
    obtain ⟨rc, s₁, hrm, hu, hroot⟩ := wp_total (wp_xssRm_exact hp hq hok)
    have hok₁ : PermsOk s₁.root := by
      rw [hroot]
      split
      · exact hok.remove
      · exact hok
    have hcut₁ : Cut [p] s.root s₁.root := by
      rw [hroot]
      split
      · exact .remove hp.ne_nil hd
      · exact .refl hd
    unfold removeAll
    rw [wp_bind]
    refine wp_of_ok hrm ?_
    refine wp_conseq (ih (fun q hq => hps q (List.mem_cons_of_mem _ hq)) hrest
      (hq.undisturbed hu) hok₁ hcut₁.distinct) fun _ s' h => ?_
    obtain ⟨hu', hcut, hfold, haff⟩ := h
    refine ⟨hu.trans hu', hcut₁.trans hcut, fun h => ?_,
      fun hgone => ⟨fun hsome => ?_, fun rc' s₁' hrm' => ?_⟩⟩
    · have htaken : s₁.root = s.root.remove p := by
        rw [hroot]
        split
        · rfl
        · rename_i hno
          have hnone := Option.not_isSome_iff_eq_none.mp fun hsome => hno (h.1 hsome)
          exact (Tree.remove_eq_self hnone).symm
      rw [List.foldl_cons, ← htaken]
      exact hfold (h.2 rc s₁ hrm)
    · by_contra hno
      rw [if_neg hno] at hroot
      have hnode := lookup_eq_none_iff.mp (hgone p List.mem_cons_self)
      rw [hcut.same hfirst, hroot, ← lookup_eq_none_iff] at hnode
      rw [hnode] at hsome
      cases hsome
    · rw [hrm] at hrm'
      cases hrm'
      exact haff fun q hq => hgone q (List.mem_cons_of_mem _ hq)

theorem afforded_of_granted (ps : List (List CString)) (hps : ∀ p ∈ ps, Removable p)
    (hmem : false ∉ s.allocs) : Afforded ps s := by
  induction ps generalizing s with
  | nil => trivial
  | cons p ps ih =>
    have hp := hps p List.mem_cons_self
    refine ⟨fun _ => nextAlloc_of_granted hmem, fun rc s' hrm => ?_⟩
    have htold := wp_ok (wp_xssRm_granted hp.components hp.ne_nil hp.length hmem) hrm
    exact ih (fun q hq => hps q (List.mem_cons_of_mem _ hq)) fun h => hmem (htold.allocs.subset h)

theorem afforded_left {ps qs : List (List CString)} (h : Afforded (ps ++ qs) s) :
    Afforded ps s := by
  induction ps generalizing s with
  | nil => trivial
  | cons p ps ih => exact ⟨h.1, fun rc s' hrm => ih (h.2 rc s' hrm)⟩

end Exact

/-- Nodes are taken out at or below the paths, and whatever is there when every removal can be
afforded. -/
structure Swept (ps : List (List CString)) (s s' : Shared) : Prop where
  cut : Cut ps s.root s'.root
  gone : Afforded ps s → ∀ p ∈ ps, ∀ q, p <+: q → s'.root.node q = none

/-- No removal of the list tells a guest of a node without permissions. -/
def Spared (watches : List WatchEntry) : List (List CString) → XsEntry → Prop
  | [], _ => True
  | p :: ps, t => (∀ w ∈ watches, ¬ MeetsBare t (renderPath p) true w) ∧
    Spared watches ps (t.remove p)

section Sweep
variable {p : List CString} {s s' : Shared}

theorem wp_xssRm_taken (hp : Removable p) :
    wp (xssRm (some (renderPath p))) (fun rc s' => xssRm (some (renderPath p)) s = .ok (rc, s') ∧
      s'.root = if nextAlloc s then s.root.remove p else s.root) (fun _ => True) s := by
  refine wp_ran (wp_mono (wp_xssRm_told hp.components hp.ne_nil hp.length) (fun _ _ h => h.root)
    fun _ _ => trivial)

theorem taken_afforded (haff : (s.root.lookup p).isSome → nextAlloc s = true)
    (hroot : s'.root = if nextAlloc s then s.root.remove p else s.root) :
    s'.root = s.root.remove p := by
  rw [hroot]
  split
  · rfl
  · rename_i hno
    have hnone := Option.not_isSome_iff_eq_none.mp fun hsome => hno (haff hsome)
    exact (Tree.remove_eq_self hnone).symm

/-- The paths `qs` are those of later removals. -/
theorem wp_removeAll_swept (ps qs : List (List CString)) (hps : ∀ p ∈ ps, Removable p)
    (hd : s.root.children.Distinct) :
    wp (removeAll ps) (fun _ s' => Swept ps s s' ∧ (Afforded (ps ++ qs) s → Afforded qs s'))
      (fun _ => True) s := by
  induction ps generalizing s with
  | nil => exact ⟨⟨.refl hd, fun _ _ h => absurd h List.not_mem_nil⟩, id⟩
  | cons p ps ih =>
    have hp := hps p List.mem_cons_self
    unfold removeAll
    rw [wp_bind]
    refine wp_conseq (wp_xssRm_taken hp) fun rc s₁ h₁ => ?_
    obtain ⟨hrm, hroot⟩ := h₁
    have hcut₁ : Cut [p] s.root s₁.root := by
      rw [hroot]
      split
      · exact .remove hp.ne_nil hd
      · exact .refl hd
    refine wp_conseq (ih (fun q hq => hps q (List.mem_cons_of_mem _ hq)) hcut₁.distinct)
      fun _ s₂ h₂ => ?_
    obtain ⟨hswept, haff⟩ := h₂
    refine ⟨⟨hcut₁.trans hswept.cut, fun h q hq r hpre => ?_⟩, fun h => haff (h.2 rc s₁ hrm)⟩
    rcases List.mem_cons.mp hq with rfl | hq
    · refine hswept.cut.gone ?_
      rw [taken_afforded h.1 hroot, Tree.node_remove hp.ne_nil r hd, if_pos hpre]
    · exact hswept.gone (h.2 rc s₁ hrm) q hq r hpre

theorem wp_removeAll_spared (ps : List (List CString)) (hps : ∀ p ∈ ps, Removable p) (hq : Quiet s)
    (hspared : Spared (linkedWatches s) ps s.root) (haff : Afforded ps s) :
    wp (removeAll ps) (fun _ s' => Undisturbed s s') (fun _ => False) s := by
  induction ps generalizing s with
  | nil => exact ⟨rfl, rfl, rfl⟩
  | cons p ps ih =>
    obtain ⟨rc, s₁, hrm, hu, -, hroot⟩ :=
      wp_total (wp_xssRm_spared (hps p List.mem_cons_self) hq hspared.1)
    unfold removeAll
    rw [wp_bind]
    refine wp_of_ok hrm ?_
    have hlinked : linkedWatches s₁ = linkedWatches s := by
      rw [linkedWatches, hu.watches]
      rfl
    refine wp_conseq (ih (fun q hq => hps q (List.mem_cons_of_mem _ hq)) (hq.undisturbed hu) ?_
      (haff.2 rc s₁ hrm)) fun _ s₂ h₂ => hu.trans h₂
    rw [hlinked, taken_afforded haff.1 hroot]
    exact hspared.2

/-- With memory at hand the removals of nodes that are there come to their end only if they spare
the guests. -/
theorem wp_removeAll_read (ps : List (List CString)) (hps : ∀ p ∈ ps, Removable p)
    (hapart : ps.Pairwise fun p q => ¬ p <+: q) (hq : Quiet s) (hd : s.root.children.Distinct)
    (hthere : ∀ p ∈ ps, (s.root.node p).isSome) (hmem : false ∉ s.allocs) :
    wp (removeAll ps) (fun _ _ => Spared (linkedWatches s) ps s.root) (fun _ => True) s := by
  induction ps generalizing s with
  | nil => trivial
  | cons p ps ih =>
    have hp := hps p List.mem_cons_self
    obtain ⟨hfirst, hrest⟩ := List.pairwise_cons.mp hapart
    unfold removeAll
    rw [wp_bind]
    refine wp_mono (wp_and (wp_xssRm_read hp hmem (hthere p List.mem_cons_self))
      (wp_xssRm_told hp.components hp.ne_nil hp.length)) (fun rc s₁ h₁ => ?_) (fun _ _ => trivial)
    obtain ⟨hread, htold⟩ := h₁
    have hroot : s₁.root = s.root.remove p := by
      rw [htold.root, nextAlloc_of_granted hmem, if_pos rfl]
    have hu : Undisturbed s s₁ := ⟨htold.usedThreads, htold.domuMax, htold.watches hq.idle⟩
    have hlinked : linkedWatches s₁ = linkedWatches s := by
      rw [linkedWatches, hu.watches]
      rfl
    refine wp_conseq (ih (fun q hq => hps q (List.mem_cons_of_mem _ hq)) hrest
      (hq.undisturbed hu) ?_ (fun q hq => ?_) fun h => hmem (htold.allocs.subset h))
      fun _ s₂ h₂ => ⟨hread, ?_⟩
    · rw [hroot]
      exact Tree.distinct_remove hd
    · rw [hroot, Tree.node_remove hp.ne_nil q hd, if_neg (hfirst q hq)]
      exact hthere q (List.mem_cons_of_mem _ hq)
    · rw [hlinked, hroot] at h₂
      exact h₂

end Sweep

end Xenlib
