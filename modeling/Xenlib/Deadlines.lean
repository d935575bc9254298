import Xenlib.ControlWrites
import Xenlib.HandlersSpec

/-!
The calls of Dom0 that change the store, when their locks may time out. The locks of the
notification are taken after the tree was written, so `xs_write` and `xs_mkdir` can fail with
the tree already changed; `xs_rm` queues its events before it frees the node.
-/

set_option autoImplicit false

namespace Xenlib

open Keyed Wp

/-- A guest watch that hears of a write to `path`: its key is above it, and its domain may read
the node the write ends at. -/
def hearsWrite (root : XsEntry) (path : CString) (w : WatchEntry) : Bool :=
  w.domain.isSome && xenstorePathContains w.key path &&
    decide (checkPerms (writeTarget [⟨0, .none⟩] (tokens path) root) .read w.owner = .ok true)

theorem guestNotices_written {root : XsEntry} {path value : CString} (ht : tokens path ≠ [])
    (hlen : path.length ≤ xenstoreAbsPathMax) (iters : List WatchEntry) :
    (guestNotices (queuedPath (plantedRoot path (some value) [⟨0, .none⟩] root) path false)
      iters).length = iters.countP (hearsWrite root path) := by
  obtain ⟨e, he, hlabel⟩ := @lookup_plant_self [⟨0, .none⟩] (updNode (some value)) (tokens path)
    root
  have hfound : foundEntry (plantedRoot path (some value) [⟨0, .none⟩] root) path =
      some ⟨tokens path, e⟩ := by
    rw [foundEntry_tokens ht hlen, plantedRoot, if_neg ht, he]
    rfl
  have hperms : ∀ domid, checkPerms e.label .read domid =
      checkPerms (writeTarget [⟨0, .none⟩] (tokens path) root) .read domid := by
    intro domid
    refine checkPerms_congr ?_ _ _
    rw [hlabel, updNode_perms]
  induction iters with
  | nil => rfl
  | cons w iters ih =>
    have hw : queuedPath (plantedRoot path (some value) [⟨0, .none⟩] root) path false w =
        if xenstorePathContains w.key path && decide (checkPerms
          (writeTarget [⟨0, .none⟩] (tokens path) root) .read w.owner = .ok true) then some path
        else none := by
      by_cases hc : xenstorePathContains w.key path = true
      · simp [queuedPath, watchEventPath, hc, hfound, hperms, Option.filter_some]
      · simp [queuedPath, watchEventPath, hc]
    rw [List.countP_cons, ← ih]
    unfold guestNotices
    rw [List.filterMap_cons, hw]
    cases hd : w.domain with
    | none => simp [hearsWrite, hd]
    | some domid =>
      by_cases hc : (xenstorePathContains w.key path && decide (checkPerms
          (writeTarget [⟨0, .none⟩] (tokens path) root) .read w.owner = .ok true)) = true
      · have hears : hearsWrite root path w = true := by simpa [hearsWrite, hd] using hc
        simp [hc, hears]
      · have hears : hearsWrite root path w = false := by simpa [hearsWrite, hd] using hc
        simp [hc, hears]

inductive StoreCall where
  | write (path value : Option CString)
  | mkdir (path : Option CString)
  | rm (path : Option CString)
  | setPermissions (path : Option CString) (perms : List XsPermEntry)

def StoreCall.run (txId : UInt32) (deadline : Deadline) : StoreCall → SrvM (Option Errno)
  | .write path value => xsWriteTimeout path value txId deadline
  | .mkdir path => xsMkdirTimeout path txId deadline
  | .rm path => xsRmTimeout path txId deadline
  | .setPermissions path perms => xsSetPermissionsTimeout path perms txId deadline

def StoreCall.path : StoreCall → Option CString
  | .write path _ | .mkdir path | .rm path | .setPermissions path _ => path

/-- The event a watch is due for a call that went through: a write is read in the new tree, a
removal in the old one, a change of permissions is not told. -/
def StoreCall.due (root root' : XsEntry) (path : CString) (w : WatchEntry) :
    StoreCall → Option CString
  | .write _ _ | .mkdir _ => notice root' path false w
  | .rm _ => notice root path true w
  | .setPermissions _ _ => none

/-- A call that reports failure has not changed the tree; one that reports success has told
every watch on a normalized path that is due an event. -/
def StoreCall.Kept (c : StoreCall) (s : Shared) (rc : Option Errno) (s' : Shared) : Prop :=
  (rc ≠ none → s'.root = s.root) ∧
  (rc = none → ∀ text path, c.path = some text → resolvePath text 0 = .ok path →
    ∀ w ∈ linkedWatches s, Canonical w.key → w.key.length ≤ xenstoreAbsPathMax →
      (c.due s.root s'.root path w).isSome → Alerted s s' w)

def StoreCall.Honest (c : StoreCall) (txId : UInt32) (deadline : Deadline) (s : Shared) : Prop :=
  ∀ rc s', c.run txId deadline s = .ok (rc, s') → c.Kept s rc s'

theorem resolved_length {text path : CString} (h : resolvePath text 0 = .ok path) :
    path.length ≤ xenstoreAbsPathMax := by
  by_cases hr : path = [slash]
  · subst hr
    decide
  · exact (Normalized.tokens_ne_nil ⟨text, 0, h⟩ hr).2

/-- The call has a path, no transaction, and resolves to `full`. -/
def ResolvesTo (path : Option CString) (txId : UInt32) (full : CString) : Prop :=
  ∃ text, path = some text ∧ txId = 0 ∧ resolvePath text 0 = .ok full

theorem wp_xsWithPath {path : Option CString} {txId : UInt32} {body : CString → SrvM (Option Errno)}
    {Q : Option Errno → Shared → Prop} {E : Fault → Prop} {s : Shared} (hmem : false ∉ s.allocs)
    (herr : ∀ e rest, (∀ full, ¬ ResolvesTo path txId full) → Q (some e) { s with allocs := rest })
    (hbody : ∀ full rest, ResolvesTo path txId full → false ∉ rest →
      wp (body full) Q E { s with allocs := rest }) :
    wp (xsWithPath path txId body) Q E s := by
  unfold xsWithPath
  cases path with
  | none =>
    refine herr .einval s.allocs ?_
    rintro full ⟨text, ht, -⟩
    cases ht
  | some text =>
    refine wp_ite (fun htx => herr .enotsup s.allocs ?_) (fun htx => ?_)
    · rintro full ⟨_, -, htx', -⟩
      exact htx htx'
    simp only [wp_bind, wp_alloc]
    refine wp_constructPath (fun rest hs => ?_) (fun _ _ hbad => absurd hbad hmem)
    cases hres : resolvePath text 0 with
    | error e =>
      refine herr e rest ?_
      rintro full ⟨_, ht, -, hfull⟩
      cases ht
      rw [hres] at hfull
      cases hfull
    | ok full =>
      exact hbody full rest ⟨text, rfl, not_not.mp htx, hres⟩ fun hf => hmem (hs.subset hf)

theorem ResolvesTo.unique {path : Option CString} {txId : UInt32} {full full' : CString}
    (h : ResolvesTo path txId full) (h' : ResolvesTo path txId full') : full = full' := by
  obtain ⟨text, rfl, -, hf⟩ := h
  obtain ⟨_, ht, -, hf'⟩ := h'
  cases ht
  rw [hf] at hf'
  exact Except.ok.inj hf'

structure WriteEnd (path value : CString) (deadline : Deadline) (s : Shared) (rc : Option Errno)
    (s' : Shared) : Prop where
  refused : TimesOut deadline 1 s.locks →
    rc ≠ none ∧ s'.root = s.root
  written : ¬ TimesOut deadline 1 s.locks → ∃ rest, NotifyEnd 3
    (queuedPath (plantedRoot path (some value) [⟨0, .none⟩] s.root) path false) deadline
    { s with
      root := plantedRoot path (some value) [⟨0, .none⟩] s.root, allocs := rest
      locks := locksAfter deadline 1 s.locks } rc s'

theorem wp_writeNotifyDeadline_end {path value : CString} {deadline : Deadline} {s : Shared}
    (hmem : false ∉ s.allocs) :
    wp (writeNotifyDeadline path value deadline)
      (fun rc s' => WriteEnd path value deadline s rc s')
      (fun _ => ¬ (PermsOk (plantedRoot path (some value) [⟨0, .none⟩] s.root) ∧
        ∀ w ∈ linkedWatches s, LocalOk w)) s := by
  unfold writeNotifyDeadline writeNotifyLocked
  simp only [wp_bind, wp_pure]
  refine wp_xssDoWriteDeadline_zero hmem (fun rest _ hout => ?_) (fun rest hrest hin => ?_)
  · simp only [wp_pure]
    exact wp_conseq (wp_dispatch_calls [] _) fun _ s' hd => ⟨fun _ => ⟨by simp, hd.root⟩,
      fun h => absurd hout h⟩
  · have hnotify := @wp_notifyWatchersDeadline_end path deadline { s with
      root := plantedRoot path (some value) [⟨0, .none⟩] s.root, allocs := rest
      locks := locksAfter deadline 1 s.locks } hrest
    unfold notifyWatchersDeadline at hnotify
    simp only [wp_bind, wp_pure] at hnotify
    exact wp_mono hnotify (fun r s₁ h => wp_conseq h fun _ s' hend =>
      ⟨fun h => absurd h hin, fun _ => ⟨rest, hend⟩⟩) (fun _ h => h)

/-- The value of a write is new, and one of the locks for its notification times out after the
lock for the write was had. -/
def Stranded (path value : CString) (deadline : Deadline) (s : Shared) : Prop :=
  tokens path ≠ [] ∧
    (s.root.lookup (tokens path)).map (fun e => e.label.value) ≠ some (some value) ∧
    ¬ TimesOut deadline 1 s.locks ∧
    TimesOut deadline (3 + (linkedWatches s).countP (hearsWrite s.root path))
      (locksAfter deadline 1 s.locks)

section Ends
variable {path value : CString} {deadline : Deadline} {s s' : Shared} {rc : Option Errno}

theorem plantedRoot_eq_self (h : tokens path = [] ∨
    (s.root.lookup (tokens path)).map (fun e => e.label.value) = some (some value)) :
    plantedRoot path (some value) [⟨0, .none⟩] s.root = s.root := by
  unfold plantedRoot
  split
  · rfl
  · rename_i ht
    exact (plant_eq_self_iff _ _).mpr (h.resolve_left ht)

theorem WriteEnd.failed (h : WriteEnd path value deadline s rc s')
    (hlen : path.length ≤ xenstoreAbsPathMax) (hns : ¬ Stranded path value deadline s)
    (hrc : rc ≠ none) : s'.root = s.root := by
  by_cases hin : TimesOut deadline 1 s.locks
  · exact (h.refused hin).2
  obtain ⟨rest, hend⟩ := h.written hin
  rw [hend.root]
  refine plantedRoot_eq_self ?_
  by_contra hnew
  obtain ⟨ht, hvalue⟩ := not_or.mp hnew
  refine hrc (hend.told fun hout => hns ⟨ht, hvalue, hin, ?_⟩).1
  have hcount := @guestNotices_written s.root path value ht hlen (linkedWatches s)
  rw [← hcount]
  exact hout

theorem WriteEnd.announced (h : WriteEnd path value deadline s none s')
    (hp : Canonical path) (hlen : path.length ≤ xenstoreAbsPathMax) {w : WatchEntry}
    (hw : w ∈ linkedWatches s) (hkey : Canonical w.key)
    (hkeyLen : w.key.length ≤ xenstoreAbsPathMax)
    (hdue : (notice s'.root path false w).isSome) : Alerted s s' w := by
  have hin : ¬ TimesOut deadline 1 s.locks := fun hin => (h.refused hin).1 rfl
  obtain ⟨rest, hend⟩ := h.written hin
  have htold := (hend.told fun hout => by cases hend.late hout).2.2
  refine htold.told hw ?_
  rw [queuedPath_eq_notice hp hlen hkey hkeyLen]
  rw [hend.root] at hdue
  exact hdue

theorem WriteEnd.stranded (h : WriteEnd path value deadline s rc s')
    (hlen : path.length ≤ xenstoreAbsPathMax) (hs : Stranded path value deadline s) :
    rc ≠ none ∧ s'.root ≠ s.root := by
  obtain ⟨ht, hvalue, hin, hout⟩ := hs
  obtain ⟨rest, hend⟩ := h.written hin
  have hcount := @guestNotices_written s.root path value ht hlen (linkedWatches s)
  rw [← hcount] at hout
  refine ⟨by rw [hend.late hout]; simp, fun hroot => hvalue ?_⟩
  rw [hend.root] at hroot
  have hplant : plantedRoot path (some value) [⟨0, .none⟩] s.root = s.root := hroot
  rw [plantedRoot, if_neg ht] at hplant
  exact (plant_eq_self_iff _ _).mp hplant

theorem PermsOk.written (h : PermsOk s.root) :
    PermsOk (plantedRoot path (some value) [⟨0, .none⟩] s.root) := by
  unfold plantedRoot
  split
  · exact h
  · exact h.plant _ _ _

end Ends

def StoreCall.value : StoreCall → Option CString
  | .write _ value => value
  | .mkdir _ => some []
  | .rm _ | .setPermissions _ _ => none

/-- The call gets as far as the removal of the root, and does not return. -/
def StoreCall.RemovesRoot (c : StoreCall) (txId : UInt32) (deadline : Deadline) (s : Shared) :
    Prop :=
  ∃ path full, c = .rm path ∧ ResolvesTo path txId full ∧ FreesRoot full 0 deadline s

/-- The call writes a new value, and times out after it. -/
def StoreCall.Strands (c : StoreCall) (txId : UInt32) (deadline : Deadline) (s : Shared) : Prop :=
  ∃ full value, ResolvesTo c.path txId full ∧ c.value = some value ∧
    Stranded full value deadline s

section Calls
variable {txId : UInt32} {deadline : Deadline} {s : Shared}

theorem StoreCall.kept_failed {c : StoreCall} {e : Errno} {rest : List Bool} :
    c.Kept s (some e) { s with allocs := rest } :=
  ⟨fun _ => rfl, fun h => by cases h⟩

theorem wp_write_kept {c : StoreCall} {full value : CString} {rest : List Bool}
    (hdue : ∀ root root' path w, c.due root root' path w = notice root' path false w)
    (hres : ResolvesTo c.path txId full) (hmem : false ∉ rest) :
    wp (writeNotifyDeadline full value deadline)
      (fun rc s' => (¬ Stranded full value deadline s → c.Kept s rc s') ∧
        (Stranded full value deadline s → rc ≠ none ∧ s'.root ≠ s.root))
      (fun _ => ¬ (PermsOk s.root ∧ ∀ w ∈ linkedWatches s, LocalOk w))
      { s with allocs := rest } := by
  obtain ⟨text, htext, -, hfull⟩ := hres
  have hlen := resolved_length hfull
  have hspec := @wp_writeNotifyDeadline_end full value deadline { s with allocs := rest } hmem
  refine wp_mono hspec (fun rc s' h => ⟨fun hns => ⟨fun hrc => ?_, ?_⟩, fun hs => ?_⟩) ?_
  · exact h.failed hlen hns hrc
  · rintro rfl text' path' htext' hpath' w hw hkey hkeyLen hd
    rw [htext] at htext'
    cases htext'
    rw [hfull] at hpath'
    cases hpath'
    rw [hdue] at hd
    exact h.announced (canonical_of_resolvePath_zero hfull) hlen hw hkey hkeyLen hd
  · exact h.stranded hlen hs
  · rintro _ hbad ⟨hok, hreg⟩
    exact hbad ⟨hok.written, hreg⟩

theorem wp_rm_kept {path : Option CString} {full : CString} {rest : List Bool}
    (hres : ResolvesTo path txId full) (hmem : false ∉ rest) :
    wp (xssDoRmDeadline full 0 deadline)
      (fun rc s' => (StoreCall.rm path).Kept s rc s' ∧ ¬ FreesRoot full 0 deadline s)
      (fun _ => ¬ (PermsOk s.root ∧ ∀ w ∈ linkedWatches s, LocalOk w) ∨
        FreesRoot full 0 deadline s)
      { s with allocs := rest } := by
  obtain ⟨text, htext, -, hfull⟩ := hres
  have hlen := resolved_length hfull
  have hspec := @wp_xssDoRmDeadline_end full 0 deadline { s with allocs := rest } hmem
  refine wp_conseq hspec fun rc s' h => ⟨?_, h.not_freesRoot⟩
  by_cases hout : writableEntry s.root full 0 = none ∨ TimesOut deadline
      (3 + (guestNotices (queuedPath s.root full true) (linkedWatches s)).length) s.locks
  · obtain ⟨hrc, hroot⟩ := h.refused hout
    exact ⟨fun _ => hroot, fun hn => absurd hn hrc⟩
  · obtain ⟨hw, hin⟩ := not_or.mp hout
    obtain ⟨entry, hentry⟩ := Option.ne_none_iff_exists'.mp hw
    obtain ⟨rfl, -, hann, -⟩ := h.freed entry hentry hin
    refine ⟨fun hn => absurd rfl hn, ?_⟩
    rintro - text' path' htext' hpath' w hw hkey hkeyLen hd
    cases htext.symm.trans htext'
    cases hfull.symm.trans hpath'
    refine hann.told hw ?_
    rw [queuedPath_eq_notice (canonical_of_resolvePath_zero hfull) hlen hkey hkeyLen]
    exact hd

theorem wp_setPermissions_kept {path : Option CString} {full : CString} {perms : List XsPermEntry}
    {rest : List Bool} (hmem : false ∉ rest) :
    wp (do
        match ← xssMutexLockDeadline deadline with
        | some e => pure (some e)
        | none => setEntryPerms full perms)
      (fun rc s' => (StoreCall.setPermissions path perms).Kept s rc s')
      (fun _ => ¬ (PermsOk s.root ∧ ∀ w ∈ linkedWatches s, LocalOk w))
      { s with allocs := rest } := by
  rw [wp_bind]
  refine wp_lock_cases (fun _ => ⟨fun _ => rfl, fun h => by cases h⟩) (fun _ => ?_)
  unfold setEntryPerms
  simp only [wp_bind, wp_get, wp_alloc]
  refine wp_keyToEntryCheckPerm_granted hmem (fun hbad hgood => hbad hgood.1) fun rest₁ h₁ => ?_
  split
  · exact ⟨fun _ => rfl, fun h => by cases h⟩
  · simp only [wp_bind, wp_alloc]
    refine wp_setPermsByArray (fun rest₂ _ => ?_) (fun _ _ hbad => absurd hbad h₁)
    refine ⟨fun h => absurd rfl h, ?_⟩
    rintro - _ _ - - w - - - hd
    cases hd

theorem StoreCall.not_strands {c : StoreCall} (h : c.value = none) :
    ¬ c.Strands txId deadline s := by
  rintro ⟨full, value, -, hv, -⟩
  rw [h] at hv
  cases hv

theorem StoreCall.strands_iff {c : StoreCall} {full value : CString}
    (hres : ResolvesTo c.path txId full) (hv : c.value = some value) :
    c.Strands txId deadline s ↔ Stranded full value deadline s := by
  constructor
  · rintro ⟨full', value', hres', hv', h⟩
    cases hres.unique hres'
    cases hv.symm.trans hv'
    exact h
  · exact fun h => ⟨full, value, hres, hv, h⟩

theorem wp_writeCall_end {c : StoreCall} {value : CString} (hmem : false ∉ s.allocs)
    (hv : c.value = some value)
    (hdue : ∀ root root' path w, c.due root root' path w = notice root' path false w) :
    wp (xsWithPath c.path txId fun full => writeNotifyDeadline full value deadline)
      (fun rc s' => (¬ c.Strands txId deadline s → c.Kept s rc s') ∧
        (c.Strands txId deadline s → rc ≠ none ∧ s'.root ≠ s.root))
      (fun _ => ¬ (PermsOk s.root ∧ ∀ w ∈ linkedWatches s, LocalOk w)) s := by
  refine wp_xsWithPath hmem (fun e rest hno => ⟨fun _ => c.kept_failed, ?_⟩) ?_
  · rintro ⟨full, _, hres, -⟩
    exact absurd hres (hno full)
  · intro full rest hres hrest
    simp only [StoreCall.strands_iff hres hv]
    exact wp_write_kept hdue hres hrest

/-- The calls that remove nothing. -/
theorem wp_otherCall_end {c : StoreCall} (hmem : false ∉ s.allocs) (hc : ∀ path, c ≠ .rm path) :
    wp (c.run txId deadline)
      (fun rc s' => (¬ c.Strands txId deadline s → c.Kept s rc s') ∧
        (c.Strands txId deadline s → rc ≠ none ∧ s'.root ≠ s.root))
      (fun _ => ¬ (PermsOk s.root ∧ ∀ w ∈ linkedWatches s, LocalOk w)) s := by
  have hfailed : ∀ (c : StoreCall) (e : Errno) (rest : List Bool), c.value = none →
      (¬ c.Strands txId deadline s → c.Kept s (some e) { s with allocs := rest }) ∧
        (c.Strands txId deadline s → some e ≠ none ∧ s.root ≠ s.root) :=
    fun c e rest hv => ⟨fun _ => c.kept_failed, fun h => absurd h (StoreCall.not_strands hv)⟩
  cases c with
  | write path value =>
    cases value with
    | none => exact hfailed (.write path none) .einval s.allocs rfl
    | some value =>
      exact @wp_writeCall_end _ _ _ (.write path (some value)) value hmem rfl fun _ _ _ _ => rfl
  | mkdir path => exact @wp_writeCall_end _ _ _ (.mkdir path) [] hmem rfl fun _ _ _ _ => rfl
  | rm path => exact absurd rfl (hc path)
  | setPermissions path perms =>
    unfold StoreCall.run xsSetPermissionsTimeout
    refine wp_ite (fun _ => hfailed (.setPermissions path perms) .einval s.allocs rfl) (fun _ => ?_)
    refine wp_xsWithPath hmem
      (fun e rest _ => hfailed (.setPermissions path perms) e rest rfl) ?_
    intro full rest _ hrest
    refine wp_conseq (@wp_setPermissions_kept deadline s path full perms rest hrest)
      fun rc s' h => ⟨fun _ => h, fun hs => ?_⟩
    exact absurd hs (StoreCall.not_strands rfl)

theorem StoreCall.removesRoot_iff {path : Option CString} {full : CString}
    (hres : ResolvesTo path txId full) :
    (StoreCall.rm path).RemovesRoot txId deadline s ↔ FreesRoot full 0 deadline s := by
  constructor
  · rintro ⟨path', full', hpath, hres', h⟩
    cases hpath
    cases hres.unique hres'
    exact h
  · exact fun h => ⟨path, full, rfl, hres, h⟩

theorem wp_rmCall_end {path : Option CString} (hmem : false ∉ s.allocs) :
    wp (xsRmTimeout path txId deadline)
      (fun rc s' => (StoreCall.rm path).Kept s rc s' ∧
        ¬ (StoreCall.rm path).RemovesRoot txId deadline s)
      (fun _ => ¬ (PermsOk s.root ∧ ∀ w ∈ linkedWatches s, LocalOk w) ∨
        (StoreCall.rm path).RemovesRoot txId deadline s) s := by
  refine wp_xsWithPath hmem (fun e rest hno => ⟨StoreCall.kept_failed, ?_⟩) ?_
  · rintro ⟨_, full, hpath, hres, -⟩
    cases hpath
    exact hno full hres
  · intro full rest hres hrest
    simp only [StoreCall.removesRoot_iff hres]
    exact wp_rm_kept hres hrest

/-- A call ends, unless it comes to the removal of the root. -/
theorem StoreCall.ends (c : StoreCall) (hmem : false ∉ s.allocs) (hok : PermsOk s.root)
    (hreg : ∀ w ∈ linkedWatches s, LocalOk w) (hroot : ¬ c.RemovesRoot txId deadline s) :
    ∃ rc s', c.run txId deadline s = .ok (rc, s') ∧
      (¬ c.Strands txId deadline s → c.Kept s rc s') ∧
      (c.Strands txId deadline s → rc ≠ none ∧ s'.root ≠ s.root) := by
  by_cases hc : ∃ path, c = .rm path
  · obtain ⟨path, rfl⟩ := hc
    have hend := wp_mono (@wp_rmCall_end txId deadline s path hmem) (fun _ _ h => h.1)
      (fun _ hbad => hbad.elim (fun hbad => hbad ⟨hok, hreg⟩) hroot)
    obtain ⟨rc, s', hrun, hkept⟩ := wp_total hend
    exact ⟨rc, s', hrun, fun _ => hkept, fun hs => absurd hs (StoreCall.not_strands rfl)⟩
  · have hc : ∀ path, c ≠ .rm path := fun path hpath => hc ⟨path, hpath⟩
    refine wp_total (wp_mono (wp_otherCall_end hmem hc) (fun _ _ h => h) ?_)
    exact fun _ hbad => hbad ⟨hok, hreg⟩

theorem StoreCall.not_ends {c : StoreCall} (hmem : false ∉ s.allocs)
    (hroot : c.RemovesRoot txId deadline s) (r : Option Errno × Shared) :
    c.run txId deadline s ≠ .ok r := by
  intro hrun
  obtain ⟨path, full, rfl, hres⟩ := hroot
  exact (wp_ok (wp_rmCall_end hmem) hrun).2 ⟨path, full, rfl, hres⟩

theorem StoreCall.not_honest {c : StoreCall} (hmem : false ∉ s.allocs) (hok : PermsOk s.root)
    (hreg : ∀ w ∈ linkedWatches s, LocalOk w) (hs : c.Strands txId deadline s) :
    ¬ c.Honest txId deadline s := by
  intro hhonest
  have hroot : ¬ c.RemovesRoot txId deadline s := by
    rintro ⟨path, -, rfl, -⟩
    exact StoreCall.not_strands rfl hs
  obtain ⟨rc, s', hrun, -, hstrands⟩ := c.ends hmem hok hreg hroot
  obtain ⟨hrc, hne⟩ := hstrands hs
  exact hne ((hhonest rc s' hrun).1 hrc)

theorem StoreCall.honest {c : StoreCall} (hmem : false ∉ s.allocs) (hok : PermsOk s.root)
    (hreg : ∀ w ∈ linkedWatches s, LocalOk w) (hs : ¬ c.Strands txId deadline s) :
    c.Honest txId deadline s := by
  intro rc s' hrun
  have hroot : ¬ c.RemovesRoot txId deadline s := fun h => StoreCall.not_ends hmem h _ hrun
  obtain ⟨rc', s'', hrun', hkept, -⟩ := c.ends hmem hok hreg hroot
  cases hrun.symm.trans hrun'
  exact hkept hs

end Calls

/-- With memory at hand a call reports what it did exactly when it does not time out after it
has written a new value, and it returns exactly when it does not come to the removal of the
root. -/
theorem storeCall_honest_iff (c : StoreCall) (txId : UInt32) (deadline : Deadline) (s : Shared)
    (hmem : false ∉ s.allocs) (hok : PermsOk s.root) (hreg : ∀ w ∈ linkedWatches s, LocalOk w) :
    (c.Honest txId deadline s ↔ ¬ c.Strands txId deadline s) ∧
      ((∃ r, c.run txId deadline s = .ok r) ↔ ¬ c.RemovesRoot txId deadline s) := by
  refine ⟨⟨fun h hs => StoreCall.not_honest hmem hok hreg hs h, StoreCall.honest hmem hok hreg⟩,
    ?_, fun hroot => ?_⟩
  · rintro ⟨r, hrun⟩ hroot
    exact StoreCall.not_ends hmem hroot r hrun
  · obtain ⟨rc, s', hrun, -⟩ := c.ends hmem hok hreg hroot
    exact ⟨(rc, s'), hrun⟩

/-- The lock for the write is had and the next one times out. -/
def secondLockLate : Shared := { ownedByOne with locks := [true, false] }

theorem secondLockLate_permsOk : PermsOk secondLockLate.root := ownedByOne_wellFormed.permsOk

theorem secondLockLate_noWatches : ∀ w ∈ linkedWatches secondLockLate, LocalOk w := by
  intro w hw
  cases hw

/-- `xs_write` of "/b" then reports a timeout and leaves the node. -/
theorem timed_write_strands :
    ¬ ∀ (c : StoreCall) (txId : UInt32) (deadline : Deadline) (s : Shared), false ∉ s.allocs →
      PermsOk s.root → (∀ w ∈ linkedWatches s, LocalOk w) → c.Honest txId deadline s := by
  intro h
  have hs : (StoreCall.write (some (ascii ['/', 'b'])) (some (ascii ['x']))).Strands 0 .timed
      secondLockLate := by
    refine ⟨ascii ['/', 'b'], ascii ['x'], ⟨_, rfl, rfl, by decide⟩, rfl, by decide, by decide,
      fun hout => hout.2 fun i hi => ?_, rfl, fun hin => ?_⟩
    · obtain rfl : i = 0 := by omega
      rfl
    · cases hin 0 (by decide)
  exact StoreCall.not_honest (by decide) secondLockLate_permsOk secondLockLate_noWatches hs
    (h _ _ _ _ (by decide) secondLockLate_permsOk secondLockLate_noWatches)

theorem storeCall_honest_rm :
    (StoreCall.rm (some (ascii ['/', 'a']))).Honest 0 .timed secondLockLate ∧
      ∃ r, (StoreCall.rm (some (ascii ['/', 'a']))).run 0 .timed secondLockLate = .ok r := by
  obtain ⟨hhonest, hreturns⟩ := storeCall_honest_iff (.rm (some (ascii ['/', 'a']))) 0 .timed
    secondLockLate (by decide) secondLockLate_permsOk secondLockLate_noWatches
  refine ⟨hhonest.mpr ?_, hreturns.mpr ?_⟩
  · rintro ⟨_, _, -, hv, -⟩
    cases hv
  · rintro ⟨_, full, hpath, ⟨_, rfl, -, hfull⟩, hroot, -⟩
    cases hpath
    rw [hroot.1] at hfull
    exact absurd hfull (by decide)

end Xenlib
