import Xenlib.Notification
import Xenlib.PathGrammar
import Xenlib.SetPerms

/-!
What a removal takes away. `xss_do_rm_deadline` takes the root for a node like any other, though
it is in no list, and XS_RM hands it the text of the request as it is.
-/

set_option autoImplicit false

namespace Xenlib

open Keyed Wp

theorem writableEntry_spec {root : XsEntry} {key : CString} {domid : UInt32} {entry : EntryRef}
    (h : writableEntry root key domid = some entry) :
    foundEntry root key = some entry ∧ Grants entry.entry.label domid := by
  obtain ⟨hfound, hg⟩ := Option.filter_eq_some_iff.mp h
  refine ⟨hfound, ?_⟩
  rw [Grants]
  exact of_decide_eq_true hg

theorem lookup_remove_isSome {p q : List CString} {t : XsEntry} (hp : p ≠ [])
    (ht : t.children.Distinct) :
    ((t.remove p).lookup q).isSome ↔ ¬ p <+: q ∧ (t.lookup q).isSome := by
  have hsplit : p = p.dropLast ++ [p.getLast hp] := (List.dropLast_concat_getLast hp).symm
  rw [← Tree.view_isSome, ← Tree.view_isSome, hsplit, Tree.view_remove _ _ _ ht]
  by_cases hpre : p.dropLast ++ [p.getLast hp] <+: q
  · simp [hpre]
  · simp [hpre]

theorem wp_xssDoRmDeadline_root {key : CString} {callerId : UInt32} {deadline : Deadline}
    (s : Shared) :
    wp (xssDoRmDeadline key callerId deadline)
      (fun _ s' => WellFormed s.root → WellFormed s'.root)
      (fun e => (e = .emptyPerms ∧ ¬ PermsOk s.root) ∨ NotifyFault key true (linkedWatches s) s e ∨
        (e = .unlinkedNode ∧ RemovesRoot s.root key callerId)) s := by
  unfold xssDoRmDeadline
  simp only [wp_bind, wp_pure]
  refine wp_mono (wp_xssDoRmLocked s) (fun r s₁ hr => ?_) (fun _ he => he)
  obtain ⟨evs, -, hrm⟩ := hr
  obtain ⟨rc, ids⟩ := r
  refine wp_dispatchLocalWatchEventsLocked ids s₁ fun s' hf _ _ hwf => ?_
  rw [hf.root]
  cases hrm with
  | refused e hn =>
    rw [hn.frame.root]
    exact hwf
  | freed s₂ entry hn hfound hg hfree =>
    rw [freeEntry_root hfree, hn.frame.root]
    exact hwf.remove entry.path

/-- The root is not freed, and what a removal leaves behind is a well-formed store. -/
def RootSurvives (key : CString) (callerId : UInt32) (deadline : Deadline) (s : Shared) : Prop :=
  (∀ e, xssDoRmDeadline key callerId deadline s = .error e →
    e ≠ .emptyPerms ∧ e ≠ .unlinkedNode) ∧
  ∀ rc s', xssDoRmDeadline key callerId deadline s = .ok (rc, s') → WellFormed s'.root

theorem NotifyFault.not_permsOk {path : CString} {recursiveRemove : Bool} {s : Shared} {e : Fault}
    (h : NotifyFault path recursiveRemove [] s e) : ¬ PermsOk s.root := by
  cases e with
  | emptyPerms => exact h
  | assertion =>
    obtain ⟨w, hw, -⟩ := h
    cases hw
  | outOfBounds =>
    obtain ⟨w, hw, -⟩ := h
    cases hw
  | nullEntry => exact h.elim
  | nullInput => exact h.elim
  | unmappedRing => exact h.elim
  | unlinkedNode => exact h.elim

def unwatched (root : XsEntry) : Shared := { Shared.boot 1 with root := root }

/-- A permitted removal of "/" comes to a node that is in no list. -/
theorem rm_root_faults {root : XsEntry} {key : CString} {callerId : UInt32} (hok : PermsOk root)
    (h : RemovesRoot root key callerId) :
    xssDoRmDeadline key callerId .forever (unwatched root) = .error .unlinkedNode := by
  cases hrun : xssDoRmDeadline key callerId .forever (unwatched root) with
  | ok r =>
    have hmem : false ∉ (unwatched root).allocs := List.not_mem_nil
    have hend := wp_ok (wp_xssDoRmDeadline_end hmem) hrun
    exact absurd ⟨h, fun ht => by cases ht.1⟩ hend.not_freesRoot
  | error e =>
    rcases wp_error (wp_xssDoRmDeadline_root _) hrun with ⟨-, hp⟩ | he | ⟨rfl, -⟩
    · exact absurd hok hp
    · exact absurd hok he.not_permsOk
    · rfl

/-- The root survives every call with a key and a caller exactly when the key is not "/" or the
caller may not write the root. -/
theorem root_survives_iff (root : XsEntry) (hwf : WellFormed root) (key : CString)
    (callerId : UInt32) :
    (∀ (s : Shared) (deadline : Deadline), s.root = root → RootSurvives key callerId deadline s) ↔
      ¬ RemovesRoot root key callerId := by
  constructor
  · intro h hroot
    have hfault := rm_root_faults hwf.permsOk hroot
    exact ((h (unwatched root) .forever rfl).1 _ hfault).2 rfl
  · rintro h s deadline rfl
    refine ⟨fun e hrun => ?_, fun rc s' hrun => wp_ok (wp_xssDoRmDeadline_root s) hrun hwf⟩
    rcases wp_error (wp_xssDoRmDeadline_root s) hrun with ⟨-, hp⟩ | he | ⟨-, hroot⟩
    · exact absurd hwf.permsOk hp
    · exact he.ne hwf.permsOk
    · exact absurd hroot h

/-- `xss_rm("/")`. -/
theorem root_removed :
    ¬ ∀ (s : Shared) (key : CString) (callerId : UInt32) (deadline : Deadline),
      WellFormed s.root → RootSurvives key callerId deadline s := by
  intro h
  have hrun : xssDoRmDeadline [slash] 0 .forever ownedByOne = .error .unlinkedNode := rfl
  exact ((h ownedByOne [slash] 0 .forever ownedByOne_wellFormed).1 _ hrun).2 rfl

theorem root_survives_path :
    ∃ rc s', xssDoRmDeadline (ascii ['/', 'a']) 1 .forever ownedByOne = .ok (rc, s') ∧
      WellFormed s'.root := by
  have hkept := (root_survives_iff ownedByOne.root ownedByOne_wellFormed
    (ascii ['/', 'a']) 1).mpr fun h => absurd h.1 (by decide)
  have hrun : ∃ rc s', xssDoRmDeadline (ascii ['/', 'a']) 1 .forever ownedByOne =
      .ok (rc, s') := ⟨_, _, rfl⟩
  obtain ⟨rc, s', hrun⟩ := hrun
  exact ⟨rc, s', hrun, (hkept ownedByOne .forever rfl).2 rc s' hrun⟩

/-- The store after a removal of the node at `q`: the root and what the domain may not write
stay. -/
def removedAt (root : XsEntry) (q : CString) (domid : UInt32) : XsEntry :=
  if q ≠ [slash] ∧ (writableEntry root q domid).isSome then root.remove (tokens q) else root

/-- XS_RM of `p` by `domid` acts on the node that `construct_path` makes of `p`, and not on the
root; a path that is rejected is answered with an error and changes nothing. -/
def RmResolves (root : XsEntry) (domid : UInt32) (p : CString) : Prop :=
  ∀ (x : Xenstore) (id : UInt32) (tail : Bytes) (s : Shared), s.root = root →
    false ∉ s.allocs → x.domid = domid → x.usedOutBufs ≤ xenstoreMaxOutBufNum →
    handleRm x id (strBytes p ++ tail) s ≠ .error .unlinkedNode ∧
    ∀ (x' : Xenstore) (s' : Shared), handleRm x id (strBytes p ++ tail) s = .ok (x', s') →
      (∀ q, resolvePath p domid = .ok q → s'.root = removedAt root q domid) ∧
      (∀ e, resolvePath p domid = .error e → s'.root = root ∧ ErrorQueued id x x')

/-- The text itself leads to a node the domain may write though it is rejected, relative or
"/", or `construct_path` leads from a relative text to one. -/
def RmStrays (root : XsEntry) (domid : UInt32) (p : CString) : Prop :=
  match resolvePath p domid with
  | .error _ => (writableEntry root p domid).isSome
  | .ok q => (p.head? ≠ some slash ∨ p = [slash]) ∧
      ((writableEntry root p domid).isSome ∨ (writableEntry root q domid).isSome)

theorem wp_handleRm_end {x : Xenstore} {id : UInt32} {p : CString} {tail : Bytes} {s : Shared}
    (hmem : false ∉ s.allocs) (hlim : x.usedOutBufs ≤ xenstoreMaxOutBufNum) :
    wp (handleRm x id (strBytes p ++ tail))
      (fun x' s' =>
        (writableEntry s.root p x.domid = none → s'.root = s.root ∧ ErrorQueued id x x') ∧
        ∀ entry, writableEntry s.root p x.domid = some entry →
          s'.root = s.root.remove entry.path)
      (fun _ => ¬ (PermsOk s.root ∧ ∀ w ∈ linkedWatches s, LocalOk w) ∨
        RemovesRoot s.root p x.domid) s := by
  unfold handleRm
  rw [wp_bind]
  refine wp_lift (fun key hkey => ?_) (fun _ he => ?_)
  · rw [readStr_strBytes] at hkey
    cases hkey
    rw [wp_bind]
    refine wp_mono (wp_xssDoRmDeadline_end hmem) (fun rc s₁ hend => ?_)
      (fun _ hbad => hbad.imp_right And.left)
    have hin : ∀ n, ¬ TimesOut .forever n s.locks := fun n ht => by cases ht.1
    cases hw : writableEntry s.root p x.domid with
    | none =>
      obtain ⟨-, hroot⟩ := hend.refused (Or.inl hw)
      rw [hend.missing hw (hin 2)]
      refine wp_sendErrno hlim (fun txId rest _ => ⟨fun _ => ⟨hroot, _, rfl, rfl, rfl⟩,
        fun _ he => by cases he⟩) (fun rest _ hf => absurd hf hend.allocs)
    | some entry =>
      obtain ⟨hrc, -, -, -, hroot⟩ := hend.freed entry hw (hin _)
      rw [hrc]
      refine wp_sendReplySz_any hlim fun x' rest _ => ⟨fun h => (by cases h), fun entry' he => ?_⟩
      cases he
      exact hroot
  · rw [readStr_strBytes] at he
    cases he

theorem handleRm_unlinked {x : Xenstore} {id : UInt32} {p : CString} {tail : Bytes} {s : Shared}
    (hlim : x.usedOutBufs ≤ xenstoreMaxOutBufNum)
    (h : handleRm x id (strBytes p ++ tail) s = .error .unlinkedNode) :
    RemovesRoot s.root p x.domid := by
  have hspec : wp (handleRm x id (strBytes p ++ tail)) (fun _ _ => True)
      (fun e => e = .unlinkedNode → RemovesRoot s.root p x.domid) s := by
    unfold handleRm
    rw [wp_bind]
    refine wp_lift (fun key hkey => ?_) (fun e he => ?_)
    · rw [readStr_strBytes] at hkey
      cases hkey
      rw [wp_bind]
      refine wp_mono (wp_xssDoRmDeadline_root s) (fun rc s₁ _ => ?_) (fun e he heq => ?_)
      · cases rc with
        | none => exact wp_sendReplySz_any hlim fun _ _ _ => trivial
        | some _ => exact wp_sendErrno hlim (fun _ _ _ => trivial) (fun _ _ _ => trivial)
      · subst heq
        rcases he with ⟨he, -⟩ | he | ⟨-, hroot⟩
        · cases he
        · exact he.elim
        · exact hroot
    · rw [readStr_strBytes] at he
      cases he
  exact wp_error hspec h rfl

section Strays
variable {root : XsEntry} {domid : UInt32} {p : CString}

theorem writableEntry_path {entry : EntryRef} (h : writableEntry root p domid = some entry)
    (hr : p ≠ [slash]) : entry.path = tokens p ∧ tokens p ≠ [] ∧
      (root.lookup (tokens p)).isSome := by
  have hfound := (writableEntry_spec h).1
  obtain ⟨hpath, hne⟩ := foundEntry_path hfound hr
  refine ⟨hpath, hne, ?_⟩
  rw [← hpath, foundEntry_lookup hfound]
  rfl

/-- A relative path and what it is resolved to name different nodes. -/
theorem tokens_resolved (hd : domid.toNat ≤ 32767) {q : CString}
    (hq : resolvePath p domid = .ok q) (hrel : p.head? ≠ some slash) :
    q ≠ [slash] ∧ tokens q = domainDir domid ++ tokens p := by
  obtain ⟨hok, hbig, hinval⟩ := @resolvePath_eq p domid hd
  by_cases hs : PathShape p
  · by_cases hf : PathFits p
    · rw [hok hs hf, if_neg hrel] at hq
      cases hq
      rcases hs with rfl | ⟨ks, hks, hnames, rfl | rfl⟩
      · exact absurd rfl hrel
      · have hcomp : Components ks := Name.components hnames
        have htokens : tokens ([slash].intercalate ks) = ks := by
          have h := @tokens_joined_append ks [] hcomp (Or.inl rfl)
          rw [List.append_nil, joined_eq_intercalate hks] at h
          simpa [tokens, tokensFrom] using h
        have hall : tokens (localDomainPath domid ++ [slash].intercalate ks) =
            domainDir domid ++ ks := by
          have h := @tokens_joined_append (domainDir domid) (joined ks)
            (Name.components (domainDir_names domid)) (joined_boundary ks)
          have h' := @tokens_joined_append ks [] hcomp (Or.inl rfl)
          rw [List.append_nil] at h'
          rw [localDomainPath_joined hd, ← joined_eq_intercalate hks, h, h']
          simp [tokens, tokensFrom]
        refine ⟨fun hr => ?_, by rw [hall, htokens]⟩
        rw [hr] at hall
        exact absurd hall (by simp [tokens, tokensFrom, slash, domainDir])
      · exact absurd rfl hrel
    · rw [hbig hs hf] at hq
      cases hq
  · rw [hinval hs] at hq
    cases hq

theorem resolved_absolute {q : CString} (hq : resolvePath p domid = .ok q)
    (ha : p.head? = some slash) : q = p := by
  obtain ⟨-, ht⟩ := resolvePath_ok hq
  unfold pathText at ht
  rw [if_pos ((isAbsPath_iff p).mpr ha)] at ht
  exact (Except.ok.inj ht).symm

end Strays

theorem remove_ne_self {root : XsEntry} {q : List CString} (hwf : WellFormed root) (hq : q ≠ [])
    (hsome : (root.lookup q).isSome) : root.remove q ≠ root := by
  intro h
  rw [← h] at hsome
  exact ((lookup_remove_isSome hq hwf.distinct).mp hsome).1 List.prefix_rfl

def idleRm (domid : UInt32) : Xenstore :=
  Xenstore.started domid ⟨fun _ => 0, fun _ => 0, 0, 0, 0, 0⟩ 0 fun _ => 0

theorem idleRm_usedOutBufs (domid : UInt32) :
    (idleRm domid).usedOutBufs ≤ xenstoreMaxOutBufNum := by
  rw [show (idleRm domid).usedOutBufs = 0 from rfl]
  decide

theorem handleRm_root {root : XsEntry} {domid : UInt32} {p : CString} (hok : PermsOk root)
    (h : RemovesRoot root p domid) :
    handleRm (idleRm domid) 0 (strBytes p ++ []) (unwatched root) = .error .unlinkedNode := by
  have hread : readStr (strBytes p ++ []) = .ok p := readStr_strBytes p []
  have hrun : xssDoRmDeadline p (idleRm domid).domid .forever (unwatched root) =
      .error .unlinkedNode := rm_root_faults hok h
  simp only [handleRm, Wp.lift, hread, bind, StateT.bind, Except.bind, Except.map, hrun]

theorem exists_rm_run {root : XsEntry} (hwf : WellFormed root) {domid : UInt32} {p : CString}
    (hroot : ¬ RemovesRoot root p domid) : ∃ (x' : Xenstore) (s' : Shared),
      handleRm (idleRm domid) 0 (strBytes p ++ []) (unwatched root) = .ok (x', s') ∧
      (writableEntry root p domid = none → s'.root = root) ∧
      ∀ entry, writableEntry root p domid = some entry → s'.root = root.remove entry.path := by
  have hspec := @wp_handleRm_end (idleRm domid) 0 p [] (unwatched root) List.not_mem_nil
    (idleRm_usedOutBufs domid)
  obtain ⟨x', s', hrun, hnone, hend⟩ := wp_total (wp_mono hspec (fun _ _ h => h)
    (fun _ hbad => hbad.elim (fun hbad => hbad ⟨hwf.permsOk, fun w hw => absurd hw
      List.not_mem_nil⟩) hroot))
  exact ⟨x', s', hrun, fun h => (hnone h).1, hend⟩

theorem not_rmResolves {root : XsEntry} (hwf : WellFormed root) {domid : UInt32}
    (hd : domid.toNat ≤ 32767) {p : CString} (hstray : RmStrays root domid p) :
    ¬ RmResolves root domid p := by
  intro h
  have hown := h (idleRm domid) 0 [] (unwatched root) rfl List.not_mem_nil rfl
    (idleRm_usedOutBufs domid)
  by_cases hroot : RemovesRoot root p domid
  · exact hown.1 (handleRm_root hwf.permsOk hroot)
  obtain ⟨x', s', hrun, hnone, hend⟩ := exists_rm_run hwf hroot
  obtain ⟨hok, herr⟩ := hown.2 x' s' hrun
  unfold RmStrays at hstray
  cases hres : resolvePath p domid with
  | error e =>
    rw [hres] at hstray
    obtain ⟨entry, hw⟩ := Option.isSome_iff_exists.mp hstray
    have hr : p ≠ [slash] := by
      rintro rfl
      cases hres
    obtain ⟨hpath, hne, hsome⟩ := writableEntry_path hw hr
    have hgone := hend entry hw
    rw [(herr e hres).1, hpath] at hgone
    exact remove_ne_self hwf hne hsome hgone.symm
  | ok q =>
    rw [hres] at hstray
    obtain ⟨hspelled, hwritable⟩ := hstray
    have hexp := hok q hres
    by_cases hr : p = [slash]
    · subst hr
      have hq := resolved_absolute hres rfl
      rw [hq, or_self] at hwritable
      obtain ⟨entry, hw⟩ := Option.isSome_iff_exists.mp hwritable
      obtain ⟨hfound, hg⟩ := writableEntry_spec hw
      cases hfound
      exact hroot ⟨rfl, hg⟩
    · have hrel := hspelled.resolve_right hr
      obtain ⟨hqr, htok⟩ := tokens_resolved hd hres hrel
      have hqne : tokens q ≠ [] := by simp [htok, domainDir]
      cases hw : writableEntry root p domid with
      | none =>
        rw [hw] at hwritable
        have hq := hwritable.resolve_left (by simp)
        obtain ⟨entry, hwq⟩ := Option.isSome_iff_exists.mp hq
        obtain ⟨-, -, hsome⟩ := writableEntry_path hwq hqr
        rw [hnone hw, removedAt, if_pos ⟨hqr, hq⟩] at hexp
        exact remove_ne_self hwf hqne hsome hexp.symm
      | some entry =>
        obtain ⟨hpath, hne, hsome⟩ := writableEntry_path hw hr
        rw [hend entry hw, hpath, removedAt] at hexp
        split at hexp
        · -- the node of the text is still there after the removal below the directory
          have hstays : ((root.remove (tokens q)).lookup (tokens p)).isSome := by
            refine (lookup_remove_isSome hqne hwf.distinct).mpr ⟨fun hpre => ?_, hsome⟩
            have hlen := hpre.length_le
            rw [htok, List.length_append] at hlen
            simp only [domainDir, List.length_cons, List.length_nil] at hlen
            omega
          rw [← hexp] at hstays
          exact ((lookup_remove_isSome hne hwf.distinct).mp hstays).1 List.prefix_rfl
        · exact remove_ne_self hwf hne hsome hexp

theorem RmStrays.of_root {root : XsEntry} {domid : UInt32} {p : CString}
    (h : RemovesRoot root p domid) : RmStrays root domid p := by
  have hw := writableEntry_root h
  obtain ⟨rfl, -⟩ := h
  have hres : resolvePath [slash] domid = .ok [slash] := rfl
  unfold RmStrays
  rw [hres]
  exact ⟨Or.inr rfl, Or.inl (Option.isSome_iff_exists.mpr ⟨_, hw⟩)⟩

theorem rmResolves {root : XsEntry} {domid : UInt32} {p : CString}
    (h : ¬ RmStrays root domid p) : RmResolves root domid p := by
  rintro x id tail s rfl hmem rfl hlim
  refine ⟨fun hrun => h (.of_root (handleRm_unlinked hlim hrun)), fun x' s' hrun => ?_⟩
  obtain ⟨hnone, hend⟩ := wp_ok (wp_handleRm_end hmem hlim) hrun
  unfold RmStrays at h
  cases hres : resolvePath p x.domid with
  | error e =>
    rw [hres] at h
    have hw : writableEntry s.root p x.domid = none := by simpa using h
    exact ⟨fun q hq => (by cases hq), fun _ _ => hnone hw⟩
  | ok q =>
    rw [hres] at h
    by_cases hspelled : p.head? ≠ some slash ∨ p = [slash]
    · have hboth := not_or.mp (fun hw => h ⟨hspelled, hw⟩)
      have hw : writableEntry s.root p x.domid = none := by simpa using hboth.1
      refine ⟨fun q' hq => ?_, fun e he => by cases he⟩
      cases hq
      rw [(hnone hw).1, removedAt, if_neg fun hq => hboth.2 hq.2]
    · obtain ⟨habs, hr⟩ := not_or.mp hspelled
      have hq := resolved_absolute hres (not_not.mp habs)
      subst hq
      refine ⟨fun q' hq => ?_, fun e he => by cases he⟩
      cases hq
      cases hw : writableEntry s.root q x.domid with
      | none => rw [(hnone hw).1, removedAt, if_neg fun hq => by simp [hw] at hq]
      | some entry =>
        obtain ⟨hpath, -⟩ := writableEntry_path hw hr
        rw [hend entry hw, hpath, removedAt, if_pos ⟨hr, by simp [hw]⟩]

end Xenlib
