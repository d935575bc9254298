import Xenlib.Spelling
import Xenlib.WriteOrder

/-!
XS_WRITE and XS_MKDIR on a node that exists. The right to write it is only asked for where there
is data to store: a request without data, and one for the root, is answered and announced
whoever sends it.
-/

set_option autoImplicit false

namespace Xenlib

open Keyed Wp

/-- Watches were called, or have events waiting. -/
def Heard (s s' : Shared) : Prop :=
  s'.pendingWatchEventList ≠ s.pendingWatchEventList ∨ s'.calls ≠ s.calls

/-- Requests to write the node: only a domain that may write it is told OK and has the watches
told; to any other the answer, with memory at hand and room for it, is EACCES. -/
structure WriteChecked (type : XsdSockmsgType) (root : XsEntry) (domid : UInt32) (payload : Bytes)
    (node : XsNode) : Prop where
  allowed : ∀ (x : Xenstore) (id : UInt32) (s : Shared) (x' : Xenstore) (s' : Shared),
    s.root = root → x.domid = domid → handleWriteAs type x id payload s = .ok (x', s') →
    (answered type x x' = true ∨ Heard s s') → Grants node domid
  denied : ¬ Grants node domid → ∀ (x : Xenstore) (id : UInt32) (s : Shared),
    s.root = root → x.domid = domid → false ∉ s.allocs → BelowLimit x →
    ∃ txId s', handleWriteAs type x id payload s =
      .ok (x.push ⟨.error, id, txId, strBytes (errString .eacces)⟩, s') ∧ ¬ Heard s s'

section Refused
variable {value : CString} {domid : UInt32} {perms : List XsPermEntry} {e : XsEntry}

theorem wp_writeWalk_refused (hno : checkPerms e.label .write domid = .ok false)
    (toks : List CString) (inserted : Bool) (t : XsEntry) (allocs : List Bool)
    (hl : t.lookup toks = some e) :
    wp (writeWalk (some value) domid perms toks inserted t)
      (fun r rest => r = (some .eacces, t) ∧ rest = allocs) (fun _ => False) allocs := by
  induction toks generalizing t with
  | nil =>
    cases hl
    unfold writeWalk writeValue
    simp [hno]
  | cons tok toks ih =>
    rw [Tree.lookup_cons] at hl
    cases hf : t.children.find? tok with
    | none =>
      rw [hf] at hl
      cases hl
    | some iter =>
      rw [hf] at hl
      unfold writeWalk
      simp only [hf, wp_bind, wp_pure]
      refine wp_conseq (ih iter hl) ?_
      rintro r rest ⟨rfl, rfl⟩
      exact ⟨by rw [Forest.set_find? hf], rfl⟩

theorem wp_xssDoWriteDeadline_refused {path : CString} {Q : Option Errno → Shared → Prop}
    {E : Fault → Prop} {s : Shared} (hno : checkPerms e.label .write domid = .ok false)
    (ht : tokens path ≠ []) (hl : s.root.lookup (tokens path) = some e)
    (h : ∀ err rest, rest <:+ s.allocs → (false ∉ s.allocs → err = .eacces) →
      Q (some err) { s with allocs := rest }) :
    wp (xssDoWriteDeadline path (some value) domid perms .forever) Q E s := by
  unfold xssDoWriteDeadline
  simp only [wp_bind, wp_alloc]
  refine wp_kMalloc_drawn fun b rest hd => ?_
  cases b with
  | false => exact h .enomem rest hd.suffix fun hmem => absurd (hd.fail rfl) hmem
  | true =>
    simp only [Bool.not_true, Bool.false_eq_true, if_false, wp_bind]
    refine wp_of_ok (show xssMutexLockDeadline .forever _ = .ok (none, _) from rfl) ?_
    simp only [wp_bind, wp_get, wp_alloc, wp_modify, wp_pure]
    unfold writeTree
    cases htok : tokens path with
    | nil => exact absurd htok ht
    | cons tok toks =>
      rw [htok] at hl
      refine wp_mono (wp_writeWalk_refused hno (tok :: toks) false s.root rest hl) ?_
        fun _ hf => hf.elim
      rintro r rest' ⟨rfl, rfl⟩
      exact h .eacces rest' hd.suffix fun _ => rfl

theorem wp_sendErrno_silent {type : XsdSockmsgType} (htype : type ≠ .error) (x : Xenstore)
    (id : UInt32) (err : Errno) (s : Shared) :
    wp (sendErrno x id err)
      (fun x' s' => ¬ answered type x x' = true ∧ ¬ Heard s s' ∧
        (false ∉ s.allocs → BelowLimit x →
          ∃ txId, x' = x.push ⟨.error, id, txId, strBytes (errString err)⟩))
      (fun _ => ¬ BelowLimit x) s := by
  have hsame : ∀ {s' : Shared}, s'.pendingWatchEventList = s.pendingWatchEventList →
      s'.calls = s.calls → ¬ Heard s s' := fun he hc hh => hh.elim (absurd he) (absurd hc)
  by_cases hlim : BelowLimit x
  · refine wp_sendErrno hlim (fun txId rest _ => ⟨?_, hsame rfl rfl, fun _ _ => ⟨txId, rfl⟩⟩)
      fun rest _ hbad => ⟨not_answered_same rfl, hsame rfl rfl, fun hmem => absurd hbad hmem⟩
    rw [answered_push]
    simpa using htype.symm
  · have hover : ¬ x.usedOutBufs ≤ xenstoreMaxOutBufNum := hlim
    unfold sendErrno sendReplyOr
    rw [if_pos (by omega)]
    exact wp_releaseDomainStored
      (fun _ _ _ => ⟨not_answered_same rfl, hsame rfl rfl, fun _ h => absurd h hlim⟩)
      (fun _ => hlim) (fun _ => hlim)

theorem wp_handleWriteAs_refused {type : XsdSockmsgType} (htype : type ≠ .error) {x : Xenstore}
    {id : UInt32} {payload : Bytes} {path : CString} {s : Shared}
    (hargs : writeArguments x.domid payload = some (path, some value))
    (hno : checkPerms e.label .write x.domid = .ok false) (ht : tokens path ≠ [])
    (hl : s.root.lookup (tokens path) = some e) :
    wp (handleWriteAs type x id payload)
      (fun x' s' => ¬ answered type x x' = true ∧ ¬ Heard s s' ∧
        (false ∉ s.allocs → BelowLimit x →
          ∃ txId, x' = x.push ⟨.error, id, txId, strBytes (errString .eacces)⟩))
      (fun _ => ¬ BelowLimit x) s := by
  -- every error is sent from a state that differs from the first in the allocator alone
  have hsend : ∀ err rest, rest <:+ s.allocs → (false ∉ s.allocs → err = .eacces) →
      wp (sendErrno x id err)
        (fun x' s' => ¬ answered type x x' = true ∧ ¬ Heard s s' ∧
          (false ∉ s.allocs → BelowLimit x →
            ∃ txId, x' = x.push ⟨.error, id, txId, strBytes (errString .eacces)⟩))
        (fun _ => ¬ BelowLimit x) { s with allocs := rest } := by
    intro err rest hs herr
    refine wp_conseq (wp_sendErrno_silent htype x id err { s with allocs := rest }) ?_
    rintro x' s' ⟨hans, hheard, hsent⟩
    refine ⟨hans, hheard, fun hmem hlim => ?_⟩
    rw [← herr hmem]
    exact hsent (fun hf => hmem (hs.subset hf)) hlim
  unfold writeArguments at hargs
  unfold handleWriteAs
  cases htext : readStr payload with
  | error e => simp [htext] at hargs
  | ok text =>
    simp only [htext] at hargs
    by_cases hlen : payload.length < xenstoreStrByteSize (some text)
    · simp [hlen] at hargs
    rw [if_neg hlen] at hargs
    cases hpath : resolvePath text x.domid with
    | error e => simp [hpath] at hargs
    | ok path' =>
      simp only [hpath, Option.some.injEq, Prod.mk.injEq] at hargs
      obtain ⟨rfl, hdata⟩ := hargs
      simp only [wp_bind, wp_lift_ok, if_neg hlen, wp_alloc]
      refine wp_constructPath (fun rest hs => ?_)
        fun rest hs hbad => hsend .enomem rest hs fun hmem => absurd hbad hmem
      rw [hpath]
      simp only [wp_bind, wp_alloc]
      refine wp_constructData_payload (fun rest₁ hs₁ => ?_)
        fun rest₁ hs₁ hbad => hsend .enomem rest₁ (hs₁.trans hs) fun hmem =>
          absurd (hs.subset hbad) hmem
      rw [hdata]
      simp only [wp_bind]
      refine wp_xssDoWriteDeadline_refused hno ht hl fun err rest₂ hs₂ herr => ?_
      have hs' := hs₂.trans (hs₁.trans hs)
      exact hsend err rest₂ hs' fun hmem => herr fun hf => hmem ((hs₁.trans hs).subset hf)

end Refused

/-- A request without data for a node that exists, or for the root, is answered with OK. -/
theorem wp_handleWriteAs_unchecked {type : XsdSockmsgType} {x : Xenstore} {id : UInt32}
    {payload : Bytes} {path : CString} {data : Option CString} {s : Shared} (hlim : BelowLimit x)
    (hok : PermsOk s.root) (hallocs : s.allocs = []) (hreg : ∀ w ∈ linkedWatches s, LocalOk w)
    (hargs : writeArguments x.domid payload = some (path, data))
    (hl : s.root.lookup (tokens path) ≠ none) (hfree : data = none ∨ tokens path = []) :
    wp (handleWriteAs type x id payload) (fun x' _ => answered type x x' = true)
      (fun _ => False) s := by
  have hperm : tokens path = [] ∨ Permitted data x.domid (tokens path) s.root := by
    rcases hfree with rfl | ht
    · exact Or.inr fun hask => absurd hask (by simp [hl])
    · exact Or.inl ht
  rw [handleWriteAs_eq, wp_bind]
  refine wp_conseq (wp_writeRequest hok hallocs hargs) ?_
  rintro r s₁ ⟨rfl, hr⟩
  obtain ⟨rfl, -⟩ := hr.resolve_right fun h => h.2 hperm
  simp only [wp_bind]
  unfold sendReply
  refine wp_sendReplySz hlim (fun m rest hs hm => ?_) fun rest _ hbad => ?_
  · obtain ⟨htype, -⟩ := hm.fits (by decide)
    have hmem : false ∉ rest := by
      rw [hallocs] at hs
      rw [List.suffix_nil.mp hs]
      simp
    unfold notifyWatchers
    simp only [wp_bind, wp_pure]
    refine wp_mono (wp_notifyWatchersDeadline_end hmem) (fun _ _ _ => ?_)
      fun _ hbad => hbad ⟨permsOk_writtenTree hok, hreg⟩
    rw [answered_push]
    exact decide_eq_true htype
  · rw [hallocs] at hbad
    cases hbad

section Checked
variable {type : XsdSockmsgType} {root e : XsEntry} {domid : UInt32} {payload : Bytes}
  {path : CString} {data : Option CString}

theorem WriteChecked.of_refused (htype : type ≠ .error) (hok : PermsOk root)
    (hargs : writeArguments domid payload = some (path, data))
    (hl : root.lookup (tokens path) = some e) (hdata : data ≠ none) (ht : tokens path ≠ []) :
    WriteChecked type root domid payload e.label := by
  obtain ⟨value, rfl⟩ := Option.ne_none_iff_exists'.mp hdata
  have hno : ¬ Grants e.label domid → checkPerms e.label .write domid = .ok false := by
    intro hg
    obtain ⟨granted, hgranted⟩ := checkPerms_ok (hok.lookup hl).1 .write domid
    rw [Grants, hgranted] at hg
    rw [hgranted]
    simpa using hg
  constructor
  · rintro x id s x' s' rfl rfl hrun hheard
    by_contra hg
    have hspec := @wp_handleWriteAs_refused value e type htype x id payload path s hargs (hno hg)
      ht hl
    obtain ⟨hans, hsilent, -⟩ := wp_ok hspec hrun
    exact hheard.elim hans hsilent
  · rintro hg x id s rfl rfl hmem hlim
    have hspec := wp_mono (@wp_handleWriteAs_refused value e type htype x id payload path s hargs
      (hno hg) ht hl) (fun _ _ h => h) fun _ h => h hlim
    obtain ⟨x', s', hrun, -, hsilent, hsent⟩ := wp_total hspec
    obtain ⟨txId, rfl⟩ := hsent hmem hlim
    exact ⟨txId, s', hrun, hsilent⟩

theorem WriteChecked.grants (hok : PermsOk root)
    (hargs : writeArguments domid payload = some (path, data))
    (hl : root.lookup (tokens path) = some e) (hfree : data = none ∨ tokens path = [])
    (h : WriteChecked type root domid payload e.label) : Grants e.label domid := by
  have hlim : BelowLimit (idleClient domid) := by
    simp [BelowLimit, idleClient, Xenstore.started, xenstoreMaxOutBufNum]
  have hspec := @wp_handleWriteAs_unchecked type (idleClient domid) 0 payload path data
    { Shared.boot 4 with root := root } hlim hok rfl (fun w hw => by cases hw) hargs
    (by rw [hl]; simp) hfree
  obtain ⟨x', s', hrun, hans⟩ := wp_total hspec
  exact h.allowed _ _ _ _ _ rfl rfl hrun (Or.inl hans)

end Checked

/-- XS_WRITE and XS_MKDIR on a node that exists are checked exactly when the domain may write it
anyway, or there is data to store below the root. -/
theorem writeChecked_iff (type : XsdSockmsgType) (htype : type = .write ∨ type = .mkdir)
    (root : XsEntry) (hwf : WellFormed root) (domid : UInt32) (payload : Bytes) (path : CString)
    (data : Option CString) (hargs : writeArguments domid payload = some (path, data)) (e : XsEntry)
    (hl : root.lookup (tokens path) = some e) :
    WriteChecked type root domid payload e.label ↔
      Grants e.label domid ∨ (data ≠ none ∧ tokens path ≠ []) := by
  have herr : type ≠ .error := by
    rcases htype with rfl | rfl <;> decide
  constructor
  · intro h
    by_cases hfree : data = none ∨ tokens path = []
    · exact Or.inl (h.grants hwf.permsOk hargs hl hfree)
    · exact Or.inr (not_or.mp hfree)
  · rintro (hg | ⟨hdata, ht⟩)
    · exact ⟨fun _ _ _ _ _ _ _ _ _ => hg, fun hn => absurd hg hn⟩
    · exact WriteChecked.of_refused herr hwf.permsOk hargs hl hdata ht

/-- Domain 2 may not write "/a"; its XS_MKDIR of it is answered with OK. -/
theorem mkdir_not_checked :
    ¬ ∀ (type : XsdSockmsgType) (root : XsEntry) (domid : UInt32) (payload : Bytes)
      (path : CString) (data : Option CString) (e : XsEntry), type = .write ∨ type = .mkdir →
      WellFormed root → domid ≠ 0 → writeArguments domid payload = some (path, data) →
      root.lookup (tokens path) = some e → WriteChecked type root domid payload e.label := by
  intro h
  have hargs : writeArguments 2 (strBytes (ascii ['/', 'a'])) = some (ascii ['/', 'a'], none) := by
    decide
  have hchecked := h .mkdir ownedByOne.root 2 _ _ _ _ (Or.inr rfl) ownedByOne_wellFormed
    (by decide) hargs rfl
  have hgrants := hchecked.grants ownedByOne_wellFormed.permsOk hargs rfl (Or.inl rfl)
  exact absurd hgrants (by unfold Grants; decide)

theorem write_checked : ∃ e, WriteChecked .write ownedByOne.root 2
    (strBytes (ascii ['/', 'a']) ++ strBytes (ascii ['v'])) e ∧ ¬ Grants e 2 := by
  refine ⟨_, (writeChecked_iff .write (Or.inl rfl) ownedByOne.root ownedByOne_wellFormed 2 _
    (ascii ['/', 'a']) (some (ascii ['v'])) (by decide) _ rfl).mpr (Or.inr ⟨by simp, by decide⟩),
    ?_⟩
  unfold Grants
  decide

end Xenlib
