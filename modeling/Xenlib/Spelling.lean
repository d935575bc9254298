import Xenlib.ControlWrites
import Xenlib.HandlersSpec

/-!
The spelling of a path and the watches that learn of a change. The tree walk goes by
components, the notification by text. XS_WRITE, XS_MKDIR and the `xs_*` calls resolve their
path first; XS_RM and the `xss_*` calls pass it on as it was given.
-/

set_option autoImplicit false

namespace Xenlib

open Wp Keyed

/-- Every normalized path above the node that a watch can be set on is a prefix of the text. -/
def Spelled (path : CString) : Prop :=
  ∀ key, NormalPath key → tokens key <+: tokens path → key = [slash] ∨ key <+: path

/-- The text is normalized, or no watch can be set below the node. -/
def Covers (path : CString) : Prop :=
  Canonical path ∨ ∀ key, NormalPath key → tokens path <+: tokens key → tokens key = tokens path

theorem boundary_of_prefix {a : List CString} {rest : CString} (ha : Components a) (hne : a ≠ [])
    (h : a <+: tokens (joined a ++ rest)) : Boundary rest := by
  cases rest with
  | nil => exact Or.inl rfl
  | cons c rest =>
    refine Or.inr ?_
    by_contra hc
    have hc : c ≠ slash := by simpa using hc
    obtain ⟨b, t, rfl⟩ : ∃ b t, a = b ++ [t] := ⟨_, _, (List.dropLast_append_getLast hne).symm⟩
    have hb : Components b := fun u hu => ha u (List.mem_append_left _ hu)
    have ht := ha t (by simp)
    have hsplit : tokens (joined (b ++ [t]) ++ c :: rest) =
        b ++ (t ++ c :: rest.takeWhile (· ≠ slash)) ::
          tokens ((rest.dropWhile (· ≠ slash)).drop 1) := by
      have hb' : Boundary (slash :: (t ++ c :: rest)) := Or.inr rfl
      rw [joined_append, List.append_assoc]
      simp only [joined_cons, joined_nil, List.append_nil, List.cons_append]
      rw [tokens_joined_append hb hb']
      have hstep : tokens (slash :: (t ++ c :: rest)) = tokensFrom [] (t ++ c :: rest) := by
        simp [tokens, tokensFrom]
      rw [hstep, tokensFrom_append ht.2, List.nil_append, tokensFrom, if_neg hc,
        tokensFrom_of_ne_nil _ _ (by simp)]
      simp
    rw [hsplit, List.prefix_append_right_inj, List.cons_prefix_cons] at h
    simpa using congrArg List.length h.1

theorem contains_of_spelled {path key : CString} (hne : path ≠ []) (hk : NormalPath key)
    (hpre : tokens key <+: tokens path) (h : key = [slash] ∨ key <+: path) :
    xenstorePathContains key path = true := by
  have hc := hk.canonical
  rw [← hc, contains_render_iff (components_tokens key) hne]
  by_cases ht : tokens key = []
  · exact Or.inl ht
  · have hkey : key = joined (tokens key) := by
      conv_lhs => rw [← hc, renderPath, if_neg ht]
    rcases h with h | ⟨rest, h⟩
    · rw [h] at ht
      exact absurd rfl ht
    · rw [hkey] at h
      refine Or.inr ⟨rest, h.symm, ?_⟩
      rw [← h] at hpre
      exact boundary_of_prefix (components_tokens key) ht hpre

theorem spelled_of_contains {path key : CString} (h : xenstorePathContains key path = true) :
    key = [slash] ∨ key <+: path := by
  by_cases hr : key = [slash]
  · exact Or.inl hr
  · exact Or.inr (prefix_of_xenstorePathContains h hr)

theorem prefix_of_contains {path key : CString} (hk : NormalPath key) (hne : path ≠ [])
    (h : xenstorePathContains key path = true) : tokens key <+: tokens path := by
  rw [← hk.canonical] at h
  exact prefix_of_contains_render (components_tokens key) hne h

theorem canonical_of_contains {path key : CString} (hk : NormalPath key) (ht : tokens path ≠ [])
    (h : xenstorePathContains path key = true) : Canonical path := by
  have hr : path ≠ [slash] := by
    rintro rfl
    exact ht rfl
  by_cases he : path = key
  · rw [he]
    exact hk.canonical
  · have hroot : ¬ xenstoreIsRootPath path = true := by rwa [xenstoreIsRootPath_iff]
    simp only [xenstorePathContains, he, if_false, hroot, Bool.false_eq_true, Bool.and_eq_true,
      List.isPrefixOf_iff_prefix, decide_eq_true_eq] at h
    obtain ⟨⟨rest, rfl⟩, hnext⟩ := h
    rw [List.getElem?_append_right (le_refl _), Nat.sub_self, ← List.head?_eq_getElem?] at hnext
    have hne : path ≠ [] := by
      rintro rfl
      exact ht rfl
    have hkr : path ++ rest ≠ [slash] := by
      intro hbad
      cases path with
      | nil => exact hne rfl
      | cons c path =>
        rw [List.cons_append, List.cons.injEq, List.append_eq_nil_iff] at hbad
        rw [hbad.1, hbad.2.1] at hr
        exact hr rfl
    obtain ⟨hs, -⟩ := singleSlashes_of_validate hk.2 hkr
    have habs : xenstoreIsAbsPath path = true := by
      have ha := hk.1
      cases path with
      | nil => exact absurd rfl hne
      | cons c path => exact ha
    obtain ⟨hp, -, hjoin⟩ := List.isChain_append.mp hs
    refine (render_prefix_of_singleSlashes habs hp ht).2 fun hlast => ?_
    exact hjoin slash hlast slash hnext ⟨rfl, rfl⟩

section Reach
variable {root : XsEntry} {path : CString} {w : WatchEntry}

theorem found_any_of_mayRead {domid : UInt32} (ht : tokens path ≠ [])
    (hlen : path.length ≤ xenstoreAbsPathMax) (h : MayRead root (tokens path) domid) :
    ((foundEntry root path).any fun e => checkPerms e.entry.label .read domid = .ok true) =
      true := by
  obtain ⟨e, hl, hp⟩ := h
  rw [foundEntry_tokens ht hlen, hl]
  simp [hp]

theorem queuedPath_above {recursiveRemove : Bool} (ht : tokens path ≠ [])
    (hlen : path.length ≤ xenstoreAbsPathMax) (hs : Spelled path) (hw : NormalPath w.key)
    (h : ToldAbove root path w) : (queuedPath root path recursiveRemove w).isSome := by
  have hne : path ≠ [] := by
    rintro rfl
    exact ht rfl
  have hc := contains_of_spelled hne hw h.1 (hs w.key hw h.1)
  rw [queuedPath, watchEventPath, if_pos hc, Option.filter_some,
    if_pos (found_any_of_mayRead ht hlen h.2)]
  rfl

theorem queuedPath_below (hp : Canonical path) (hlen : path.length ≤ xenstoreAbsPathMax)
    (hw : NormalPath w.key) (h : ToldAbove root path w ∨ ToldBelow root path w) :
    (queuedPath root path true w).isSome := by
  rw [queuedPath, watchEventPath_canonical hp hw.canonical]
  by_cases habove : tokens w.key <+: tokens path
  · have hr : MayRead root (tokens path) w.owner := by
      rcases h with h | h
      · exact h.2
      · rw [← habove.eq_of_length_le h.1.length_le]
        exact h.2
    rw [if_pos habove, Option.filter_some, found_any_iff hp hlen, if_pos (decide_eq_true hr)]
    rfl
  · obtain ⟨hpre, hr⟩ := h.resolve_left fun h => habove h.1
    rw [if_neg habove, if_pos ⟨rfl, hpre⟩, Option.filter_some,
      found_any_iff hw.canonical hw.length, if_pos (decide_eq_true hr)]
    rfl

/-- A removal reaches the watches above and below its node. -/
theorem queuedPath_removed (ht : tokens path ≠ []) (hlen : path.length ≤ xenstoreAbsPathMax)
    (hs : Spelled path) (hc : Covers path) (hw : NormalPath w.key)
    (h : ToldAbove root path w ∨ ToldBelow root path w) :
    (queuedPath root path true w).isSome := by
  rcases hc with hc | hc
  · exact queuedPath_below hc hlen hw h
  · refine queuedPath_above ht hlen hs hw ?_
    rcases h with h | h
    · exact h
    · have heq := hc w.key hw h.1
      rw [ToldBelow, heq] at h
      rw [ToldAbove, heq]
      exact ⟨List.prefix_rfl, h.2⟩

/-- A watch above the node is passed over when its key is not a prefix of the text. -/
theorem queuedPath_unspelled {recursiveRemove : Bool} (ht : tokens path ≠ [])
    (hw : NormalPath w.key) (hpre : tokens w.key <+: tokens path) (hroot : w.key ≠ [slash])
    (hbad : ¬ w.key <+: path) :
    queuedPath root path recursiveRemove w = none := by
  have habove : ¬ xenstorePathContains w.key path = true := by
    intro h
    exact (spelled_of_contains h).elim hroot hbad
  have hbelow : ¬ xenstorePathContains path w.key = true := by
    intro h
    have hc := canonical_of_contains hw ht h
    have hcontains := (hw.canonical.contains_iff hc).mpr hpre
    exact habove hcontains
  rw [queuedPath, watchEventPath, if_neg habove, if_neg (by simp [hbelow]), Option.filter_none]

/-- A watch below the node is passed over when the text is not normalized. -/
theorem queuedPath_uncovered (ht : tokens path ≠ []) (hw : NormalPath w.key)
    (hpre : tokens path <+: tokens w.key) (hne : tokens w.key ≠ tokens path)
    (hbad : ¬ Canonical path) : queuedPath root path true w = none := by
  have hnil : path ≠ [] := by
    rintro rfl
    exact ht rfl
  have habove : ¬ xenstorePathContains w.key path = true := by
    intro h
    have hle := (prefix_of_contains hw hnil h).length_le
    exact hne (hpre.eq_of_length_le hle).symm
  have hbelow : ¬ xenstorePathContains path w.key = true :=
    fun h => hbad (canonical_of_contains hw ht h)
  rw [queuedPath, watchEventPath, if_neg habove, if_neg (by simp [hbelow]), Option.filter_none]

theorem queuedPath_long (hlen : ¬ path.length ≤ xenstoreAbsPathMax) :
    queuedPath root path false w = none := by
  rw [queuedPath, watchEventPath, Bool.false_and, if_neg Bool.false_ne_true]
  split
  · have hnone : foundEntry root path = none := by
      rw [foundEntry, if_pos (by omega)]
    rw [Option.filter_some, hnone]
    rfl
  · rfl

end Reach

def answered (type : XsdSockmsgType) (x x' : Xenstore) : Bool :=
  (x'.queued.drop x.queued.length).any fun m => m.type = type

/-- The calls that create, write or remove nodes. -/
inductive EntryPoint where
  | guestWrite (x : Xenstore) (id : UInt32) (payload : Bytes)
  | guestMkdir (x : Xenstore) (id : UInt32) (payload : Bytes)
  | guestRm (x : Xenstore) (id : UInt32) (payload : Bytes)
  | xssWrite (path value : CString)
  | xssWriteGuestDomainRw (path value : CString) (domid : UInt32)
  | xssWriteGuestDomainRo (path value : CString) (domid : UInt32)
  | xssWriteGuestWithPermissions (path value : CString) (domid1 domid2 : UInt32)
  | xssRm (path : CString)
  | xsWrite (path value : CString) (txId : UInt32) (deadline : Deadline)
  | xsMkdir (path : CString) (txId : UInt32) (deadline : Deadline)
  | xsRm (path : CString) (txId : UInt32) (deadline : Deadline)

def EntryPoint.run : EntryPoint → SrvM Bool
  | .guestWrite x id payload => do return answered .write x (← handleWrite x id payload)
  | .guestMkdir x id payload => do return answered .mkdir x (← handleMkdir x id payload)
  | .guestRm x id payload => do return answered .rm x (← handleRm x id payload)
  | .xssWrite path value => do return (← Xenlib.xssWrite (some path) (some value)).isNone
  | .xssWriteGuestDomainRw path value domid => do
    return (← Xenlib.xssWriteGuestDomainRw (some path) (some value) domid).isNone
  | .xssWriteGuestDomainRo path value domid => do
    return (← Xenlib.xssWriteGuestDomainRo (some path) (some value) domid).isNone
  | .xssWriteGuestWithPermissions path value domid1 domid2 => do
    return (← Xenlib.xssWriteGuestWithPermissions (some path) (some value) domid1 domid2).isNone
  | .xssRm path => do return (← Xenlib.xssRm (some path)).isNone
  | .xsWrite path value txId deadline => do
    return (← xsWriteTimeout (some path) (some value) txId deadline).isNone
  | .xsMkdir path txId deadline => do return (← xsMkdirTimeout (some path) txId deadline).isNone
  | .xsRm path txId deadline => do return (← xsRmTimeout (some path) txId deadline).isNone

/-- The text the tree is walked along and the watches are matched with. -/
def EntryPoint.path : EntryPoint → Option CString
  | .guestWrite x _ payload | .guestMkdir x _ payload =>
    (readStr payload).toOption.bind fun text => (resolvePath text x.domid).toOption
  | .guestRm _ _ payload => (readStr payload).toOption
  | .xssWrite path _ | .xssWriteGuestDomainRw path _ _ | .xssWriteGuestDomainRo path _ _
  | .xssWriteGuestWithPermissions path _ _ _ | .xssRm path => some path
  | .xsWrite path _ _ _ | .xsMkdir path _ _ | .xsRm path _ _ => (resolvePath path 0).toOption

def EntryPoint.removes : EntryPoint → Bool
  | .guestRm .. | .xssRm .. | .xsRm .. => true
  | _ => false

theorem answered_push (type : XsdSockmsgType) (x : Xenstore) (m : Message) :
    answered type x (x.push m) = decide (m.type = type) := by
  have hq : (x.push m).queued = x.queued ++ [m] := rfl
  simp [answered, hq]

theorem not_answered_same {type : XsdSockmsgType} {x x' : Xenstore} (h : x'.queued = x.queued) :
    ¬ answered type x x' = true := by
  simp [answered, h]

theorem wp_sendErrno_unanswered {type : XsdSockmsgType} (htype : type ≠ .error) (x : Xenstore)
    (id : UInt32) (e : Errno) (s : Shared) :
    wp (sendErrno x id e) (fun x' _ => ¬ answered type x x' = true) (fun _ => True) s := by
  by_cases hlim : x.usedOutBufs ≤ xenstoreMaxOutBufNum
  · refine wp_sendErrno hlim (fun txId rest _ => ?_) (fun rest _ _ => not_answered_same rfl)
    rw [answered_push]
    simpa using htype.symm
  · exact wp_conseq (wp_sendReplyOr_over hlim) fun x' _ h => not_answered_same h

/-- The watch concerns the change, and its owner may read the node that is reported. A removal
reports what was there before it. -/
def EntryPoint.Concerns (ep : EntryPoint) (s s' : Shared) (path : CString) (w : WatchEntry) :
    Prop :=
  if ep.removes then ToldAbove s.root path w ∨ ToldBelow s.root path w
  else ToldAbove s'.root path w

/-- Whenever the call succeeds and changes a node, an event is queued for every watch on a
normalized path that concerns it. -/
def EntryPoint.NothingMissed (ep : EntryPoint) : Prop :=
  ∀ s s' path w, WellFormed s.root → Granted s → (∀ v ∈ linkedWatches s, LocalOk v) →
    ep.run s = .ok (true, s') → ep.path = some path → (ep.removes = false → tokens path ≠ []) →
    w ∈ linkedWatches s → NormalPath w.key → ep.Concerns s s' path w → Alerted s s' w

/-- The state after the tree was written, before anyone is told. -/
structure Ready (s s₁ : Shared) : Prop where
  granted : Granted s₁
  wellFormed : WellFormed s₁.root
  watches : s₁.watches = s.watches
  calls : s₁.calls = s.calls
  events : s₁.pendingWatchEventList = s.pendingWatchEventList

theorem Ready.linked {s s₁ : Shared} (h : Ready s s₁) : linkedWatches s₁ = linkedWatches s := by
  rw [linkedWatches, linkedWatches, h.watches]

theorem Ready.alerted_iff {s s₁ s' : Shared} {w : WatchEntry} (h : Ready s s₁) :
    Alerted s₁ s' w ↔ Alerted s s' w := by
  unfold Alerted
  rw [h.calls, h.events]

theorem Ready.drawn {s s₁ : Shared} {rest : List Bool} (h : Ready s s₁) (hs : rest <:+ s₁.allocs) :
    Ready s { s₁ with allocs := rest } :=
  ⟨⟨fun hf => h.granted.allocs (hs.subset hf), h.granted.locks⟩, h.wellFormed, h.watches, h.calls,
    h.events⟩

theorem Ready.refl {s : Shared} (hs : Granted s) (hwf : WellFormed s.root) : Ready s s :=
  ⟨hs, hwf, rfl, rfl, rfl⟩

theorem wp_xssDoWriteDeadline_granted {path : CString} {data : Option CString} {domid : UInt32}
    {perms : List XsPermEntry} {deadline : Deadline} {s s₀ : Shared} (h : Ready s₀ s) :
    wp (xssDoWriteDeadline path data domid perms deadline) (fun _ s₁ => Ready s₀ s₁)
      (fun _ => False) s := by
  unfold xssDoWriteDeadline
  simp only [wp_bind, wp_alloc]
  refine wp_kMalloc_granted h.granted.allocs fun rest hrest => ?_
  simp only [Bool.not_true, Bool.false_eq_true, if_false, wp_bind]
  refine wp_lock_granted ⟨hrest, h.granted.locks⟩ fun locks hlocks => ?_
  simp only [wp_bind, wp_get, wp_alloc, wp_modify, wp_pure]
  refine wp_mono wp_writeTree (fun r rest' ⟨hs, hr⟩ => ?_)
    (fun e he => he.2 h.wellFormed.permsOk)
  refine ⟨⟨fun hf => hrest (hs.subset hf), hlocks⟩, ?_, h.watches, h.calls, h.events⟩
  rcases hr with ⟨-, rfl⟩ | hr
  · exact h.wellFormed
  · exact WriteOutcome.wellFormed hrest hr h.wellFormed

def WroteAndTold (path : CString) (s s' : Shared) : Prop :=
  ∃ s₁, Ready s s₁ ∧ s'.root = s₁.root ∧ Announced (queuedPath s₁.root path false) s₁ s'

theorem wp_notify_ready {path : CString} {deadline : Deadline} {s s₁ : Shared} (h : Ready s s₁)
    (hreg : ∀ w ∈ linkedWatches s, LocalOk w) :
    wp (notifyWatchersDeadline path deadline) (fun rc s' => rc = none ∧ WroteAndTold path s s')
      (fun _ => False) s₁ := by
  rw [← h.linked] at hreg
  refine wp_conseq (wp_notifyWatchersDeadline_granted h.granted h.wellFormed.permsOk hreg)
    fun rc s' ⟨hrc, hroot, hann⟩ => ⟨hrc, s₁, h, hroot, hann⟩

theorem wp_handleWriteAs_told {type : XsdSockmsgType} (htype : type ≠ .error) {x : Xenstore}
    {id : UInt32} {payload : Bytes} {s : Shared} (h : Ready s s)
    (hreg : ∀ w ∈ linkedWatches s, LocalOk w) :
    wp (handleWriteAs type x id payload)
      (fun x' s' => answered type x x' = true → ∃ text path, readStr payload = .ok text ∧
        resolvePath text x.domid = .ok path ∧ WroteAndTold path s s') (fun _ => True) s := by
  have herr : ∀ e s₁, wp (sendErrno x id e)
      (fun x' s' => answered type x x' = true → ∃ text path, readStr payload = .ok text ∧
        resolvePath text x.domid = .ok path ∧ WroteAndTold path s s') (fun _ => True) s₁ :=
    fun e s₁ => wp_conseq (wp_sendErrno_unanswered htype x id e s₁) fun _ _ h h' => absurd h' h
  unfold handleWriteAs
  rw [wp_bind]
  refine wp_lift (fun text htext => ?_) (fun _ _ => trivial)
  refine wp_ite (fun _ => herr _ _) (fun _ => ?_)
  rw [wp_bind, wp_alloc]
  refine wp_constructPath (fun rest₁ h₁ => ?_) (fun rest _ _ => herr _ _)
  cases hpath : resolvePath text x.domid with
  | error e => exact herr e _
  | ok path =>
    simp only [wp_bind, wp_alloc]
    refine wp_constructData (fun data rest₂ h₂ => ?_) (fun rest _ _ => herr _ _)
    simp only [wp_bind]
    have hready : Ready s { s with allocs := rest₂ } := h.drawn (h₂.trans h₁)
    refine wp_mono (wp_xssDoWriteDeadline_granted hready) (fun rc s₁ hw => ?_) (fun _ => nofun)
    cases rc with
    | some e => exact herr e s₁
    | none =>
      simp only [wp_bind, wp_pure]
      by_cases hlim : x.usedOutBufs ≤ xenstoreMaxOutBufNum
      · refine wp_sendReplySz_any hlim fun x' rest hs => ?_
        unfold notifyWatchers
        rw [wp_bind]
        refine wp_mono (wp_notify_ready (hw.drawn hs) hreg) (fun rc s' ⟨_, htold⟩ _ => ?_)
          (fun _ => nofun)
        exact ⟨text, path, htext, hpath, htold⟩
      · refine wp_conseq (wp_sendReplyOr_over hlim) fun x' s₂ hq => ?_
        exact wp_conseq (wp_trivial _ _) fun _ _ _ h => absurd h (not_answered_same hq)

theorem wp_xssWriteWith_told {path value : CString} {perms : List XsPermEntry} {s : Shared}
    (h : Ready s s) (hreg : ∀ w ∈ linkedWatches s, LocalOk w) :
    wp (xssWriteWith (some path) (some value) perms)
      (fun rc s' => rc.isNone = true → WroteAndTold path s s') (fun _ => True) s := by
  unfold xssWriteWith
  simp only [wp_bind]
  refine wp_mono (wp_xssDoWriteDeadline_granted h) (fun rc s₁ hw => ?_) (fun _ => nofun)
  cases rc with
  | some e => exact nofun
  | none =>
    simp only [wp_bind, notifyWatchers, wp_pure]
    exact wp_mono (wp_notify_ready hw hreg) (fun rc s' ⟨_, htold⟩ _ => htold) (fun _ => nofun)

theorem wp_xsWithPath_ready {path : CString} {txId : UInt32} {body : CString → SrvM (Option Errno)}
    {P : CString → Shared → Prop} {s : Shared} (h : Ready s s)
    (hbody : ∀ full s₁, Ready s s₁ → s₁.root = s.root →
      wp (body full) (fun rc s' => rc.isNone = true → P full s') (fun _ => True) s₁) :
    wp (xsWithPath (some path) txId body)
      (fun rc s' => rc.isNone = true → ∃ full, resolvePath path 0 = .ok full ∧ P full s')
      (fun _ => True) s := by
  unfold xsWithPath
  refine wp_ite (fun _ => nofun) (fun _ => ?_)
  rw [wp_bind, wp_alloc]
  refine wp_constructPath (fun rest hs => ?_) (fun rest _ _ => nofun)
  cases hpath : resolvePath path 0 with
  | error e => exact nofun
  | ok full =>
    exact wp_conseq (hbody full _ (h.drawn hs) rfl) fun rc s' hp hrc => ⟨full, rfl, hp hrc⟩

theorem wp_writeNotifyDeadline_told {path value : CString} {deadline : Deadline} {s s₀ : Shared}
    (h : Ready s₀ s) (hreg : ∀ w ∈ linkedWatches s₀, LocalOk w) :
    wp (writeNotifyDeadline path value deadline)
      (fun rc s' => rc.isNone = true → WroteAndTold path s₀ s') (fun _ => True) s := by
  unfold writeNotifyDeadline writeNotifyLocked
  simp only [wp_bind]
  refine wp_mono (wp_xssDoWriteDeadline_granted h) (fun rc s₁ hw => ?_) (fun _ => nofun)
  cases rc with
  | some e =>
    rw [wp_pure]
    exact wp_conseq (wp_dispatch_calls [] s₁) fun _ _ _ => nofun
  | none =>
    have hnotify := @wp_notify_ready path deadline s₀ s₁ hw hreg
    unfold notifyWatchersDeadline at hnotify
    simp only [wp_bind] at hnotify
    refine wp_mono hnotify (fun r s₂ hd => ?_) (fun _ => nofun)
    exact wp_mono hd (fun _ s' hrc _ => hrc.2) (fun _ => nofun)

/-- The node was found, the watches were told, and then it was removed. -/
structure RemovedAndTold (path : CString) (s s' : Shared) : Prop where
  named : path = [slash] ∨ tokens path ≠ []
  length : path.length ≤ xenstoreAbsPathMax
  announced : Announced (queuedPath s.root path true) s s'

theorem wp_xssDoRmDeadline_told {path : CString} {callerId : UInt32} {deadline : Deadline}
    {s s₀ : Shared} (h : Ready s₀ s) (hroot : s.root = s₀.root)
    (hreg : ∀ w ∈ linkedWatches s₀, LocalOk w) :
    wp (xssDoRmDeadline path callerId deadline)
      (fun rc s' => rc.isNone = true → RemovedAndTold path s₀ s') (fun _ => True) s := by
  rw [← h.linked] at hreg
  refine wp_mono (wp_xssDoRmDeadline_granted h.granted h.wellFormed.permsOk hreg)
    (fun rc s' hr hrc => ?_) (fun _ _ => trivial)
  cases hf : (foundEntry s.root path).filter fun e =>
      checkPerms e.entry.label .write callerId = .ok true with
  | none =>
    rw [hf] at hr
    simp [hr] at hrc
  | some e =>
    rw [hf] at hr
    obtain ⟨-, -, hann⟩ := hr
    have hfound := (Option.filter_eq_some_iff.mp hf).1
    refine ⟨?_, ?_, ?_⟩
    · by_cases hr : path = [slash]
      · exact Or.inl hr
      · exact Or.inr (foundEntry_path hfound hr).2
    · by_contra hlen
      rw [foundEntry, if_pos (by omega)] at hfound
      cases hfound
    · rw [hroot] at hann
      refine ⟨?_, ?_⟩
      · rw [hann.events, h.events, h.linked]
      · rw [← h.calls, ← h.linked]
        exact hann.calls

theorem wp_handleRm_told {x : Xenstore} {id : UInt32} {payload : Bytes} {s : Shared}
    (h : Ready s s) (hreg : ∀ w ∈ linkedWatches s, LocalOk w) :
    wp (handleRm x id payload)
      (fun x' s' => answered .rm x x' = true → x.usedOutBufs ≤ xenstoreMaxOutBufNum ∧
        ∃ path, readStr payload = .ok path ∧ RemovedAndTold path s s') (fun _ => True) s := by
  unfold handleRm
  rw [wp_bind]
  refine wp_lift (fun path htext => ?_) (fun _ _ => trivial)
  rw [wp_bind]
  refine wp_conseq (wp_xssDoRmDeadline_told h rfl hreg) fun rc s₁ hr => ?_
  cases rc with
  | some e =>
    exact wp_conseq (wp_sendErrno_unanswered (by decide) x id e s₁) fun _ _ hn hy => absurd hy hn
  | none =>
    have hdone := hr rfl
    by_cases hlim : x.usedOutBufs ≤ xenstoreMaxOutBufNum
    · refine wp_sendReplySz_any hlim fun x' rest hs _ => ⟨hlim, path, htext, ?_⟩
      exact ⟨hdone.named, hdone.length, hdone.announced.events, hdone.announced.calls⟩
    · exact wp_conseq (wp_sendReplyOr_over hlim) fun x' s₂ hq hy => absurd hy (not_answered_same hq)

def EntryPoint.Done (ep : EntryPoint) (path : CString) (s s' : Shared) : Prop :=
  if ep.removes then RemovedAndTold path s s' else WroteAndTold path s s'

theorem EntryPoint.wp_run (ep : EntryPoint) {s : Shared} (h : Ready s s)
    (hreg : ∀ w ∈ linkedWatches s, LocalOk w) :
    wp ep.run (fun ok s' => ok = true → ∃ path, ep.path = some path ∧ ep.Done path s s')
      (fun _ => True) s := by
  cases ep with
  | guestWrite x id payload =>
    simp only [run, wp_bind, wp_pure]
    refine wp_conseq (wp_handleWriteAs_told (by decide) h hreg) fun x' s' hd ha => ?_
    obtain ⟨text, path, htext, hpath, hd⟩ := hd ha
    exact ⟨path, by simp [EntryPoint.path, htext, hpath, Except.toOption], hd⟩
  | guestMkdir x id payload =>
    simp only [run, wp_bind, wp_pure]
    refine wp_conseq (wp_handleWriteAs_told (by decide) h hreg) fun x' s' hd ha => ?_
    obtain ⟨text, path, htext, hpath, hd⟩ := hd ha
    exact ⟨path, by simp [EntryPoint.path, htext, hpath, Except.toOption], hd⟩
  | guestRm x id payload =>
    simp only [run, wp_bind, wp_pure]
    refine wp_conseq (wp_handleRm_told h hreg) fun x' s' hd ha => ?_
    obtain ⟨-, path, htext, hd⟩ := hd ha
    exact ⟨path, by simp [EntryPoint.path, htext, Except.toOption], hd⟩
  | xssWrite path value =>
    simp only [run, wp_bind, wp_pure]
    exact wp_conseq (wp_xssWriteWith_told h hreg) fun rc s' hd hrc => ⟨path, rfl, hd hrc⟩
  | xssWriteGuestDomainRw path value domid =>
    simp only [run, wp_bind, wp_pure]
    exact wp_conseq (wp_xssWriteWith_told h hreg) fun rc s' hd hrc => ⟨path, rfl, hd hrc⟩
  | xssWriteGuestDomainRo path value domid =>
    simp only [run, wp_bind, wp_pure]
    exact wp_conseq (wp_xssWriteWith_told h hreg) fun rc s' hd hrc => ⟨path, rfl, hd hrc⟩
  | xssWriteGuestWithPermissions path value domid1 domid2 =>
    simp only [run, wp_bind, wp_pure]
    exact wp_conseq (wp_xssWriteWith_told h hreg) fun rc s' hd hrc => ⟨path, rfl, hd hrc⟩
  | xssRm path =>
    simp only [run, wp_bind, wp_pure]
    exact wp_conseq (wp_xssDoRmDeadline_told h rfl hreg) fun rc s' hd hrc => ⟨path, rfl, hd hrc⟩
  | xsWrite path value txId deadline =>
    simp only [run, wp_bind, wp_pure]
    refine wp_conseq (wp_xsWithPath_ready h fun full s₁ h₁ _ => wp_writeNotifyDeadline_told h₁ hreg)
      fun rc s' hd hrc => ?_
    obtain ⟨full, hpath, hd⟩ := hd hrc
    exact ⟨full, by simp [EntryPoint.path, hpath, Except.toOption], hd⟩
  | xsMkdir path txId deadline =>
    simp only [run, wp_bind, wp_pure]
    refine wp_conseq (wp_xsWithPath_ready h fun full s₁ h₁ _ => wp_writeNotifyDeadline_told h₁ hreg)
      fun rc s' hd hrc => ?_
    obtain ⟨full, hpath, hd⟩ := hd hrc
    exact ⟨full, by simp [EntryPoint.path, hpath, Except.toOption], hd⟩
  | xsRm path txId deadline =>
    simp only [run, wp_bind, wp_pure]
    refine wp_conseq (wp_xsWithPath_ready h fun full s₁ h₁ hroot =>
      wp_xssDoRmDeadline_told h₁ hroot hreg) fun rc s' hd hrc => ?_
    obtain ⟨full, hpath, hd⟩ := hd hrc
    exact ⟨full, by simp [EntryPoint.path, hpath, Except.toOption], hd⟩

def WriteSpelled (path : CString) : Prop :=
  tokens path ≠ [] → path.length ≤ xenstoreAbsPathMax ∧ Spelled path

/-- The spelling a removal needs. A longer path finds no node. -/
def RmSpelled (path : CString) : Prop :=
  tokens path ≠ [] → path.length ≤ xenstoreAbsPathMax → Spelled path ∧ Covers path

/-- The condition on the arguments of a call. Resolved paths are always spelled well, and a
client over its output limit is not answered. -/
def EntryPoint.WellSpelled : EntryPoint → Prop
  | .guestRm x _ payload => x.usedOutBufs ≤ xenstoreMaxOutBufNum →
    ∀ path, readStr payload = .ok path → RmSpelled path
  | .xssWrite path _ | .xssWriteGuestDomainRw path _ _ | .xssWriteGuestDomainRo path _ _
  | .xssWriteGuestWithPermissions path _ _ _ => WriteSpelled path
  | .xssRm path => RmSpelled path
  | .guestWrite .. | .guestMkdir .. | .xsWrite .. | .xsMkdir .. | .xsRm .. => True

theorem WroteAndTold.alerted {path : CString} {s s' : Shared} {w : WatchEntry}
    (h : WroteAndTold path s s') (hs : WriteSpelled path) (ht : tokens path ≠ [])
    (hw : w ∈ linkedWatches s) (hk : NormalPath w.key) (hc : ToldAbove s'.root path w) :
    Alerted s s' w := by
  obtain ⟨s₁, hready, hroot, hann⟩ := h
  rw [hroot] at hc
  obtain ⟨hlen, hspell⟩ := hs ht
  rw [← hready.linked] at hw
  exact hready.alerted_iff.mp (hann.told hw (queuedPath_above ht hlen hspell hk hc))

theorem RemovedAndTold.alerted {path : CString} {s s' : Shared} {w : WatchEntry}
    (h : RemovedAndTold path s s') (hs : RmSpelled path) (hw : w ∈ linkedWatches s)
    (hk : NormalPath w.key) (hc : ToldAbove s.root path w ∨ ToldBelow s.root path w) :
    Alerted s s' w := by
  rcases h.named with rfl | ht
  · exact h.announced.told hw (queuedPath_below (by decide) (by decide) hk hc)
  · obtain ⟨hspell, hcover⟩ := hs ht h.length
    exact h.announced.told hw (queuedPath_removed ht h.length hspell hcover hk hc)

theorem spelled_of_render_prefix {path : CString} (ht : tokens path ≠ [])
    (h : renderPath (tokens path) <+: path) : Spelled path := by
  intro key hk hpre
  by_cases hnil : tokens key = []
  · left
    rw [← hk.canonical, hnil]
    rfl
  · right
    have hjoin : joined (tokens key) <+: joined (tokens path) := by
      obtain ⟨rest, hrest⟩ := hpre
      rw [← hrest, joined_append]
      exact List.prefix_append _ _
    rw [renderPath, if_neg ht] at h
    have hkey : key = joined (tokens key) := by
      conv_lhs => rw [← hk.canonical, renderPath, if_neg hnil]
    rw [hkey]
    exact hjoin.trans h

theorem writeSpelled_of_resolvePath {text path : CString} {domid : UInt32}
    (h : resolvePath text domid = .ok path) : WriteSpelled path := by
  intro ht
  have hr : path ≠ [slash] := by
    rintro rfl
    exact ht rfl
  exact ⟨(Normalized.tokens_ne_nil ⟨text, domid, h⟩ hr).2,
    spelled_of_render_prefix ht (render_prefix_of_resolvePath h hr)⟩

theorem rmSpelled_of_resolvePath {text path : CString} (h : resolvePath text 0 = .ok path) :
    RmSpelled path :=
  fun ht _ => ⟨(writeSpelled_of_resolvePath h ht).2, Or.inl (canonical_of_resolvePath_zero h)⟩

theorem resolved_of_toOption {text path : CString} {domid : UInt32}
    (h : (resolvePath text domid).toOption = some path) : resolvePath text domid = .ok path := by
  cases hr : resolvePath text domid with
  | error e => simp [hr, Except.toOption] at h
  | ok full =>
    rw [hr] at h
    rw [Option.some.inj h]

theorem EntryPoint.WellSpelled.path {ep : EntryPoint} {path : CString} (h : ep.WellSpelled)
    (hp : ep.path = some path) {s s' : Shared} (hs : Ready s s)
    (hreg : ∀ w ∈ linkedWatches s, LocalOk w) (hrun : ep.run s = .ok (true, s')) :
    if ep.removes then RmSpelled path else WriteSpelled path := by
  cases ep with
  | guestWrite x id payload =>
    obtain ⟨text, -, hr⟩ := Option.bind_eq_some_iff.mp hp
    exact writeSpelled_of_resolvePath (resolved_of_toOption hr)
  | guestMkdir x id payload =>
    obtain ⟨text, -, hr⟩ := Option.bind_eq_some_iff.mp hp
    exact writeSpelled_of_resolvePath (resolved_of_toOption hr)
  | guestRm x id payload =>
    have hlim : wp (EntryPoint.guestRm x id payload).run
        (fun ok _ => ok = true → x.usedOutBufs ≤ xenstoreMaxOutBufNum) (fun _ => True) s := by
      simp only [run, wp_bind, wp_pure]
      exact wp_conseq (wp_handleRm_told hs hreg) fun x' s' hd ha => (hd ha).1
    refine h (wp_ok hlim hrun rfl) path ?_
    cases hr : readStr payload with
    | error e => simp [EntryPoint.path, hr, Except.toOption] at hp
    | ok text =>
      rw [EntryPoint.path, hr] at hp
      rw [Option.some.inj hp]
  | xssWrite p value => cases hp; exact h
  | xssWriteGuestDomainRw p value domid => cases hp; exact h
  | xssWriteGuestDomainRo p value domid => cases hp; exact h
  | xssWriteGuestWithPermissions p value domid1 domid2 => cases hp; exact h
  | xssRm p => cases hp; exact h
  | xsWrite p value txId deadline => exact writeSpelled_of_resolvePath (resolved_of_toOption hp)
  | xsMkdir p txId deadline => exact writeSpelled_of_resolvePath (resolved_of_toOption hp)
  | xsRm p txId deadline => exact rmSpelled_of_resolvePath (resolved_of_toOption hp)

def watchedStore (root : XsEntry) (key : CString) : Shared :=
  { Shared.boot 4 with root := root, watches := [⟨0, key, [0], none, false, true, none⟩] }

theorem watchedStore_linked (root : XsEntry) (key : CString) :
    linkedWatches (watchedStore root key) = [⟨0, key, [0], none, false, true, none⟩] := rfl

theorem watchedStore_ready {root : XsEntry} (key : CString) (h : WellFormed root) :
    Ready (watchedStore root key) (watchedStore root key) :=
  .refl ⟨List.not_mem_nil, List.not_mem_nil⟩ h

theorem watchedStore_localOk (root : XsEntry) (key : CString) :
    ∀ w ∈ linkedWatches (watchedStore root key), LocalOk w := by
  intro w hw
  rw [watchedStore_linked, List.mem_singleton] at hw
  subst hw
  exact ⟨fun _ => rfl, nofun⟩

theorem lookup_plant_isSome {root : XsEntry} {data : Option CString} {perms : List XsPermEntry}
    (p : List CString) : ((root.plant (freshNode perms) (updNode data) p).lookup p).isSome := by
  have hview := Tree.view_plant (freshNode perms) (updNode data) (freshNode_idem perms) p p root
  have hsome : ((root.plant (freshNode perms) (updNode data) p).view p).isSome := by
    rw [hview]
    cases root.view p <;> simp
  simpa [Tree.view] using hsome

theorem wp_xssDoWriteDeadline_ready {path value : CString} {perms : List XsPermEntry}
    {deadline : Deadline} {s s₀ : Shared} (h : Ready s₀ s) (ht : tokens path ≠ []) :
    wp (xssDoWriteDeadline path (some value) 0 perms deadline)
      (fun rc s₁ => rc = none ∧ Ready s₀ s₁ ∧ (s₁.root.lookup (tokens path)).isSome)
      (fun _ => False) s := by
  have hwritten : wp (xssDoWriteDeadline path (some value) 0 perms deadline)
      (fun rc s₁ => rc = none ∧ (s₁.root.lookup (tokens path)).isSome) (fun _ => False) s := by
    refine wp_xssDoWriteDeadline_zero h.granted.allocs (fun _ _ hout => ?_) fun _ _ _ => ⟨rfl, ?_⟩
    · exact absurd (supplied_of_notMem h.granted.locks) hout.2
    · rw [plantedRoot, if_neg ht]
      exact lookup_plant_isSome _
  refine wp_mono (wp_and hwritten (wp_xssDoWriteDeadline_granted h))
    (fun rc s₁ hw => ⟨hw.1.1, hw.2, hw.1.2⟩) (fun e he => he.1)

theorem missed_write {path value key : CString} {perms : List XsPermEntry} (ht : tokens path ≠ [])
    (hpre : tokens key <+: tokens path)
    (hmiss : ∀ (root : XsEntry) (w : WatchEntry), w.key = key →
      queuedPath root path false w = none) :
    ∃ s s' w, Ready s s ∧ (∀ v ∈ linkedWatches s, LocalOk v) ∧
      xssWriteWith (some path) (some value) perms s = .ok (none, s') ∧ w ∈ linkedWatches s ∧
      w.key = key ∧ ToldAbove s'.root path w ∧ ¬ Alerted s s' w := by
  have hwf : WellFormed (⟨⟨none, [⟨0, .none⟩]⟩, .nil⟩ : XsEntry) :=
    ⟨by decide, by decide, by decide⟩
  have hs := watchedStore_ready key hwf
  have hreg := watchedStore_localOk ⟨⟨none, [⟨0, .none⟩]⟩, .nil⟩ key
  generalize hstore : watchedStore ⟨⟨none, [⟨0, .none⟩]⟩, .nil⟩ key = s at hs hreg
  have hrun : wp (xssWriteWith (some path) (some value) perms)
      (fun rc s' => rc = none ∧ (s'.root.lookup (tokens path)).isSome ∧ WroteAndTold path s s')
      (fun _ => False) s := by
    unfold xssWriteWith
    simp only [wp_bind]
    refine wp_conseq (wp_xssDoWriteDeadline_ready hs ht) fun rc s₁ ⟨hrc, hready, hsome⟩ => ?_
    subst hrc
    simp only [wp_bind, notifyWatchers, wp_pure]
    refine wp_conseq (wp_notifyWatchersDeadline_granted hready.granted hready.wellFormed.permsOk
      (by rwa [hready.linked])) fun _ s' ⟨_, hroot, hann⟩ => ⟨trivial, ?_, s₁, hready, hroot, hann⟩
    rwa [hroot]
  obtain ⟨rc, s', hrun, rfl, hsome, s₁, hready, hroot, hann⟩ := wp_total hrun
  obtain ⟨e, he⟩ := Option.isSome_iff_exists.mp hsome
  refine ⟨s, s', ⟨0, key, [0], none, false, true, none⟩, hs, hreg, hrun, ?_, rfl,
    ⟨hpre, e, he, checkPerms_zero _ _⟩, ?_⟩
  · rw [← hstore, watchedStore_linked]
    exact List.mem_singleton_self _
  · rw [← hready.alerted_iff]
    refine hann.not_told ?_ rfl (hmiss _ _ rfl)
    rw [hready.linked, ← hstore, watchedStore_linked]

def openNode : XsNode := ⟨none, [⟨0, .both⟩]⟩

theorem checkPerms_openNode (domid : UInt32) : checkPerms openNode .write domid = .ok true := by
  by_cases h : domid = 0
  · rw [h, checkPerms_zero]
  · have hne : ¬ (0 : UInt32) = domid := fun he => h he.symm
    simp [checkPerms, openNode, isOwner, h, hne, XsPerm.allows, XsPerm.bits]

/-- The tree with the nodes along `p`, all of them open. -/
def openTree (p : List CString) : XsEntry :=
  Tree.plant (freshNode [⟨0, .both⟩]) id p ⟨openNode, .nil⟩

theorem openTree_wellFormed {p : List CString} (hp : Components p) : WellFormed (openTree p) :=
  WellFormed.plant ⟨by decide, by decide, by decide⟩ hp
    (fun n _ => by simp [freshNode]) (fun n hn => hn)

theorem openTree_lookup {p q : List CString} (h : q <+: p) :
    ∃ e, (openTree p).lookup q = some e ∧ e.label = openNode := by
  have hview := Tree.view_plant_leaf (freshNode [⟨0, .both⟩]) id p q openNode rfl
  rw [if_pos h] at hview
  obtain ⟨e, he, hlabel⟩ := Option.map_eq_some_iff.mp hview
  refine ⟨e, he, (congrArg Prod.fst hlabel).trans ?_⟩
  simp

theorem openTree_lookup_isSome {p q : List CString} :
    ((openTree p).lookup q).isSome ↔ q <+: p := by
  have hview := Tree.view_plant_leaf (freshNode [⟨0, .both⟩]) id p q openNode rfl
  rw [← Tree.view_isSome, openTree, hview]
  by_cases h : q <+: p
  · simp [h]
  · simp [h]

theorem openTree_mayRead {p q : List CString} (h : q <+: p) : MayRead (openTree p) q 0 := by
  obtain ⟨e, he, -⟩ := openTree_lookup h
  exact ⟨e, he, checkPerms_zero _ _⟩

theorem missed_rm {path key : CString} {p : List CString} {callerId : UInt32} (hp : Components p)
    (ht : tokens path ≠ []) (hlen : path.length ≤ xenstoreAbsPathMax) (hpre : tokens path <+: p)
    (hmiss : ∀ (root : XsEntry) (w : WatchEntry), w.key = key →
      queuedPath root path true w = none) :
    ∃ s', xssDoRmDeadline path callerId .forever (watchedStore (openTree p) key) = .ok (none, s') ∧
      Granted s' ∧ ∀ w ∈ linkedWatches (watchedStore (openTree p) key),
        ¬ Alerted (watchedStore (openTree p) key) s' w := by
  have hs := watchedStore_ready key (openTree_wellFormed hp)
  have hspec := @wp_xssDoRmDeadline_granted path callerId .forever _ hs.granted
    hs.wellFormed.permsOk (watchedStore_localOk _ key)
  obtain ⟨rc, s', hrun, hr⟩ := wp_total (wp_mono hspec (fun _ _ hr => hr) fun _ hbad =>
    ht (by rw [hbad.1]; rfl))
  obtain ⟨e, he, hlabel⟩ := openTree_lookup hpre
  have hfound : foundEntry (watchedStore (openTree p) key).root path =
      some ⟨tokens path, e⟩ := by
    rw [foundEntry_tokens ht hlen]
    exact congrArg (Option.map _) he
  rw [hfound, Option.filter_some, if_pos (by rw [hlabel, checkPerms_openNode]; rfl)] at hr
  obtain ⟨rfl, hgranted, hann⟩ := hr
  refine ⟨s', hrun, hgranted, fun w hw => ?_⟩
  rw [watchedStore_linked, List.mem_singleton] at hw
  subst hw
  exact hann.not_told (watchedStore_linked _ _) rfl (hmiss _ _ rfl)

theorem writeSpelled_of_missed {path : CString}
    (h : tokens path ≠ [] → ∀ key, NormalPath key → tokens key <+: tokens path →
      ¬ ∀ (root : XsEntry) (w : WatchEntry), w.key = key → queuedPath root path false w = none) :
    WriteSpelled path := by
  intro ht
  constructor
  · by_contra hlen
    exact h ht [slash] (by decide) List.nil_prefix fun root w _ => queuedPath_long hlen
  · intro key hk hpre
    by_contra hbad
    rw [not_or] at hbad
    refine h ht key hk hpre fun root w hw => ?_
    subst hw
    exact queuedPath_unspelled ht hk hpre hbad.1 hbad.2

theorem EntryPoint.NothingMissed.write {ep : EntryPoint} {path value : CString}
    {perms : List XsPermEntry} (h : ep.NothingMissed) (hpath : ep.path = some path)
    (hkind : ep.removes = false)
    (hrun : ∀ s s', xssWriteWith (some path) (some value) perms s = .ok (none, s') →
      ep.run s = .ok (true, s')) : WriteSpelled path := by
  refine writeSpelled_of_missed fun ht key hk hpre hmiss => ?_
  obtain ⟨s, s', w, hs, hreg, hw, hmem, rfl, hc, hnot⟩ :=
    @missed_write path value key perms ht hpre hmiss
  refine hnot (h s s' path w hs.wellFormed hs.granted hreg (hrun s s' hw) hpath (fun _ => ht) hmem
    hk ?_)
  rw [EntryPoint.Concerns, hkind]
  exact hc

theorem EntryPoint.NothingMissed.rm {ep : EntryPoint} {path : CString} (callerId : UInt32)
    (h : ep.NothingMissed) (hpath : ep.path = some path) (hkind : ep.removes = true)
    (hrun : ∀ s s', xssDoRmDeadline path callerId .forever s = .ok (none, s') → Granted s' →
      ∃ s'', ep.run s = .ok (true, s'') ∧ ∀ w, Alerted s s'' w → Alerted s s' w) :
    RmSpelled path := by
  intro ht hlen
  -- the watch at `key`, in the tree that holds the node and the key
  have hnot : ∀ key p, Components p → tokens path <+: p → tokens key <+: p → NormalPath key →
      (tokens key <+: tokens path ∨ tokens path <+: tokens key) →
      ¬ ∀ (root : XsEntry) (w : WatchEntry), w.key = key → queuedPath root path true w = none := by
    intro key p hp hpre hkey hk hrel hmiss
    obtain ⟨s', hrm, hgranted, hnot⟩ := @missed_rm path key p callerId hp ht hlen hpre hmiss
    obtain ⟨s'', hdone, hsame⟩ := hrun _ s' hrm hgranted
    have hs := watchedStore_ready key (openTree_wellFormed hp)
    have hw : (⟨0, key, [0], none, false, true, none⟩ : WatchEntry) ∈
        linkedWatches (watchedStore (openTree p) key) := by
      rw [watchedStore_linked]
      exact List.mem_singleton_self _
    refine hnot _ hw (hsame _ (h _ s'' path _ hs.wellFormed hs.granted (watchedStore_localOk _ key)
      hdone hpath (fun hbad => absurd hbad (by simp [hkind])) hw hk ?_))
    rw [EntryPoint.Concerns, hkind, if_pos rfl]
    rcases hrel with hrel | hrel
    · exact Or.inl ⟨hrel, openTree_mayRead hpre⟩
    · exact Or.inr ⟨hrel, openTree_mayRead hkey⟩
  constructor
  · intro key hk hpre
    by_contra hbad
    rw [not_or] at hbad
    refine hnot key (tokens path) (components_tokens path) List.prefix_rfl hpre hk (Or.inl hpre)
      fun root w hw => ?_
    subst hw
    exact queuedPath_unspelled ht hk hpre hbad.1 hbad.2
  · by_contra hbad
    rw [Covers, not_or] at hbad
    obtain ⟨hcanon, hroom⟩ := hbad
    refine hroom fun key hk hpre => ?_
    by_contra hne
    refine hnot key (tokens key) (components_tokens key) hpre List.prefix_rfl hk (Or.inr hpre)
      fun root w hw => ?_
    subst hw
    exact queuedPath_uncovered ht hk hpre hne hcanon

theorem isNone_run {x : SrvM (Option Errno)} {s s' : Shared} (h : x s = .ok (none, s')) :
    (do return (← x).isNone : SrvM Bool) s = .ok (true, s') := by
  simp only [bind, StateT.bind, h, Except.bind]
  rfl

theorem handleRm_answered {x : Xenstore} {id : UInt32} {payload : Bytes} {path : CString}
    {s s' : Shared} (hlim : x.usedOutBufs ≤ xenstoreMaxOutBufNum)
    (htext : readStr payload = .ok path)
    (hrm : xssDoRmDeadline path x.domid .forever s = .ok (none, s')) (hs : Granted s') :
    ∃ s'', (EntryPoint.guestRm x id payload).run s = .ok (true, s'') ∧ s''.calls = s'.calls ∧
      s''.pendingWatchEventList = s'.pendingWatchEventList := by
  have hrun : wp (EntryPoint.guestRm x id payload).run (fun ok s'' => ok = true ∧
      s''.calls = s'.calls ∧ s''.pendingWatchEventList = s'.pendingWatchEventList)
      (fun _ => False) s := by
    simp only [EntryPoint.run, wp_bind, wp_pure, handleRm, htext, wp_lift_ok]
    refine wp_of_ok hrm ?_
    refine wp_sendReplySz hlim (fun m rest _ hm => ⟨?_, rfl, rfl⟩)
      (fun _ _ hf => absurd hf hs.allocs)
    rw [answered_push, (hm.fits (Nat.zero_le _)).1]
    rfl
  obtain ⟨ok, s'', hrun, rfl, hsame⟩ := wp_total hrun
  exact ⟨s'', hrun, hsame⟩

/-- No watch is missed, whatever the store and the registry, exactly when the call is well
spelled. -/
theorem nothingMissed_iff (ep : EntryPoint) : ep.NothingMissed ↔ ep.WellSpelled := by
  constructor
  · intro h
    cases ep with
    | guestWrite x id payload => trivial
    | guestMkdir x id payload => trivial
    | guestRm x id payload =>
      intro hlim path htext
      refine h.rm x.domid (by rw [EntryPoint.path, htext]; rfl) rfl fun s s' hrm hs => ?_
      obtain ⟨s'', hrun, hcalls, hevents⟩ := handleRm_answered hlim htext hrm hs
      refine ⟨s'', hrun, fun w hw => ?_⟩
      unfold Alerted at hw ⊢
      rwa [hcalls, hevents] at hw
    | xssWrite path value => exact h.write rfl rfl fun s s' hw => isNone_run hw
    | xssWriteGuestDomainRw path value domid =>
      exact h.write rfl rfl fun s s' hw => isNone_run hw
    | xssWriteGuestDomainRo path value domid =>
      exact h.write rfl rfl fun s s' hw => isNone_run hw
    | xssWriteGuestWithPermissions path value domid1 domid2 =>
      exact h.write rfl rfl fun s s' hw => isNone_run hw
    | xssRm path =>
      exact h.rm 0 rfl rfl fun s s' hrm _ => ⟨s', isNone_run hrm, fun w hw => hw⟩
    | xsWrite path value txId deadline => trivial
    | xsMkdir path txId deadline => trivial
    | xsRm path txId deadline => trivial
  · intro h s s' path w hwf hs hreg hrun hpath hchanged hw hk hc
    have hready := Ready.refl hs hwf
    obtain ⟨path', hpath', hdone⟩ := wp_ok (ep.wp_run hready hreg) hrun rfl
    rw [hpath, Option.some.injEq] at hpath'
    subst hpath'
    have hspelled := h.path hpath hready hreg hrun
    unfold EntryPoint.Done at hdone
    unfold EntryPoint.Concerns at hc
    cases hkind : ep.removes with
    | true =>
      rw [hkind, if_pos rfl] at hspelled hdone hc
      exact hdone.alerted hspelled hw hk hc
    | false =>
      rw [hkind, if_neg Bool.false_ne_true] at hspelled hdone hc
      exact hdone.alerted hspelled (hchanged hkind) hw hk hc

/-- `xss_write` of "//a" changes the node "/a", and a watch on "/a" is not told. -/
theorem doubledSlash_missed : ¬ ∀ ep : EntryPoint, ep.NothingMissed := by
  intro h
  have hwrite := (h (.xssWrite (ascii ['/', '/', 'a']) (ascii ['v']))).write rfl rfl
    fun s s' hw => isNone_run hw
  have hspelled := (hwrite (by decide)).2 (ascii ['/', 'a']) (by decide) (by decide)
  exact absurd hspelled (by decide)

end Xenlib
