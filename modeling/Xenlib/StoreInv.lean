import Xenlib.HandlersSpec

/-!
The representation invariant of the store. Every operation that rebuilds a permission list
or a list of children keeps it, so no permission list that the server looks at is empty.
-/

set_option autoImplicit false

namespace Xenlib

open Keyed Wp

structure StoreInv (s : Shared) : Prop where
  wellFormed : WellFormed s.root
  allocs : s.allocs = []

theorem StoreInv.frame {s s' : Shared} (h : StoreInv s) (hf : Frame s s') : StoreInv s' :=
  ⟨by rw [hf.root]; exact h.wellFormed, hf.allocs h.allocs⟩

theorem StoreInv.drawn {s : Shared} {rest : List Bool} (h : StoreInv s) (hs : rest <:+ s.allocs) :
    StoreInv { s with allocs := rest } := by
  refine ⟨h.wellFormed, ?_⟩
  rw [h.allocs] at hs
  exact List.suffix_nil.mp hs

/-- A fault other than an empty permission list or the removal of the root. -/
def Safe (e : Fault) : Prop := e ≠ .emptyPerms ∧ e ≠ .unlinkedNode

/-- An operation that keeps the invariant and never meets an empty permission list. -/
abbrev Keeps {α : Type} (x : SrvM α) : Prop := Holds StoreInv Safe x fun _ => True

theorem Keeps.pure {α : Type} (a : α) : Keeps (pure a : SrvM α) := Holds.pure trivial

theorem Keeps.bind {α β : Type} {x : SrvM α} {f : α → SrvM β} (hx : Keeps x)
    (hf : ∀ a, Keeps (f a)) : Keeps (x >>= f) :=
  Holds.bind hx fun a _ => hf a

theorem Keeps.ite {α : Type} {c : Prop} [Decidable c] {x y : SrvM α} (hx : Keeps x)
    (hy : Keeps y) : Keeps (if c then x else y) :=
  Holds.ite (fun _ => hx) (fun _ => hy)

theorem keeps_of_wp {α : Type} {x : SrvM α}
    (h : ∀ s, StoreInv s → wp x (fun _ s' => StoreInv s') Safe s) : Keeps x :=
  fun s hs => wp_conseq (h s hs) fun _ _ hs' => ⟨trivial, hs'⟩

theorem Keeps.wp {α : Type} {x : SrvM α} (h : Keeps x) {s : Shared} (hs : StoreInv s) :
    wp x (fun _ s' => StoreInv s') Safe s :=
  wp_conseq (h s hs) fun _ _ ha => ha.2

theorem Keeps.lock (deadline : Deadline) : Keeps (xssMutexLockDeadline deadline) :=
  keeps_of_wp fun _ hs => wp_lock fun _ _ _ => ⟨hs.wellFormed, hs.allocs⟩

theorem Keeps.alloc {α : Type} {x : AllocM α}
    (h : ∀ allocs, Wp.wp x (fun _ rest => rest <:+ allocs) Safe allocs) : Keeps (alloc x) := by
  refine keeps_of_wp fun s hs => ?_
  rw [wp_alloc]
  exact wp_conseq (h s.allocs) fun _ _ hrest => hs.drawn hrest

theorem Keeps.constructPath (payload : CString) (domid : UInt32) :
    Keeps (Xenlib.alloc (constructPath payload domid)) :=
  Keeps.alloc fun _ => wp_constructPath (fun _ hs => hs) (fun _ hs _ => hs)

theorem Keeps.constructData (payload : Bytes) (pathLen : Nat) :
    Keeps (Xenlib.alloc (constructData payload pathLen)) :=
  Keeps.alloc fun _ => wp_constructData (fun _ _ hs => hs) (fun _ hs _ => hs)

theorem readStr_safe {payload : Bytes} {e : Fault} (h : readStr payload = .error e) : Safe e := by
  rw [readStr_fault h]
  simp [Safe]

theorem Keeps.readStr (payload : Bytes) : Keeps (Wp.lift (readStr payload)) :=
  Holds.lift (fun _ _ => trivial) (fun _ he => readStr_safe he)

theorem keeps_releaseDomainStored (x : Xenstore) : Keeps (releaseDomainStored x) := by
  refine keeps_of_wp fun s hs => ?_
  obtain ⟨f, hf, hall, hd, _⟩ :=
    removeRefEntriesRecursive_spec x.domid s.root.children hs.wellFormed.nodes
      hs.wellFormed.distinct
  refine wp_releaseDomainStored (fun children _ hc => ?_) (fun _ => by simp [Safe]) (fun he => ?_)
  · rw [hf] at hc
    cases hc
    exact ⟨⟨hs.wellFormed.rootPerms, hall, hd⟩, hs.allocs⟩
  · rw [hf] at he
    cases he

theorem keeps_queueReply (x : Xenstore) (id : UInt32) (type : XsdSockmsgType) (data : Bytes) :
    Keeps (queueReply x id type data) :=
  keeps_of_wp fun _ hs => wp_queueReply (fun _ _ hrest => hs.drawn hrest)
    (fun _ hrest _ => hs.drawn hrest)

theorem keeps_sendReplyOr {tooBig : SrvM Xenstore} (h : Keeps tooBig) (x : Xenstore) (id : UInt32)
    (type : XsdSockmsgType) (data : Bytes) : Keeps (sendReplyOr tooBig x id type data) :=
  Keeps.ite (keeps_releaseDomainStored _) (Keeps.ite h (keeps_queueReply x id type data))

theorem keeps_sendErrno (x : Xenstore) (id : UInt32) (err : Errno) : Keeps (sendErrno x id err) :=
  keeps_sendReplyOr (Keeps.pure x) x id .error _

theorem keeps_sendReplySz (x : Xenstore) (id : UInt32) (type : XsdSockmsgType) (data : Bytes) :
    Keeps (sendReplySz x id type data) :=
  keeps_sendReplyOr (keeps_sendErrno x id .e2big) x id type data

theorem keeps_dispatch (ids : List Nat) : Keeps (dispatchLocalWatchEventsLocked ids) :=
  keeps_of_wp fun s hs => wp_dispatchLocalWatchEventsLocked ids s fun _ hf _ _ => hs.frame hf

theorem keeps_notifyWatchersLocked (path : CString) (deadline : Deadline) :
    Keeps (notifyWatchersLocked path deadline) := by
  refine keeps_of_wp fun s hs => ?_
  refine wp_mono (wp_notifyWatchersLocked s) (fun r s' h => ?_)
    (fun _ he => he.ne hs.wellFormed.permsOk)
  obtain ⟨evs, _, hn⟩ := h
  exact hs.frame hn.frame

theorem keeps_notifyWatchers (path : CString) : Keeps (notifyWatchers path) :=
  keeps_of_wp fun _ hs => wp_notifyWatchers (fun _ _ _ hn hf _ _ => (hs.frame hn.frame).frame hf)
    (fun _ he => he.ne hs.wellFormed.permsOk)

theorem StoreInv.wrote {s : Shared} {path : CString} {data : Option CString} {domid : UInt32}
    {perms : List XsPermEntry} {rc : Option Errno} {root : XsEntry} {rest locks : List Bool}
    (h : StoreInv s) (hrest : rest <:+ s.allocs) (hw : Wrote path data domid perms s rc root) :
    StoreInv { s with root := root, allocs := rest, locks := locks } := by
  refine ⟨?_, (h.drawn hrest).allocs⟩
  rcases hw with ⟨_, _, hroot⟩ | hw
  · show WellFormed root
    rw [hroot]
    exact h.wellFormed
  · rw [h.allocs] at hw
    exact WriteOutcome.wellFormed List.not_mem_nil hw h.wellFormed

theorem keeps_xssDoWriteDeadline (path : CString) (data : Option CString) (domid : UInt32)
    (perms : List XsPermEntry) (deadline : Deadline) :
    Keeps (xssDoWriteDeadline path data domid perms deadline) :=
  keeps_of_wp fun _ hs => wp_xssDoWriteDeadline (fun _ _ _ _ hrest hw => hs.wrote hrest hw)
    (fun hp => absurd hs.wellFormed.permsOk hp)

theorem keeps_xssDoRmDeadline (key : CString) (callerId : UInt32) (deadline : Deadline)
    (hkey : key ≠ [slash]) : Keeps (xssDoRmDeadline key callerId deadline) := by
  refine keeps_of_wp fun s hs => ?_
  unfold xssDoRmDeadline
  simp only [wp_bind, wp_pure]
  refine wp_mono (wp_xssDoRmLocked s) (fun r s₁ hr => ?_) (fun e he => ?_)
  · obtain ⟨rc, localEvents⟩ := r
    obtain ⟨evs, _, hrm⟩ := hr
    simp only at hrm
    have hs₁ : StoreInv s₁ := by
      cases hrm with
      | refused e hn => exact hs.frame hn.frame
      | freed s₀ entry hn hfound hg hfree =>
        have hs₀ := hs.frame hn.frame
        rw [(freeEntry_ok hfree).2]
        exact ⟨hs₀.wellFormed.remove _, hs₀.allocs⟩
    exact (keeps_dispatch _).wp hs₁
  · rcases he with ⟨rfl, hp⟩ | he | ⟨-, hroot⟩
    · exact absurd hs.wellFormed.permsOk hp
    · exact he.ne hs.wellFormed.permsOk
    · exact absurd hroot.1 hkey

theorem StoreInv.modify {s : Shared} (h : StoreInv s) (p : List CString) {node : XsNode}
    (hn : node.perms ≠ []) : StoreInv { s with root := s.root.modify (fun _ => node) p } :=
  ⟨h.wellFormed.modify p fun _ => hn, h.allocs⟩

theorem found_perms {s : Shared} {key : CString} {entry : EntryRef} (h : StoreInv s)
    (hf : foundEntry s.root key = some entry) : entry.entry.label.perms ≠ [] :=
  (h.wellFormed.permsOk.lookup (foundEntry_lookup hf)).1

theorem keeps_setEntryPerms (path : CString) (perms : List XsPermEntry) (hp : perms ≠ []) :
    Keeps (setEntryPerms path perms) := by
  refine keeps_of_wp fun s hs => ?_
  unfold setEntryPerms
  simp only [wp_bind, wp_get, wp_alloc]
  refine wp_keyToEntryCheckPerm (fun entry rest hrest hf _ => ?_)
    (fun rest hrest _ => hs.drawn hrest) (fun h => absurd hs.wellFormed.permsOk h)
  have hs₁ := hs.drawn hrest
  simp only [wp_bind, wp_alloc, wp_modify, wp_pure]
  refine wp_setPermsByArray (fun rest' hrest' => ?_) (fun rest' hrest' _ => ?_)
  · exact (hs₁.drawn hrest').modify _ hp
  · exact (hs₁.drawn hrest').modify _ (found_perms hs hf)

theorem keeps_xsWithPath {path : Option CString} {txId : UInt32}
    {body : CString → SrvM (Option Errno)}
    (h : ∀ text full, path = some text → resolvePath text 0 = .ok full → Keeps (body full)) :
    Keeps (xsWithPath path txId body) := by
  refine keeps_of_wp fun s hs => ?_
  unfold xsWithPath
  cases path with
  | none => exact hs
  | some text =>
    refine wp_ite (fun _ => hs) (fun _ => ?_)
    rw [wp_bind, wp_alloc]
    refine wp_constructPath (fun rest hrest => ?_) (fun rest hrest _ => hs.drawn hrest)
    cases hr : resolvePath text 0 with
    | error e => exact hs.drawn hrest
    | ok full => exact (h text full rfl hr).wp (hs.drawn hrest)

theorem keeps_writeNotifyDeadline (path value : CString) (deadline : Deadline) :
    Keeps (writeNotifyDeadline path value deadline) := by
  unfold writeNotifyDeadline writeNotifyLocked
  refine Keeps.bind (Keeps.bind (keeps_xssDoWriteDeadline _ _ _ _ _) fun rc => ?_)
    fun r => Keeps.bind (keeps_dispatch _) fun _ => Keeps.pure _
  cases rc with
  | some e => exact Keeps.pure _
  | none => exact keeps_notifyWatchersLocked _ _

theorem resolvePath_root {text : CString} {domid : UInt32}
    (h : resolvePath text domid = .ok [slash]) :
    text = [slash] := by
  obtain ⟨_, ht⟩ := resolvePath_ok h
  unfold pathText at ht
  split at ht
  · cases ht; rfl
  · split at ht
    · cases ht
    · have hlen := congrArg (Except.map List.length) ht
      simp only [Except.map, List.length_take, List.length_append, List.length_singleton,
        Except.ok.injEq] at hlen
      have h14 : 14 ≤ (localDomainPath domid).length := by
        unfold localDomainPath
        simp only [List.length_append]
        have : (ascii ['/', 'l', 'o', 'c', 'a', 'l', '/', 'd', 'o', 'm', 'a', 'i', 'n', '/']).length
          = 14 := by decide
        omega
      simp only [xenstoreMaxLocalpathLen] at hlen
      omega

theorem keeps_withPath {x : Xenstore} {id : UInt32} {payload : Bytes}
    {body : CString → SrvM Xenstore} (h : ∀ path, Keeps (body path)) :
    Keeps (withPath x id payload body) := by
  unfold withPath
  refine Keeps.bind (Keeps.readStr payload) fun text =>
    Keeps.bind (Keeps.constructPath text x.domid) fun r => ?_
  cases r with
  | error e => exact keeps_sendErrno x id e
  | ok path => exact h path

theorem keeps_handleWriteAs (type : XsdSockmsgType) (x : Xenstore) (id : UInt32) (payload : Bytes) :
    Keeps (handleWriteAs type x id payload) := by
  unfold handleWriteAs
  refine Keeps.bind (Keeps.readStr payload) fun text => Keeps.ite (keeps_sendErrno x id _)
    (Keeps.bind (Keeps.constructPath text x.domid) fun r => ?_)
  cases r with
  | error e => exact keeps_sendErrno x id e
  | ok path =>
    refine Keeps.bind (Keeps.constructData payload _) fun r => ?_
    cases r with
    | error e => exact keeps_sendErrno x id e
    | ok data =>
      refine Keeps.bind (keeps_xssDoWriteDeadline _ _ _ _ _) fun rc => ?_
      cases rc with
      | some e => exact keeps_sendErrno x id e
      | none =>
        exact Keeps.bind (keeps_sendReplySz x id type _) fun _ =>
          Keeps.bind (keeps_notifyWatchers path) fun _ => Keeps.pure _

theorem keeps_handleRm (x : Xenstore) (id : UInt32) (payload : Bytes)
    (h : readStr payload ≠ .ok [slash]) : Keeps (handleRm x id payload) := by
  unfold handleRm
  refine Holds.bind (Holds.lift (fun _ htext => htext) (fun _ he => readStr_safe he))
    fun text htext => ?_
  have hne : text ≠ [slash] := by
    rintro rfl
    exact h htext
  refine Keeps.bind (keeps_xssDoRmDeadline text x.domid .forever hne) fun rc => ?_
  cases rc with
  | some e => exact keeps_sendErrno x id e
  | none => exact keeps_sendReplySz x id .rm _

theorem keeps_setPermsOf (x : Xenstore) (id : UInt32) (permString : Bytes) (path : CString) :
    Keeps (setPermsOf x id permString path) := by
  refine keeps_of_wp fun s hs => ?_
  unfold setPermsOf
  simp only [wp_bind, wp_get, wp_alloc]
  refine wp_keyToEntryCheckPerm (fun entry rest hrest hf _ => ?_) (fun _ _ _ => by simp [Safe])
    (fun h => absurd hs.wellFormed.permsOk h)
  have hs₁ := hs.drawn hrest
  simp only [wp_bind, wp_alloc, wp_modify]
  refine wp_setPermsByStrings (fun ps rest' hrest' _ hne => ?_) (fun e rest' hrest' _ => ?_)
  · exact (keeps_sendReplySz x id .setPerms _).wp ((hs₁.drawn hrest').modify _ hne)
  · exact (keeps_sendErrno x id e).wp ((hs₁.drawn hrest').modify _ (found_perms hs hf))

theorem keeps_handleSetPerms (x : Xenstore) (id : UInt32) (payload : Bytes) :
    Keeps (handleSetPerms x id payload) :=
  Keeps.ite (keeps_sendErrno x id .einval) (keeps_withPath (keeps_setPermsOf x id _))

/-- What can happen to the store: requests of guests, calls of Dom0, and stops of domains. -/
inductive StoreOp where
  | handleWrite (x : Xenstore) (id : UInt32) (payload : Bytes)
  | handleMkdir (x : Xenstore) (id : UInt32) (payload : Bytes)
  | handleRm (x : Xenstore) (id : UInt32) (payload : Bytes)
  | handleSetPerms (x : Xenstore) (id : UInt32) (payload : Bytes)
  | xssWrite (path value : Option CString)
  | xssWriteGuestDomainRw (path value : Option CString) (domid : UInt32)
  | xssWriteGuestDomainRo (path value : Option CString) (domid : UInt32)
  | xssWriteGuestWithPermissions (path value : Option CString) (domid1 domid2 : UInt32)
  | xssSetPerm (path : Option CString) (domid : UInt16) (perm : XsPerm)
  | xssRm (path : Option CString)
  | xsWrite (path value : Option CString) (txId : UInt32) (deadline : Deadline)
  | xsMkdir (path : Option CString) (txId : UInt32) (deadline : Deadline)
  | xsSetPermissions (path : Option CString) (perms : List XsPermEntry) (txId : UInt32)
      (deadline : Deadline)
  | xsRm (path : Option CString) (txId : UInt32) (deadline : Deadline)
  | stopDomainStored (x : Xenstore)

def StoreOp.run : StoreOp → SrvM Unit
  | .handleWrite x id payload => do let _ ← Xenlib.handleWrite x id payload
  | .handleMkdir x id payload => do let _ ← Xenlib.handleMkdir x id payload
  | .handleRm x id payload => do let _ ← Xenlib.handleRm x id payload
  | .handleSetPerms x id payload => do let _ ← Xenlib.handleSetPerms x id payload
  | .xssWrite path value => do let _ ← Xenlib.xssWrite path value
  | .xssWriteGuestDomainRw path value domid => do
    let _ ← Xenlib.xssWriteGuestDomainRw path value domid
  | .xssWriteGuestDomainRo path value domid => do
    let _ ← Xenlib.xssWriteGuestDomainRo path value domid
  | .xssWriteGuestWithPermissions path value domid1 domid2 => do
    let _ ← Xenlib.xssWriteGuestWithPermissions path value domid1 domid2
  | .xssSetPerm path domid perm => do let _ ← Xenlib.xssSetPerm path domid perm
  | .xssRm path => do let _ ← Xenlib.xssRm path
  | .xsWrite path value txId deadline => do let _ ← xsWriteTimeout path value txId deadline
  | .xsMkdir path txId deadline => do let _ ← xsMkdirTimeout path txId deadline
  | .xsSetPermissions path perms txId deadline => do
    let _ ← xsSetPermissionsTimeout path perms txId deadline
  | .xsRm path txId deadline => do let _ ← xsRmTimeout path txId deadline
  | .stopDomainStored x => do let _ ← releaseDomainStored x

/-- The operation does not remove "/". -/
def StoreOp.NotRoot : StoreOp → Prop
  | .handleRm _ _ payload => readStr payload ≠ .ok [slash]
  | .xssRm path => path ≠ some [slash]
  | .xsRm path _ _ => path ≠ some [slash]
  | _ => True

theorem keeps_xssWriteWith (path value : Option CString) (perms : List XsPermEntry) :
    Keeps (xssWriteWith path value perms) := by
  unfold xssWriteWith
  cases path with
  | none => exact Keeps.pure _
  | some path =>
    cases value with
    | none => exact Keeps.pure _
    | some value =>
      refine Keeps.bind (keeps_xssDoWriteDeadline _ _ _ _ _) fun rc => ?_
      cases rc with
      | some e => exact Keeps.pure _
      | none => exact Keeps.bind (keeps_notifyWatchers path) fun _ => Keeps.pure _

theorem keeps_run (op : StoreOp) (h : op.NotRoot) : Keeps op.run := by
  cases op with
  | handleWrite x id payload => exact (keeps_handleWriteAs _ _ _ _).bind fun _ => Keeps.pure _
  | handleMkdir x id payload => exact (keeps_handleWriteAs _ _ _ _).bind fun _ => Keeps.pure _
  | handleRm x id payload => exact (keeps_handleRm x id payload h).bind fun _ => Keeps.pure _
  | handleSetPerms x id payload =>
    exact (keeps_handleSetPerms x id payload).bind fun _ => Keeps.pure _
  | xssWrite path value => exact (keeps_xssWriteWith _ _ _).bind fun _ => Keeps.pure _
  | xssWriteGuestDomainRw path value domid =>
    exact (keeps_xssWriteWith _ _ _).bind fun _ => Keeps.pure _
  | xssWriteGuestDomainRo path value domid =>
    exact (keeps_xssWriteWith _ _ _).bind fun _ => Keeps.pure _
  | xssWriteGuestWithPermissions path value domid1 domid2 =>
    exact (keeps_xssWriteWith _ _ _).bind fun _ => Keeps.pure _
  | xssSetPerm path domid perm =>
    refine Keeps.bind ?_ fun _ => Keeps.pure _
    cases path with
    | none => exact Keeps.pure _
    | some path => exact keeps_setEntryPerms path _ (by simp)
  | xssRm path =>
    refine Keeps.bind ?_ fun _ => Keeps.pure _
    cases path with
    | none => exact Keeps.pure _
    | some path => exact keeps_xssDoRmDeadline path 0 .forever fun hp => h (by rw [hp])
  | xsWrite path value txId deadline =>
    refine Keeps.bind ?_ fun _ => Keeps.pure _
    cases value with
    | none => exact Keeps.pure _
    | some value =>
      exact keeps_xsWithPath fun text full _ _ => keeps_writeNotifyDeadline full value deadline
  | xsMkdir path txId deadline =>
    refine Keeps.bind ?_ fun _ => Keeps.pure _
    exact keeps_xsWithPath fun text full _ _ => keeps_writeNotifyDeadline full [] deadline
  | xsSetPermissions path perms txId deadline =>
    refine Keeps.bind ?_ fun _ => Keeps.pure _
    by_cases hp : perms = []
    · rw [xsSetPermissionsTimeout, if_pos hp]
      exact Keeps.pure _
    · rw [xsSetPermissionsTimeout, if_neg hp]
      refine keeps_xsWithPath fun text full _ _ => Keeps.bind (Keeps.lock deadline) fun rc => ?_
      cases rc with
      | some e => exact Keeps.pure _
      | none => exact keeps_setEntryPerms full perms hp
  | xsRm path txId deadline =>
    refine Keeps.bind ?_ fun _ => Keeps.pure _
    refine keeps_xsWithPath fun text full htext hfull => keeps_xssDoRmDeadline full 0 deadline ?_
    rintro rfl
    exact h (by rw [htext, resolvePath_root hfull])
  | stopDomainStored x => exact (keeps_releaseDomainStored x).bind fun _ => Keeps.pure _

/-- The states reached from `xs_init_root`. Between two operations anything but the store may
change: watches, events, stack slots. -/
inductive StoreReachable : Shared → Prop where
  | init (domuMax : Nat) (s : Shared) (h : xsInitRoot (Shared.boot domuMax) = .ok (none, s)) :
      StoreReachable s
  | other (s s' : Shared) (hs : StoreReachable s) (hroot : s'.root = s.root)
      (hallocs : s'.allocs = s.allocs) : StoreReachable s'
  | step (s s' : Shared) (op : StoreOp) (hs : StoreReachable s) (hop : op.NotRoot)
      (h : op.run s = .ok ((), s')) : StoreReachable s'

theorem storeInv_reachable {s : Shared} (h : StoreReachable s) : StoreInv s := by
  induction h with
  | init domuMax s h =>
    cases h
    exact ⟨⟨List.cons_ne_nil _ _, trivial, trivial⟩, rfl⟩
  | other s s' _ hroot hallocs ih =>
    exact ⟨by rw [hroot]; exact ih.wellFormed, hallocs.trans ih.allocs⟩
  | step s s' op _ hop h ih => exact wp_ok ((keeps_run op hop).wp ih) h

/-- Every reachable store is well-formed, and no operation on it meets an empty permission
list or frees the root. -/
theorem reachable_store_wellFormed (s : Shared) (h : StoreReachable s) :
    WellFormed s.root ∧ ∀ op : StoreOp, op.NotRoot →
      op.run s ≠ .error .emptyPerms ∧ op.run s ≠ .error .unlinkedNode := by
  have hs := storeInv_reachable h
  refine ⟨hs.wellFormed, fun op hop => ?_⟩
  have hop := (keeps_run op hop).wp hs
  exact ⟨fun he => (wp_error hop he).1 rfl, fun he => (wp_error hop he).2 rfl⟩

/-- The store after Dom0 made "/a" for domain 1. -/
theorem reachable_store_wellFormed_write : ∃ s s' : Shared,
    xsInitRoot (Shared.boot 4) = .ok (none, s) ∧
    ((StoreOp.xssWriteGuestDomainRw (some (ascii ['/', 'a'])) (some []) 1).run s) = .ok ((), s') ∧
    WellFormed s'.root := by
  refine ⟨_, _, rfl, rfl, ?_⟩
  exact (reachable_store_wellFormed _ (.step _ _
    (.xssWriteGuestDomainRw (some (ascii ['/', 'a'])) (some []) 1)
    (.init 4 _ rfl) trivial rfl)).1

end Xenlib
