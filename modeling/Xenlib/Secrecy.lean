import Xenlib.Payloads
import Xenlib.Lib.ForestMap
import Xenlib.Lib.TwoRuns

/-!
Values a guest may not read. Two stores that differ in nothing else are run side by side, and
what the guest is sent is the same.
-/

set_option autoImplicit false

namespace Xenlib

open Wp Keyed

def readable (domid : UInt32) (node : XsNode) : Bool :=
  match checkPerms node .read domid with
  | .ok granted => granted
  | .error _ => false

/-- The node without a value that `domid` may not read. -/
def veil (domid : UInt32) (node : XsNode) : XsNode :=
  if readable domid node then node else { node with value := none }

/-- Same shape, same order of the children, same permissions, and the same values as far as
`domid` may read them. -/
def SameTo (domid : UInt32) (root root' : XsEntry) : Prop :=
  root.map (veil domid) = root'.map (veil domid)

/-- Nothing but the tree differs. -/
def SameStore (domid : UInt32) (s t : Shared) : Prop :=
  SameTo domid s.root t.root ∧ t = { s with root := t.root }

theorem readable_congr {node node' : XsNode} (h : node.perms = node'.perms) (domid : UInt32) :
    readable domid node = readable domid node' := by
  simp only [readable, checkPerms_congr h]

@[simp] theorem veil_perms (domid : UInt32) (node : XsNode) :
    (veil domid node).perms = node.perms := by
  unfold veil
  split <;> rfl

theorem veil_eq_iff {domid : UInt32} {node node' : XsNode} :
    veil domid node = veil domid node' ↔
      node.perms = node'.perms ∧ (readable domid node = true → node = node') := by
  constructor
  · intro h
    have hperms : node.perms = node'.perms := by simpa using congrArg XsNode.perms h
    refine ⟨hperms, fun hr => ?_⟩
    have hr' : readable domid node' = true := by rw [← readable_congr hperms, hr]
    simpa [veil, hr, hr'] using h
  · rintro ⟨hperms, hvalue⟩
    by_cases hr : readable domid node = true
    · rw [hvalue hr]
    · have hr' : ¬ readable domid node' = true := by rw [← readable_congr hperms]; exact hr
      simp [veil, hr, hr', hperms]

section Trees

variable {domid : UInt32} {t t' : XsEntry}

theorem SameTo.label (h : SameTo domid t t') : veil domid t.label = veil domid t'.label :=
  congrArg Tree.label h

theorem SameTo.children (h : SameTo domid t t') :
    t.children.map (veil domid) = t'.children.map (veil domid) :=
  congrArg Tree.children h

theorem SameTo.perms (h : SameTo domid t t') : t.label.perms = t'.label.perms :=
  (veil_eq_iff.mp h.label).1

theorem SameTo.mk {label label' : XsNode} {children children' : EntryList}
    (hlabel : veil domid label = veil domid label')
    (hchildren : children.map (veil domid) = children'.map (veil domid)) :
    SameTo domid ⟨label, children⟩ ⟨label', children'⟩ := by
  simp only [SameTo, Keyed.Tree.map, hlabel, hchildren]

theorem SameTo.set {tok : CString} {iter iter' : XsEntry} (h : SameTo domid t t')
    (hiter : SameTo domid iter iter') :
    SameTo domid { t with children := t.children.set tok iter }
      { t' with children := t'.children.set tok iter' } := by
  refine .mk h.label ?_
  rw [Forest.map_set, Forest.map_set, h.children, hiter]

theorem SameTo.append {tok : CString} {iter iter' : XsEntry} (h : SameTo domid t t')
    (hiter : SameTo domid iter iter') :
    SameTo domid { t with children := t.children.append tok iter }
      { t' with children := t'.children.append tok iter' } := by
  refine .mk h.label ?_
  rw [Forest.map_append, Forest.map_append, h.children, hiter]

theorem SameTo.remove (h : SameTo domid t t') (p : List CString) :
    SameTo domid (t.remove p) (t'.remove p) := by
  unfold SameTo
  rw [Tree.map_remove, Tree.map_remove, h]

end Trees

def SameRef (domid : UInt32) (e e' : EntryRef) : Prop :=
  e.path = e'.path ∧ SameTo domid e.entry e'.entry

section Tree

variable {domid : UInt32} {root root' : XsEntry}

theorem agree_self {σ α : Type} (x : Prog σ Fault α) : Agree Eq Eq x x := by
  rintro s _ rfl
  cases x s with
  | error e => rfl
  | ok r => exact ⟨rfl, rfl⟩

theorem entryAt_same (h : SameTo domid root root') (toks : List CString) :
    Option.Rel (SameRef domid) (entryAt root toks) (entryAt root' toks) := by
  cases toks with
  | nil => exact .none
  | cons tok toks =>
    rcases Tree.lookup_of_map_eq h (tok :: toks) with ⟨hl, hl'⟩ | ⟨e, e', hl, hl', he⟩
    · simp only [entryAt, hl, hl', Option.map_none]
      exact .none
    · simp only [entryAt, hl, hl', Option.map_some]
      exact .some ⟨rfl, he⟩

theorem agree_keyToEntry (h : SameTo domid root root') (key : CString) :
    Agree Eq (Option.Rel (SameRef domid)) (keyToEntry root key) (keyToEntry root' key) := by
  unfold keyToEntry
  refine .ite (fun _ => .pure .none) fun _ => .ite (fun _ => .pure (.some ⟨rfl, h⟩)) fun _ => ?_
  exact (agree_self kMalloc).bind_eq fun b =>
    .ite (fun _ => .pure (entryAt_same h _)) fun _ => .pure .none

theorem agree_keyToEntryCheckPerm (h : SameTo domid root root') (key : CString) (caller : UInt32)
    (perms : XsPerm) :
    Agree Eq (Option.Rel fun e e' => SameRef domid e e' ∧
        checkPerms e.entry.label perms caller = .ok true)
      (keyToEntryCheckPerm root key caller perms) (keyToEntryCheckPerm root' key caller perms) := by
  unfold keyToEntryCheckPerm
  refine (agree_keyToEntry h key).bind fun e e' he => ?_
  cases he with
  | none => exact (Agree.lift _).bind_eq fun b => .ite (fun _ => .pure .none) fun _ => .pure .none
  | some hentry =>
    rename_i e e'
    have hsame : checkPermsForEntry (some e') caller perms =
        checkPermsForEntry (some e) caller perms :=
      (checkPerms_congr hentry.2.perms perms caller).symm
    rw [hsame]
    cases hcheck : checkPermsForEntry (some e) caller perms with
    | error f => exact .throw f
    | ok granted =>
      cases granted with
      | false => exact .pure .none
      | true => exact .pure (.some ⟨hentry, hcheck⟩)

theorem newEntryPerms_congr {parent parent' : XsNode} (h : parent.perms = parent'.perms)
    (perms : List XsPermEntry) (caller : UInt32) :
    newEntryPerms perms parent caller = newEntryPerms perms parent' caller := by
  simp only [newEntryPerms, inheritPerms, h]

/-- One result, and trees that are the same to `domid`. -/
def SameResult {α : Type} (domid : UInt32) (r r' : α × XsEntry) : Prop :=
  r.1 = r'.1 ∧ SameTo domid r.2 r'.2

theorem agree_writeValue {t t' : XsEntry} (h : SameTo domid t t') (data : Option CString)
    (caller : UInt32) :
    Agree Eq (SameResult domid) (writeValue data caller t) (writeValue data caller t') := by
  unfold writeValue
  cases data with
  | none => exact .pure ⟨rfl, h⟩
  | some value =>
    simp only
    rw [checkPerms_congr h.perms]
    refine (Agree.lift _).bind_eq fun granted => .ite (fun _ => ?_) fun _ => .pure ⟨rfl, h⟩
    refine (agree_self kMalloc).bind_eq fun ok =>
      .ite (fun _ => .pure ⟨rfl, ?_⟩) fun _ => .pure ⟨rfl, h⟩
    refine .mk ?_ h.children
    simp only [h.perms]

theorem agree_writeWalk (data : Option CString) (caller : UInt32) (perms : List XsPermEntry)
    (toks : List CString) (inserted : Bool) {t t' : XsEntry} (h : SameTo domid t t') :
    Agree Eq (SameResult domid) (writeWalk data caller perms toks inserted t)
      (writeWalk data caller perms toks inserted t') := by
  induction toks generalizing inserted t t' with
  | nil => exact agree_writeValue h data caller
  | cons tok toks ih =>
    unfold writeWalk
    rcases Forest.find?_of_map_eq h.children tok with ⟨hf, hf'⟩ | ⟨e, e', hf, hf', he⟩
    · rw [hf, hf']
      simp only
      rw [checkPerms_congr h.perms, newEntryPerms_congr h.perms]
      refine (Agree.lift _).bind_eq fun granted => .ite (fun _ => .pure ⟨rfl, h⟩) fun _ => ?_
      refine (agree_self kMalloc).bind_eq fun b₁ => .ite (fun _ => .pure ⟨rfl, h⟩) fun _ => ?_
      refine (agree_self kMalloc).bind_eq fun b₂ => .ite (fun _ => .pure ⟨rfl, h⟩) fun _ => ?_
      refine (agree_self (newEntryPerms _ _ _)).bind_eq fun r => ?_
      obtain ⟨rc, node⟩ := r
      cases rc with
      | some rc => exact .pure ⟨rfl, h.append rfl⟩
      | none =>
        refine (ih true rfl).bind fun r r' hr => ?_
        obtain ⟨rc, iter⟩ := r
        obtain ⟨rc', iter'⟩ := r'
        obtain ⟨rfl, hiter⟩ : rc = rc' ∧ SameTo domid iter iter' := hr
        exact .ite (fun _ => .pure ⟨rfl, h⟩) fun _ => .pure ⟨rfl, h.append hiter⟩
    · rw [hf, hf']
      refine (ih inserted he).bind fun r r' hr => ?_
      exact .pure ⟨hr.1, h.set hr.2⟩

theorem agree_writeTree (h : SameTo domid root root') (path : CString) (data : Option CString)
    (caller : UInt32) (perms : List XsPermEntry) :
    Agree Eq (SameResult domid) (writeTree path data caller perms root)
      (writeTree path data caller perms root') := by
  unfold writeTree
  split
  · exact .pure ⟨rfl, h⟩
  · exact agree_writeWalk data caller perms _ false h

end Tree

section Server

variable {domid : UInt32}

theorem SameStore.root {s t : Shared} (h : SameStore domid s t) : SameTo domid s.root t.root := h.1

theorem SameStore.watches {s t : Shared} (h : SameStore domid s t) : t.watches = s.watches := by
  rw [h.2]

theorem SameStore.linked {s t : Shared} (h : SameStore domid s t) :
    linkedWatches t = linkedWatches s := by
  rw [linkedWatches, h.watches]
  rfl

theorem agree_modify {f : Shared → Shared}
    (h : ∀ s root, f { s with root := root } = { f s with root := root }) :
    Agree (SameStore domid) Eq (modify f : SrvM PUnit) (modify f) := by
  refine .modify fun s t hst => ?_
  have hroot : ∀ s, (f s).root = s.root := by
    intro s
    exact (congrArg (fun s => s.root) (h s s.root) :)
  refine ⟨by rw [hroot, hroot]; exact hst.1, ?_⟩
  rw [hroot t, ← h, ← hst.2]

theorem agree_alloc {α β : Type} {Q : α → β → Prop} {x : AllocM α} {y : AllocM β}
    (h : Agree Eq Q x y) : Agree (SameStore domid) Q (alloc x) (alloc y) := by
  intro s t hst
  have hrun := h s.allocs t.allocs (by rw [hst.2])
  unfold alloc
  cases hx : x s.allocs with
  | error e => cases hy : y t.allocs <;> simp_all
  | ok r =>
    cases hy : y t.allocs with
    | error e => simp_all
    | ok r' =>
      simp only [hx, hy] at hrun ⊢
      refine ⟨hrun.1, hst.1, ?_⟩
      rw [← hrun.2, hst.2]

theorem agree_kMalloc : Agree (SameStore domid) Eq (alloc kMalloc) (alloc kMalloc) :=
  agree_alloc (agree_self _)

theorem agree_lock (deadline : Deadline) :
    Agree (SameStore domid) Eq (xssMutexLockDeadline deadline) (xssMutexLockDeadline deadline) := by
  intro s t hst
  rw [hst.2]
  unfold xssMutexLockDeadline
  cases deadline with
  | forever => exact ⟨rfl, hst.1, rfl⟩
  | timed =>
    simp only
    cases hlocks : s.locks with
    | nil => exact ⟨rfl, hst.1, by simp [hlocks]⟩
    | cons b rest => cases b <;> exact ⟨rfl, hst.1, rfl⟩

theorem agree_xssDoWriteDeadline (path : CString) (data : Option CString) (caller : UInt32)
    (perms : List XsPermEntry) (deadline : Deadline) :
    Agree (SameStore domid) Eq (xssDoWriteDeadline path data caller perms deadline)
      (xssDoWriteDeadline path data caller perms deadline) := by
  unfold xssDoWriteDeadline
  refine agree_kMalloc.bind_eq fun ok => .ite (fun _ => .pure rfl) fun _ => ?_
  refine (agree_lock deadline).bind_eq fun locked => ?_
  cases locked with
  | some e => exact .pure rfl
  | none =>
    refine Agree.get.bind fun s t hst => ?_
    refine (agree_alloc (agree_writeTree hst.root path data caller perms)).bind fun r r' hr => ?_
    obtain ⟨rc, root⟩ := r
    obtain ⟨rc', root'⟩ := r'
    obtain ⟨rfl, hroot⟩ : rc = rc' ∧ SameTo domid root root' := hr
    refine (Agree.modify fun s t hst => ⟨hroot, ?_⟩).bind_eq fun _ => .pure rfl
    rw [hst.2]

theorem agree_queueLocalWatchEventLocked (localEvents : List Nat) (entry : WatchEntry)
    (path : CString) :
    Agree (SameStore domid) Eq (queueLocalWatchEventLocked localEvents entry path)
      (queueLocalWatchEventLocked localEvents entry path) := by
  unfold queueLocalWatchEventLocked
  refine .ite (fun _ => .pure rfl) fun _ => agree_kMalloc.bind_eq fun ok =>
    .ite (fun _ => .pure rfl) fun _ => .ite (fun _ => .throw _) fun _ => ?_
  exact (agree_modify fun _ _ => rfl).bind_eq fun _ => .pure rfl

theorem agree_queuePendingWatchEvent (watch : WatchEntry) (target : UInt32) (path : CString)
    (deadline : Deadline) :
    Agree (SameStore domid) Eq (queuePendingWatchEvent watch target path deadline)
      (queuePendingWatchEvent watch target path deadline) := by
  unfold queuePendingWatchEvent
  refine agree_kMalloc.bind_eq fun _ => .ite (fun _ => .pure rfl) fun _ => ?_
  refine agree_kMalloc.bind_eq fun _ => .ite (fun _ => .pure rfl) fun _ => ?_
  refine (agree_lock deadline).bind_eq fun locked => ?_
  cases locked with
  | some e => exact .pure rfl
  | none =>
    exact (agree_modify fun _ _ => rfl).bind_eq fun _ => .pure rfl

/-- Whether a watch is told depends on the permissions of the node, not on its value. -/
theorem agree_queueWatchLoop (path : CString) (recursiveRemove : Bool) (deadline : Deadline)
    (iters : List WatchEntry) (localEvents : List Nat) :
    Agree (SameStore domid) Eq (queueWatchLoop path recursiveRemove deadline iters localEvents)
      (queueWatchLoop path recursiveRemove deadline iters localEvents) := by
  induction iters generalizing localEvents with
  | nil => exact .pure rfl
  | cons iter rest ih =>
    unfold queueWatchLoop
    cases watchEventPath iter path recursiveRemove with
    | none => exact ih localEvents
    | some eventPath =>
      refine Agree.get.bind fun s t hst => ?_
      refine (agree_alloc (agree_keyToEntryCheckPerm hst.root eventPath _ .read)).bind
        fun e e' he => ?_
      cases he with
      | none => exact ih localEvents
      | some _ =>
        simp only
        cases iter.domain with
        | none =>
          refine .ite (fun _ => .throw _) fun _ => ?_
          exact (agree_queueLocalWatchEventLocked _ _ _).bind_eq fun r => ih r.2
        | some target =>
          refine (agree_queuePendingWatchEvent iter target eventPath deadline).bind_eq fun rc => ?_
          split
          · exact ih localEvents
          · exact .pure rfl
          · exact .pure rfl

theorem agree_queueWatchNotifications (path : CString) (recursiveRemove : Bool)
    (deadline : Deadline) :
    Agree (SameStore domid) Eq (queueWatchNotificationsXselLocked path recursiveRemove deadline)
      (queueWatchNotificationsXselLocked path recursiveRemove deadline) := by
  unfold queueWatchNotificationsXselLocked
  refine (agree_lock deadline).bind_eq fun locked => ?_
  cases locked with
  | some e => exact .pure rfl
  | none =>
    refine Agree.get.bind fun s t hst => ?_
    rw [hst.linked]
    exact agree_queueWatchLoop path recursiveRemove deadline _ []

theorem agree_dispatchLocalWatchEventsLocked (ids : List Nat) :
    Agree (SameStore domid) Eq (dispatchLocalWatchEventsLocked ids)
      (dispatchLocalWatchEventsLocked ids) := by
  induction ids with
  | nil => exact .pure rfl
  | cons id rest ih =>
    exact (agree_modify fun _ _ => rfl).bind_eq fun _ => ih

theorem agree_notifyWatchers (path : CString) :
    Agree (SameStore domid) Eq (notifyWatchers path) (notifyWatchers path) := by
  unfold notifyWatchers notifyWatchersDeadline notifyWatchersLocked
  refine Agree.bind_eq ?_ fun _ => .pure rfl
  refine Agree.bind_eq ?_ fun r =>
    (agree_dispatchLocalWatchEventsLocked _).bind_eq fun _ => .pure rfl
  refine (agree_lock .forever).bind_eq fun locked => ?_
  cases locked with
  | some e => exact .pure rfl
  | none =>
    refine (agree_lock .forever).bind_eq fun locked => ?_
    cases locked with
    | some e => exact .pure rfl
    | none => exact agree_queueWatchNotifications path false .forever

theorem agree_freeEntry {e e' : EntryRef} (h : SameRef domid e e') :
    Agree (SameStore domid) Eq (freeEntry e) (freeEntry e') := by
  unfold freeEntry
  rw [← h.1]
  split
  · exact .throw _
  · refine .modify fun s t hst => ⟨?_, by rw [hst.2]⟩
    simp only [freeNode, ← h.1]
    exact hst.root.remove _

theorem agree_xssDoRmDeadline (key : CString) (caller : UInt32) (deadline : Deadline) :
    Agree (SameStore domid) Eq (xssDoRmDeadline key caller deadline)
      (xssDoRmDeadline key caller deadline) := by
  unfold xssDoRmDeadline xssDoRmLocked
  refine Agree.bind_eq ?_ fun r =>
    (agree_dispatchLocalWatchEventsLocked _).bind_eq fun _ => .pure rfl
  refine (agree_lock deadline).bind_eq fun locked => ?_
  cases locked with
  | some e => exact .pure rfl
  | none =>
    refine (agree_lock deadline).bind_eq fun locked => ?_
    cases locked with
    | some e => exact .pure rfl
    | none =>
      refine Agree.get.bind fun s t hst => ?_
      refine (agree_alloc (agree_keyToEntryCheckPerm hst.root key caller .write)).bind
        fun e e' he => ?_
      cases he with
      | none => exact .pure rfl
      | some hentry =>
        refine (agree_queueWatchNotifications key true deadline).bind_eq fun r => ?_
        obtain ⟨rc, localEvents⟩ := r
        cases rc with
        | some e => exact .pure rfl
        | none => exact (agree_freeEntry hentry.1).bind_eq fun _ => .pure rfl

end Server

/-- The program does not see the difference of two stores that are the same to `domid`. -/
abbrev Blind {α : Type} (domid : UInt32) (x : SrvM α) : Prop := Agree (SameStore domid) Eq x x

theorem SameTo.keys {domid : UInt32} {t t' : XsEntry} (h : SameTo domid t t') :
    t.children.keys = t'.children.keys := by
  simpa using congrArg Forest.keys h.children

theorem SameRef.label {domid : UInt32} {e e' : EntryRef} (h : SameRef domid e e')
    (hread : checkPerms e.entry.label .read domid = .ok true) : e.entry.label = e'.entry.label :=
  (veil_eq_iff.mp h.2.label).2 (by rw [readable, hread])

section Handlers

variable {x : Xenstore} {id : UInt32} {payload : Bytes}

theorem blind_queueReply (x : Xenstore) (id : UInt32) (type : XsdSockmsgType) (data : Bytes) :
    Blind x.domid (queueReply x id type data) := by
  unfold queueReply
  exact agree_kMalloc.bind_eq fun _ => .ite (fun _ => .pure rfl) fun _ =>
    agree_kMalloc.bind_eq fun _ => .ite (fun _ => .pure rfl) fun _ => .pure rfl

theorem blind_sendReplyOr {tooBig : SrvM Xenstore} (hlim : BelowLimit x)
    (h : Blind x.domid tooBig) (id : UInt32) (type : XsdSockmsgType) (data : Bytes) :
    Blind x.domid (sendReplyOr tooBig x id type data) := by
  unfold sendReplyOr
  refine .ite (fun hover => absurd hover (not_lt.mpr hlim)) fun _ => ?_
  exact .ite (fun _ => h) fun _ => blind_queueReply x id type data

theorem blind_sendErrno (hlim : BelowLimit x) (id : UInt32) (err : Errno) :
    Blind x.domid (sendErrno x id err) :=
  blind_sendReplyOr hlim (.pure rfl) id _ _

theorem blind_sendReplySz (hlim : BelowLimit x) (id : UInt32) (type : XsdSockmsgType)
    (data : Bytes) : Blind x.domid (sendReplySz x id type data) :=
  blind_sendReplyOr hlim (blind_sendErrno hlim id _) id type data

theorem blind_withPath (hlim : BelowLimit x) {body : CString → SrvM Xenstore}
    (h : ∀ path, Blind x.domid (body path)) : Blind x.domid (withPath x id payload body) := by
  unfold withPath
  refine (Agree.lift _).bind_eq fun text => (agree_alloc (agree_self _)).bind_eq fun r => ?_
  cases r with
  | error e => exact blind_sendErrno hlim id e
  | ok path => exact h path

theorem blind_handleDirectory (hlim : BelowLimit x) :
    Blind x.domid (handleDirectory x id payload) := by
  refine blind_withPath hlim fun path => Agree.get.bind fun s t hst => ?_
  refine (agree_alloc (agree_keyToEntry hst.root path)).bind fun e e' he => ?_
  cases he with
  | none => exact blind_sendErrno hlim id _
  | some hentry =>
    simp only [checkPermsForEntry, checkPerms_congr hentry.2.perms, hentry.2.keys]
    refine (Agree.lift _).bind_eq fun _ => .ite (fun _ => blind_sendErrno hlim id _) fun _ => ?_
    exact agree_kMalloc.bind_eq fun _ => .ite (fun _ => blind_sendErrno hlim id _) fun _ =>
      blind_sendReplySz hlim id _ _

theorem blind_handleRead (hlim : BelowLimit x) : Blind x.domid (handleRead x id payload) := by
  refine blind_withPath hlim fun path => Agree.get.bind fun s t hst => ?_
  refine (agree_alloc (agree_keyToEntryCheckPerm hst.root path x.domid .read)).bind
    fun e e' he => ?_
  cases he with
  | none => exact blind_sendErrno hlim id _
  | some hentry =>
    simp only [hentry.1.label hentry.2]
    exact blind_sendReplySz hlim id _ _

theorem blind_handleGetPerms (hlim : BelowLimit x) :
    Blind x.domid (handleGetPerms x id payload) := by
  refine blind_withPath hlim fun path => Agree.get.bind fun s t hst => ?_
  refine (agree_alloc (agree_keyToEntryCheckPerm hst.root path x.domid .read)).bind
    fun e e' he => ?_
  cases he with
  | none => exact blind_sendErrno hlim id _
  | some hentry =>
    simp only [hentry.1.label hentry.2]
    refine (agree_alloc (agree_self _)).bind_eq fun r => ?_
    cases r with
    | none => exact blind_sendErrno hlim id _
    | some permStr => exact blind_sendReplySz hlim id _ _

theorem blind_handleWriteAs (hlim : BelowLimit x) (type : XsdSockmsgType) :
    Blind x.domid (handleWriteAs type x id payload) := by
  unfold handleWriteAs
  refine (Agree.lift _).bind_eq fun text => .ite (fun _ => blind_sendErrno hlim id _) fun _ => ?_
  refine (agree_alloc (agree_self _)).bind_eq fun r => ?_
  cases r with
  | error e => exact blind_sendErrno hlim id _
  | ok path =>
    refine (agree_alloc (agree_self _)).bind_eq fun r => ?_
    cases r with
    | error e => exact blind_sendErrno hlim id _
    | ok data =>
      refine (agree_xssDoWriteDeadline path data x.domid [] .forever).bind_eq fun rc => ?_
      cases rc with
      | some e => exact blind_sendErrno hlim id _
      | none =>
        exact (blind_sendReplySz hlim id _ _).bind_eq fun _ =>
          (agree_notifyWatchers path).bind_eq fun _ => .pure rfl

theorem blind_handleRm (hlim : BelowLimit x) : Blind x.domid (handleRm x id payload) := by
  refine (Agree.lift _).bind_eq fun key =>
    (agree_xssDoRmDeadline key x.domid .forever).bind_eq fun rc => ?_
  cases rc with
  | some e => exact blind_sendErrno hlim id _
  | none => exact blind_sendReplySz hlim id _ _

theorem blind_findOrAddWatch (path : CString) (token : Bytes) (isRelative : Bool) :
    Blind x.domid (findOrAddWatch x path token isRelative) := by
  refine Agree.get.bind fun s t hst => ?_
  rw [hst.linked]
  refine (Agree.lift _).bind_eq fun found => ?_
  cases found with
  | some wentry => exact (agree_modify fun _ _ => rfl).bind_eq fun _ => .pure rfl
  | none =>
    refine agree_kMalloc.bind_eq fun _ => .ite (fun _ => .pure rfl) fun _ => ?_
    refine agree_kMalloc.bind_eq fun _ => .ite (fun _ => .pure rfl) fun _ => ?_
    refine agree_kMalloc.bind_eq fun _ => .ite (fun _ => .pure rfl) fun _ => ?_
    refine Agree.get.bind fun s t hst => ?_
    simp only [newWatch, hst.watches]
    refine (Agree.set ⟨hst.1, ?_⟩).bind_eq fun _ => .pure rfl
    rw [hst.2]

theorem blind_handleWatch (hlim : BelowLimit x) : Blind x.domid (handleWatch x id payload) := by
  refine .ite (fun _ => blind_sendErrno hlim id _) fun _ => blind_withPath hlim fun path => ?_
  refine (blind_findOrAddWatch path _ _).bind_eq fun found => ?_
  cases found with
  | none => exact blind_sendErrno hlim id _
  | some wentry =>
    refine (blind_sendReplySz hlim id _ _).bind_eq fun x' => Agree.get.bind fun s t hst => ?_
    refine (agree_alloc (agree_keyToEntryCheckPerm hst.root path x'.domid .read)).bind
      fun e e' he => ?_
    cases he with
    | none => exact .pure rfl
    | some _ => exact (agree_queuePendingWatchEvent _ _ _ _).bind_eq fun _ => .pure rfl

theorem blind_handleUnwatch (hlim : BelowLimit x) :
    Blind x.domid (handleUnwatch x id payload) := by
  refine blind_withPath hlim fun path => Agree.get.bind fun s t hst => ?_
  rw [hst.linked]
  refine (Agree.lift _).bind_eq fun found => ?_
  cases found with
  | some entry => exact (agree_modify fun _ _ => rfl).bind_eq fun _ => blind_sendReplySz hlim id _ _
  | none => exact blind_sendReplySz hlim id _ _

/-- The eight types of request that do not set permissions or end a service. -/
def plainTypes : List XsdSockmsgType :=
  [.read, .directory, .getPerms, .write, .mkdir, .rm, .watch, .unwatch]

structure PlainRequest (r : Request) : Prop where
  type : ∃ t ∈ plainTypes, r.type = t.code
  path : 0 ∈ r.payload
  notRoot : r.type = XsdSockmsgType.rm.code → readStr r.payload ≠ .ok [slash]
  token : r.type = XsdSockmsgType.watch.code ∨ r.type = XsdSockmsgType.unwatch.code →
    0 ∈ r.payload.drop (strnlen r.payload + 1)

theorem PlainRequest.harmless {r : Request} (h : PlainRequest r) (s : Shared) (domid : UInt32) :
    Harmless s domid r where
  node hset := by
    have hplain : ∀ t ∈ plainTypes, t.code ≠ XsdSockmsgType.setPerms.code := by decide
    obtain ⟨t, ht, htype⟩ := h.type
    exact absurd (htype.symm.trans hset) (hplain t ht)
  root hrm hkey := absurd hkey (h.notRoot hrm)
  watchToken hwatch _ := h.token (.inl hwatch)
  unwatchToken hunwatch _ _ _ _ _ _ := h.token (.inr hunwatch)

def serveRequest (x : Xenstore) (r : Request) : SrvM Xenstore :=
  match messageHandle r.type with
  | none => sendErrno x 0 .enosys
  | some h => h x r.reqId r.payload

theorem blind_serveRequest {r : Request} (hr : PlainRequest r) (hlim : BelowLimit x) :
    Blind x.domid (serveRequest x r) := by
  obtain ⟨t, ht, htype⟩ := hr.type
  have hhandle : messageHandle r.type = messageHandleList t := by rw [htype, messageHandle_code]
  unfold serveRequest
  rw [hhandle]
  simp only [plainTypes, List.mem_cons, List.not_mem_nil, or_false] at ht
  rcases ht with rfl | rfl | rfl | rfl | rfl | rfl | rfl | rfl
  · exact blind_handleRead hlim
  · exact blind_handleDirectory hlim
  · exact blind_handleGetPerms hlim
  · exact blind_handleWriteAs hlim .write
  · exact blind_handleWriteAs hlim .mkdir
  · exact blind_handleRm hlim
  · exact blind_handleWatch hlim
  · exact blind_handleUnwatch hlim

theorem answers_serveRequest {r : Request} (hr : PlainRequest r) (hlim : BelowLimit x) {slot : Nat}
    {s : Shared} (hs : ServerInv x.domid slot s)
    (hdomid : (localDomainPath x.domid).length < xenstoreMaxLocalpathLen) :
    ∃ x' s', serveRequest x r s = .ok (x', s') ∧ x'.domid = x.domid ∧
      ServerInv x.domid slot s' := by
  obtain ⟨t, ht, htype⟩ := hr.type
  have hhandle : ∃ h, messageHandle r.type = some h := by
    rw [htype, messageHandle_code]
    simp only [plainTypes, List.mem_cons, List.not_mem_nil, or_false] at ht
    rcases ht with rfl | rfl | rfl | rfl | rfl | rfl | rfl | rfl <;> exact ⟨_, rfl⟩
  have hnow : r.type ≠ XsdSockmsgType.transactionEnd.code := by
    have hplain : ∀ t ∈ plainTypes, t.code ≠ XsdSockmsgType.transactionEnd.code := by decide
    rw [htype]
    exact hplain t ht
  obtain ⟨h, hh⟩ := hhandle
  obtain ⟨_, _, hanswers⟩ := answers_messageHandle hh hlim hs hdomid hr.path
    (hr.harmless s x.domid) hnow
  obtain ⟨x', s', hrun, hx', hs'⟩ := wp_total hanswers
  refine ⟨x', s', ?_, hx'.domid, hs'⟩
  unfold serveRequest
  rw [hh]
  exact hrun

end Handlers

inductive ServiceStep where
  | request (r : Request)
  /-- The oldest buffer has gone out. -/
  | sent

def ServiceStep.run (x : Xenstore) : ServiceStep → SrvM Xenstore
  | .request r => serveRequest x r
  | .sent => pure { x with
      outList := x.outList.tail, usedOutBufs := x.usedOutBufs - min x.outList.length 1 }

def serve : List ServiceStep → Xenstore → SrvM Xenstore
  | [], x => pure x
  | step :: steps, x => do serve steps (← step.run x)

def ServiceStep.WithinLimit (x : Xenstore) : ServiceStep → Prop
  | .request _ => BelowLimit x
  | .sent => True

/-- No request comes while the replies to the client are more than its limit. -/
def WithinLimit : List ServiceStep → Xenstore → Shared → Prop
  | [], _, _ => True
  | step :: steps, x, s => step.WithinLimit x ∧
      ∀ x' s', step.run x s = .ok (x', s') → WithinLimit steps x' s'

theorem ServiceStep.blind {step : ServiceStep} {x : Xenstore} {slot : Nat} {s t : Shared}
    (hplain : ∀ r, step = .request r → PlainRequest r) (hlim : step.WithinLimit x)
    (hs : ServerInv x.domid slot s)
    (hdomid : (localDomainPath x.domid).length < xenstoreMaxLocalpathLen)
    (hst : SameStore x.domid s t) :
    ∃ x' s' t', step.run x s = .ok (x', s') ∧ step.run x t = .ok (x', t') ∧
      x'.domid = x.domid ∧ ServerInv x.domid slot s' ∧ SameStore x.domid s' t' := by
  cases step with
  | sent => exact ⟨_, s, t, rfl, rfl, rfl, hs, hst⟩
  | request r =>
    obtain ⟨x', s', hrun, hx', hs'⟩ := answers_serveRequest (hplain r rfl) hlim hs hdomid
    obtain ⟨_, t', hrun', rfl, hst'⟩ := (blind_serveRequest (hplain r rfl) hlim).ok hst hrun
    exact ⟨x', s', t', hrun, hrun', hx', hs', hst'⟩

/-- Two stores that are the same to a guest but for what it may not read: its requests get the
same replies and the same events in both, and leave stores that are the same to it. -/
theorem unreadable_values_unseen {x : Xenstore} {slot : Nat} {s t : Shared}
    {steps : List ServiceStep} (hs : ServerInv x.domid slot s)
    (hdomid : (localDomainPath x.domid).length < xenstoreMaxLocalpathLen)
    (hst : SameStore x.domid s t) (hplain : ∀ r, .request r ∈ steps → PlainRequest r)
    (hlim : WithinLimit steps x s) :
    ∃ x' s' t', serve steps x s = .ok (x', s') ∧ serve steps x t = .ok (x', t') ∧
      s'.pendingWatchEventList = t'.pendingWatchEventList ∧ SameStore x.domid s' t' := by
  induction steps generalizing x s t with
  | nil => exact ⟨x, s, t, rfl, rfl, by rw [hst.2], hst⟩
  | cons step steps ih =>
    obtain ⟨x₁, s₁, t₁, hrun, hrun', hx₁, hs₁, hst₁⟩ :=
      ServiceStep.blind (fun r hr => hplain r (hr ▸ List.mem_cons_self)) hlim.1 hs hdomid hst
    rw [← hx₁] at hs₁ hst₁ hdomid
    obtain ⟨x', s', t', hrest, hrest', hevents, hst'⟩ := ih hs₁ hdomid hst₁
      (fun r hr => hplain r (List.mem_cons_of_mem _ hr)) (hlim.2 x₁ s₁ hrun)
    rw [hx₁] at hst'
    refine ⟨x', s', t', ?_, ?_, hevents, hst'⟩
    · simp only [serve, bind, StateT.bind, Except.bind, hrun, hrest]
    · simp only [serve, bind, StateT.bind, Except.bind, hrun', hrest']

/-- A node that everyone but domain 1 may read. -/
def secretStore (value : CString) : Shared :=
  { Shared.boot 4 with
    root := ⟨⟨none, [⟨0, .none⟩]⟩,
      .cons (ascii ['s']) ⟨some value, [⟨0, .read⟩, ⟨1, .none⟩]⟩ .nil .nil⟩
    usedThreads := 1 }

def readSecret : Request :=
  ⟨XsdSockmsgType.read.code, 7, strBytes (ascii ['/', 's'])⟩

theorem secretStore_inv (value : CString) : ServerInv 1 0 (secretStore value) where
  store := by
    have hkey : ascii ['s'] ≠ [] ∧ slash ∉ ascii ['s'] := by decide
    refine ⟨⟨List.cons_ne_nil _ _, ?_, ?_⟩, rfl⟩
    · simpa [secretStore, Forest.All] using hkey
    · simp [secretStore, Forest.Distinct, Forest.keys]
  registry := ⟨rfl, by simp [secretStore, Shared.boot], by simp [secretStore, Shared.boot]⟩
  slotHeld := by
    show 0 < 4 ∧ bitSet 1 0 = true
    decide

theorem secretStore_same (value value' : CString) :
    SameStore 1 (secretStore value) (secretStore value') :=
  ⟨rfl, rfl⟩

theorem readSecret_plain : PlainRequest readSecret :=
  ⟨⟨.read, by decide, rfl⟩, by decide, by decide, by decide⟩

theorem unreadable_values_unseen_read : ∃ x' s' t',
    serve [.request readSecret] (idleClient 1) (secretStore (ascii ['a'])) = .ok (x', s') ∧
    serve [.request readSecret] (idleClient 1) (secretStore (ascii ['b'])) = .ok (x', t') ∧
    s'.pendingWatchEventList = t'.pendingWatchEventList ∧ SameStore 1 s' t' := by
  refine @unreadable_values_unseen (idleClient 1) 0 _ _ [.request readSecret]
    (secretStore_inv (ascii ['a'])) (by decide) (secretStore_same _ _) ?_
    ⟨(by decide : (idleClient 1).usedOutBufs ≤ xenstoreMaxOutBufNum), fun _ _ _ => trivial⟩
  intro r hr
  cases List.mem_singleton.mp hr
  exact readSecret_plain

/-- The reply to the request after the limit ends the service of domain 1: its entries go from
the permission lists, and it may read the node from then on. -/
theorem unreadable_values_over_limit : ¬ ∀ (x : Xenstore) (slot : Nat) (s t : Shared)
    (requests : List Request), ServerInv x.domid slot s →
    (localDomainPath x.domid).length < xenstoreMaxLocalpathLen → SameStore x.domid s t →
    (∀ r ∈ requests, PlainRequest r) →
    ∃ x' s' t', serve (requests.map .request) x s = .ok (x', s') ∧
      serve (requests.map .request) x t = .ok (x', t') ∧ SameStore x.domid s' t' := by
  intro hall
  obtain ⟨x', s', t', hrun, hrun', hst, -⟩ := hall (idleClient 1) 0 (secretStore (ascii ['a']))
    (secretStore (ascii ['b'])) (List.replicate 102 readSecret) (secretStore_inv _) (by decide)
    (secretStore_same _ _) fun r hr => (List.eq_of_mem_replicate hr) ▸ readSecret_plain
  have hends : ∀ v : Bool, ((serve ((List.replicate 102 readSecret).map .request) (idleClient 1)
      (secretStore (if v then ascii ['a'] else ascii ['b']))).toOption.map fun r =>
        r.2.root.map (veil 1)) =
      some ⟨⟨none, [⟨0, .none⟩]⟩, .cons (ascii ['s'])
        ⟨some (if v then ascii ['a'] else ascii ['b']), [⟨0, .read⟩]⟩ .nil .nil⟩ := by
    decide +kernel
  have hs := hends true
  have ht := hends false
  simp only [if_true, Bool.false_eq_true, if_false, hrun, hrun', Except.toOption, Option.map_some]
    at hs ht
  have hsame : s'.root.map (veil 1) = t'.root.map (veil 1) := hst
  rw [Option.some.inj hs, Option.some.inj ht] at hsame
  revert hsame
  decide

end Xenlib
