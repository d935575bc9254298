import Xenlib.HandlersSpec

/-!
XS_SET_PERMS. The handler is meant to let only the owner of a node change its permissions.
Its guard joins the two tests with `&&`, so a node that exists is never tested for its
owner, and a node that does not exist is tested through a NULL pointer.
-/

set_option autoImplicit false

namespace Xenlib

open Wp

def ownsNode (root : XsEntry) (path : CString) (domid : UInt32) : Bool :=
  match resolvePath path domid with
  | .ok full => (foundEntry root full).any fun e => isOwner e.entry.label domid
  | .error _ => false

def permsAt (root : XsEntry) (path : CString) (domid : UInt32) : Option (List XsPermEntry) :=
  match resolvePath path domid with
  | .ok full => (foundEntry root full).map fun e => e.entry.label.perms
  | .error _ => none

/-- One error message for request `id` was queued, and nothing else. -/
def ErrorQueued (id : UInt32) (x x' : Xenstore) : Prop :=
  ∃ m, m.type = .error ∧ m.reqId = id ∧ x' = x.push m

/-- Only the owner changes the permissions; any other request leaves the store as it is and
is answered with an error. -/
def OwnerOnly (s : Shared) (x : Xenstore) (id : UInt32) (path : CString) (permStr : Bytes) : Prop :=
  (∀ x' s', handleSetPerms x id (strBytes path ++ permStr) s = .ok (x', s') →
    permsAt s'.root path x.domid ≠ permsAt s.root path x.domid →
      ownsNode s.root path x.domid = true) ∧
  (ownsNode s.root path x.domid = false →
    ∃ x' s', handleSetPerms x id (strBytes path ++ permStr) s = .ok (x', s') ∧
      s'.root = s.root ∧ ErrorQueued id x x')

def NoErrorQueued (x x' : Xenstore) : Prop :=
  ∀ m : Message, m.type = .error → x'.queued ≠ x.queued ++ [m]

theorem NoErrorQueued.not_errorQueued {id : UInt32} {x x' : Xenstore} (h : NoErrorQueued x x') :
    ¬ ErrorQueued id x x' := by
  rintro ⟨m, ht, _, rfl⟩
  exact h m ht rfl

theorem noErrorQueued_of_queued {x x' : Xenstore} (h : x'.queued = x.queued) :
    NoErrorQueued x x' := by
  intro m _ hm
  rw [h] at hm
  simp at hm

theorem noErrorQueued_push {x : Xenstore} {m : Message} (h : m.type ≠ .error) :
    NoErrorQueued x (x.push m) := by
  intro m' ht hq
  have hq' : x.queued ++ [m] = x.queued ++ [m'] := hq
  rw [List.append_cancel_left_eq, List.cons.injEq] at hq'
  exact h (hq'.1 ▸ ht)

theorem wp_sendReply_no_error {x : Xenstore} {id : UInt32} {type : XsdSockmsgType}
    {payload : CString} {s : Shared} (ht : type ≠ .error)
    (hlen : (strBytes payload).length ≤ xenstorePayloadMax) :
    wp (sendReply x id type payload) (fun x' _ => NoErrorQueued x x') (fun _ => True) s := by
  by_cases hlim : x.usedOutBufs ≤ xenstoreMaxOutBufNum
  · refine wp_sendReplySz hlim (fun m rest _ hm => ?_) (fun rest _ _ => ?_)
    · exact noErrorQueued_push (by rw [(hm.fits hlen).1]; exact ht)
    · exact noErrorQueued_of_queued rfl
  · exact wp_conseq (wp_sendReplyOr_over hlim) fun x' _ h => noErrorQueued_of_queued h

section Handler
variable {s : Shared} {x : Xenstore} {id : UInt32} {path : CString} {permStr : Bytes}

theorem handleSetPerms_eq (hperms : permStr ≠ []) :
    handleSetPerms x id (strBytes path ++ permStr) =
      withPath x id (strBytes path ++ permStr) (setPermsOf x id permStr) := by
  have hlen : ¬ (strBytes path ++ permStr).length ≤ path.length + 1 := by
    have := List.length_pos_iff.mpr hperms
    simp only [List.length_append, strBytes_length]
    omega
  have hdrop : (strBytes path ++ permStr).drop (path.length + 1) = permStr := by
    rw [← strBytes_length, List.drop_left]
  unfold handleSetPerms
  simp only [strnlen_strBytes]
  rw [if_neg hlen, hdrop]

/-- A request of a domain that does not own the node is never answered with an error once its
path was accepted: it is carried out, or the server stops. -/
theorem handleSetPerms_stranger {ps : List XsPermEntry} (hs : s.allocs = [])
    (hps : xenstorePermParseWire permStr none = .ok ps) (hne : ps ≠ [])
    (hrefused : ∀ e, resolvePath path x.domid = .error e → xenstoreMaxOutBufNum < x.usedOutBufs) :
    wp (handleSetPerms x id (strBytes path ++ permStr)) (fun x' _ => ¬ ErrorQueued id x x')
      (fun _ => True) s := by
  have hperms : permStr ≠ [] := by
    rintro rfl
    cases hps
    exact hne rfl
  rw [handleSetPerms_eq hperms]
  refine wp_withPath_nil hs (readStr_strBytes path permStr) (fun e he => ?_) (fun full _ => ?_)
  · have hlim := hrefused e he
    exact wp_conseq (wp_sendReplyOr_over (by omega))
      fun x' _ h => (noErrorQueued_of_queued h).not_errorQueued
  · unfold setPermsOf
    simp only [wp_bind, wp_get, wp_alloc]
    refine wp_keyToEntryCheckPerm (fun e rest hrest _ _ => ?_) (fun _ _ _ => trivial)
      (fun _ => trivial)
    simp only [wp_bind, wp_alloc]
    refine wp_setPermsByStrings (fun ps rest' _ _ _ => ?_) (fun e rest' _ hkeep => ?_)
    · rw [wp_modify]
      exact wp_conseq (wp_sendReply_no_error (by decide) (by decide))
        fun _ _ h => h.not_errorQueued
    · rcases hkeep with hmem | hkeep
      · rw [hs] at hrest
        rw [List.suffix_nil.mp hrest] at hmem
        cases hmem
      · exact absurd (hkeep ps hps) hne

theorem handleSetPerms_refused {e : Errno} (hs : s.allocs = []) (hperms : permStr ≠ [])
    (he : resolvePath path x.domid = .error e) (hlim : x.usedOutBufs ≤ xenstoreMaxOutBufNum) :
    ∃ x' s', handleSetPerms x id (strBytes path ++ permStr) s = .ok (x', s') ∧
      s'.root = s.root ∧ ErrorQueued id x x' := by
  rw [handleSetPerms_eq hperms]
  refine wp_total (wp_withPath_nil hs (readStr_strBytes path permStr) (fun e' _ => ?_)
    (fun full hfull => ?_))
  · refine wp_sendErrno hlim (fun txId rest _ => ⟨rfl, _, rfl, rfl, rfl⟩)
      (fun rest _ hmem => ?_)
    rw [hs] at hmem
    cases hmem
  · rw [he] at hfull
    cases hfull

end Handler

/-- When only the owner changes permissions: the requester owns the node, or the path is one
that `construct_path` rejects and the error can be queued. -/
theorem handleSetPerms_ownerOnly_iff (s : Shared) (x : Xenstore) (id : UInt32) (path : CString)
    (permStr : Bytes) (ps : List XsPermEntry) (hs : s.allocs = [])
    (hps : xenstorePermParseWire permStr none = .ok ps) (hne : ps ≠ []) :
    OwnerOnly s x id path permStr ↔
      ownsNode s.root path x.domid = true ∨
        ((∃ e, resolvePath path x.domid = .error e) ∧ x.usedOutBufs ≤ xenstoreMaxOutBufNum) := by
  have hperms : permStr ≠ [] := by
    rintro rfl
    cases hps
    exact hne rfl
  constructor
  · intro h
    by_contra hcond
    rw [not_or] at hcond
    obtain ⟨hown, hrefused⟩ := hcond
    obtain ⟨x', s', hrun, _, herr⟩ := h.2 (by simpa using hown)
    refine wp_ok (handleSetPerms_stranger hs hps hne fun e he => ?_) hrun herr
    by_contra hlim
    exact hrefused ⟨⟨e, he⟩, by omega⟩
  · rintro (hown | ⟨⟨e, he⟩, hlim⟩)
    · exact ⟨fun _ _ _ _ => hown, fun h => by rw [hown] at h; cases h⟩
    · have hrun := @handleSetPerms_refused s x id path permStr e hs hperms he hlim
      refine ⟨fun x' s' hx hchange => ?_, fun _ => hrun⟩
      obtain ⟨x'', s'', hx', hroot, _⟩ := hrun
      rw [hx] at hx'
      cases hx'
      exact absurd (by rw [hroot]) hchange

/-- Domain 2 takes the node of domain 1. -/
theorem handleSetPerms_not_ownerOnly :
    ¬ OwnerOnly ownedByOne (idleClient 2) 7 (ascii ['/', 'a']) (strBytes (ascii ['b', '2'])) := by
  intro h
  have hown : ownsNode ownedByOne.root (ascii ['/', 'a']) 2 = false := by decide
  have hchange := h.1 _ _ rfl (by decide)
  exact absurd hchange (by rw [show (idleClient 2).domid = 2 from rfl, hown]; decide)

theorem handleSetPerms_ownerOnly_owner :
    xenstorePermParseWire (strBytes (ascii ['b', '2'])) none = .ok [⟨2, .both⟩] ∧
      OwnerOnly ownedByOne (idleClient 1) 7 (ascii ['/', 'a']) (strBytes (ascii ['b', '2'])) :=
  ⟨by decide, (handleSetPerms_ownerOnly_iff ownedByOne (idleClient 1) 7 (ascii ['/', 'a'])
    (strBytes (ascii ['b', '2'])) [⟨2, .both⟩] rfl (by decide) (by decide)).mpr
      (Or.inl (by decide))⟩

end Xenlib
