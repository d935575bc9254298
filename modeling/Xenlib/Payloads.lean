import Xenlib.Answers
import Xenlib.Requests
import Xenlib.SetPerms

/-!
What the handlers read of a payload. It comes from the guest as it is, and nothing says where
its NULs are: a path without one is read past the end of the buffer, and XS_WATCH and
XS_UNWATCH go on when the token is missing.
-/

set_option autoImplicit false

namespace Xenlib

open Wp

/-- What follows the path of an XS_WATCH or XS_UNWATCH. -/
def tokenOf (payload : Bytes) : Bytes := payload.drop (strnlen payload + 1)

/-- The payload lacks the NUL of its path, of its token or of its last permission, or there is
no permission at all. -/
def Malformed : XsdSockmsgType → Bytes → Prop
  | .directory, payload | .read, payload | .getPerms, payload | .write, payload
  | .mkdir, payload | .rm, payload => 0 ∉ payload
  | .setPerms, payload => payload.length ≤ strnlen payload + 1 ∨ payload.getLast? ≠ some 0
  | .watch, payload | .unwatch, payload => 0 ∉ tokenOf payload
  | _, _ => False

def WatchTooLong (payload : Bytes) : Prop :=
  (if payload.head? ≠ some slash.val then xenstoreRelPathMax else xenstoreAbsPathMax) <
    strnlen payload + 1

instance (payload : Bytes) : Decidable (WatchTooLong payload) :=
  inferInstanceAs (Decidable (_ < _))

/-- `construct_path` refuses the path. -/
def PathRejected (domid : UInt32) (payload : Bytes) : Prop :=
  ∃ text e, readStr payload = .ok text ∧ resolvePath text domid = .error e

/-- The offset a handler subtracts from the length of the payload. -/
def payloadOffset : XsdSockmsgType → Bytes → Option Nat
  | .write, payload | .mkdir, payload =>
    (readStr payload).toOption.map fun text => xenstoreStrByteSize (some text)
  | .setPerms, payload =>
    if payload.length ≤ strnlen payload + 1 then none else some (strnlen payload + 1)
  | .watch, payload => if WatchTooLong payload then none else some (strnlen payload + 1)
  | _, _ => none

def WireMessage.received (m : WireMessage) : BufferedData :=
  ⟨m.bytes.length, m.bytes.length, m.bytes⟩

def Xenstore.holding (x : Xenstore) (m : WireMessage) : Xenstore :=
  { x with input := some m.received }

/-- One error was queued for the request, or there was no memory for it; the store, the watches
and the events are as they were. -/
def Refused (x : Xenstore) (id : UInt32) (s : Shared) (x' : Xenstore) (s' : Shared) : Prop :=
  (∃ rest, s' = { s with allocs := rest }) ∧
    ((∃ m, x'.queued = x.queued ++ [m] ∧ m.type = .error ∧ m.reqId = id) ∨
      (false ∈ s.allocs ∧ x'.queued = x.queued))

/-- The server stays inside the payload of the message and refuses what lacks a terminator or a
token, whatever the outcomes of its allocations. -/
structure Contained (x : Xenstore) (m : WireMessage) (t : XsdSockmsgType) (s : Shared) : Prop where
  inside : ∀ allocs, processMessage (x.holding m) { s with allocs := allocs } ≠
    .error .outOfBounds
  lengths : ∀ off ∈ payloadOffset t m.payload, off ≤ m.payload.length
  refused : Malformed t m.payload → ∀ allocs, ∃ x' s',
    processMessage (x.holding m) { s with allocs := allocs } = .ok (x', s') ∧
      Refused x m.reqId { s with allocs := allocs } x' s'

/-- The condition on the payload, and for a malformed one on the output limit of the client. -/
def Tolerated (x : Xenstore) (t : XsdSockmsgType) (payload : Bytes) : Prop :=
  match t with
  | .directory | .read | .getPerms | .write | .mkdir | .rm => 0 ∈ payload
  | .setPerms => Malformed .setPerms payload → BelowLimit x ∧
      (payload.length ≤ strnlen payload + 1 ∨ PathRejected x.domid payload ∨
        readStr payload = .ok [slash])
  | .watch => Malformed .watch payload → BelowLimit x ∧
      (WatchTooLong payload ∨ PathRejected x.domid payload)
  | .unwatch => Malformed .unwatch payload → BelowLimit x ∧ PathRejected x.domid payload
  | _ => True

theorem strnlen_le (payload : Bytes) : strnlen payload ≤ payload.length :=
  (List.takeWhile_prefix _).length_le

theorem mem_zero_of_strnlen {payload : Bytes} (h : strnlen payload < payload.length) :
    (0 : UInt8) ∈ payload := by
  induction payload with
  | nil => cases h
  | cons b bs ih =>
    by_cases hb : b = 0
    · simp [hb]
    · refine List.mem_cons_of_mem _ (ih ?_)
      simpa [strnlen, hb] using h

theorem strnlen_lt {payload : Bytes} (h : (0 : UInt8) ∈ payload) :
    strnlen payload < payload.length := by
  obtain ⟨text, htext⟩ := readStr_of_mem h
  obtain ⟨tail, rfl⟩ := readStr_ok htext
  rw [strnlen_strBytes, List.length_append, strBytes_length]
  omega

theorem readStr_unterminated {payload : Bytes} (h : (0 : UInt8) ∉ payload) :
    readStr payload = .error .outOfBounds := by
  cases hr : readStr payload with
  | error e => rw [readStr_fault hr]
  | ok text =>
    obtain ⟨tail, rfl⟩ := readStr_ok hr
    exact absurd (by simp [strBytes]) h

theorem mem_payload_of_tokenOf {payload : Bytes} (h : (0 : UInt8) ∈ tokenOf payload) :
    (0 : UInt8) ∈ payload :=
  List.mem_of_mem_drop h

/-- What the registry owes the readers: the tokens of `domid` are terminated, and a relative
local watch has a key under the directory of the control domain. -/
structure WatchSafe (domid : UInt32) (w : WatchEntry) : Prop where
  token : w.domain = some domid → ∃ t, readStr w.token = .ok t
  relative : w.domain = none → w.isRelative = true → (localDomainPath 0).length ≤ w.key.length

def RegistrySafe (domid : UInt32) (watches : List WatchEntry) : Prop :=
  ∀ w ∈ watches, WatchSafe domid w

theorem RegistrySafe.settled {domid : UInt32} {ws ws' : List WatchEntry} (h : RegistrySafe domid ws)
    (hw : ws'.map WatchEntry.settled = ws.map WatchEntry.settled) : RegistrySafe domid ws' := by
  intro w hmem
  have hmem' : w.settled ∈ ws.map WatchEntry.settled := hw ▸ List.mem_map_of_mem hmem
  obtain ⟨v, hv, hvw⟩ := List.mem_map.mp hmem'
  obtain ⟨htoken, hrel⟩ := h v hv
  have hd : w.domain = v.domain := (congrArg WatchEntry.domain hvw).symm
  have ht : w.token = v.token := (congrArg WatchEntry.token hvw).symm
  have hr : w.isRelative = v.isRelative := (congrArg WatchEntry.isRelative hvw).symm
  have hk : w.key = v.key := (congrArg WatchEntry.key hvw).symm
  rw [← hd, ← ht] at htoken
  rw [← hd, ← hr, ← hk] at hrel
  exact ⟨htoken, hrel⟩

section Inside
variable {P : List WatchEntry → Prop} {d : UInt32}

/-- The program reads nothing past its end and keeps `P` of the registry. -/
abbrev Inside {α : Type} (P : List WatchEntry → Prop) (x : SrvM α) : Prop :=
  Holds (fun s : Shared => P s.watches) (fun e => e ≠ .outOfBounds) x (fun _ => True)

theorem inside_of_wp {α : Type} {x : SrvM α}
    (h : ∀ s, P s.watches →
      wp x (fun _ s' => P s'.watches) (fun e => e ≠ .outOfBounds) s) : Inside P x :=
  fun s hs => wp_conseq (h s hs) fun _ _ h => ⟨trivial, h⟩

theorem Inside.alloc {α : Type} {x : AllocM α}
    (h : ∀ allocs, wp x (fun _ _ => True) (fun e => e ≠ .outOfBounds) allocs) :
    Inside P (Xenlib.alloc x) := by
  refine inside_of_wp fun s hs => ?_
  rw [wp_alloc]
  exact wp_conseq (h s.allocs) fun _ _ _ => hs

theorem Inside.keyToEntryCheckPerm (root : XsEntry) (key : CString) (domid : UInt32)
    (perms : XsPerm) : Inside P (Xenlib.alloc (keyToEntryCheckPerm root key domid perms)) :=
  Inside.alloc fun _ => wp_keyToEntryCheckPerm (fun _ _ _ _ _ => trivial) (fun _ _ _ => trivial)
    (fun _ => by decide)

theorem Inside.kMalloc : Inside P (Xenlib.alloc kMalloc) :=
  Inside.alloc fun _ => wp_kMalloc_drawn fun _ _ _ => trivial

theorem inside_invalidateClient (x : Xenstore) : Inside P (invalidateClient x) :=
  inside_of_wp fun _ hs => wp_releaseDomainStored (fun _ _ _ => hs) (fun _ => by decide)
    (fun _ => by decide)

theorem inside_queueReply (x : Xenstore) (id : UInt32) (type : XsdSockmsgType) (data : Bytes) :
    Inside P (queueReply x id type data) :=
  inside_of_wp fun _ hs => wp_queueReply (fun _ _ _ => hs) (fun _ _ _ => hs)

theorem inside_sendErrno (x : Xenstore) (id : UInt32) (e : Errno) : Inside P (sendErrno x id e) :=
  Holds.ite (fun _ => inside_invalidateClient x)
    fun _ => Holds.ite (fun _ => Holds.pure trivial) fun _ => inside_queueReply x id .error _

theorem inside_sendReplySz (x : Xenstore) (id : UInt32) (type : XsdSockmsgType) (data : Bytes) :
    Inside P (sendReplySz x id type data) :=
  Holds.ite (fun _ => inside_invalidateClient x)
    fun _ => Holds.ite (fun _ => inside_sendErrno x id .e2big)
      fun _ => inside_queueReply x id type data

theorem notifyFault_inside {path : CString} {recursiveRemove : Bool} {s : Shared} {e : Fault}
    (hs : RegistrySafe d s.watches) (h : NotifyFault path recursiveRemove (linkedWatches s) s e) :
    e ≠ .outOfBounds := by
  rintro rfl
  obtain ⟨w, hw, hd, hrel, eventPath, hpath, hshort⟩ := h
  have hkey := (hs w (List.mem_of_mem_filter hw)).relative hd hrel
  have hle := watchEventPath_length hpath
  omega

theorem inside_notifyWatchers (path : CString) : Inside (RegistrySafe d) (notifyWatchers path) := by
  refine inside_of_wp fun s hs => wp_notifyWatchers (fun s₁ s' evs hn _ hw _ => ?_)
    (fun _ he => notifyFault_inside hs he)
  refine hs.settled ?_
  rw [hw, settled_clearPending, hn.watches, settled_markPending]

theorem inside_xssDoWriteDeadline (path : CString) (data : Option CString) (domid : UInt32)
    (perms : List XsPermEntry) (deadline : Deadline) :
    Inside P (xssDoWriteDeadline path data domid perms deadline) :=
  inside_of_wp fun _ hs => wp_xssDoWriteDeadline (fun _ _ _ _ _ _ => hs) (fun _ => by decide)

theorem inside_xssDoRmDeadline (key : CString) (callerId : UInt32) (deadline : Deadline) :
    Inside (RegistrySafe d) (xssDoRmDeadline key callerId deadline) := by
  refine inside_of_wp fun s hs => ?_
  unfold xssDoRmDeadline
  simp only [wp_bind, wp_pure]
  refine wp_mono (wp_xssDoRmLocked s) (fun r s₁ ⟨evs, hr, hrm⟩ => ?_) (fun e he => ?_)
  · obtain ⟨rc, localEvents⟩ := r
    have hw : s₁.watches = markPending evs s.watches := by
      cases hrm with
      | refused e hn => exact hn.watches
      | freed s₂ entry hn _ _ hfree =>
        have hkeep : s₁.watches = s₂.watches := by
          rw [(freeEntry_ok hfree).2]
        rw [hkeep, hn.watches]
    refine wp_dispatchLocalWatchEventsLocked _ s₁ fun s' _ hclear _ => hs.settled ?_
    rw [hclear, settled_clearPending, hw, settled_markPending]
  · rcases he with ⟨rfl, -⟩ | he | ⟨rfl, -⟩
    · decide
    · exact notifyFault_inside hs he
    · decide

theorem inside_queuePendingWatchEvent (w : WatchEntry) (domid : UInt32) (path : CString)
    (deadline : Deadline) : Inside P (queuePendingWatchEvent w domid path deadline) := by
  refine inside_of_wp fun s hs => wp_queuePendingWatchEvent fun rc s' _ _ hw _ => ?_
  rw [hw]
  exact hs

theorem inside_withPath {x : Xenstore} {id : UInt32} {payload : Bytes}
    {body : CString → SrvM Xenstore} (hz : 0 ∈ payload)
    (hbody : ∀ text path, readStr payload = .ok text → resolvePath text x.domid = .ok path →
      Inside P (body path)) : Inside P (withPath x id payload body) := by
  obtain ⟨text, htext⟩ := readStr_of_mem hz
  intro s hs
  refine wp_withPath htext (fun e rest _ _ => inside_sendErrno x id e _ hs) fun path rest _ hp => ?_
  exact hbody text path htext hp _ hs

theorem inside_handleDirectory {x : Xenstore} {id : UInt32} {payload : Bytes} (hz : 0 ∈ payload) :
    Inside P (handleDirectory x id payload) := by
  refine inside_withPath hz fun _ path _ _ => Holds.get.bind fun s _ => ?_
  refine (Inside.alloc fun _ => wp_keyToEntry (fun _ _ => trivial) (fun _ _ _ => trivial)).bind
    fun r _ => ?_
  cases r with
  | none => exact inside_sendErrno x id _
  | some entry =>
    refine (Holds.lift (fun _ _ => trivial) fun e he => ?_).bind fun b _ => ?_
    · rw [checkPermsForEntry_fault he]
      decide
    · refine Holds.ite (fun _ => inside_sendErrno x id _) fun _ => ?_
      refine Inside.kMalloc.bind fun b _ => ?_
      exact Holds.ite (fun _ => inside_sendErrno x id _) fun _ => inside_sendReplySz x id _ _

theorem inside_handleRead {x : Xenstore} {id : UInt32} {payload : Bytes} (hz : 0 ∈ payload) :
    Inside P (handleRead x id payload) := by
  refine inside_withPath hz fun _ path _ _ => Holds.get.bind fun s _ => ?_
  refine (Inside.keyToEntryCheckPerm _ _ _ _).bind fun r _ => ?_
  cases r with
  | none => exact inside_sendErrno x id _
  | some entry => exact inside_sendReplySz x id _ _

theorem inside_handleGetPerms {x : Xenstore} {id : UInt32} {payload : Bytes} (hz : 0 ∈ payload) :
    Inside P (handleGetPerms x id payload) := by
  refine inside_withPath hz fun _ path _ _ => Holds.get.bind fun s _ => ?_
  refine (Inside.keyToEntryCheckPerm _ _ _ _).bind fun r _ => ?_
  cases r with
  | none => exact inside_sendErrno x id _
  | some entry =>
    have hser : Inside P (Xenlib.alloc (serializePerms entry.entry.label)) := by
      refine Inside.alloc fun allocs => ?_
      unfold serializePerms
      rw [wp_bind]
      refine wp_kMalloc_drawn fun b _ _ => ?_
      cases b <;> trivial
    refine hser.bind fun r _ => ?_
    cases r with
    | none => exact inside_sendErrno x id _
    | some permStr => exact inside_sendReplySz x id _ _

theorem inside_handleWriteAs {type : XsdSockmsgType} {x : Xenstore} {id : UInt32} {payload : Bytes}
    (hz : 0 ∈ payload) : Inside (RegistrySafe d) (handleWriteAs type x id payload) := by
  obtain ⟨text, htext⟩ := readStr_of_mem hz
  unfold handleWriteAs
  rw [htext]
  refine (Holds.lift (fun _ _ => trivial) nofun).bind fun text _ => ?_
  refine Holds.ite (fun _ => inside_sendErrno x id _) fun _ => ?_
  refine (Inside.alloc fun _ => wp_constructPath (fun _ _ => trivial) (fun _ _ _ => trivial)).bind
    fun r _ => ?_
  cases r with
  | error e => exact inside_sendErrno x id e
  | ok path =>
    refine (Inside.alloc fun _ => wp_constructData (fun _ _ _ => trivial)
      (fun _ _ _ => trivial)).bind fun r _ => ?_
    cases r with
    | error e => exact inside_sendErrno x id e
    | ok data =>
      refine (inside_xssDoWriteDeadline _ _ _ _ _).bind fun rc _ => ?_
      cases rc with
      | some e => exact inside_sendErrno x id e
      | none =>
        refine (inside_sendReplySz x id _ _).bind fun x' _ => ?_
        exact (inside_notifyWatchers path).bind fun _ _ => Holds.pure trivial

theorem inside_handleRm {x : Xenstore} {id : UInt32} {payload : Bytes} (hz : 0 ∈ payload) :
    Inside (RegistrySafe d) (handleRm x id payload) := by
  obtain ⟨text, htext⟩ := readStr_of_mem hz
  unfold handleRm
  rw [htext]
  refine (Holds.lift (fun _ _ => trivial) nofun).bind fun key _ => ?_
  refine (inside_xssDoRmDeadline _ _ _).bind fun rc _ => ?_
  cases rc with
  | some e => exact inside_sendErrno x id e
  | none => exact inside_sendReplySz x id _ _

theorem inside_handleSetPerms {x : Xenstore} {id : UInt32} {payload : Bytes} :
    Inside P (handleSetPerms x id payload) := by
  refine Holds.ite (fun _ => inside_sendErrno x id _) fun hlong => ?_
  have hz : (0 : UInt8) ∈ payload := mem_zero_of_strnlen (by omega)
  refine inside_withPath hz fun _ path _ _ => Holds.get.bind fun s _ => ?_
  refine (Inside.keyToEntryCheckPerm _ _ _ _).bind fun r _ => ?_
  cases r with
  | none => exact Holds.throw (by decide)
  | some entry =>
    refine (Inside.alloc fun _ => wp_setPermsByStrings (fun _ _ _ _ _ => trivial)
      (fun _ _ _ _ => trivial)).bind fun r _ => ?_
    obtain ⟨rc, node⟩ := r
    refine Holds.bind (Holds.modify fun _ hs => hs) fun _ _ => ?_
    cases rc with
    | some e => exact inside_sendErrno x id e
    | none => exact inside_sendReplySz x id _ _

theorem wp_findOrAddWatch_inside {x : Xenstore} {path : CString} {token : Bytes} {isRelative : Bool}
    {s : Shared} (htoken : ∃ t, readStr token = .ok t) (hs : RegistrySafe x.domid s.watches) :
    wp (findOrAddWatch x path token isRelative) (fun _ _ => True)
      (fun e => e ≠ .outOfBounds) s := by
  obtain ⟨r, hr, -⟩ := @keyToWatcher_own path token x.domid (linkedWatches s)
    (fun _ _ _ _ => htoken) fun w hw => (hs w (List.mem_of_mem_filter hw)).token
  unfold findOrAddWatch
  simp only [wp_bind, wp_get, hr, wp_lift_ok]
  cases r with
  | some wentry => trivial
  | none =>
    simp only [wp_bind, wp_alloc]
    refine wp_kMalloc_drawn fun b rest _ => ?_
    refine wp_ite (fun _ => trivial) (fun _ => ?_)
    simp only [wp_bind, wp_alloc]
    refine wp_kMalloc_drawn fun b rest _ => ?_
    refine wp_ite (fun _ => trivial) (fun _ => ?_)
    simp only [wp_bind, wp_alloc]
    refine wp_kMalloc_drawn fun b rest _ => ?_
    exact wp_ite (fun _ => trivial) (fun _ => trivial)

theorem token_of_unrejected {domid : UInt32} {payload : Bytes}
    (h : PathRejected domid payload ∨ 0 ∈ tokenOf payload) :
    ∃ text, readStr payload = .ok text ∧ ∀ path, resolvePath text domid = .ok path →
      ∃ t, readStr (tokenOf payload) = .ok t := by
  rcases h with ⟨text, e, htext, herr⟩ | h
  · refine ⟨text, htext, fun path hp => ?_⟩
    rw [hp] at herr
    cases herr
  · obtain ⟨text, htext⟩ := readStr_of_mem (mem_payload_of_tokenOf h)
    exact ⟨text, htext, fun _ _ => readStr_of_mem h⟩

theorem wp_sendErrno_inside (x : Xenstore) (id : UInt32) (e : Errno) (s : Shared) :
    wp (sendErrno x id e) (fun _ _ => True) (fun e => e ≠ .outOfBounds) s :=
  wp_conseq (@inside_sendErrno (fun _ => True) x id e s trivial) fun _ _ _ => trivial

theorem watchTooLong_iff {payload : Bytes} :
    (if (decide (payload.head? ≠ some slash.val)) = true then xenstoreRelPathMax
      else xenstoreAbsPathMax) < strnlen payload + 1 ↔ WatchTooLong payload := by
  simp [WatchTooLong]

theorem inside_ownEvent (x : Xenstore) (id : UInt32) (path : CString) (wentry : WatchEntry) :
    Inside P (do
      let xenstore ← sendReply x id .watch okText
      let s ← get
      match ← alloc (keyToEntryCheckPerm s.root path xenstore.domid .read) with
      | none => pure xenstore
      | some _ =>
        let _ ← queuePendingWatchEvent wentry xenstore.domid path .forever
        pure xenstore) := by
  refine Holds.bind (@inside_sendReplySz P x id .watch _) fun x' _ => Holds.get.bind fun s _ => ?_
  refine (Inside.keyToEntryCheckPerm _ _ _ _).bind fun r _ => ?_
  cases r with
  | none => exact Holds.pure trivial
  | some e => exact (inside_queuePendingWatchEvent _ _ _ _).bind fun _ _ => Holds.pure trivial

theorem wp_handleWatch_inside {x : Xenstore} {id : UInt32} {payload : Bytes} {s : Shared}
    (hs : RegistrySafe x.domid s.watches)
    (h : WatchTooLong payload ∨ PathRejected x.domid payload ∨ 0 ∈ tokenOf payload) :
    wp (handleWatch x id payload) (fun _ _ => True) (fun e => e ≠ .outOfBounds) s := by
  refine wp_ite (fun _ => wp_sendErrno_inside x id _ s) (fun hfit => ?_)
  have h' := h.resolve_left fun hlong => hfit (watchTooLong_iff.mpr hlong)
  obtain ⟨text, htext, htoken⟩ := token_of_unrejected h'
  refine wp_withPath htext (fun e rest _ _ => wp_sendErrno_inside x id e _) fun path rest _ hp => ?_
  rw [wp_bind]
  refine wp_conseq (wp_findOrAddWatch_inside (htoken path hp) hs) fun r s₁ _ => ?_
  cases r with
  | none => exact wp_sendErrno_inside x id _ _
  | some wentry =>
    exact wp_conseq (@inside_ownEvent (fun _ => True) x id path wentry s₁ trivial)
      fun _ _ _ => trivial

theorem wp_handleUnwatch_inside {x : Xenstore} {id : UInt32} {payload : Bytes} {s : Shared}
    (hs : RegistrySafe x.domid s.watches)
    (h : PathRejected x.domid payload ∨ 0 ∈ tokenOf payload) :
    wp (handleUnwatch x id payload) (fun _ _ => True) (fun e => e ≠ .outOfBounds) s := by
  have hreply : ∀ s', wp (sendReply x id .unwatch []) (fun _ _ => True)
      (fun e => e ≠ .outOfBounds) s' := fun s' =>
    wp_conseq (@inside_sendReplySz (fun _ => True) x id .unwatch _ s' trivial) fun _ _ _ => trivial
  obtain ⟨text, htext, htoken⟩ := token_of_unrejected h
  refine wp_withPath htext (fun e rest _ _ => wp_sendErrno_inside x id e _) fun path rest _ hp => ?_
  obtain ⟨r, hr, -⟩ := @keyToWatcher_own path (tokenOf payload) x.domid (linkedWatches s)
    (fun _ _ _ _ => htoken path hp) fun w hw => (hs w (List.mem_of_mem_filter hw)).token
  have hr' : keyToWatcher path (payload.drop (strnlen payload + 1)) (some x.domid)
      (linkedWatches { s with allocs := rest }) = .ok r := hr
  simp only [wp_bind, wp_get, hr', wp_lift_ok]
  cases r with
  | some entry => exact hreply _
  | none => exact hreply _

end Inside

section Refused
variable {x : Xenstore} {id : UInt32} {payload : Bytes} {s : Shared}

/-- The outcome of a handler that refuses the request: the input is kept for `process_message`. -/
def RefusedBy (x : Xenstore) (id : UInt32) (s : Shared) (x' : Xenstore) (s' : Shared) : Prop :=
  Refused x id s x' s' ∧ x'.input = x.input

theorem wp_sendErrno_refused (hlim : BelowLimit x) {rest : List Bool} (hrest : rest <:+ s.allocs)
    (e : Errno) :
    wp (sendErrno x id e) (RefusedBy x id s) (fun _ => False) { s with allocs := rest } := by
  refine wp_sendErrno hlim (fun txId rest' _ => ?_) (fun rest' _ hmem => ?_)
  · exact ⟨⟨⟨rest', rfl⟩, Or.inl ⟨_, rfl, rfl, rfl⟩⟩, rfl⟩
  · exact ⟨⟨⟨rest', rfl⟩, Or.inr ⟨hrest.subset hmem, rfl⟩⟩, rfl⟩

theorem wp_withPath_refused {body : CString → SrvM Xenstore} (hlim : BelowLimit x)
    (h : PathRejected x.domid payload) :
    wp (withPath x id payload body) (RefusedBy x id s) (fun _ => False) s := by
  obtain ⟨text, e, htext, herr⟩ := h
  refine wp_withPath htext (fun e' rest hrest _ => wp_sendErrno_refused hlim hrest e')
    (fun path rest _ hp => ?_)
  rw [hp] at herr
  cases herr

theorem getLast_drop {raw : Bytes} {n : Nat} (h : n < raw.length) :
    (raw.drop n).getLast? = raw.getLast? := by
  rw [List.getLast?_drop, if_neg (by omega)]

/-- A list of permissions whose last entry has no NUL is not accepted. -/
theorem permParseLoop_unterminated {permsNum : Option Nat} {fuel copied : Nat} {raw : Bytes}
    {ps : List XsPermEntry} (hlen : raw.length ≤ fuel) (hne : raw ≠ [])
    (hlast : raw.getLast? ≠ some 0) : permParseLoop permsNum fuel copied raw ≠ .ok ps := by
  induction fuel generalizing copied raw ps with
  | zero => exact absurd (List.length_eq_zero_iff.mp (by omega)) hne
  | succ fuel ih =>
    unfold permParseLoop
    rw [if_neg hne]
    split
    · intro h
      cases h
    rename_i hshort
    have hlt : strnlen raw < raw.length := by
      have hle := strnlen_le raw
      simp only [Bool.or_eq_true, decide_eq_true_eq, not_or] at hshort
      omega
    split
    · intro h
      cases h
    split
    · intro h
      cases h
    · have hmore : strnlen raw + 1 < raw.length := by
        by_contra hend
        obtain ⟨text, htext⟩ := readStr_of_mem (mem_zero_of_strnlen hlt)
        obtain ⟨tail, rfl⟩ := readStr_ok htext
        rw [strnlen_strBytes, List.length_append, strBytes_length] at hend
        obtain rfl : tail = [] := List.length_eq_zero_iff.mp (by omega)
        exact hlast (by simp [strBytes])
      have hrest := @ih (copied + 1) (raw.drop (strnlen raw + 1))
      cases hr : permParseLoop permsNum fuel (copied + 1) (raw.drop (strnlen raw + 1)) with
      | error e =>
        intro h
        cases h
      | ok ps' =>
        refine absurd hr (hrest ?_ ?_ ?_)
        · rw [List.length_drop]
          omega
        · exact List.ne_nil_of_length_pos (by rw [List.length_drop]; omega)
        · rwa [getLast_drop hmore]

theorem keyToEntryCheckPerm_root {root : XsEntry} (h : root.label.perms ≠ []) (domid : UInt32)
    (allocs : List Bool) : keyToEntryCheckPerm root [slash] domid .none allocs =
      .ok (some ⟨[], root⟩, allocs) := by
  have hkey : keyToEntry root [slash] = pure (some ⟨[], root⟩) := rfl
  simp only [keyToEntryCheckPerm, hkey, pure_bind, checkPermsForEntry, checkPerms_none h]
  rfl

theorem wp_handleSetPerms_refused (hlim : BelowLimit x) (hperms : s.root.label.perms ≠ [])
    (hmal : Malformed .setPerms payload)
    (h : payload.length ≤ strnlen payload + 1 ∨ PathRejected x.domid payload ∨
      readStr payload = .ok [slash]) :
    wp (handleSetPerms x id payload) (RefusedBy x id s) (fun _ => False) s := by
  refine wp_ite (fun _ => wp_sendErrno_refused hlim List.suffix_rfl _) (fun hlong => ?_)
  rcases h.resolve_left hlong with h | htext
  · exact wp_withPath_refused hlim h
  · have hlast := hmal.resolve_left hlong
    have hparse : ∀ ps,
        xenstorePermParseWire (payload.drop (strnlen payload + 1)) none ≠ .ok ps := by
      refine fun ps => permParseLoop_unterminated (le_refl _) ?_ ?_
      · exact List.ne_nil_of_length_pos (by rw [List.length_drop]; omega)
      · rwa [getLast_drop (by omega)]
    refine wp_withPath htext (fun e rest hrest _ => wp_sendErrno_refused hlim hrest e)
      (fun path rest hrest hp => ?_)
    obtain rfl : path = [slash] := by
      have hroot : resolvePath [slash] x.domid = .ok [slash] := rfl
      rw [hroot] at hp
      exact (Except.ok.inj hp).symm
    unfold setPermsOf
    simp only [wp_bind, wp_get, wp_alloc]
    refine wp_of_ok (keyToEntryCheckPerm_root hperms x.domid rest) ?_
    simp only [wp_bind, wp_alloc]
    refine wp_setPermsByStrings (fun ps _ _ hok _ => absurd hok (hparse ps))
      (fun e rest' hs _ => ?_)
    simp only [wp_modify]
    exact wp_sendErrno_refused hlim (hs.trans hrest) e

theorem wp_handleWatch_refused (hlim : BelowLimit x)
    (h : WatchTooLong payload ∨ PathRejected x.domid payload) :
    wp (handleWatch x id payload) (RefusedBy x id s) (fun _ => False) s := by
  refine wp_ite (fun _ => wp_sendErrno_refused hlim List.suffix_rfl _) (fun hfit => ?_)
  exact wp_withPath_refused hlim (h.resolve_left fun hlong => hfit (watchTooLong_iff.mpr hlong))

theorem wp_withPath_over {body : CString → SrvM Xenstore} (hover : ¬ BelowLimit x)
    (hbody : ∀ path s', wp (body path) (fun x' _ => x'.queued = x.queued) (fun _ => True) s') :
    wp (withPath x id payload body) (fun x' _ => x'.queued = x.queued) (fun _ => True) s := by
  cases hr : readStr payload with
  | error e =>
    unfold withPath
    rw [hr, wp_bind]
    trivial
  | ok text =>
    exact wp_withPath hr (fun e rest _ _ => wp_sendReplyOr_over hover) fun path rest _ _ =>
      hbody path _

theorem wp_handleSetPerms_over (hover : ¬ BelowLimit x) :
    wp (handleSetPerms x id payload) (fun x' _ => x'.queued = x.queued) (fun _ => True) s := by
  refine wp_ite (fun _ => wp_sendReplyOr_over hover)
    (fun _ => wp_withPath_over hover fun path s' => ?_)
  unfold setPermsOf
  simp only [wp_bind, wp_get]
  refine wp_conseq (wp_trivial _ _) fun r s₁ _ => ?_
  cases r with
  | none => trivial
  | some entry =>
    simp only [wp_bind]
    refine wp_conseq (wp_trivial _ _) fun r s₁ _ => ?_
    obtain ⟨rc, node⟩ := r
    simp only [wp_modify]
    cases rc with
    | some e => exact wp_sendReplyOr_over hover
    | none => exact wp_sendReplyOr_over hover

theorem wp_handleWatch_over (hover : ¬ BelowLimit x) :
    wp (handleWatch x id payload) (fun x' _ => x'.queued = x.queued) (fun _ => True) s := by
  refine wp_ite (fun _ => wp_sendReplyOr_over hover)
    (fun _ => wp_withPath_over hover fun path s' => ?_)
  simp only [wp_bind]
  refine wp_conseq (wp_trivial _ _) fun r s₁ _ => ?_
  cases r with
  | none => exact wp_sendReplyOr_over hover
  | some wentry =>
    simp only [wp_bind, wp_get]
    refine wp_conseq (wp_sendReplyOr_over hover) fun x' s₂ hq => ?_
    refine wp_conseq (wp_trivial _ _) fun r s₃ _ => ?_
    cases r with
    | none => exact hq
    | some e =>
      simp only [wp_bind, wp_pure]
      exact wp_conseq (wp_trivial _ _) fun _ _ _ => hq

theorem wp_handleUnwatch_over (hover : ¬ BelowLimit x) :
    wp (handleUnwatch x id payload) (fun x' _ => x'.queued = x.queued) (fun _ => True) s := by
  refine wp_withPath_over hover fun path s' => ?_
  simp only [wp_bind, wp_get]
  refine wp_conseq (wp_trivial _ _) fun r s₁ _ => ?_
  cases r with
  | none => exact wp_sendReplyOr_over hover
  | some entry => exact wp_sendReplyOr_over hover

theorem keyToWatcher_unterminated {key : CString} {token : Bytes} {domain : Option UInt32}
    {ws : List WatchEntry} {r : Option WatchEntry} (htoken : (0 : UInt8) ∉ token)
    (h : keyToWatcher key token domain ws = .ok r) : r = none := by
  induction ws with
  | nil => exact (Except.ok.inj h).symm
  | cons iter rest ih =>
    unfold keyToWatcher at h
    split at h
    · rw [tokenMatches, readStr_unterminated htoken] at h
      cases h
    · exact ih h

theorem wp_findOrAddWatch_registers {path : CString} {token : Bytes} {isRelative : Bool}
    (htoken : (0 : UInt8) ∉ token) (hs : s.allocs = []) :
    wp (findOrAddWatch x path token isRelative)
      (fun r s' => r ≠ none ∧ s'.watches.length = s.watches.length + 1) (fun _ => True) s := by
  unfold findOrAddWatch
  simp only [wp_bind, wp_get]
  refine wp_lift (fun r hr => ?_) (fun _ _ => trivial)
  rw [keyToWatcher_unterminated htoken hr]
  simp only [wp_bind]
  refine wp_of_ok (alloc_nil hs kMalloc_nil) ?_
  simp only [Bool.not_true, Bool.false_eq_true, if_false, wp_bind]
  refine wp_of_ok (alloc_nil hs kMalloc_nil) ?_
  simp only [Bool.not_true, Bool.false_eq_true, if_false, wp_bind]
  refine wp_of_ok (alloc_nil hs kMalloc_nil) ?_
  exact ⟨nofun, List.length_append⟩

theorem wp_handleWatch_registers {text path : CString} (hfit : ¬ WatchTooLong payload)
    (htext : readStr payload = .ok text) (hp : resolvePath text x.domid = .ok path)
    (htoken : (0 : UInt8) ∉ tokenOf payload) (hs : s.allocs = []) :
    wp (handleWatch x id payload) (fun _ s' => s'.watches.length = s.watches.length + 1)
      (fun _ => True) s := by
  refine wp_ite (fun hlong => absurd (watchTooLong_iff.mp hlong) hfit) (fun _ => ?_)
  refine wp_withPath_nil hs htext (fun e he => ?_) (fun full _ => ?_)
  · rw [hp] at he
    cases he
  · rw [wp_bind]
    refine wp_conseq (wp_findOrAddWatch_registers htoken hs) fun r s₁ ⟨hr, hlen⟩ => ?_
    cases r with
    | none => exact absurd rfl hr
    | some wentry =>
      refine wp_mono (@inside_ownEvent (fun ws => ws.length = s.watches.length + 1) x id full wentry
        s₁ hlen) (fun _ _ h => h.2) (fun _ _ => trivial)

theorem wp_handleUnwatch_no_error {text path : CString} (htext : readStr payload = .ok text)
    (hp : resolvePath text x.domid = .ok path) (htoken : (0 : UInt8) ∉ tokenOf payload)
    (hs : s.allocs = []) :
    wp (handleUnwatch x id payload) (fun x' _ => NoErrorQueued x x') (fun _ => True) s := by
  refine wp_withPath_nil hs htext (fun e he => ?_) (fun full _ => ?_)
  · rw [hp] at he
    cases he
  · simp only [wp_bind, wp_get]
    refine wp_lift (fun r hr => ?_) (fun _ _ => trivial)
    rw [keyToWatcher_unterminated htoken hr]
    exact wp_sendReply_no_error (by decide) (by decide)

theorem wp_handleSetPerms_stops {text path : CString} (htext : readStr payload = .ok text)
    (hp : resolvePath text x.domid = .ok path) (hne : text ≠ [slash])
    (hlong : ¬ payload.length ≤ strnlen payload + 1) (hs : s.allocs = [true, false]) :
    wp (handleSetPerms x id payload) (fun _ _ => False) (fun _ => True) s := by
  have hroot : path ≠ [slash] := by
    rintro rfl
    exact hne (resolvePath_root hp)
  obtain ⟨-, hlen⟩ := Normalized.tokens_ne_nil ⟨text, x.domid, hp⟩ hroot
  obtain ⟨hv, hpt⟩ := resolvePath_ok hp
  have hpath : constructPath text x.domid [true, false] = .ok (.ok path, [false]) := by
    unfold constructPath
    rw [hv, hpt]
    rfl
  have hfind : keyToEntryCheckPerm s.root path x.domid .none [false] = .ok (none, []) := by
    have hkey : keyToEntry s.root path [false] = .ok (none, []) := by
      rw [keyToEntry, if_neg (by omega), if_neg (by rwa [xenstoreIsRootPath_iff])]
      rfl
    simp only [keyToEntryCheckPerm, bind, StateT.bind, hkey, Except.bind, Wp.lift,
      checkPermsForEntry, Except.map]
    rfl
  refine wp_ite (fun h => absurd h hlong) (fun _ => ?_)
  unfold withPath
  rw [htext]
  simp only [wp_bind, wp_lift_ok, wp_alloc, hs]
  refine wp_of_ok hpath ?_
  unfold setPermsOf
  simp only [wp_bind, wp_get, wp_alloc]
  exact wp_of_ok hfind trivial

end Refused

section Dispatch
variable {x : Xenstore} {m : WireMessage} {t : XsdSockmsgType} {h : Handler} {s s' : Shared}

def Xenstore.taking (x : Xenstore) (m : WireMessage) : Xenstore :=
  (x.holding m).dispatch m.request

theorem messageHandle_code (t : XsdSockmsgType) : messageHandle t.code = messageHandleList t := by
  cases t <;> rfl

theorem WireMessage.received_request (m : WireMessage) : m.received.request = m.request := by
  have hlen := m.bytes_length
  have hpart : PartOf m m.received := by
    refine ⟨rfl, le_refl _, ?_⟩
    rw [if_neg]
    · rfl
    · show ¬ m.bytes.length < headerSize
      omega
  exact (hpart.request rfl (rfl : m.received.buffer ++ [] = m.bytes ++ [])).1

theorem wp_holding {Q : Xenstore → Shared → Prop} {E : Fault → Prop} (htype : m.type = t.code)
    (hsup : messageHandleList t = some h)
    (hh : wp (h (x.taking m) m.reqId m.payload)
      (fun x' s' => (x'.input = none → E .nullInput) ∧
        (x'.input ≠ none → Q { x' with input := none } s')) E s) :
    wp (processMessage (x.holding m)) Q E s := by
  refine wp_processMessage (rfl : (x.holding m).input = some m.received) ?_ ?_
  · rw [m.received_request]
    intro hno
    rw [show m.request.type = t.code from htype, messageHandle_code, hsup] at hno
    cases hno
  · rw [m.received_request]
    intro h' hh'
    rw [show m.request.type = t.code from htype, messageHandle_code, hsup] at hh'
    cases hh'
    exact hh

theorem wp_readStr_unterminated {payload : Bytes} {body : CString → SrvM Xenstore}
    (hz : (0 : UInt8) ∉ payload) :
    wp (do body (← Wp.lift (readStr payload))) (fun _ _ => False)
      (fun e => e = .outOfBounds) s := by
  rw [wp_bind, readStr_unterminated hz]
  rfl

theorem wp_pathHandler_unterminated {payload : Bytes} (hsup : messageHandleList t = some h)
    (ht : t ∈ [XsdSockmsgType.directory, .read, .getPerms, .write, .mkdir, .rm])
    (hz : (0 : UInt8) ∉ payload) (id : UInt32) :
    wp (h x id payload) (fun _ _ => False) (fun e => e = .outOfBounds) s := by
  simp only [List.mem_cons, List.not_mem_nil, or_false] at ht
  rcases ht with rfl | rfl | rfl | rfl | rfl | rfl <;> cases hsup
  all_goals exact wp_readStr_unterminated hz

theorem wp_handler_inside {payload : Bytes} {id : UInt32} (hsup : messageHandleList t = some h)
    (hreg : RegistrySafe x.domid s.watches) (htol : Tolerated x t payload) :
    wp (h x id payload) (fun _ _ => True) (fun e => e ≠ .outOfBounds) s := by
  have hany : ∀ {P : List WatchEntry → Prop}, P s.watches → Inside P (h x id payload) →
      wp (h x id payload) (fun _ _ => True) (fun e => e ≠ .outOfBounds) s :=
    fun hP hin => wp_conseq (hin s hP) fun _ _ _ => trivial
  cases t <;> cases hsup
  case control => exact hany trivial (@inside_sendReplySz (fun _ => True) x id .control _)
  case directory => exact hany hreg (inside_handleDirectory htol)
  case read => exact hany hreg (inside_handleRead htol)
  case getPerms => exact hany hreg (inside_handleGetPerms htol)
  case watch =>
    refine wp_handleWatch_inside hreg ?_
    by_cases hz : (0 : UInt8) ∈ tokenOf payload
    · exact Or.inr (Or.inr hz)
    · exact (htol hz).2.imp_right Or.inl
  case unwatch =>
    refine wp_handleUnwatch_inside hreg ?_
    by_cases hz : (0 : UInt8) ∈ tokenOf payload
    · exact Or.inr hz
    · exact Or.inl (htol hz).2
  case transactionStart =>
    have hin : Inside (fun _ => True) (handleTransactionStart x id payload) :=
      Holds.ite (fun _ => @inside_sendErrno (fun _ => True) x id .ebusy)
        fun _ => @inside_sendReplySz (fun _ => True) _ id .transactionStart _
    exact hany trivial hin
  case transactionEnd => exact trivial
  case getDomainPath => exact hany trivial (@inside_sendReplySz (fun _ => True) x id _ _)
  case write => exact hany hreg (inside_handleWriteAs htol)
  case mkdir => exact hany hreg (inside_handleWriteAs htol)
  case rm => exact hany hreg (inside_handleRm htol)
  case setPerms => exact hany hreg inside_handleSetPerms
  case resetWatches =>
    have hin : Inside (fun _ => True) (handleResetWatches x id payload) :=
      Holds.bind (Holds.modify fun _ _ => trivial)
        fun _ _ => @inside_sendReplySz (fun _ => True) x id .resetWatches _
    exact hany trivial hin

theorem wp_handler_refused {payload : Bytes} {id : UInt32} (hsup : messageHandleList t = some h)
    (hperms : s.root.label.perms ≠ []) (htol : Tolerated x t payload) (hmal : Malformed t payload) :
    wp (h x id payload) (RefusedBy x id s) (fun _ => False) s := by
  cases t <;> cases hsup
  case setPerms => exact wp_handleSetPerms_refused (htol hmal).1 hperms hmal (htol hmal).2
  case watch => exact wp_handleWatch_refused (htol hmal).1 (htol hmal).2
  case unwatch => exact wp_withPath_refused (htol hmal).1 (htol hmal).2
  all_goals first | exact absurd htol hmal | exact hmal.elim

theorem readStr_size_le {payload : Bytes} {text : CString} (h : readStr payload = .ok text) :
    xenstoreStrByteSize (some text) ≤ payload.length := by
  obtain ⟨tail, rfl⟩ := readStr_ok h
  rw [List.length_append, strBytes_length]
  exact Nat.le_add_right _ _

theorem payloadOffset_le {payload : Bytes} (htol : Tolerated x t payload) {off : Nat}
    (hoff : off ∈ payloadOffset t payload) : off ≤ payload.length := by
  have hpath : ∀ {off : Nat}, off ∈ ((readStr payload).toOption.map fun text =>
      xenstoreStrByteSize (some text)) → off ≤ payload.length := by
    intro off hmem
    obtain ⟨text, hr, rfl⟩ := Option.mem_map.mp hmem
    cases hread : readStr payload with
    | error e =>
      rw [hread] at hr
      cases hr
    | ok text' =>
      rw [hread] at hr
      cases hr
      exact readStr_size_le hread
  cases t
  case write => exact hpath hoff
  case mkdir => exact hpath hoff
  case setPerms =>
    simp only [payloadOffset] at hoff
    split at hoff
    · cases hoff
    · cases hoff
      omega
  case watch =>
    have hz : ¬ WatchTooLong payload → (0 : UInt8) ∈ payload := by
      intro hfit
      by_cases hz : (0 : UInt8) ∈ tokenOf payload
      · exact mem_payload_of_tokenOf hz
      · obtain ⟨text, e, hr, -⟩ := (htol hz).2.resolve_left hfit
        obtain ⟨tail, rfl⟩ := readStr_ok hr
        simp [strBytes]
    simp only [payloadOffset] at hoff
    split at hoff
    · cases hoff
    · rename_i hfit
      cases hoff
      exact strnlen_lt (hz hfit)
  all_goals cases hoff

theorem refused_of_wp {Q : List Message → Shared → Prop} (htype : m.type = t.code)
    (hsup : messageHandleList t = some h)
    (hwp : wp (h (x.taking m) m.reqId m.payload) (fun x' s' => Q x'.queued s') (fun _ => True) s)
    (href : ∃ x' s', processMessage (x.holding m) s = .ok (x', s') ∧ Refused x m.reqId s x' s') :
    ∃ x' s', Q x'.queued s' ∧ Refused x m.reqId s x' s' := by
  have hwp' : wp (processMessage (x.holding m)) (fun x' s' => Q x'.queued s') (fun _ => True) s :=
    wp_holding htype hsup (wp_conseq hwp fun x' s' hq => ⟨fun _ => trivial, fun _ => hq⟩)
  obtain ⟨x', s', hok, hr⟩ := href
  rw [wp, hok] at hwp'
  exact ⟨x', s', hwp', hr⟩

theorem Refused.not_same {id : UInt32} {x' : Xenstore} (h : Refused x id s x' s')
    (hs : s.allocs = []) : x'.queued ≠ x.queued := by
  intro hq
  rcases h.2 with ⟨msg, hmsg, -⟩ | ⟨hmem, -⟩
  · rw [hmsg] at hq
    simp at hq
  · rw [hs] at hmem
    cases hmem

theorem Contained.belowLimit (hc : Contained x m t s) (htype : m.type = t.code)
    (hsup : messageHandleList t = some h) (hmal : Malformed t m.payload)
    (hover : ¬ BelowLimit x → wp (h (x.taking m) m.reqId m.payload)
      (fun x' _ => x'.queued = x.queued) (fun _ => True) { s with allocs := [] }) :
    BelowLimit x := by
  by_contra hlim
  obtain ⟨x', s', hq, hr⟩ := @refused_of_wp x m t h _ (fun q _ => q = x.queued) htype hsup
    (hover hlim) (hc.refused hmal [])
  exact hr.not_same rfl hq

theorem resolved_of_not_rejected {domid : UInt32} {payload : Bytes} (hz : (0 : UInt8) ∈ payload)
    (h : ¬ PathRejected domid payload) :
    ∃ text path, readStr payload = .ok text ∧ resolvePath text domid = .ok path := by
  obtain ⟨text, htext⟩ := readStr_of_mem hz
  cases hp : resolvePath text domid with
  | error e => exact absurd ⟨text, e, htext, hp⟩ h
  | ok path => exact ⟨text, path, htext, hp⟩

theorem Contained.terminated (hc : Contained x m t s) (htype : m.type = t.code)
    (hsup : messageHandleList t = some h)
    (hbad : (0 : UInt8) ∉ m.payload → wp (h (x.taking m) m.reqId m.payload) (fun _ _ => False)
      (fun e => e = .outOfBounds) { s with allocs := [] }) : (0 : UInt8) ∈ m.payload := by
  by_contra hz
  have hwp : wp (processMessage (x.holding m)) (fun _ _ => False) (fun e => e = .outOfBounds)
      { s with allocs := [] } := by
    refine wp_holding htype hsup (wp_mono (hbad hz) (fun _ _ hf => hf.elim) fun _ he => he)
  cases hr : processMessage (x.holding m) { s with allocs := [] } with
  | error e =>
    obtain rfl := wp_error hwp hr
    exact hc.inside [] hr
  | ok r => exact wp_ok hwp hr

theorem Contained.watch (hc : Contained x m .watch s) (htype : m.type = XsdSockmsgType.watch.code) :
    Tolerated x .watch m.payload := by
  intro hmal
  refine ⟨hc.belowLimit htype rfl hmal fun hover => wp_handleWatch_over hover, ?_⟩
  by_contra hno
  rw [not_or] at hno
  have hz : (0 : UInt8) ∈ m.payload := by
    refine hc.terminated htype rfl fun hz => ?_
    exact wp_ite (fun hlong => absurd (watchTooLong_iff.mp hlong) hno.1)
      fun _ => wp_readStr_unterminated hz
  obtain ⟨text, path, htext, hp⟩ := resolved_of_not_rejected hz hno.2
  obtain ⟨x', s', hlen, ⟨rest, rfl⟩, -⟩ := @refused_of_wp x m .watch _ { s with allocs := [] }
    (fun _ s' => s'.watches.length = s.watches.length + 1) htype rfl
    (wp_handleWatch_registers hno.1 htext hp hmal rfl) (hc.refused hmal [])
  have hlen' : s.watches.length = s.watches.length + 1 := hlen
  omega

theorem Contained.unwatch (hc : Contained x m .unwatch s)
    (htype : m.type = XsdSockmsgType.unwatch.code) : Tolerated x .unwatch m.payload := by
  intro hmal
  refine ⟨hc.belowLimit htype rfl hmal fun hover => wp_handleUnwatch_over hover, ?_⟩
  by_contra hno
  have hz : (0 : UInt8) ∈ m.payload := hc.terminated htype rfl fun hz => wp_readStr_unterminated hz
  obtain ⟨text, path, htext, hp⟩ := resolved_of_not_rejected hz hno
  obtain ⟨x', s', hq, -, href⟩ := @refused_of_wp x m .unwatch _ { s with allocs := [] }
    (fun q _ => ∀ msg : Message, msg.type = .error → q ≠ x.queued ++ [msg]) htype rfl
    (wp_handleUnwatch_no_error htext hp hmal rfl) (hc.refused hmal [])
  rcases href with ⟨msg, hmsg, hte, -⟩ | ⟨hmem, -⟩
  · exact hq msg hte hmsg
  · cases hmem

theorem Contained.setPerms (hc : Contained x m .setPerms s)
    (htype : m.type = XsdSockmsgType.setPerms.code) : Tolerated x .setPerms m.payload := by
  intro hmal
  refine ⟨hc.belowLimit htype rfl hmal fun hover => wp_handleSetPerms_over hover, ?_⟩
  by_contra hno
  rw [not_or, not_or] at hno
  obtain ⟨hlong, hpath, hroot⟩ := hno
  obtain ⟨text, path, htext, hp⟩ :=
    resolved_of_not_rejected (mem_zero_of_strnlen (by omega)) hpath
  obtain ⟨_, _, hfalse, -⟩ := @refused_of_wp x m .setPerms _
    { s with allocs := [true, false] } (fun _ _ => False) htype rfl
    (wp_handleSetPerms_stops htext hp (fun heq => hroot (heq ▸ htext)) hlong rfl)
    (hc.refused hmal [true, false])
  exact hfalse

/-- The payload of a request is read within its bounds, and refused when something is missing,
exactly when it is tolerated. -/
theorem contained_iff (htype : m.type = t.code) (hsup : messageHandleList t = some h)
    (hreg : RegistrySafe x.domid s.watches) (hperms : PermsOk s.root) :
    Contained x m t s ↔ Tolerated x t m.payload := by
  constructor
  · intro hc
    have hpath : t ∈ [XsdSockmsgType.directory, .read, .getPerms, .write, .mkdir, .rm] →
        (0 : UInt8) ∈ m.payload := fun ht =>
      hc.terminated htype hsup fun hz => wp_pathHandler_unterminated hsup ht hz _
    cases t
    case watch => exact hc.watch htype
    case unwatch => exact hc.unwatch htype
    case setPerms => exact hc.setPerms htype
    all_goals first | exact hpath (by decide) | exact trivial
  · intro htol
    refine ⟨fun allocs hoob => ?_, fun off hoff => payloadOffset_le htol hoff,
      fun hmal allocs => ?_⟩
    · have hwp : wp (processMessage (x.holding m)) (fun _ _ => True) (fun e => e ≠ .outOfBounds)
          { s with allocs := allocs } := by
        refine wp_holding htype hsup (wp_conseq (wp_handler_inside hsup hreg htol) fun _ _ _ => ?_)
        exact ⟨fun _ => by decide, fun _ => trivial⟩
      exact wp_error hwp hoob rfl
    · have hwp : wp (processMessage (x.holding m)) (Refused x m.reqId { s with allocs := allocs })
          (fun _ => False) { s with allocs := allocs } := by
        refine wp_holding htype hsup ?_
        refine wp_conseq (wp_handler_refused hsup hperms.1 htol hmal) fun x' s' ⟨href, hin⟩ => ?_
        exact ⟨fun hno => (by rw [hin] at hno; cases hno), fun _ => href⟩
      obtain ⟨x', s', hok, href⟩ := wp_total hwp
      exact ⟨x', s', hok, href⟩

end Dispatch

/-- A request of type `t` with this payload. -/
def requestOf (t : XsdSockmsgType) (payload : Bytes) (h : payload.length < 2 ^ 32) : WireMessage :=
  ⟨t.code, 7, 0, payload, h⟩

/-- XS_WATCH of "/a" with the token "t". -/
theorem contained_iff_watch : Contained (idleClient 1)
    (requestOf .watch [47, 97, 0, 116, 0] (by decide)) .watch ownedByOne := by
  refine Iff.mpr (contained_iff rfl rfl nofun ⟨by decide, by decide⟩) ?_
  intro hmal
  exact absurd (by decide) hmal

/-- XS_WATCH of "/a" without a token registers a watch, and XS_READ of "/a" without its NUL
reads on behind the payload. -/
theorem unterminated_not_contained :
    ¬ Contained (idleClient 1) (requestOf .watch [47, 97, 0] (by decide)) .watch ownedByOne ∧
      ¬ Contained (idleClient 1) (requestOf .read [47, 97] (by decide)) .read ownedByOne := by
  constructor
  · intro hc
    have hmal : (0 : UInt8) ∉ tokenOf [47, 97, 0] := by decide
    obtain ⟨-, hlong | ⟨text, e, htext, herr⟩⟩ := hc.watch rfl hmal
    · exact absurd hlong (by decide)
    · obtain rfl : ascii ['/', 'a'] = text := Except.ok.inj htext
      cases herr
  · intro hc
    exact absurd (hc.terminated rfl rfl fun hz => wp_readStr_unterminated hz) (by decide)

end Xenlib
