import Xenlib.HandlersSpec
import Xenlib.Thread

/-!
What the request handlers leave alone. A handler changes the queue of replies and the
transaction fields of its client, and no stack slot, unless the output limit was reached
before: then a reply ends the service of the client.
-/

set_option autoImplicit false

namespace Xenlib

open Wp

structure SameService (x x' : Xenstore) : Prop where
  domid : x'.domid = x.domid
  domint : x'.domint = x.domint
  mapped : x'.mapped = x.mapped
  input : x'.input = x.input
  xsStackSlot : x'.xsStackSlot = x.xsStackSlot
  thrdStop : x'.thrdStop = x.thrdStop
  releases : x'.releases = x.releases
  requests : x'.requests = x.requests
  written : x'.written = x.written

theorem SameService.refl (x : Xenstore) : SameService x x :=
  ⟨rfl, rfl, rfl, rfl, rfl, rfl, rfl, rfl, rfl⟩

theorem SameService.push (x : Xenstore) (m : Message) : SameService x (x.push m) :=
  ⟨rfl, rfl, rfl, rfl, rfl, rfl, rfl, rfl, rfl⟩

theorem SameService.trans {x y z : Xenstore} (h₁ : SameService x y) (h₂ : SameService y z) :
    SameService x z :=
  ⟨h₂.domid.trans h₁.domid, h₂.domint.trans h₁.domint, h₂.mapped.trans h₁.mapped,
    h₂.input.trans h₁.input, h₂.xsStackSlot.trans h₁.xsStackSlot, h₂.thrdStop.trans h₁.thrdStop,
    h₂.releases.trans h₁.releases, h₂.requests.trans h₁.requests, h₂.written.trans h₁.written⟩

def BelowLimit (x : Xenstore) : Prop := x.usedOutBufs ≤ xenstoreMaxOutBufNum

/-- The client is served on, or, which `L` excludes, it has been invalidated. -/
def Served (L : Prop) (x x' : Xenstore) : Prop :=
  SameService x x' ∨ ¬ L ∧ x.releases < x'.releases

theorem Served.same {L : Prop} {x x' : Xenstore} (h : Served L x x') (hL : L) : SameService x x' :=
  h.resolve_right fun hr => hr.1 hL

section Slots
variable {J : UInt32 → Prop}

def OnSlots (J : UInt32 → Prop) (s : Shared) : Prop := J s.usedThreads

theorem OnSlots.congr {s s' : Shared} (hs : OnSlots J s) (h : s'.usedThreads = s.usedThreads) :
    OnSlots J s' := by
  unfold OnSlots
  rw [h]
  exact hs

/-- The program keeps what `J` says of the stack slots, if it comes to an end. -/
abbrev KeepsSlots {α : Type} (J : UInt32 → Prop) (x : SrvM α) (Q : α → Prop) : Prop :=
  Holds (OnSlots J) (fun _ => True) x Q

theorem slots_alloc {α : Type} (x : AllocM α) : KeepsSlots J (alloc x) (fun _ => True) := by
  intro s hs
  rw [wp_alloc]
  exact wp_conseq (wp_trivial x s.allocs) fun _ _ _ => ⟨trivial, hs⟩

theorem slots_lift {α : Type} (x : Except Fault α) : KeepsSlots J (Wp.lift x) (fun _ => True) :=
  Holds.lift (fun _ _ => trivial) (fun _ _ => trivial)

theorem slots_modify {f : Shared → Shared} (h : ∀ s, (f s).usedThreads = s.usedThreads) :
    KeepsSlots J (modify f : SrvM PUnit) (fun _ => True) :=
  Holds.modify fun s hs => hs.congr (h s)

theorem slots_notifyWatchers (path : CString) :
    KeepsSlots J (notifyWatchers path) (fun _ => True) := by
  intro s hs
  refine wp_notifyWatchers (fun s₁ s' evs hn hf _ _ => ⟨trivial, hs.congr ?_⟩) (fun _ _ => trivial)
  rw [hf.usedThreads, hn.frame.usedThreads]

theorem slots_xssDoWriteDeadline (path : CString) (data : Option CString) (domid : UInt32)
    (perms : List XsPermEntry) (deadline : Deadline) :
    KeepsSlots J (xssDoWriteDeadline path data domid perms deadline) (fun _ => True) :=
  fun _ hs => wp_xssDoWriteDeadline (fun _ _ _ _ _ _ => ⟨trivial, hs⟩) (fun _ => trivial)

theorem freeEntry_usedThreads {entry : EntryRef} {s s' : Shared}
    (h : freeEntry entry s = .ok ((), s')) : s'.usedThreads = s.usedThreads := by
  obtain ⟨-, rfl⟩ := freeEntry_ok h
  rfl

theorem slots_xssDoRmDeadline (key : CString) (callerId : UInt32) (deadline : Deadline) :
    KeepsSlots J (xssDoRmDeadline key callerId deadline) (fun _ => True) := by
  intro s hs
  unfold xssDoRmDeadline
  simp only [wp_bind, wp_pure]
  refine wp_mono (wp_xssDoRmLocked s) (fun r s₁ hr => ?_) (fun _ _ => trivial)
  obtain ⟨rc, localEvents⟩ := r
  obtain ⟨evs, _, hrm⟩ := hr
  refine wp_dispatchLocalWatchEventsLocked _ s₁ fun s₂ hf _ _ => ⟨trivial, hs.congr ?_⟩
  rw [hf.usedThreads]
  simp only at hrm
  cases hrm with
  | refused e hn => rw [hn.frame.usedThreads]
  | freed s₀ entry hn _ _ hfree => rw [freeEntry_usedThreads hfree, hn.frame.usedThreads]

theorem slots_queuePendingWatchEvent (watch : WatchEntry) (domid : UInt32) (path : CString)
    (deadline : Deadline) :
    KeepsSlots J (queuePendingWatchEvent watch domid path deadline) (fun _ => True) :=
  fun _ hs => wp_queuePendingWatchEvent fun _ _ hf _ _ _ => 
    ⟨trivial, hs.congr hf.usedThreads⟩

theorem slots_findOrAddWatch (x : Xenstore) (path : CString) (token : Bytes) (isRelative : Bool) :
    KeepsSlots J (findOrAddWatch x path token isRelative) (fun _ => True) := by
  refine Holds.get.bind fun s _ => (slots_lift _).bind fun r _ => ?_
  cases r with
  | some wentry => exact Holds.bind (slots_modify fun _ => rfl) fun _ _ => Holds.pure trivial
  | none =>
    refine (slots_alloc _).bind fun _ _ => Holds.ite (fun _ => Holds.pure trivial) fun _ => ?_
    refine (slots_alloc _).bind fun _ _ => Holds.ite (fun _ => Holds.pure trivial) fun _ => ?_
    refine (slots_alloc _).bind fun _ _ => Holds.ite (fun _ => Holds.pure trivial) fun _ => ?_
    exact fun s hs => ⟨trivial, hs⟩

/-- What a reply to the request establishes, be it an error or not. -/
structure Replying (J : UInt32 → Prop) (x : Xenstore) (id : UInt32) (type : XsdSockmsgType)
    (Q : Xenstore → Prop) : Prop where
  errno : ∀ err, KeepsSlots J (sendErrno x id err) Q
  reply : ∀ data, KeepsSlots J (sendReplySz x id type data) Q

variable {x : Xenstore} {id : UInt32} {Q : Xenstore → Prop}

theorem replies_withPath {type : XsdSockmsgType} (hr : Replying J x id type Q) {payload : Bytes}
    {body : CString → SrvM Xenstore} (h : ∀ path, KeepsSlots J (body path) Q) :
    KeepsSlots J (withPath x id payload body) Q := by
  unfold withPath
  refine (slots_lift _).bind fun text _ => (slots_alloc _).bind fun r _ => ?_
  cases r with
  | error e => exact hr.errno e
  | ok path => exact h path

theorem replies_handleDirectory (hr : Replying J x id .directory Q) (payload : Bytes) :
    KeepsSlots J (handleDirectory x id payload) Q := by
  refine replies_withPath hr fun path => Holds.get.bind fun s _ =>
    (slots_alloc _).bind fun r _ => ?_
  cases r with
  | none => exact hr.errno _
  | some entry =>
    refine (slots_lift _).bind fun b _ => Holds.ite (fun _ => hr.errno _) fun _ => ?_
    refine (slots_alloc _).bind fun b _ => Holds.ite (fun _ => hr.errno _) fun _ => ?_
    exact hr.reply _

theorem replies_handleWriteAs {type : XsdSockmsgType} (hr : Replying J x id type Q)
    (payload : Bytes) : KeepsSlots J (handleWriteAs type x id payload) Q := by
  unfold handleWriteAs
  refine (slots_lift _).bind fun text _ => Holds.ite (fun _ => hr.errno _) fun _ => ?_
  refine (slots_alloc _).bind fun r _ => ?_
  cases r with
  | error e => exact hr.errno e
  | ok path =>
    refine (slots_alloc _).bind fun r _ => ?_
    cases r with
    | error e => exact hr.errno e
    | ok data =>
      refine (slots_xssDoWriteDeadline _ _ _ _ _).bind fun rc _ => ?_
      cases rc with
      | some e => exact hr.errno e
      | none =>
        exact (hr.reply _).bind fun x' hx' =>
          (slots_notifyWatchers path).bind fun _ _ => Holds.pure hx'

theorem replies_handleGetPerms (hr : Replying J x id .getPerms Q) (payload : Bytes) :
    KeepsSlots J (handleGetPerms x id payload) Q := by
  refine replies_withPath hr fun path => Holds.get.bind fun s _ =>
    (slots_alloc _).bind fun r _ => ?_
  cases r with
  | none => exact hr.errno _
  | some entry =>
    refine (slots_alloc _).bind fun r _ => ?_
    cases r with
    | none => exact hr.errno _
    | some permStr => exact hr.reply _

theorem replies_handleSetPerms (hr : Replying J x id .setPerms Q) (payload : Bytes) :
    KeepsSlots J (handleSetPerms x id payload) Q := by
  refine Holds.ite (fun _ => hr.errno _) fun _ => replies_withPath hr fun path => ?_
  refine Holds.get.bind fun s _ => (slots_alloc _).bind fun r _ => ?_
  cases r with
  | none => exact Holds.throw trivial
  | some entry =>
    refine (slots_alloc _).bind fun r _ => ?_
    obtain ⟨rc, node⟩ := r
    refine Holds.bind (slots_modify fun _ => rfl) fun _ _ => ?_
    cases rc with
    | some e => exact hr.errno e
    | none => exact hr.reply _

theorem replies_handleRead (hr : Replying J x id .read Q) (payload : Bytes) :
    KeepsSlots J (handleRead x id payload) Q := by
  refine replies_withPath hr fun path => Holds.get.bind fun s _ =>
    (slots_alloc _).bind fun r _ => ?_
  cases r with
  | none => exact hr.errno _
  | some entry => exact hr.reply _

theorem replies_handleRm (hr : Replying J x id .rm Q) (payload : Bytes) :
    KeepsSlots J (handleRm x id payload) Q := by
  refine (slots_lift _).bind fun key _ => (slots_xssDoRmDeadline _ _ _).bind fun rc _ => ?_
  cases rc with
  | some e => exact hr.errno e
  | none => exact hr.reply _

theorem replies_handleWatch (hr : Replying J x id .watch Q) (payload : Bytes) :
    KeepsSlots J (handleWatch x id payload) Q := by
  refine Holds.ite (fun _ => hr.errno _) fun _ => replies_withPath hr fun path => ?_
  refine (slots_findOrAddWatch _ _ _ _).bind fun r _ => ?_
  cases r with
  | none => exact hr.errno _
  | some wentry =>
    refine (hr.reply _).bind fun x' hx' => Holds.get.bind fun s _ =>
      (slots_alloc _).bind fun r _ => ?_
    cases r with
    | none => exact Holds.pure hx'
    | some _ => exact (slots_queuePendingWatchEvent _ _ _ _).bind fun _ _ => Holds.pure hx'

theorem replies_handleUnwatch (hr : Replying J x id .unwatch Q) (payload : Bytes) :
    KeepsSlots J (handleUnwatch x id payload) Q := by
  refine replies_withPath hr fun path => Holds.get.bind fun s _ => (slots_lift _).bind fun r _ => ?_
  cases r with
  | none => exact hr.reply _
  | some entry => exact Holds.bind (slots_modify fun _ => rfl) fun _ _ => hr.reply _

theorem replies_handleResetWatches (hr : Replying J x id .resetWatches Q) (payload : Bytes) :
    KeepsSlots J (handleResetWatches x id payload) Q :=
  Holds.bind (x := cleanupDomainWatches x.domid) (slots_modify fun _ => rfl) fun _ _ => hr.reply _

def Xenstore.opened (x : Xenstore) : Xenstore :=
  { x with transaction := x.transaction + 1, runningTransaction := x.transaction + 1 }

/-- The client between the end of its transaction and the reply to it. -/
def Xenstore.closing (x : Xenstore) (id : UInt32) : Xenstore :=
  { x with stopTransactionId := id, pendingStopTransaction := true, runningTransaction := 0 }

abbrev Opening (J : UInt32 → Prop) (x : Xenstore) (id : UInt32) (Q : Xenstore → Prop) : Prop :=
  KeepsSlots J (sendReply x.opened id .transactionStart (decimalInt x.opened.runningTransaction)) Q

theorem replies_handleTransactionStart (hr : ∀ err, KeepsSlots J (sendErrno x id err) Q)
    (ho : x.runningTransaction = 0 → Opening J x id Q) (payload : Bytes) :
    KeepsSlots J (handleTransactionStart x id payload) Q :=
  Holds.ite (fun _ => hr _) fun hrun => ho (Decidable.not_not.mp hrun)

theorem replies_messageHandle {type : UInt32} {h : Handler} (hh : messageHandle type = some h)
    (payload : Bytes) (he : type ≠ XsdSockmsgType.transactionEnd.code →
      ∀ err, KeepsSlots J (sendErrno x id err) Q)
    (hr : ∀ t data, t.code = type → t ∉ [.transactionStart, .transactionEnd, .watchEvent] →
      KeepsSlots J (sendReplySz x id t data) Q)
    (ho : type = XsdSockmsgType.transactionStart.code → x.runningTransaction = 0 →
      Opening J x id Q)
    (hc : type = XsdSockmsgType.transactionEnd.code → Q (x.closing id)) :
    KeepsSlots J (h x id payload) Q := by
  unfold messageHandle at hh
  obtain ⟨t, hfind, ht⟩ := Option.bind_eq_some_iff.mp hh
  have hcode : t.code = type := by simpa using List.find?_some hfind
  have hr : t ∉ [.transactionStart, .transactionEnd, .watchEvent] →
      type ≠ XsdSockmsgType.transactionEnd.code → Replying J x id t Q :=
    fun hne hend => ⟨he hend, fun data => hr t data hcode hne⟩
  cases t <;> simp only [messageHandleList, Option.some.injEq, reduceCtorEq] at ht <;> subst ht
  case transactionStart =>
    exact replies_handleTransactionStart (he (hcode ▸ by decide)) (ho hcode.symm) payload
  case transactionEnd => exact Holds.pure (hc hcode.symm)
  all_goals replace hr := hr (by decide) (hcode ▸ by decide)
  · exact hr.reply _
  · exact replies_handleDirectory hr payload
  · exact replies_handleRead hr payload
  · exact replies_handleGetPerms hr payload
  · exact replies_handleWatch hr payload
  · exact replies_handleUnwatch hr payload
  · exact hr.reply _
  · exact replies_handleWriteAs hr payload
  · exact replies_handleWriteAs hr payload
  · exact replies_handleRm hr payload
  · exact replies_handleSetPerms hr payload
  · exact replies_handleResetWatches hr payload

variable {u : UInt32}

theorem slots_invalidateClient (h : ¬ BelowLimit x) :
    KeepsSlots (BelowLimit x → · = u) (invalidateClient x) (Served (BelowLimit x) x) := by
  intro s hs
  refine wp_releaseDomainStored (fun _ _ _ => ⟨Or.inr ⟨h, ?_⟩, fun hL => absurd hL h⟩)
    (fun _ => trivial) (fun _ => trivial)
  exact Nat.lt_succ_self _

theorem slots_sendErrno (id : UInt32) (err : Errno) :
    KeepsSlots (BelowLimit x → · = u) (sendErrno x id err) (Served (BelowLimit x) x) := by
  by_cases hlim : BelowLimit x
  · exact fun _ hs => wp_sendErrno hlim (fun _ _ _ => ⟨Or.inl (SameService.push x _), hs⟩)
      (fun _ _ _ => ⟨Or.inl (SameService.refl x), hs⟩)
  · unfold sendErrno sendReplyOr
    rw [if_pos (Int.not_le.mp hlim)]
    exact slots_invalidateClient hlim

theorem slots_sendReplySz (id : UInt32) (type : XsdSockmsgType) (data : Bytes) :
    KeepsSlots (BelowLimit x → · = u) (sendReplySz x id type data) (Served (BelowLimit x) x) := by
  by_cases hlim : BelowLimit x
  · exact fun _ hs => wp_sendReplySz hlim (fun _ _ _ _ => ⟨Or.inl (SameService.push x _), hs⟩)
      (fun _ _ _ => ⟨Or.inl (SameService.refl x), hs⟩)
  · unfold sendReplySz sendReplyOr
    rw [if_pos (Int.not_le.mp hlim)]
    exact slots_invalidateClient hlim

theorem slots_messageHandle {type : UInt32} {h : Handler} (hh : messageHandle type = some h)
    (id : UInt32) (payload : Bytes) :
    KeepsSlots (BelowLimit x → · = u) (h x id payload) (Served (BelowLimit x) x) := by
  refine replies_messageHandle hh payload (fun _ => slots_sendErrno id)
    (fun t data _ _ => slots_sendReplySz id t data) (fun _ _ => ?_)
    fun _ => Or.inl ⟨rfl, rfl, rfl, rfl, rfl, rfl, rfl, rfl, rfl⟩
  -- the limit and the fields of the service are those of the client before
  exact (slots_sendReplySz (u := u) (x := x.opened) id .transactionStart _).mono fun x' hx' =>
    hx'.imp_left fun hx' => ⟨hx'.domid, hx'.domint, hx'.mapped, hx'.input, hx'.xsStackSlot,
      hx'.thrdStop, hx'.releases, hx'.requests, hx'.written⟩

theorem slots_sendTransactionEnd :
    KeepsSlots ((x.pendingStopTransaction = true → BelowLimit x) → · = u) (sendTransactionEnd x)
      (Served (x.pendingStopTransaction = true → BelowLimit x) x) := by
  intro s hs
  refine wp_ite (fun hp => ?_) (fun _ => ⟨Or.inl (SameService.refl x), hs⟩)
  rw [wp_bind]
  have hsend := slots_sendReplySz (u := u) (x := x) x.stopTransactionId .transactionEnd
    (strBytes []) s fun hlim => hs fun _ => hlim
  refine wp_conseq hsend fun x' s' hx' => ⟨?_, fun hL => hx'.2 (hL hp)⟩
  refine hx'.1.imp (fun h => ?_) (fun h => ⟨fun hL => h.1 (hL hp), h.2⟩)
  exact ⟨h.domid, h.domint, h.mapped, h.input, h.xsStackSlot, h.thrdStop, h.releases, h.requests,
    h.written⟩

/-- An event is fired below the output limit only, one buffer earlier than a reply is sent. -/
theorem slots_fireWatcher (event : PendingWatchEvent) :
    KeepsSlots (· = u) (fireWatcher x event) (fun r => SameService x r.1) := by
  refine Holds.get.bind fun s _ => ?_
  cases hw : s.watches.find? fun w => w.id = event.watch with
  | none => exact Holds.pure (SameService.refl x)
  | some watch =>
    refine Holds.ite (fun _ => Holds.pure (SameService.refl x)) fun _ => ?_
    refine Holds.ite (fun _ => Holds.throw trivial) fun _ => ?_
    refine Holds.ite (fun _ => Holds.pure (SameService.refl x)) fun hlim => ?_
    refine (slots_lift _).bind fun payload _ => (slots_alloc _).bind fun b _ => ?_
    refine Holds.ite (fun _ => Holds.pure (SameService.refl x)) fun _ => ?_
    have hlim : BelowLimit x := by unfold BelowLimit; omega
    refine Holds.bind (fun s hs => ?_) fun x' hx' => Holds.pure hx'
    exact wp_conseq (slots_sendReplySz _ _ _ s fun _ => hs) fun x' s' hx' =>
      ⟨hx'.1.same hlim, hx'.2 hlim⟩

theorem slots_pendingWatchLoop (events : List PendingWatchEvent) :
    KeepsSlots (· = u) (pendingWatchLoop events x) (fun r => SameService x r.1) := by
  induction events generalizing x with
  | nil => exact Holds.pure (SameService.refl x)
  | cons iter rest ih =>
    refine Holds.ite (fun _ => ih.bind fun r hr => Holds.pure hr) fun _ => ?_
    refine (slots_fireWatcher iter).bind fun r hr => ?_
    obtain ⟨x', e⟩ := r
    cases e with
    | some e => exact Holds.pure hr
    | none => exact ih.mono fun r' hr' => hr.trans hr'

theorem slots_processPendingWatchEvents :
    KeepsSlots (· = u) (processPendingWatchEvents x) (SameService x) :=
  Holds.get.bind fun _ _ => (slots_pendingWatchLoop _).bind fun _ hr =>
    Holds.bind (slots_modify fun _ => rfl) fun _ _ => Holds.pure hr

end Slots

end Xenlib
