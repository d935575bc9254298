import Xenlib.Answers
import Xenlib.RingSteps
import Xenlib.Lib.Machine

/-!
Requests and replies of one client over whole runs of its thread. The guest writes to the
ring page, other threads change the shared state, and the client may be asked to stop, at
any point. Each request gets one reply, in order; what is queued besides are watch events.
-/

set_option autoImplicit false

namespace Xenlib

open Wp Machine

def Request.AnsweredBy (r : Request) (m : Message) : Prop :=
  m.reqId = r.reqId ∧ (m.type.code = r.type ∨ m.type = .error)

def Xenstore.replies (x : Xenstore) : List Message := x.queued.filter fun m => m.type ≠ .watchEvent

/-- Replies match requests one to one and in order. The reply to XS_TRANSACTION_END is sent by
the loop of the thread, before the next request is read. -/
inductive RepliesMatch (x : Xenstore) : Prop where
  | all (hpending : x.pendingStopTransaction = false)
      (h : List.Forall₂ Request.AnsweredBy x.requests x.replies) : RepliesMatch x
  | deferred (rs : List Request) (r : Request) (hpending : x.pendingStopTransaction = true)
      (hrequests : x.requests = rs ++ [r]) (htype : r.type = XsdSockmsgType.transactionEnd.code)
      (hid : r.reqId = x.stopTransactionId)
      (h : List.Forall₂ Request.AnsweredBy rs x.replies) : RepliesMatch x

structure ReplyState where
  shared : Shared
  thread : Thread

inductive ReplyAction (domid : UInt32) where
  /-- The guest writes to its ring page, whatever it likes. -/
  | guest (page : XenstoreDomainInterface)
  | thread
  /-- `put_domain` asks the thread to stop. -/
  | stop
  /-- Dom0 and the threads of other domains, which leave the store and the registry in order. -/
  | other (s : Shared) (store : StoreInv s)
      (registry : RegistryOk domid s.watches s.pendingWatchEventList)

def ReplyState.step {domid : UInt32} (r : ReplyState) : ReplyAction domid → Option ReplyState
  | .guest page =>
    some { r with thread := { r.thread with
      xenstore := { r.thread.xenstore with domint := page } } }
  | .thread =>
    match threadStep r.thread r.shared with
    | .error _ => none
    | .ok (t, s) => some ⟨s, t⟩
  | .stop =>
    some { r with thread := { r.thread with
      xenstore := { r.thread.xenstore with thrdStop := true } } }
  | .other s _ _ => some { r with shared := s }

/-- The slot is the thread's own as long as its client was not released. -/
def HoldsSlot (x : Xenstore) (s : Shared) : Prop :=
  x.mapped = true → x.xsStackSlot < s.domuMax ∧ bitSet s.usedThreads x.xsStackSlot = true

/-- Requests have a handler and a terminated payload, and replies are sent below the output
limit. -/
def Thread.Regular (t : Thread) : Prop :=
  match t.pc with
  | .endTransaction => t.xenstore.pendingStopTransaction = true → BelowLimit t.xenstore
  | .process => BelowLimit t.xenstore ∧ ∀ inp ∈ t.xenstore.input,
      (messageHandle inp.request.type).isSome ∧ 0 ∈ inp.request.payload
  | _ => True

def ReplyState.Regular {domid : UInt32} (r : ReplyState) : ReplyAction domid → Prop
  | .thread => r.thread.Regular
  | .other s _ _ => HoldsSlot r.thread.xenstore s
  | .guest _ | .stop => True

/-- The event of a watch that is still on the list fits into one message. -/
def EventFits (s : Shared) (domid : UInt32) (e : PendingWatchEvent) : Prop :=
  e.domain = domid → ∀ w ∈ s.watches.find? fun w => w.id = e.watch, w.linked = true →
    ∀ data ∈ (watchEventPayload w e.eventPath domid).toOption, data.length ≤ xenstorePayloadMax

/-- The next step of the thread meets no request that is not harmless, and no event that is too
big for a message. -/
def Thread.Clean (t : Thread) (s : Shared) : Prop :=
  match t.pc with
  | .events => t.xenstore.runningTransaction = 0 →
      ∀ e ∈ s.pendingWatchEventList, EventFits s t.xenstore.domid e
  | .process => ∀ inp ∈ t.xenstore.input, Harmless s t.xenstore.domid inp.request
  | _ => True

def ReplyState.Clean {domid : UInt32} (r : ReplyState) : ReplyAction domid → Prop
  | .thread => r.thread.Clean r.shared
  | .guest _ | .stop | .other _ _ _ => True

structure ClientInv (domid : UInt32) (slot : Nat) (x : Xenstore) : Prop where
  domid : x.domid = domid
  slot : x.xsStackSlot = slot
  matched : RepliesMatch x
  buffers : ∀ out ∈ x.outList, out.used < out.totalSize ∧ out.buffer.length = out.totalSize

section Client
variable {domid : UInt32} {slot : Nat} {x : Xenstore} {s : Shared}

theorem Xenstore.push_replies {m : Message} (hm : m.type ≠ .watchEvent) :
    (x.push m).replies = x.replies ++ [m] := by
  unfold Xenstore.replies
  show (x.queued ++ [m]).filter _ = _
  rw [List.filter_append, List.filter_cons_of_pos (by simpa using hm), List.filter_nil]

theorem Xenstore.push_event {m : Message} (hm : m.type = .watchEvent) :
    (x.push m).replies = x.replies := by
  unfold Xenstore.replies
  show (x.queued ++ [m]).filter _ = _
  rw [List.filter_append, List.filter_cons_of_neg (by simp [hm]), List.filter_nil, List.append_nil]

theorem ClientInv.congr (h : ClientInv domid slot x) {x' : Xenstore} (hd : x'.domid = x.domid)
    (hs : x'.xsStackSlot = x.xsStackSlot) (hr : x'.requests = x.requests)
    (hq : x'.queued = x.queued) (hp : x'.pendingStopTransaction = x.pendingStopTransaction)
    (hi : x'.stopTransactionId = x.stopTransactionId)
    (hb : ∀ out ∈ x'.outList, out.used < out.totalSize ∧ out.buffer.length = out.totalSize) :
    ClientInv domid slot x' := by
  have hreplies : x'.replies = x.replies := by rw [Xenstore.replies, hq, Xenstore.replies]
  refine ⟨hd.trans h.domid, hs.trans h.slot, ?_, hb⟩
  cases h.matched with
  | all hpending hall => exact .all (hp.trans hpending) (by rw [hr, hreplies]; exact hall)
  | deferred rs r hpending hrequests htype hid hall =>
    exact .deferred rs r (hp.trans hpending) (hr.trans hrequests) htype (hid.trans hi.symm)
      (by rw [hreplies]; exact hall)

theorem ClientInv.event (h : ClientInv domid slot x) {m : Message} (hm : m.type = .watchEvent) :
    ClientInv domid slot (x.push m) := by
  refine ⟨h.domid, h.slot, ?_, Xenstore.push_buffers m h.buffers⟩
  cases h.matched with
  | all hpending hall => exact .all hpending (by rw [Xenstore.push_event hm]; exact hall)
  | deferred rs r hpending hrequests htype hid hall =>
    exact .deferred rs r hpending hrequests htype hid (by rw [Xenstore.push_event hm]; exact hall)

/-- Nothing was queued but watch events. -/
inductive Told (x : Xenstore) : Xenstore → Prop where
  | refl : Told x x
  | push (x' : Xenstore) (m : Message) (h : Told x x') (hm : m.type = .watchEvent) :
      Told x (x'.push m)

/-- What an event needs to be delivered. -/
structure Deliverable (s : Shared) (domid : UInt32) (e : PendingWatchEvent) : Prop where
  ok : EventOk s.watches e
  fits : EventFits s domid e

theorem wp_fireWatcher {e : PendingWatchEvent}
    (hs : ServerInv x.domid slot s) (hd : e.domain = x.domid)
    (hdomid : (localDomainPath x.domid).length < xenstoreMaxLocalpathLen)
    (he : Deliverable s x.domid e) :
    wp (fireWatcher x e)
      (fun r s' => (r.1 = x ∨ ∃ m, m.type = .watchEvent ∧ r.1 = x.push m) ∧ s' = s)
      (fun _ => False) s := by
  unfold fireWatcher
  simp only [wp_bind, wp_get]
  cases hw : s.watches.find? fun w => w.id = e.watch with
  | none => exact ⟨Or.inl rfl, rfl⟩
  | some w =>
    have hmem : w ∈ s.watches := List.mem_of_find?_eq_some hw
    have hid : w.id = e.watch := by simpa using List.find?_some hw
    obtain ⟨hdom, hlen⟩ := he.ok.path w hmem hid
    rw [hd] at hdom
    refine wp_ite (fun _ => ⟨Or.inl rfl, rfl⟩) (fun hl => ?_)
    refine wp_ite (fun hbig => absurd hdomid (Nat.not_lt.mpr hbig)) (fun _ => ?_)
    refine wp_ite (fun _ => ⟨Or.inl rfl, rfl⟩) (fun hlim => ?_)
    have hlim : BelowLimit x := by unfold BelowLimit; omega
    obtain ⟨t, ht⟩ := (hs.registry.entries w hmem).token hdom
    have hdata : ∃ data, watchEventPayload w e.eventPath x.domid = .ok data := by
      unfold watchEventPayload
      rw [ht]
      dsimp only
      split
      · rename_i hrel
        have hkey := (hs.registry.entries w hmem).relative hrel
        rw [hdom, Option.getD_some] at hkey
        rw [if_neg (by rw [strBytes_length]; omega)]
        exact ⟨_, rfl⟩
      · exact ⟨_, rfl⟩
    obtain ⟨data, hdata⟩ := hdata
    have hfits : data.length ≤ xenstorePayloadMax :=
      he.fits hd w hw (by simpa using hl) data (by rw [hdata]; rfl)
    rw [wp_bind, hdata]
    refine wp_lift (fun a ha => ?_) (fun e he => by cases he)
    cases ha
    refine hs.malloc ?_
    show wp (sendReplySz x 0 .watchEvent data >>= _) _ _ s
    rw [wp_bind]
    refine wp_sendReplySz hlim (fun m rest hrest hm => ?_) (fun rest hrest hmem => ?_)
    · rw [allocs_same hs.store.allocs hrest]
      exact ⟨Or.inr ⟨m, (hm.fits hfits).1, rfl⟩, rfl⟩
    · rw [hs.store.allocs] at hmem
      cases hmem

/-- An event that is too big for a message becomes an error that answers no request. -/
theorem wp_fireWatcher_tooBig {e : PendingWatchEvent} {w : WatchEntry} {data : Bytes}
    {Q : Xenstore × Option Errno → Shared → Prop} {E : Fault → Prop} (hmem : s.allocs = [])
    (hdomid : (localDomainPath x.domid).length < xenstoreMaxLocalpathLen)
    (hlim : x.usedOutBufs < xenstoreMaxOutBufNum)
    (hw : s.watches.find? (fun w => w.id = e.watch) = some w) (hl : w.linked = true)
    (hdata : watchEventPayload w e.eventPath x.domid = .ok data)
    (hbig : xenstorePayloadMax < data.length)
    (h : ∀ m, m.type = .error → m.reqId = 0 → Q (x.push m, none) s) :
    wp (fireWatcher x e) Q E s := by
  unfold fireWatcher
  simp only [wp_bind, wp_get, hw, hl, Bool.not_true, Bool.false_eq_true, if_false]
  rw [if_neg (Nat.not_le.mpr hdomid), if_neg (by omega), wp_bind, hdata]
  refine wp_lift (fun a ha => ?_) (fun e he => by cases he)
  cases ha
  rw [wp_bind]
  refine wp_of_ok (alloc_nil hmem kMalloc_nil) ?_
  show wp (sendReplySz x 0 .watchEvent data >>= _) _ _ s
  rw [wp_bind]
  refine wp_sendReplySz (by omega) (fun m rest hrest hm => ?_) (fun rest hrest hfalse => ?_)
  · rw [allocs_same hmem hrest]
    exact h m (hm.tooBig hbig).1 hm.reqId
  · rw [hmem] at hfalse
    cases hfalse

theorem wp_pendingWatchLoop {x₀ : Xenstore} (events : List PendingWatchEvent) (hx : Told x₀ x)
    (hs : ServerInv x.domid slot s)
    (hdomid : (localDomainPath x.domid).length < xenstoreMaxLocalpathLen)
    (hev : ∀ e ∈ events, Deliverable s x.domid e) :
    wp (pendingWatchLoop events x)
      (fun r s' => (Told x₀ r.1 ∧ ∀ e ∈ r.2, e ∈ events) ∧ s' = s) (fun _ => False) s := by
  induction events generalizing x with
  | nil => exact ⟨⟨hx, fun _ he => he⟩, rfl⟩
  | cons iter rest ih =>
    have hrest : ∀ e ∈ rest, Deliverable s x.domid e :=
      fun e he => hev e (List.mem_cons_of_mem _ he)
    unfold pendingWatchLoop
    refine wp_ite (fun _ => ?_) (fun hd => ?_)
    · rw [wp_bind]
      refine wp_conseq (ih hx hs hdomid hrest) fun r s' hr => ⟨⟨hr.1.1, fun e he => ?_⟩, hr.2⟩
      rcases List.mem_cons.mp he with rfl | he
      · exact List.mem_cons_self
      · exact List.mem_cons_of_mem _ (hr.1.2 e he)
    · rw [wp_bind]
      refine wp_conseq (wp_fireWatcher hs (Decidable.not_not.mp hd) hdomid
        (hev iter List.mem_cons_self)) ?_
      rintro ⟨x', rc⟩ s' ⟨hsent, rfl⟩
      have hx' : Told x₀ x' ∧ x'.domid = x.domid := by
        rcases hsent with rfl | ⟨m, hm, rfl⟩
        · exact ⟨hx, rfl⟩
        · exact ⟨.push x m hx hm, rfl⟩
      cases rc with
      | some e => exact ⟨⟨hx'.1, fun _ he => he⟩, rfl⟩
      | none =>
        rw [← hx'.2] at hs hdomid hrest
        refine wp_conseq (ih hx'.1 hs hdomid hrest) fun r s' hr => ⟨⟨hr.1.1, fun e he => ?_⟩, hr.2⟩
        exact List.mem_cons_of_mem _ (hr.1.2 e he)

/-- The whole step: events are sent, kept or dropped. -/
theorem wp_processPendingWatchEvents (hs : ServerInv x.domid slot s)
    (hdomid : (localDomainPath x.domid).length < xenstoreMaxLocalpathLen)
    (hfits : ∀ e ∈ s.pendingWatchEventList, EventFits s x.domid e) :
    wp (processPendingWatchEvents x) (fun x' s' => Told x x' ∧ ServerInv x.domid slot s')
      (fun _ => False) s := by
  unfold processPendingWatchEvents
  simp only [wp_bind, wp_get, wp_modify, wp_pure]
  refine wp_conseq (wp_pendingWatchLoop s.pendingWatchEventList .refl hs hdomid
    fun e he => ⟨hs.registry.pending e he, hfits e he⟩) ?_
  rintro ⟨x', kept⟩ s' ⟨⟨hx', hkept⟩, rfl⟩
  exact ⟨hx', hs.frame ⟨rfl, rfl, rfl, id⟩ rfl fun e he => Or.inl (hkept e he)⟩

theorem Told.client {x' : Xenstore} (h : Told x x') (hx : ClientInv domid slot x) :
    ClientInv domid slot x' := by
  induction h with
  | refl => exact hx
  | push x' m _ hm ih => exact ih.event hm

theorem Told.same {x' : Xenstore} (h : Told x x') :
    SameService x x' ∧ x'.pendingStopTransaction = x.pendingStopTransaction := by
  induction h with
  | refl => exact ⟨.refl x, rfl⟩
  | push x' m _ _ ih => exact ⟨ih.1.trans (.push x' m), ih.2⟩

theorem ClientInv.answered {x' : Xenstore} {r : Request} {t : XsdSockmsgType}
    (h : ClientInv domid slot x) (hpending : x.pendingStopTransaction = false)
    (hcode : t.code = r.type) (ht : t ≠ .watchEvent)
    (hx' : Answered (x.dispatch r) r.reqId t x') : ClientInv domid slot x' := by
  obtain ⟨m, transaction, running, ⟨hid, htype⟩, rfl⟩ := hx'
  refine ⟨h.domid, h.slot, .all hpending ?_, Xenstore.push_buffers m h.buffers⟩
  have hne : m.type ≠ .watchEvent := by
    rcases htype with htype | htype
    · rw [htype]
      exact ht
    · rw [htype]
      decide
  rw [Xenstore.push_replies hne]
  cases h.matched with
  | all _ hall =>
    refine List.rel_append hall (.cons ⟨hid, htype.imp_left fun he => ?_⟩ .nil)
    rw [he]
    exact hcode
  | deferred _ _ hp => rw [hpending] at hp; cases hp

theorem ClientInv.ended {x' : Xenstore} (h : ClientInv domid slot x)
    (hpending : x.pendingStopTransaction = true)
    (hx' : Answered x x.stopTransactionId .transactionEnd x') :
    ClientInv domid slot { x' with stopTransactionId := 0, pendingStopTransaction := false } := by
  obtain ⟨m, transaction, running, ⟨hid, htype⟩, rfl⟩ := hx'
  refine ⟨h.domid, h.slot, .all rfl ?_, Xenstore.push_buffers m h.buffers⟩
  have hne : m.type ≠ .watchEvent := by
    rcases htype with htype | htype <;> rw [htype] <;> decide
  show List.Forall₂ _ x.requests (x.push m).replies
  rw [Xenstore.push_replies hne]
  cases h.matched with
  | all hp => rw [hpending] at hp; cases hp
  | deferred rs r _ hrequests hend hrid hall =>
    rw [hrequests]
    refine List.rel_append hall (.cons ⟨hid.trans hrid.symm, htype.imp_left fun he => ?_⟩ .nil)
    rw [he, hend]

structure StillServed (domid : UInt32) (slot : Nat) (x x' : Xenstore) (s' : Shared) : Prop where
  client : ClientInv domid slot x'
  mapped : x'.mapped = x.mapped
  server : ServerInv domid slot s'

theorem Answered.mapped {x' : Xenstore} {id : UInt32} {t : XsdSockmsgType}
    (h : Answered x id t x') : x'.mapped = x.mapped := by
  obtain ⟨_, _, _, _, rfl⟩ := h
  rfl

theorem Answered.input {x' : Xenstore} {id : UInt32} {t : XsdSockmsgType}
    (h : Answered x id t x') : x'.input = x.input := by
  obtain ⟨_, _, _, _, rfl⟩ := h
  rfl

theorem wp_sendTransactionEnd (h : ClientInv x.domid slot x) (hs : ServerInv x.domid slot s)
    (hlim : x.pendingStopTransaction = true → BelowLimit x) :
    wp (sendTransactionEnd x) (fun x' s' => StillServed x.domid slot x x' s' ∧
      x'.pendingStopTransaction = false) (fun _ => False) s := by
  refine wp_ite (fun hp => ?_) (fun hp => ⟨⟨h, rfl, hs⟩, by simpa using hp⟩)
  rw [wp_bind]
  refine wp_sendReplySz_answered (hlim hp) hs fun x' hx' => ?_
  exact ⟨⟨h.ended hp hx', hx'.mapped, hs⟩, rfl⟩

theorem ClientInv.noted {r : Request} (h : ClientInv domid slot x)
    (hpending : x.pendingStopTransaction = false)
    (hend : r.type = XsdSockmsgType.transactionEnd.code) :
    ClientInv domid slot { x.dispatch r with
      stopTransactionId := r.reqId, pendingStopTransaction := true, runningTransaction := 0 } := by
  refine ⟨h.domid, h.slot, ?_, h.buffers⟩
  cases h.matched with
  | all _ hall => exact .deferred x.requests r rfl rfl hend rfl hall
  | deferred _ _ hp => rw [hpending] at hp; cases hp

theorem wp_processRequest {inp : BufferedData} (h : ClientInv x.domid slot x)
    (hs : ServerInv x.domid slot s) (hpending : x.pendingStopTransaction = false)
    (hdomid : (localDomainPath x.domid).length < xenstoreMaxLocalpathLen)
    (hin : x.input = some inp) (hlim : BelowLimit x)
    (hknown : (messageHandle inp.request.type).isSome) (hz : 0 ∈ inp.request.payload)
    (hok : Harmless s x.domid inp.request) :
    wp (processMessage x) (fun x' s' => StillServed x.domid slot x x' s') (fun _ => False) s := by
  refine wp_processMessage hin (fun hno => ?_) (fun handler hh => ?_)
  · rw [hno] at hknown
    cases hknown
  · by_cases hend : inp.request.type = XsdSockmsgType.transactionEnd.code
    · have hstop : messageHandle inp.request.type = some handleTransactionStop := by
        rw [hend]
        rfl
      rw [hstop] at hh
      cases hh
      refine ⟨fun hnone => ?_, fun _ => ⟨?_, rfl, hs⟩⟩
      · rw [show x.input = none from hnone] at hin
        cases hin
      · exact (h.noted hpending hend).congr rfl rfl rfl rfl rfl rfl h.buffers
    · obtain ⟨t, hcode, hanswer⟩ := answers_messageHandle (x := x.dispatch inp.request) hh hlim hs
        hdomid hz hok hend
      have ht : t ≠ .watchEvent := by
        rintro rfl
        have hnone : messageHandle XsdSockmsgType.watchEvent.code = none := rfl
        rw [← hcode, hnone] at hh
        cases hh
      refine wp_conseq hanswer fun x' s' hx' => ⟨fun hnone => ?_, fun _ => ⟨?_, ?_, hx'.2⟩⟩
      · rw [hx'.1.input, show (x.dispatch inp.request).input = x.input from rfl, hin] at hnone
        cases hnone
      · have hanswered := h.answered hpending hcode ht hx'.1
        exact hanswered.congr rfl rfl rfl rfl rfl rfl hanswered.buffers
      · exact hx'.1.mapped

/-- A guest whose indexes are too far apart loses its service. -/
def Xenstore.invalidated (x : Xenstore) : Xenstore := Xenstore.released { x with thrdStop := true }

theorem wp_invalidate {Q : Xenstore → Shared → Prop} {E : Fault → Prop}
    (hs : ServerInv domid x.xsStackSlot s) (h : ∀ s', Q x.invalidated s') :
    wp (invalidateClient x) Q E s := by
  obtain ⟨f, hf, _⟩ := removeRefEntriesRecursive_spec x.domid s.root.children
    hs.store.wellFormed.nodes hs.store.wellFormed.distinct
  refine wp_releaseDomainStored (fun _ _ _ => h _) (fun hbad => ?_) (fun he => ?_)
  · rcases hbad with hmax | hbit
    · exact absurd hs.slotHeld.1 (Nat.not_lt.mpr hmax)
    · have hheld : bitSet s.usedThreads x.xsStackSlot = true := hs.slotHeld.2
      rw [show bitSet s.usedThreads x.xsStackSlot = false from hbit] at hheld
      cases hheld
  · rw [show removeRefEntriesRecursive x.domid s.root.children = _ from he] at hf
    cases hf

theorem wp_inputHeader_any {Q : Xenstore × Bool → Shared → Prop} {E : Fault → Prop}
    (hs : ServerInv domid x.xsStackSlot s) (hmap : x.mapped = true)
    (h : ∀ r, HeaderStep x r → Q r s) (hbad : ∀ s', Q (x.invalidated, false) s') :
    wp (inputHeader x) Q E s := by
  have hmem : ∀ {P : Prop}, false ∈ s.allocs → P := fun hm => by
    rw [hs.store.allocs] at hm
    cases hm
  by_cases hidx : (x.input.getD emptyInput).used < headerSize → requestIndexesOk x
  · refine wp_inputHeader hmem hidx (fun hm => ?_) (fun r rest hrest hr => ?_)
    · rw [hmap] at hm
      cases hm
    · rw [allocs_same hs.store.allocs hrest]
      exact h r hr
  · obtain ⟨hread, hidx⟩ := Classical.not_imp.mp hidx
    unfold inputHeader
    rw [wp_bind]
    refine wp_allocInput hmem fun rest hrest => ?_
    rw [allocs_same hs.store.allocs hrest]
    refine wp_ite (fun hused => absurd hread (Nat.not_lt.mpr hused)) (fun _ => ?_)
    rw [wp_bind]
    exact wp_readInput_bad (x := { x with input := some (x.input.getD emptyInput) }) hidx
      (fun hm => by rw [show x.mapped = false from hm] at hmap; cases hmap)
      (wp_invalidate hs fun s' => hbad s')

theorem wp_inputPayload_any {inp : BufferedData} {Q : Xenstore × Bool → Shared → Prop}
    {E : Fault → Prop} (hs : ServerInv domid x.xsStackSlot s) (hmap : x.mapped = true)
    (hin : x.input = some inp)
    (h : ∀ n full, Q (x.consume n (some (inp.fill (x.arrived n))), full) s)
    (hbad : ∀ s', Q (x.invalidated, false) s') : wp (inputPayload x) Q E s := by
  by_cases hidx : requestIndexesOk x
  · refine wp_inputPayload hin hidx (fun hm => ?_) (fun n _ => h n _)
    rw [hmap] at hm
    cases hm
  · unfold inputPayload
    simp only [hin, wp_bind]
    exact wp_readInput_bad hidx (fun hm => by rw [hm] at hmap; cases hmap)
      (wp_invalidate hs fun s' => hbad s')

/-- Writing keeps the client in order, or ends its service. -/
theorem wp_handleOutput_any {Q : Xenstore → Shared → Prop} {E : Fault → Prop}
    (hc : ClientInv domid slot x) (hs : ServerInv domid x.xsStackSlot s) (hmap : x.mapped = true)
    (h : ∀ x', ClientInv domid slot x' → x'.mapped = true →
      x'.pendingStopTransaction = x.pendingStopTransaction → Q x' s)
    (hbad : ∀ s', Q x.invalidated s') : wp (handleOutput x) Q E s := by
  by_cases hidx : responseIndexesOk x
  · refine wp_handleOutput hidx (fun hm => ?_) (fun _ => h x hc hmap rfl)
      (fun out rest n hout hn hlt => ?_) (fun out rest n hout hn _ => ?_)
      (fun out rest hout ho => ?_)
    · rw [hmap] at hm
      cases hm
    · refine h _ (hc.congr rfl rfl rfl rfl rfl rfl fun o ho => ?_) hmap rfl
      rcases List.mem_cons.mp ho with rfl | ho
      · exact ⟨hlt, (hc.buffers out (by rw [hout]; exact List.mem_cons_self)).2⟩
      · exact hc.buffers o (by rw [hout]; exact List.mem_cons_of_mem _ ho)
    · refine h _ (hc.congr rfl rfl rfl rfl rfl rfl fun o ho => ?_) hmap rfl
      exact hc.buffers o (by rw [hout]; exact List.mem_cons_of_mem _ ho)
    · have hbuf := (hc.buffers out (by rw [hout]; exact List.mem_cons_self)).1
      omega
  · exact wp_handleOutput_bad hidx (fun hm => by rw [hm] at hmap; cases hmap)
      (fun _ => h x hc hmap rfl) (wp_invalidate hs hbad)

end Client

/-- The places between the note of an XS_TRANSACTION_END and its reply. -/
def Pc.Deferring (pc : Pc) : Prop :=
  pc ∈ [Pc.writeTest, .output, .loopTest, .endTransaction, .cleanup, .dead]

/-- The places a thread passes through once its client was released. -/
def Pc.Ending (pc : Pc) : Prop := pc ∈ [Pc.writeTest, .loopTest, .cleanup, .dead]

instance (pc : Pc) : Decidable pc.Deferring := inferInstanceAs (Decidable (_ ∈ _))

instance (pc : Pc) : Decidable pc.Ending := inferInstanceAs (Decidable (_ ∈ _))

inductive ServiceInv (domid : UInt32) (slot : Nat) (s : Shared) (t : Thread) : Prop where
  | serving (hmap : t.xenstore.mapped = true) (hs : ServerInv domid slot s) :
      ServiceInv domid slot s t
  | released (hmap : t.xenstore.mapped = false) (hstop : t.xenstore.thrdStop = true)
      (hout : t.xenstore.outList = []) (hpc : t.pc.Ending) : ServiceInv domid slot s t

structure ReplyInv (domid : UInt32) (slot : Nat) (s : Shared) (t : Thread) : Prop where
  client : ClientInv domid slot t.xenstore
  service : ServiceInv domid slot s t
  deferring : t.xenstore.pendingStopTransaction = true → t.pc.Deferring
  input : t.pc = .payload ∨ t.pc = .process → t.xenstore.input ≠ none

section Steps
variable {domid : UInt32} {slot : Nat} {s s' : Shared} {x x' : Xenstore} {pc pc' : Pc}

theorem ReplyInv.serving (h : ReplyInv domid slot s ⟨pc, x⟩) (hpc : ¬ pc.Ending) :
    x.mapped = true ∧ ServerInv domid slot s := by
  cases h.service with
  | serving hmap hs => exact ⟨hmap, hs⟩
  | released _ _ _ hend => exact absurd hend hpc

theorem ReplyInv.moveOn (h : ReplyInv domid slot s ⟨pc, x⟩)
    (hdefer : pc.Deferring → pc'.Deferring) (hend : x.thrdStop = true → pc.Ending → pc'.Ending)
    (hin : pc' = .payload ∨ pc' = .process → x.input ≠ none) : ReplyInv domid slot s ⟨pc', x⟩ where
  client := h.client
  service := by
    cases h.service with
    | serving hmap hs => exact .serving hmap hs
    | released hmap hstop hout hpc => exact .released hmap hstop hout (hend hstop hpc)
  deferring hp := hdefer (h.deferring hp)
  input := hin

/-- A step that sends something and is served on. -/
theorem StillServed.inv (h : StillServed domid slot x x' s') (hmap : x.mapped = true)
    (hdefer : x'.pendingStopTransaction = true → pc'.Deferring)
    (hpc : ¬ (pc' = .payload ∨ pc' = .process)) : ReplyInv domid slot s' ⟨pc', x'⟩ :=
  ⟨h.client, .serving (h.mapped.trans hmap) h.server, hdefer, fun hin => absurd hin hpc⟩

theorem ClientInv.invalidated (h : ClientInv domid slot x) (s' : Shared) :
    ReplyInv domid slot s' ⟨.writeTest, x.invalidated⟩ where
  client := h.congr rfl rfl rfl rfl rfl rfl fun _ ho => absurd ho List.not_mem_nil
  service := .released rfl rfl rfl (show Pc.writeTest.Ending by decide)
  deferring := fun _ => show Pc.writeTest.Deferring by decide
  input := fun hin => hin.elim Pc.noConfusion Pc.noConfusion

theorem HeaderStep.client {r : Xenstore × Bool} (hr : HeaderStep x r)
    (h : ClientInv domid slot x) :
    ClientInv domid slot r.1 ∧ r.1.mapped = x.mapped ∧
      r.1.pendingStopTransaction = x.pendingStopTransaction ∧ (r.2 = true → r.1.input ≠ none) := by
  cases hr with
  | known inp hin _ =>
    refine ⟨h, rfl, rfl, fun _ hnone => ?_⟩
    rw [show x.input = none from hnone] at hin
    cases hin
  | short inp n _ _ _ =>
    exact ⟨h.congr rfl rfl rfl rfl rfl rfl h.buffers, rfl, rfl, fun hf => by cases hf⟩
  | tooBig inp n _ _ _ _ _ =>
    exact ⟨h.congr rfl rfl rfl rfl rfl rfl h.buffers, rfl, rfl, fun hf => by cases hf⟩
  | full inp n _ _ _ _ _ =>
    exact ⟨h.congr rfl rfl rfl rfl rfl rfl h.buffers, rfl, rfl, fun _ hnone => by cases hnone⟩

theorem canRead_mapped (h : x.mapped = true) : ∃ b, canRead x = .ok b := by
  unfold canRead
  rw [h]
  exact ⟨_, rfl⟩

theorem canWrite_mapped (h : x.mapped = true) : ∃ b, canWrite x = .ok b := by
  unfold canWrite
  rw [h]
  split <;> exact ⟨_, rfl⟩

/-- One step of the thread does not fault, and keeps requests and replies matched. -/
theorem ReplyInv.threadStep {t : Thread} (h : ReplyInv domid slot s t)
    (hdomid : (localDomainPath domid).length < xenstoreMaxLocalpathLen)
    (hreg : t.Regular) (hclean : t.Clean s) :
    wp (threadStep t) (fun t' s' => ReplyInv domid slot s' t') (fun _ => False) s := by
  obtain ⟨pc, x⟩ := t
  obtain rfl := h.client.domid
  obtain rfl := h.client.slot
  have hfree : ¬ pc.Deferring → x.pendingStopTransaction = false := fun hpc => by
    by_contra hp
    exact hpc (h.deferring (by simpa using hp))
  cases pc with
  | loopTest =>
    refine h.moveOn (fun _ => ?_) (fun hstop _ => ?_) (fun hin => ?_)
    · split <;> decide
    · rw [if_pos hstop]
      decide
    · split at hin <;> exact hin.elim Pc.noConfusion Pc.noConfusion
  | endTransaction =>
    obtain ⟨hmap, hs⟩ := h.serving (by decide)
    simp only [Xenlib.threadStep, wp_bind, wp_pure]
    refine wp_conseq (wp_sendTransactionEnd h.client hs hreg) fun x' s' hx' => ?_
    refine hx'.1.inv hmap (fun hp => ?_) (by decide)
    rw [hx'.2] at hp
    cases hp
  | events =>
    obtain ⟨hmap, hs⟩ := h.serving (by decide)
    simp only [Xenlib.threadStep]
    refine wp_ite (fun hrun => ?_) (fun _ => ?_)
    · simp only [wp_bind, wp_pure]
      refine wp_conseq (wp_processPendingWatchEvents hs hdomid (hclean hrun)) fun x' s' hx' => ?_
      obtain ⟨hsame, hp⟩ := hx'.1.same
      have hserved : StillServed x.domid x.xsStackSlot x x' s' :=
        ⟨hx'.1.client h.client, hsame.mapped, hx'.2⟩
      refine hserved.inv hmap (fun hp' => ?_) (by decide)
      rw [hp, hfree (by decide)] at hp'
      cases hp'
    · exact h.moveOn (fun hd => absurd hd (by decide)) (fun _ he => absurd he (by decide))
        (fun hin => hin.elim Pc.noConfusion Pc.noConfusion)
  | idle =>
    obtain ⟨hmap, hs⟩ := h.serving (by decide)
    have hnext : ReplyInv x.domid x.xsStackSlot s ⟨.readTest, x⟩ :=
      h.moveOn (fun hd => absurd hd (by decide)) (fun _ he => absurd he (by decide))
        (fun hin => hin.elim Pc.noConfusion Pc.noConfusion)
    obtain ⟨b, hread⟩ := canRead_mapped hmap
    obtain ⟨b', hwrite⟩ := canWrite_mapped hmap
    simp only [Xenlib.threadStep, wp_bind, hread]
    refine wp_lift (fun b _ => wp_ite (fun _ => hnext) (fun _ => ?_)) (fun e he => by cases he)
    rw [wp_bind, hwrite]
    exact wp_lift (fun _ _ => hnext) (fun e he => by cases he)
  | readTest =>
    obtain ⟨hmap, hs⟩ := h.serving (by decide)
    obtain ⟨b, hread⟩ := canRead_mapped hmap
    simp only [Xenlib.threadStep, wp_bind, hread]
    refine wp_lift (fun b _ => ?_) (fun e he => by cases he)
    refine h.moveOn (fun hd => absurd hd (by decide)) (fun _ he => absurd he (by decide))
      (fun hin => ?_)
    split at hin <;> exact hin.elim Pc.noConfusion Pc.noConfusion
  | header =>
    obtain ⟨hmap, hs⟩ := h.serving (by decide)
    simp only [Xenlib.threadStep, wp_bind, wp_pure]
    refine wp_inputHeader_any hs hmap (fun r hr => ?_) (fun s' => h.client.invalidated s')
    obtain ⟨hclient, hmap', hp, hin⟩ := hr.client h.client
    refine ⟨hclient, .serving (hmap'.trans hmap) hs, fun hp' => ?_, fun hpc => ?_⟩
    · rw [hp, hfree (by decide)] at hp'
      cases hp'
    · cases hmore : r.2 with
      | true => exact hin hmore
      | false => rw [hmore] at hpc; exact hpc.elim Pc.noConfusion Pc.noConfusion
  | payload =>
    obtain ⟨hmap, hs⟩ := h.serving (by decide)
    obtain ⟨inp, hin⟩ := Option.ne_none_iff_exists'.mp (h.input (Or.inl rfl))
    simp only [Xenlib.threadStep, wp_bind, wp_pure]
    refine wp_inputPayload_any hs hmap hin (fun n full => ?_) (fun s' => h.client.invalidated s')
    refine ⟨h.client.congr rfl rfl rfl rfl rfl rfl h.client.buffers, .serving hmap hs,
      fun hp => ?_, fun _ hnone => by cases hnone⟩
    rw [show x.pendingStopTransaction = true from hp] at hfree
    cases hfree (by decide)
  | process =>
    obtain ⟨hmap, hs⟩ := h.serving (by decide)
    obtain ⟨inp, hin⟩ := Option.ne_none_iff_exists'.mp (h.input (Or.inr rfl))
    obtain ⟨hlim, hall⟩ := hreg
    obtain ⟨hknown, hz⟩ := hall inp hin
    simp only [Xenlib.threadStep, wp_bind, wp_pure]
    refine wp_conseq (wp_processRequest h.client hs (hfree (by decide)) hdomid hin hlim hknown hz
      (hclean inp hin)) fun x' s' hx' => ?_
    exact hx'.inv hmap (fun _ => by decide) (by decide)
  | writeTest =>
    simp only [Xenlib.threadStep, wp_bind, wp_pure]
    cases h.service with
    | serving hmap hs =>
      obtain ⟨b, hwrite⟩ := canWrite_mapped hmap
      rw [hwrite]
      refine wp_lift (fun b _ => ⟨h.client, .serving hmap hs, fun _ => ?_, fun hin => ?_⟩)
        (fun e he => by cases he)
      · show Pc.Deferring (if b then .output else .loopTest)
        split <;> decide
      · cases b <;> exact hin.elim Pc.noConfusion Pc.noConfusion
    | released hmap hstop hout hend =>
      have hwrite : canWrite x = .ok false := if_pos hout
      rw [hwrite]
      refine wp_lift (fun b hb => ?_) (fun e he => by cases he)
      cases hb
      exact h.moveOn (fun _ => by decide) (fun _ _ => by decide)
        (fun hin => hin.elim Pc.noConfusion Pc.noConfusion)
  | output =>
    obtain ⟨hmap, hs⟩ := h.serving (by decide)
    simp only [Xenlib.threadStep, wp_bind, wp_pure]
    refine wp_handleOutput_any h.client hs hmap (fun x' hc hmap' _ => ?_)
      (fun s' => h.client.invalidated s')
    exact ⟨hc, .serving hmap' hs, fun _ => show Pc.writeTest.Deferring by decide,
      fun hin => hin.elim Pc.noConfusion Pc.noConfusion⟩
  | cleanup =>
    have hin : ¬ (Pc.dead = .payload ∨ Pc.dead = .process) := by decide
    simp only [Xenlib.threadStep, wp_bind, wp_pure]
    cases h.service with
    | serving hmap hs =>
      refine wp_conseq (runs_cleanupDomainWatches x.domid s hs) fun _ s' hs' => ?_
      exact ⟨h.client, .serving hmap hs'.2, fun _ => show Pc.dead.Deferring by decide,
        fun hpc => absurd hpc hin⟩
    | released hmap hstop hout _ =>
      exact ⟨h.client, .released hmap hstop hout (show Pc.dead.Ending by decide),
        fun _ => show Pc.dead.Deferring by decide, fun hpc => absurd hpc hin⟩
  | dead => exact h

theorem ReplyInv.step {r : ReplyState} {a : ReplyAction domid}
    (h : ReplyInv domid slot r.shared r.thread)
    (hdomid : (localDomainPath domid).length < xenstoreMaxLocalpathLen) (hreg : r.Regular a)
    (hclean : r.Clean a) :
    ∃ r', r.step a = some r' ∧ ReplyInv domid slot r'.shared r'.thread := by
  obtain ⟨s, pc, x⟩ := r
  cases a with
  | guest page =>
    refine ⟨_, rfl, h.client.congr rfl rfl rfl rfl rfl rfl h.client.buffers, ?_, h.deferring,
      h.input⟩
    cases h.service with
    | serving hmap hs => exact .serving hmap hs
    | released hmap hstop hout hpc => exact .released hmap hstop hout hpc
  | thread =>
    obtain ⟨t, s', hstep, hinv⟩ := wp_total (h.threadStep hdomid hreg hclean)
    exact ⟨⟨s', t⟩, by simp only [ReplyState.step, hstep], hinv⟩
  | stop =>
    refine ⟨_, rfl, h.client.congr rfl rfl rfl rfl rfl rfl h.client.buffers, ?_, h.deferring,
      h.input⟩
    cases h.service with
    | serving hmap hs => exact .serving hmap hs
    | released hmap _ hout hpc => exact .released hmap rfl hout hpc
  | other s' hstore hregistry =>
    refine ⟨_, rfl, h.client, ?_, h.deferring, h.input⟩
    cases h.service with
    | serving hmap _ =>
      refine .serving hmap ⟨hstore, hregistry, ?_⟩
      rw [← h.client.slot]
      exact hreg hmap
    | released hmap hstop hout hpc => exact .released hmap hstop hout hpc

/-- The client as its thread begins, with the shared state it finds. -/
def ReplyState.start (s : Shared) (domid : UInt32) (domint : XenstoreDomainInterface) (slot : Nat)
    (stackWord : Nat → UInt32) : ReplyState :=
  ⟨s, .loopTest, .started domid domint slot stackWord⟩

theorem ReplyInv.start {domint : XenstoreDomainInterface} {stackWord : Nat → UInt32}
    (hs : ServerInv domid slot s) :
    ReplyInv domid slot s ⟨.loopTest, .started domid domint slot stackWord⟩ where
  client := ⟨rfl, rfl, .all rfl .nil, fun _ ho => absurd ho List.not_mem_nil⟩
  service := .serving rfl hs
  deferring hp := by cases hp
  input hin := hin.elim Pc.noConfusion Pc.noConfusion

end Steps

/-- In every run whose requests are harmless and whose events fit, no step of the thread faults
and requests and replies match. -/
theorem run_repliesMatch {domid : UInt32} {domint : XenstoreDomainInterface} {slot : Nat}
    {stackWord : Nat → UInt32} {s : Shared} {as : List (ReplyAction domid)}
    (hs : ServerInv domid slot s)
    (hdomid : (localDomainPath domid).length < xenstoreMaxLocalpathLen)
    (hall : Along ReplyState.step (fun r a => r.Regular a ∧ r.Clean a)
      (.start s domid domint slot stackWord) as) :
    ∃ r, run ReplyState.step (.start s domid domint slot stackWord) as = some r ∧
      RepliesMatch r.thread.xenstore := by
  have hinv : ReplyInv domid slot (ReplyState.start s domid domint slot stackWord).shared
      (ReplyState.start s domid domint slot stackWord).thread := .start hs
  obtain ⟨r, hrun, h⟩ := run_total (I := fun r => ReplyInv domid slot r.shared r.thread)
    (fun _ _ hr hc => hr.step hdomid hc.1 hc.2) hinv hall
  exact ⟨r, hrun, h.client.matched⟩

instance (node : XsNode) (domid : UInt32) : Decidable (Grants node domid) :=
  inferInstanceAs (Decidable (_ = _))

instance (s : Shared) (domid : UInt32) (r : Request) : Decidable (Harmless s domid r) :=
  decidable_of_iff (_ ∧ _ ∧ _ ∧ _)
    ⟨fun h => ⟨h.1, h.2.1, h.2.2.1, h.2.2.2⟩,
      fun h => ⟨h.node, h.root, h.watchToken, h.unwatchToken⟩⟩

instance (s : Shared) (domid : UInt32) (e : PendingWatchEvent) : Decidable (EventFits s domid e) :=
  inferInstanceAs (Decidable (_ → _))

instance (x : Xenstore) (s : Shared) : Decidable (HoldsSlot x s) :=
  inferInstanceAs (Decidable (_ → _))

instance (x : Xenstore) : Decidable (BelowLimit x) := inferInstanceAs (Decidable (_ ≤ _))

instance (t : Thread) : Decidable t.Regular :=
  match t with
  | ⟨.endTransaction, _⟩ => inferInstanceAs (Decidable (_ → _))
  | ⟨.process, _⟩ => inferInstanceAs (Decidable (_ ∧ _))
  | ⟨.loopTest, _⟩ | ⟨.events, _⟩ | ⟨.idle, _⟩ | ⟨.readTest, _⟩ | ⟨.header, _⟩ | ⟨.payload, _⟩
  | ⟨.writeTest, _⟩ | ⟨.output, _⟩ | ⟨.cleanup, _⟩ | ⟨.dead, _⟩ => isTrue trivial

instance (t : Thread) (s : Shared) : Decidable (t.Clean s) :=
  match t with
  | ⟨.events, _⟩ => inferInstanceAs (Decidable (_ → _))
  | ⟨.process, x⟩ => inferInstanceAs (Decidable (∀ inp ∈ x.input, Harmless s x.domid inp.request))
  | ⟨.loopTest, _⟩ | ⟨.endTransaction, _⟩ | ⟨.idle, _⟩ | ⟨.readTest, _⟩ | ⟨.header, _⟩
  | ⟨.payload, _⟩ | ⟨.writeTest, _⟩ | ⟨.output, _⟩ | ⟨.cleanup, _⟩ | ⟨.dead, _⟩ => isTrue trivial

instance {domid : UInt32} (r : ReplyState) (a : ReplyAction domid) : Decidable (r.Regular a) :=
  match a with
  | .thread => inferInstanceAs (Decidable r.thread.Regular)
  | .other s _ _ => inferInstanceAs (Decidable (HoldsSlot r.thread.xenstore s))
  | .guest _ | .stop => isTrue trivial

instance {domid : UInt32} (r : ReplyState) (a : ReplyAction domid) : Decidable (r.Clean a) :=
  match a with
  | .thread => inferInstanceAs (Decidable (r.thread.Clean r.shared))
  | .guest _ | .stop | .other _ _ _ => isTrue trivial

def requestPage (bytes : Bytes) : XenstoreDomainInterface :=
  ⟨fun i => bytes.getD i 0, fun _ => 0, 0, UInt32.ofNat bytes.length, 0, 0⟩

/-- Domain 1 owns "/a", and its thread has slot 0. -/
def servedOne : Shared := { ownedByOne with usedThreads := 1 }

theorem servedOne_inv : ServerInv 1 0 servedOne where
  store := ⟨ownedByOne_wellFormed, rfl⟩
  registry := ⟨rfl, fun _ hw => absurd hw List.not_mem_nil, fun _ he => absurd he List.not_mem_nil⟩
  slotHeld := by decide

/-- XS_TRANSACTION_END, and XS_MKDIR of "/a". -/
def endThenMkdir : Bytes :=
  XsdSockmsg.bytes ⟨7, 5, 0, 1⟩ ++ [0] ++ XsdSockmsg.bytes ⟨12, 6, 0, 3⟩ ++ [47, 97, 0]

/-- `n` steps of the thread of domain 1, undisturbed. -/
def threadSteps (n : Nat) : List (ReplyAction 1) := List.replicate n .thread

theorem run_repliesMatch_endThenMkdir : ∃ r,
    run ReplyState.step (.start servedOne 1 (requestPage endThenMkdir) 0 fun _ => 0)
      (threadSteps 22) = some r ∧
    r.thread.xenstore.replies.map (fun m => (m.type, m.reqId)) =
      [(.transactionEnd, 5), (.mkdir, 6)] ∧ RepliesMatch r.thread.xenstore := by
  have hvals : (run ReplyState.step (.start servedOne 1 (requestPage endThenMkdir) 0 fun _ => 0)
      (threadSteps 22)).map (fun r => r.thread.xenstore.replies.map fun m => (m.type, m.reqId)) =
      some [(.transactionEnd, 5), (.mkdir, 6)] := by
    decide +kernel
  have hall : Along ReplyState.step (fun r a => r.Regular a ∧ r.Clean a)
      (.start servedOne 1 (requestPage endThenMkdir) 0 fun _ => 0) (threadSteps 22) := by
    decide +kernel
  obtain ⟨r, hrun, hmatch⟩ := run_repliesMatch servedOne_inv (by decide) hall
  rw [hrun] at hvals
  exact ⟨r, hrun, Option.some.inj hvals, hmatch⟩

/-- XS_SET_PERMS for "/b", which does not exist. -/
def setPermsMissing : Bytes :=
  XsdSockmsg.bytes ⟨14, 8, 0, 6⟩ ++ [47, 98, 0, 114, 49, 0]

/-- The domain watches "/a" with a token, and has to be told about "/a/b". -/
def tokenWatch (token : CString) : Shared :=
  { servedOne with
    watches := [⟨0, ascii ['/', 'a'], strBytes token, some 1, false, true, none⟩]
    pendingWatchEventList := [⟨ascii ['/', 'a', '/', 'b'], 0, 1⟩] }

theorem tokenWatch_inv (token : CString) : ServerInv 1 0 (tokenWatch token) where
  store := ⟨ownedByOne_wellFormed, rfl⟩
  registry := by
    refine ⟨rfl, fun w hw => ?_, fun e he => ?_⟩
    · rw [List.mem_singleton.mp hw]
      exact ⟨rfl, fun _ => readStr_of_mem (List.mem_append_right _ List.mem_cons_self),
        fun h => by cases h⟩
    · rw [List.mem_singleton.mp he]
      refine ⟨Nat.zero_lt_one, fun w hw _ => ?_⟩
      rw [List.mem_singleton.mp hw]
      exact ⟨rfl, show (ascii ['/', 'a']).length ≤ (ascii ['/', 'a', '/', 'b']).length by decide⟩
  slotHeld := servedOne_inv.slotHeld

theorem wp_events_tokenWatch {token : CString} (hlen : 4092 ≤ token.length)
    {domint : XenstoreDomainInterface} {stackWord : Nat → UInt32} :
    wp (threadStep ⟨.events, .started 1 domint 0 stackWord⟩)
      (fun t _ => t.xenstore.requests = [] ∧ t.xenstore.pendingStopTransaction = false ∧
        ∃ m, m.type = .error ∧ m.reqId = 0 ∧ t.xenstore.queued = [m])
      (fun _ => False) (tokenWatch token) := by
  have hdata : watchEventPayload ⟨0, ascii ['/', 'a'], strBytes token, some 1, false, true, none⟩
      (ascii ['/', 'a', '/', 'b']) 1 =
      .ok (strBytes (ascii ['/', 'a', '/', 'b']) ++ strBytes token) := by
    have htoken := readStr_strBytes token []
    rw [List.append_nil] at htoken
    unfold watchEventPayload
    rw [htoken]
    rfl
  have hbig : xenstorePayloadMax <
      (strBytes (ascii ['/', 'a', '/', 'b']) ++ strBytes token).length := by
    have hpath : (ascii ['/', 'a', '/', 'b']).length = 4 := by decide
    rw [List.length_append, strBytes_length, strBytes_length, hpath]
    unfold xenstorePayloadMax
    omega
  simp only [threadStep]
  refine wp_ite (fun _ => ?_) (fun hrun => absurd rfl hrun)
  simp only [processPendingWatchEvents, wp_bind, wp_get, wp_modify, wp_pure, tokenWatch,
    pendingWatchLoop]
  refine wp_ite (fun hne => absurd rfl hne) (fun _ => ?_)
  rw [wp_bind]
  have hdomid : (localDomainPath 1).length < xenstoreMaxLocalpathLen := by decide
  have hlim : (0 : Int) < xenstoreMaxOutBufNum := by decide
  refine wp_fireWatcher_tooBig rfl hdomid hlim rfl rfl hdata hbig fun m hm hid => ?_
  exact ⟨rfl, rfl, m, hm, hid, rfl⟩

def ReplyState.fault (r : ReplyState) : Option Fault :=
  match threadStep r.thread r.shared with
  | .error e => some e
  | .ok _ => none

theorem run_to_events {s : Shared} {domint : XenstoreDomainInterface} {stackWord : Nat → UInt32}
    {t : Thread} {s' : Shared}
    (h : threadStep ⟨.events, .started 1 domint 0 stackWord⟩ s = .ok (t, s')) :
    Along ReplyState.step ReplyState.Regular (.start s 1 domint 0 stackWord) (threadSteps 3) ∧
      run ReplyState.step (.start s 1 domint 0 stackWord) (threadSteps 3) = some ⟨s', t⟩ := by
  have hfirst : ReplyState.step (.start s 1 domint 0 stackWord) (.thread : ReplyAction 1) =
      some ⟨s, .endTransaction, .started 1 domint 0 stackWord⟩ := rfl
  have hsecond : ReplyState.step ⟨s, .endTransaction, .started 1 domint 0 stackWord⟩
      (.thread : ReplyAction 1) = some ⟨s, .events, .started 1 domint 0 stackWord⟩ := rfl
  have hlast : ReplyState.step ⟨s, .events, .started 1 domint 0 stackWord⟩
      (.thread : ReplyAction 1) = some ⟨s', t⟩ := by
    simp only [ReplyState.step, h]
  constructor
  · refine ⟨trivial, fun r₁ h₁ => ?_⟩
    rw [hfirst] at h₁
    cases h₁
    refine ⟨fun hp => (by cases hp), fun r₂ h₂ => ?_⟩
    rw [hsecond] at h₂
    cases h₂
    exact ⟨trivial, fun _ _ => trivial⟩
  · simp only [threadSteps, List.replicate, run, hfirst, hsecond, hlast]

/-- A request that is never answered, since its handler reads the permissions of a node that is
not there, and an error that nobody asked for, in place of an event. The steps of both runs are
regular. -/
theorem unanswered_not_repliesMatch :
    (∃ r, ServerInv 1 0 servedOne ∧
      Along ReplyState.step ReplyState.Regular
        (.start servedOne 1 (requestPage setPermsMissing) 0 fun _ => 0) (threadSteps 8) ∧
      run ReplyState.step (.start servedOne 1 (requestPage setPermsMissing) 0 fun _ => 0)
        (threadSteps 7) = some r ∧
      r.thread.pc = .process ∧ r.fault = some .nullEntry) ∧
    (∃ s r, ServerInv 1 0 s ∧
      Along ReplyState.step ReplyState.Regular
        (.start s 1 (requestPage []) 0 fun _ => 0) (threadSteps 3) ∧
      run ReplyState.step (.start s 1 (requestPage []) 0 fun _ => 0) (threadSteps 3) = some r ∧
      (∃ m, m.type = .error ∧ m.reqId = 0 ∧ r.thread.xenstore.queued = [m]) ∧
      ¬ RepliesMatch r.thread.xenstore) := by
  have hmissing : (run ReplyState.step
      (.start servedOne 1 (requestPage setPermsMissing) 0 fun _ => 0) (threadSteps 7)).map
      (fun r => (r.thread.pc, r.fault)) = some (.process, some .nullEntry) := by
    decide +kernel
  constructor
  · obtain ⟨r, hrun, hr⟩ := Option.map_eq_some_iff.mp hmissing
    rw [Prod.mk.injEq] at hr
    exact ⟨r, servedOne_inv, by decide +kernel, hrun, hr.1, hr.2⟩
  · have hlen : 4092 ≤ (List.replicate 4092 slash).length := by rw [List.length_replicate]
    obtain ⟨t, s', hstep, hreq, hpending, m, hm, hid, hq⟩ := wp_total (wp_events_tokenWatch hlen)
    obtain ⟨hall, hrun⟩ := run_to_events hstep
    refine ⟨_, _, tokenWatch_inv _, hall, hrun, ⟨m, hm, hid, hq⟩, fun h => ?_⟩
    have hreplies : t.xenstore.replies = [m] := by
      simp [Xenstore.replies, hq, hm]
    cases h with
    | all _ hmatch =>
      rw [hreq, hreplies] at hmatch
      cases hmatch
    | deferred _ _ hp => rw [hpending] at hp; cases hp

end Xenlib
