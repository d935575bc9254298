import Xenlib.Decimal
import Xenlib.Replies

/-!
One client over whole runs, whatever the rest of the server does: between two steps of its
thread the guest writes to the ring page and the shared state becomes any other. A step of the
thread is reduced to what it does to the output and to the transaction of the client.
-/

set_option autoImplicit false

namespace Xenlib

open Wp Machine

structure Session where
  shared : Shared
  thread : Thread

inductive SessionAction where
  /-- The guest writes to its ring page, whatever it likes. -/
  | guest (page : XenstoreDomainInterface)
  | thread
  /-- `put_domain` asks the thread to stop. -/
  | stop
  /-- Dom0 and the threads of other domains, with the outcomes of the allocations to come. -/
  | other (s : Shared)

def Session.step (r : Session) : SessionAction → Option Session
  | .guest page =>
    some { r with thread := { r.thread with
      xenstore := { r.thread.xenstore with domint := page } } }
  | .thread =>
    match threadStep r.thread r.shared with
    | .error _ => none
    | .ok (t, s) => some ⟨s, t⟩
  | .stop =>
    some { r with thread := { r.thread with
      xenstore := { r.thread.xenstore with thrdStop := true } } }
  | .other s => some { r with shared := s }

/-- The thread of a client that `start_domain_stored` has set up. -/
def Session.start (s : Shared) (domid : UInt32) (domint : XenstoreDomainInterface) (slot : Nat)
    (stackWord : Nat → UInt32) : Session :=
  ⟨s, .loopTest, .started domid domint slot stackWord⟩

/-- What sending a reply comes to; `short` says that memory may be short. -/
inductive Sent (short : Prop) (P : Message → Prop) (x : Xenstore) : Xenstore → Prop where
  | unsent (hs : short) : Sent short P x x
  | push (m : Message) (hlim : BelowLimit x) (hm : P m) : Sent short P x (x.push m)
  | invalidated (hlim : ¬ BelowLimit x) : Sent short P x x.invalidated

section Replies
variable {x : Xenstore} {P : Message → Prop} {s : Shared}

theorem Sent.mono {short short' : Prop} {P' : Message → Prop} {x' : Xenstore}
    (h : Sent short P x x') (hs : short → short') (hP : ∀ m, P m → P' m) :
    Sent short' P' x x' := by
  cases h with
  | unsent h => exact .unsent (hs h)
  | push m hlim hm => exact .push m hlim (hP m hm)
  | invalidated hlim => exact .invalidated hlim

theorem wp_invalidateClient_sent {short : Prop} (hlim : ¬ BelowLimit x) :
    wp (invalidateClient x) (fun x' _ => Sent short P x x') (fun _ => True) s :=
  wp_releaseDomainStored (fun _ _ _ => .invalidated hlim) (fun _ => trivial) (fun _ => trivial)

theorem wp_sendErrno_sent (id : UInt32) (err : Errno) (hP : ∀ m, m.type = .error → P m) :
    wp (sendErrno x id err) (fun x' _ => Sent (false ∈ s.allocs) P x x') (fun _ => True) s := by
  by_cases hlim : BelowLimit x
  · exact wp_sendErrno hlim (fun _ _ _ => .push _ hlim (hP _ rfl)) (fun _ _ hm => .unsent hm)
  · unfold sendErrno sendReplyOr
    rw [if_pos (Int.not_le.mp hlim)]
    exact wp_invalidateClient_sent hlim

theorem wp_sendReplySz_sent {id : UInt32} {type : XsdSockmsgType} {data : Bytes}
    (hP : ∀ m, ReplyTo id type data m → P m) :
    wp (sendReplySz x id type data) (fun x' _ => Sent (false ∈ s.allocs) P x x')
      (fun _ => True) s := by
  by_cases hlim : BelowLimit x
  · exact wp_sendReplySz hlim (fun m _ _ hm => .push m hlim (hP m hm)) (fun _ _ hm => .unsent hm)
  · unfold sendReplySz sendReplyOr
    rw [if_pos (Int.not_le.mp hlim)]
    exact wp_invalidateClient_sent hlim

theorem ReplyTo.type_or {id : UInt32} {type : XsdSockmsgType} {data : Bytes} {m : Message}
    (h : ReplyTo id type data m) : m.type = type ∨ m.type = .error := by
  rcases Nat.lt_or_ge xenstorePayloadMax data.length with hbig | hfits
  · exact .inr (h.tooBig hbig).1
  · exact .inl (h.fits hfits).1

end Replies

/-- The reply that tells the guest the number of its transaction. -/
structure Tells (number : UInt32) (m : Message) : Prop where
  type : m.type = .transactionStart
  payload : m.payload = strBytes (decimalInt number)

def Ordinary (m : Message) : Prop :=
  m.type ≠ .transactionStart ∧ m.type ≠ .transactionEnd ∧ m.type ≠ .watchEvent

/-- What a request does to its client: an ordinary reply, the start of a transaction, or the
note that one has ended. -/
inductive Handled (type : UInt32) (x : Xenstore) : Xenstore → Prop where
  | replied (x' : Xenstore) (htype : type ≠ XsdSockmsgType.transactionEnd.code)
      (h : Sent True Ordinary x x') : Handled type x x'
  | opened (x' : Xenstore) (htype : type = XsdSockmsgType.transactionStart.code)
      (hrun : x.runningTransaction = 0)
      (h : Sent True (Tells x.opened.runningTransaction) x.opened x') : Handled type x x'
  | closing (id : UInt32) (htype : type = XsdSockmsgType.transactionEnd.code) :
      Handled type x (x.closing id)

theorem decimalInt_fits (n : UInt32) :
    (strBytes (decimalInt n)).length ≤ xenstorePayloadMax := by
  have hlen := decimalInt_length_le n
  rw [strBytes_length, xenstorePayloadMax]
  omega

/-- If the program comes to an end, its result meets `Q`. -/
abbrev Yields {α : Type} (p : SrvM α) (Q : α → Prop) : Prop := KeepsSlots (fun _ => True) p Q

section Requests
variable {x : Xenstore}

theorem yields_of_wp {α : Type} {p : SrvM α} {Q : α → Prop}
    (h : ∀ s, wp p (fun a _ => Q a) (fun _ => True) s) : Yields p Q :=
  fun s _ => wp_conseq (h s) fun _ _ ha => ⟨ha, trivial⟩

theorem yields_errno (id : UInt32) (err : Errno) :
    Yields (sendErrno x id err) (Sent True Ordinary x) := by
  refine yields_of_wp fun s => wp_conseq (wp_sendErrno_sent (P := Ordinary) id err ?_)
    fun x' _ hx' => hx'.mono (fun _ => trivial) fun _ hm => hm
  intro m hm
  simp [Ordinary, hm]

theorem yields_sendReplySz {P : Message → Prop} {id : UInt32} {type : XsdSockmsgType} {data : Bytes}
    (hP : ∀ m, ReplyTo id type data m → P m) :
    Yields (sendReplySz x id type data) (Sent True P x) :=
  yields_of_wp fun _ => wp_conseq (wp_sendReplySz_sent hP)
    fun _ _ hx' => hx'.mono (fun _ => trivial) fun _ hm => hm

theorem yields_reply {type : XsdSockmsgType} (id : UInt32) (data : Bytes)
    (ht : type ∉ [.transactionStart, .transactionEnd, .watchEvent]) :
    Yields (sendReplySz x id type data) (Sent True Ordinary x) := by
  refine yields_sendReplySz fun m hm => ?_
  rcases hm.type_or with hm | hm
  · simpa [Ordinary, hm] using ht
  · simp [Ordinary, hm]

theorem yields_opening (id : UInt32) (number : UInt32) :
    Yields (sendReply x id .transactionStart (decimalInt number)) (Sent True (Tells number) x) := by
  refine yields_sendReplySz fun m hm => ?_
  exact ⟨(hm.fits (decimalInt_fits number)).1, (hm.fits (decimalInt_fits number)).2⟩

theorem yields_messageHandle {type : UInt32} {h : Handler} (hh : messageHandle type = some h)
    (id : UInt32) (payload : Bytes) : Yields (h x id payload) (Handled type x) := by
  refine replies_messageHandle hh payload (fun htype err => ?_) (fun t data hcode ht => ?_)
    (fun htype hrun => ?_) fun htype => .closing id htype
  · exact (yields_errno id err).mono fun x' hx' => .replied x' htype hx'
  · refine (yields_reply id data ht).mono fun x' hx' => .replied x' ?_ hx'
    rintro rfl
    exact ht (by cases t <;> first | decide | cases hcode)
  · exact (yields_opening id _).mono fun x' hx' => .opened x' htype hrun hx'

theorem yields_processMessage {inp : BufferedData} (hin : x.input = some inp) :
    Yields (processMessage x) fun x' => ∃ x₁ input,
      Handled inp.request.type (x.dispatch inp.request) x₁ ∧ x' = { x₁ with input := input } := by
  refine yields_of_wp fun s => wp_processMessage hin (fun hno => ?_) (fun h hh => ?_)
  · refine wp_conseq (yields_errno 0 .enosys s trivial) fun x' _ hx' => ?_
    refine ⟨x', x'.input, .replied x' ?_ hx'.1, rfl⟩
    intro hend
    rw [hend] at hno
    cases hno
  · refine wp_conseq (yields_messageHandle hh _ _ s trivial) fun x' _ hx' => ?_
    exact ⟨fun _ => trivial, fun _ => ⟨x', none, hx'.1, rfl⟩⟩

end Requests

/-- Events were queued, each below the limit of events; one that does not fit is an error. -/
inductive Events (x : Xenstore) : Xenstore → Prop where
  | refl : Events x x
  | push (x' : Xenstore) (m : Message) (h : Events x x')
      (hlim : x'.usedOutBufs < xenstoreMaxOutBufNum)
      (hm : m.type = .watchEvent ∨ m.type = .error) : Events x (x'.push m)

section Events
variable {x : Xenstore}

theorem Events.trans {x' x'' : Xenstore} (h : Events x x') (h' : Events x' x'') : Events x x'' := by
  induction h' with
  | refl => exact h
  | push x'' m _ hlim hm ih => exact .push x'' m ih hlim hm

theorem yields_fireWatcher (event : PendingWatchEvent) :
    Yields (fireWatcher x event) fun r => Events x r.1 := by
  refine Holds.get.bind fun s _ => ?_
  cases hw : s.watches.find? fun w => w.id = event.watch with
  | none => exact Holds.pure .refl
  | some watch =>
    refine Holds.ite (fun _ => Holds.pure .refl) fun _ => ?_
    refine Holds.ite (fun _ => Holds.throw trivial) fun _ => ?_
    refine Holds.ite (fun _ => Holds.pure .refl) fun hlim => ?_
    refine (slots_lift _).bind fun payload _ => (slots_alloc _).bind fun b _ => ?_
    refine Holds.ite (fun _ => Holds.pure .refl) fun _ => ?_
    have hlim : x.usedOutBufs < xenstoreMaxOutBufNum := by omega
    refine (yields_sendReplySz fun m hm => hm.type_or).bind fun x' hx' => Holds.pure ?_
    cases hx' with
    | unsent _ => exact .refl
    | push m _ hm => exact .push x m .refl hlim hm
    | invalidated habove =>
      unfold BelowLimit at habove
      omega

theorem yields_pendingWatchLoop (events : List PendingWatchEvent) :
    Yields (pendingWatchLoop events x) fun r => Events x r.1 := by
  induction events generalizing x with
  | nil => exact Holds.pure .refl
  | cons iter rest ih =>
    refine Holds.ite (fun _ => ih.bind fun r hr => Holds.pure hr) fun _ => ?_
    refine (yields_fireWatcher iter).bind fun r hr => ?_
    obtain ⟨x', e⟩ := r
    cases e with
    | some e => exact Holds.pure hr
    | none => exact ih.mono fun r' hr' => hr.trans hr'

theorem yields_processPendingWatchEvents :
    Yields (processPendingWatchEvents x) (Events x) :=
  Holds.get.bind fun _ _ => (yields_pendingWatchLoop _).bind fun _ hr =>
    Holds.bind (slots_modify fun _ => rfl) fun _ _ => Holds.pure hr

end Events

/-- `used_out_bufs` counts the buffers of `out_list`. -/
def Xenstore.Tidy (x : Xenstore) : Prop := x.usedOutBufs = x.outList.length

/-- Nothing was queued, and nothing happened to a transaction; buffers may be gone. -/
structure Silent (x x' : Xenstore) : Prop where
  queued : x'.queued = x.queued
  requests : x'.requests = x.requests
  transaction : x'.transaction = x.transaction
  runningTransaction : x'.runningTransaction = x.runningTransaction
  pendingStopTransaction : x'.pendingStopTransaction = x.pendingStopTransaction
  shrinks : x.Tidy → x'.Tidy ∧ x'.outList.length ≤ x.outList.length

section Rings
variable {x : Xenstore}

theorem Silent.refl (x : Xenstore) : Silent x x :=
  ⟨rfl, rfl, rfl, rfl, rfl, fun h => ⟨h, Nat.le_refl _⟩⟩

theorem Silent.trans {x' x'' : Xenstore} (h : Silent x x') (h' : Silent x' x'') : Silent x x'' where
  queued := h'.queued.trans h.queued
  requests := h'.requests.trans h.requests
  transaction := h'.transaction.trans h.transaction
  runningTransaction := h'.runningTransaction.trans h.runningTransaction
  pendingStopTransaction := h'.pendingStopTransaction.trans h.pendingStopTransaction
  shrinks ht := by
    obtain ⟨ht', hle⟩ := h.shrinks ht
    obtain ⟨ht'', hle'⟩ := h'.shrinks ht'
    exact ⟨ht'', Nat.le_trans hle' hle⟩

theorem Silent.ring (x : Xenstore) (domint : XenstoreDomainInterface)
    (input : Option BufferedData) (written : Bytes) :
    Silent x { x with domint := domint, input := input, written := written } :=
  ⟨rfl, rfl, rfl, rfl, rfl, fun h => ⟨h, Nat.le_refl _⟩⟩

theorem Silent.invalidated (x : Xenstore) : Silent x x.invalidated := by
  refine ⟨rfl, rfl, rfl, rfl, rfl, fun h => ⟨?_, Nat.zero_le _⟩⟩
  show x.usedOutBufs - x.outList.length = 0
  unfold Xenstore.Tidy at h
  omega

theorem yields_invalidateClient : Yields (invalidateClient x) (Silent x) :=
  yields_of_wp fun _ => wp_releaseDomainStored (fun _ _ _ => Silent.invalidated x)
    (fun _ => trivial) (fun _ => trivial)

theorem yields_allocInput : Yields (allocInput x) fun r => Silent x r.1 := by
  unfold allocInput
  cases x.input with
  | some inp => exact Holds.pure (Silent.refl x)
  | none =>
    have hbad : Yields (do pure (← invalidateClient x, none))
        fun r : Xenstore × Option BufferedData => Silent x r.1 :=
      yields_invalidateClient.bind fun _ hx' => Holds.pure hx'
    refine (slots_alloc _).bind fun _ _ => Holds.ite (fun _ => hbad) fun _ => ?_
    refine (slots_alloc _).bind fun _ _ => Holds.ite (fun _ => hbad) fun _ => ?_
    exact Holds.pure (Silent.ring x x.domint _ x.written)

theorem yields_readInput (inp : BufferedData) (limit : Nat) :
    Yields (readInput x inp limit) fun r => Silent x r.1 := by
  refine Holds.ite (fun _ => Holds.throw trivial) fun _ => ?_
  cases xenstoreRingRead x.domint (limit - inp.used) false with
  | error e => exact yields_invalidateClient.bind fun _ hx' => Holds.pure hx'
  | ok r => exact Holds.pure (Silent.ring x _ _ x.written)

theorem yields_inputHeader : Yields (inputHeader x) fun r => Silent x r.1 := by
  refine yields_allocInput.bind fun r hr => ?_
  obtain ⟨x₁, inp⟩ := r
  cases inp with
  | none => exact Holds.pure hr
  | some inp =>
    refine Holds.ite (fun _ => Holds.pure hr) fun _ => ?_
    refine (yields_readInput inp headerSize).bind fun r₂ hr₂ => ?_
    obtain ⟨x₂, inp₂⟩ := r₂
    have hr₂ := hr.trans hr₂
    cases inp₂ with
    | none => exact Holds.pure hr₂
    | some inp₂ =>
      refine Holds.ite (fun _ => Holds.pure hr₂) fun _ => ?_
      refine Holds.ite (fun _ => Holds.pure (hr₂.trans (Silent.ring x₂ _ _ _))) fun _ => ?_
      refine (slots_alloc _).bind fun _ _ => Holds.ite (fun _ => ?_) fun _ => ?_
      · exact yields_invalidateClient.bind fun _ hx' => Holds.pure (hr₂.trans hx')
      · exact Holds.pure (hr₂.trans (Silent.ring x₂ _ _ _))

theorem yields_inputPayload : Yields (inputPayload x) fun r => Silent x r.1 := by
  unfold inputPayload
  cases x.input with
  | none => exact Holds.throw trivial
  | some inp =>
    refine (yields_readInput inp inp.totalSize).bind fun r hr => ?_
    obtain ⟨x', inp'⟩ := r
    cases inp' with
    | none => exact Holds.pure hr
    | some inp' => exact Holds.pure hr

theorem yields_handleOutput : Yields (handleOutput x) (Silent x) := by
  unfold handleOutput
  cases hout : x.outList with
  | nil => exact Holds.pure (Silent.refl x)
  | cons out rest =>
    have hlen : x.outList.length = rest.length + 1 := by rw [hout, List.length_cons]
    refine Holds.ite (fun _ => Holds.throw trivial) fun _ => ?_
    dsimp only
    cases xenstoreRingWrite x.domint ((out.buffer.drop out.used).take (out.totalSize - out.used))
        false with
    | error e => exact yields_invalidateClient
    | ok r =>
      obtain ⟨ret, domint⟩ := r
      refine Holds.ite (fun _ => Holds.pure ?_) fun _ => ?_
      · refine ⟨rfl, rfl, rfl, rfl, rfl, fun h => ⟨?_, ?_⟩⟩
        · show x.usedOutBufs = ((rest.length + 1 : Nat) : Int)
          rw [← hlen]
          exact h
        · rw [hlen]
          exact Nat.le_refl _
      · refine Holds.ite (fun _ => Holds.throw trivial) fun _ => Holds.pure ?_
        refine ⟨rfl, rfl, rfl, rfl, rfl, fun h => ⟨?_, ?_⟩⟩
        · show x.usedOutBufs - 1 = (rest.length : Int)
          unfold Xenstore.Tidy at h
          omega
        · show rest.length ≤ x.outList.length
          omega

end Rings

/-- What a step of the thread can do. A note of an ended transaction is kept until the reply. -/
inductive Move (s : Shared) : Thread → Thread → Prop where
  | ended (x x' : Xenstore) (hp : x.pendingStopTransaction = true)
      (h : Sent (false ∈ s.allocs) (fun m => m.type = .transactionEnd) x x') :
      Move s ⟨.endTransaction, x⟩
        ⟨.events, { x' with stopTransactionId := 0, pendingStopTransaction := false }⟩
  | told (x x' : Xenstore) (hrun : x.runningTransaction = 0) (h : Events x x') :
      Move s ⟨.events, x⟩ ⟨.idle, x'⟩
  | processed (x x' : Xenstore) (inp : BufferedData) (input : Option BufferedData)
      (hin : x.input = some inp) (h : Handled inp.request.type (x.dispatch inp.request) x') :
      Move s ⟨.process, x⟩ ⟨.writeTest, { x' with input := input }⟩
  | silent (t t' : Thread) (h : Silent t.xenstore t'.xenstore)
      (hpc : t.xenstore.pendingStopTransaction = true → t.pc.Deferring → t'.pc.Deferring) :
      Move s t t'

instance (pc : Pc) : Decidable pc.Deferring := inferInstanceAs (Decidable (pc ∈ _))

theorem Move.stay {s : Shared} {x : Xenstore} {pc pc' : Pc}
    (hpc : pc.Deferring → pc'.Deferring) : Move s ⟨pc, x⟩ ⟨pc', x⟩ :=
  .silent _ _ (Silent.refl x) fun _ => hpc

theorem threadStep_move (t : Thread) (s : Shared) :
    wp (threadStep t) (fun t' _ => Move s t t') (fun _ => True) s := by
  obtain ⟨pc, x⟩ := t
  have hring : ∀ {p : SrvM Xenstore} {pc' : Pc}, Yields p (Silent x) →
      (pc.Deferring → pc'.Deferring) →
      wp p (fun x' _ => Move s ⟨pc, x⟩ ⟨pc', x'⟩) (fun _ => True) s := by
    intro p pc' hp hpc
    exact wp_conseq (hp s trivial) fun x' _ hx' => .silent _ _ hx'.1 fun _ => hpc
  have hinput : ∀ {p : SrvM (Xenstore × Bool)} {more : Pc}, Yields p (fun r => Silent x r.1) →
      ¬ pc.Deferring → wp p (fun r _ => Move s ⟨pc, x⟩ ⟨if r.2 then more else .writeTest, r.1⟩)
        (fun _ => True) s := by
    intro p more hp hpc
    exact wp_conseq (hp s trivial) fun r _ hr => .silent _ _ hr.1 fun _ hd => absurd hd hpc
  cases pc with
  | loopTest =>
    refine .stay fun _ => ?_
    split <;> decide
  | endTransaction =>
    simp only [threadStep, wp_bind, wp_pure, sendTransactionEnd]
    by_cases hp : x.pendingStopTransaction = true
    · rw [if_pos hp, wp_bind]
      refine wp_conseq (wp_sendReplySz_sent fun m hm => (hm.fits (by decide)).1) ?_
      exact fun x' _ hx' => .ended x x' hp hx'
    · rw [if_neg hp]
      exact .silent _ _ (Silent.refl x) fun hp' => absurd hp' hp
  | events =>
    simp only [threadStep]
    refine wp_ite (fun hrun => ?_) fun _ => .stay (by decide)
    simp only [wp_bind, wp_pure]
    exact wp_conseq (yields_processPendingWatchEvents s trivial) fun x' _ hx' =>
      .told x x' hrun hx'.1
  | idle =>
    simp only [threadStep, wp_bind]
    refine wp_lift (fun b _ => wp_ite (fun _ => .stay (by decide)) fun _ => ?_)
      fun _ _ => trivial
    rw [wp_bind]
    exact wp_lift (fun _ _ => .stay (by decide)) fun _ _ => trivial
  | readTest =>
    simp only [threadStep, wp_bind]
    refine wp_lift (fun b _ => .stay fun hd => ?_) fun _ _ => trivial
    exact absurd hd (by decide)
  | header =>
    simp only [threadStep, wp_bind, wp_pure]
    exact hinput yields_inputHeader (by decide)
  | payload =>
    simp only [threadStep, wp_bind, wp_pure]
    exact hinput yields_inputPayload (by decide)
  | process =>
    simp only [threadStep, wp_bind, wp_pure]
    cases hin : x.input with
    | none =>
      unfold processMessage
      rw [hin]
      trivial
    | some inp =>
      refine wp_conseq (yields_processMessage hin s trivial) fun x' _ hx' => ?_
      obtain ⟨⟨x₁, input, hx₁, rfl⟩, -⟩ := hx'
      exact .processed x x₁ inp input hin hx₁
  | writeTest =>
    simp only [threadStep, wp_bind]
    refine wp_lift (fun b _ => .stay fun _ => ?_) fun _ _ => trivial
    split <;> decide
  | output =>
    simp only [threadStep, wp_bind, wp_pure]
    exact hring yields_handleOutput (by decide)
  | cleanup => exact .stay (by decide)
  | dead => exact .stay (by decide)

/-- A step of the thread, or one that the client does not notice. -/
theorem Session.step_cases {r r' : Session} {a : SessionAction} (h : r.step a = some r') :
    (a = .thread ∧ Move r.shared r.thread r'.thread) ∨
      (Silent r.thread.xenstore r'.thread.xenstore ∧ r'.thread.pc = r.thread.pc) := by
  cases a with
  | guest page =>
    cases h
    exact .inr ⟨Silent.ring _ page _ _, rfl⟩
  | stop =>
    cases h
    exact .inr ⟨⟨rfl, rfl, rfl, rfl, rfl, fun ht => ⟨ht, Nat.le_refl _⟩⟩, rfl⟩
  | other s =>
    cases h
    exact .inr ⟨Silent.refl _, rfl⟩
  | thread =>
    simp only [Session.step] at h
    split at h
    · cases h
    · case h_2 t s hstep =>
      cases h
      have hmove : Move r.shared r.thread t := by
        have := threadStep_move r.thread r.shared
        simpa only [wp, hstep] using this
      exact .inl ⟨rfl, hmove⟩

end Xenlib
