import Xenlib.Sessions

/-!
Transactions as the guest sees them: in the order of the messages put on its `out_list`, no
watch event and no second start stands between the reply to a granted XS_TRANSACTION_START and
the reply to the XS_TRANSACTION_END that closes it.
-/

set_option autoImplicit false

namespace Xenlib

open Machine

/-- A started transaction whose end was not told yet. -/
def OpenTransaction (q : List Message) : Prop :=
  ∃ before start after, q = before ++ start :: after ∧ start.type = .transactionStart ∧
    ∀ m ∈ after, m.type ≠ .transactionEnd

/-- Between the start of a transaction and a message of this type there is the end of a
transaction. -/
def ClosedBefore (type : XsdSockmsgType) (q : List Message) : Prop :=
  ∀ before start between m after, q = before ++ start :: (between ++ m :: after) →
    start.type = .transactionStart → m.type = type → ∃ e ∈ between, e.type = .transactionEnd

theorem closedBefore_concat {type : XsdSockmsgType} {q : List Message} {m : Message}
    (h : ClosedBefore type q) (hm : m.type = type → ¬ OpenTransaction q) :
    ClosedBefore type (q ++ [m]) := by
  intro before start between m' after heq hstart htype
  rcases List.eq_nil_or_concat after with rfl | ⟨after, last, rfl⟩
  · -- the message is the new one
    have hsplit : q ++ [m] = (before ++ start :: between) ++ [m'] := by simpa using heq
    obtain ⟨hq, hlast⟩ := List.append_inj' hsplit rfl
    cases hlast
    by_contra hnone
    refine hm htype ⟨before, start, between, hq, hstart, fun e he hend => ?_⟩
    exact hnone ⟨e, he, hend⟩
  · have hsplit : q ++ [m] = (before ++ start :: (between ++ m' :: after)) ++ [last] := by
      simpa using heq
    obtain ⟨hq, -⟩ := List.append_inj' hsplit rfl
    exact h before start between m' after hq hstart htype

theorem openTransaction_concat {q : List Message} {m : Message} (h : OpenTransaction (q ++ [m])) :
    m.type = .transactionStart ∨ (m.type ≠ .transactionEnd ∧ OpenTransaction q) := by
  obtain ⟨before, start, after, heq, hstart, hafter⟩ := h
  rcases List.eq_nil_or_concat after with rfl | ⟨after, last, rfl⟩
  · obtain ⟨-, hlast⟩ := List.append_inj' heq rfl
    cases hlast
    exact .inl hstart
  · have hsplit : q ++ [m] = (before ++ start :: after) ++ [last] := by simpa using heq
    obtain ⟨hq, hlast⟩ := List.append_inj' hsplit rfl
    cases hlast
    refine .inr ⟨hafter m (by simp), before, start, after, hq, hstart, fun e he => ?_⟩
    exact hafter e (by simp [he])

/-- The granted starts, as numbers told to the guest. -/
def Numbered (last : Nat) (q : List Message) : Prop :=
  ∃ ids : List Nat, (q.filter fun m => m.type = .transactionStart).map Message.payload =
      ids.map (fun n => strBytes (decimal n)) ∧
    ids.Pairwise (· < ·) ∧ ∀ n ∈ ids, 0 < n ∧ n ≤ last

theorem Numbered.other {last : Nat} {q : List Message} {m : Message} (h : Numbered last q)
    (hm : m.type ≠ .transactionStart) : Numbered last (q ++ [m]) := by
  obtain ⟨ids, hids, hlt, hpos⟩ := h
  refine ⟨ids, ?_, hlt, hpos⟩
  rw [List.filter_append, List.filter_cons_of_neg (by simpa using hm)]
  simpa using hids

theorem Numbered.next {last : Nat} {q : List Message} {m : Message} (h : Numbered last q)
    (htype : m.type = .transactionStart) (hpayload : m.payload = strBytes (decimal (last + 1))) :
    Numbered (last + 1) (q ++ [m]) := by
  obtain ⟨ids, hids, hlt, hpos⟩ := h
  refine ⟨ids ++ [last + 1], ?_, ?_, ?_⟩
  · rw [List.filter_append, List.map_append, hids, List.filter_cons_of_pos (by simpa using htype)]
    simp [hpayload]
  · refine List.pairwise_append.mpr ⟨hlt, List.pairwise_singleton _ _, ?_⟩
    intro n hn k hk
    have := (hpos n hn).2
    simp only [List.mem_singleton] at hk
    omega
  · intro n hn
    rcases List.mem_append.mp hn with hn | hn
    · have := hpos n hn
      omega
    · simp only [List.mem_singleton] at hn
      omega

theorem Numbered.mono {last last' : Nat} {q : List Message} (h : Numbered last q)
    (hle : last ≤ last') : Numbered last' q := by
  obtain ⟨ids, hids, hlt, hpos⟩ := h
  exact ⟨ids, hids, hlt, fun n hn => ⟨(hpos n hn).1, Nat.le_trans (hpos n hn).2 hle⟩⟩

/-- The XS_TRANSACTION_START requests so far, granted or not. -/
def Xenstore.starts (x : Xenstore) : Nat :=
  (x.requests.filter fun r => r.type = XsdSockmsgType.transactionStart.code).length

structure TransactionInv (t : Thread) : Prop where
  deferring : t.xenstore.pendingStopTransaction = true → t.pc.Deferring
  /-- What the guest takes for open is running, or its end is about to be told. -/
  running : OpenTransaction t.xenstore.queued →
    t.xenstore.runningTransaction ≠ 0 ∨ t.xenstore.pendingStopTransaction = true
  single : ClosedBefore .transactionStart t.xenstore.queued
  heldBack : ClosedBefore .watchEvent t.xenstore.queued
  counted : t.xenstore.transaction.toNat ≤ t.xenstore.starts
  numbered : Numbered t.xenstore.transaction.toNat t.xenstore.queued

section
variable {s : Shared} {t t' : Thread} {x x' : Xenstore} {pc pc' : Pc}

theorem TransactionInv.silent (h : TransactionInv t) (hx' : Silent t.xenstore t'.xenstore)
    (hpc : t.xenstore.pendingStopTransaction = true → t.pc.Deferring → t'.pc.Deferring) :
    TransactionInv t' where
  deferring hp := by
    rw [hx'.pendingStopTransaction] at hp
    exact hpc hp (h.deferring hp)
  running := by
    rw [hx'.queued, hx'.runningTransaction, hx'.pendingStopTransaction]
    exact h.running
  single := hx'.queued ▸ h.single
  heldBack := hx'.queued ▸ h.heldBack
  counted := by
    rw [hx'.transaction, Xenstore.starts, hx'.requests]
    exact h.counted
  numbered := by
    rw [hx'.transaction, hx'.queued]
    exact h.numbered

theorem TransactionInv.push (h : TransactionInv ⟨pc, x⟩) {m : Message}
    (hstart : m.type ≠ .transactionStart)
    (hevent : m.type = .watchEvent → ¬ OpenTransaction x.queued) :
    TransactionInv ⟨pc, x.push m⟩ where
  deferring := h.deferring
  running ho := by
    rcases openTransaction_concat ho with ho | ⟨-, ho⟩
    · exact absurd ho hstart
    · exact h.running ho
  single := closedBefore_concat h.single fun hm => absurd hm hstart
  heldBack := closedBefore_concat h.heldBack hevent
  counted := h.counted
  numbered := h.numbered.other hstart

theorem TransactionInv.closed (h : TransactionInv ⟨pc, x⟩) (hrun : x.runningTransaction = 0)
    (hpc : ¬ pc.Deferring) : ¬ OpenTransaction x.queued := by
  intro ho
  rcases h.running ho with hne | hp
  · exact hne hrun
  · exact hpc (h.deferring hp)

theorem TransactionInv.events (h : TransactionInv ⟨pc, x⟩) (hx' : Events x x')
    (hrun : x.runningTransaction = 0) (hpc : ¬ pc.Deferring) :
    TransactionInv ⟨pc, x'⟩ ∧ x'.runningTransaction = 0 := by
  induction hx' with
  | refl => exact ⟨h, hrun⟩
  | push x' m _ _ hm ih =>
    obtain ⟨hi, hrun'⟩ := ih
    refine ⟨hi.push ?_ fun _ => hi.closed hrun' hpc, hrun'⟩
    rcases hm with hm | hm <;> simp [hm]

theorem TransactionInv.dispatch (h : TransactionInv ⟨pc, x⟩) (r : Request) :
    TransactionInv ⟨pc, x.dispatch r⟩ where
  deferring := h.deferring
  running := h.running
  single := h.single
  heldBack := h.heldBack
  counted := by
    refine Nat.le_trans h.counted ?_
    simp only [Xenstore.starts, Xenstore.dispatch, List.filter_append, List.length_append]
    omega
  numbered := h.numbered

theorem TransactionInv.replied {short : Prop} (h : TransactionInv ⟨pc, x⟩)
    (hx' : Sent short Ordinary x x') : TransactionInv ⟨pc, x'⟩ := by
  cases hx' with
  | unsent _ => exact h
  | push m _ hm => exact h.push hm.1 fun he => absurd he hm.2.2
  | invalidated _ => exact h.silent (Silent.invalidated x) fun _ hd => hd

theorem TransactionInv.opened {short : Prop} (h : TransactionInv ⟨pc, x⟩)
    (hpc : ¬ pc.Deferring) (hrun : x.runningTransaction = 0)
    (hcount : x.transaction.toNat < x.starts) (hfew : x.starts < 2 ^ 31)
    (hx' : Sent short (Tells x.opened.runningTransaction) x.opened x') :
    TransactionInv ⟨pc, x'⟩ := by
  have hnumber : (x.transaction + 1).toNat = x.transaction.toNat + 1 := by
    rw [UInt32.toNat_add]
    exact Nat.mod_eq_of_lt (by simp; omega)
  have hne : x.transaction + 1 ≠ 0 := by
    intro h0
    rw [h0] at hnumber
    simp at hnumber
  have hclosed := h.closed hrun hpc
  have hopened : TransactionInv ⟨pc, x.opened⟩ := by
    refine ⟨h.deferring, fun _ => .inl hne, h.single, h.heldBack, ?_, ?_⟩
    · show (x.transaction + 1).toNat ≤ x.starts
      omega
    · show Numbered (x.transaction + 1).toNat x.queued
      rw [hnumber]
      exact h.numbered.mono (Nat.le_succ _)
  cases hx' with
  | unsent _ => exact hopened
  | invalidated _ => exact hopened.silent (Silent.invalidated x.opened) fun _ hd => hd
  | push m _ hm =>
    have hdecimal : m.payload = strBytes (decimal (x.transaction.toNat + 1)) := by
      rw [hm.payload, ← hnumber]
      exact congrArg strBytes (if_pos (by show (x.transaction + 1).toNat < 2 ^ 31; omega))
    refine ⟨h.deferring, fun _ => .inl hne, ?_, ?_, hopened.counted, ?_⟩
    · exact closedBefore_concat h.single fun _ => hclosed
    · exact closedBefore_concat h.heldBack fun _ => hclosed
    · show Numbered (x.transaction + 1).toNat (x.queued ++ [m])
      rw [hnumber]
      exact h.numbered.next hm.type hdecimal

theorem TransactionInv.closing (h : TransactionInv ⟨.process, x⟩) (id : UInt32) :
    TransactionInv ⟨.writeTest, x.closing id⟩ where
  deferring _ := show Pc.Deferring .writeTest by decide
  running _ := .inr rfl
  single := h.single
  heldBack := h.heldBack
  counted := h.counted
  numbered := h.numbered

theorem TransactionInv.ended {m : Message} (h : TransactionInv ⟨pc, x⟩)
    (hm : m.type = .transactionEnd) :
    TransactionInv ⟨.events, { x.push m with
      stopTransactionId := 0, pendingStopTransaction := false }⟩ where
  deferring hp := by cases hp
  running ho := by
    rcases openTransaction_concat ho with ho | ⟨hne, -⟩
    · rw [hm] at ho
      cases ho
    · exact absurd hm hne
  single := closedBefore_concat h.single fun he => by rw [hm] at he; cases he
  heldBack := closedBefore_concat h.heldBack fun he => by rw [hm] at he; cases he
  counted := h.counted
  numbered := h.numbered.other (by simp [hm])

theorem TransactionInv.goOn (h : TransactionInv ⟨pc, x⟩) (input : Option BufferedData)
    (hpc : pc'.Deferring ∨ x.pendingStopTransaction = false) :
    TransactionInv ⟨pc', { x with input := input }⟩ :=
  h.silent (Silent.ring x x.domint input x.written) fun hp _ =>
    hpc.resolve_right fun hf => by rw [show x.pendingStopTransaction = true from hp] at hf; cases hf

theorem Xenstore.starts_dispatch (x : Xenstore) {r : Request}
    (hr : r.type = XsdSockmsgType.transactionStart.code) :
    (x.dispatch r).starts = x.starts + 1 := by
  simp [Xenstore.starts, Xenstore.dispatch, hr]

theorem Sent.requests {short : Prop} {P : Message → Prop} (h : Sent short P x x') :
    x'.requests = x.requests := by
  cases h <;> rfl

theorem Events.requests (h : Events x x') : x'.requests = x.requests := by
  induction h with
  | refl => rfl
  | push x' m _ _ _ ih => exact ih

theorem TransactionInv.move (h : TransactionInv t) (hmove : Move s t t')
    (hmem : false ∉ s.allocs) (hlim : BelowLimit t.xenstore)
    (hfew : t'.xenstore.starts < 2 ^ 31) : TransactionInv t' := by
  cases hmove with
  | silent _ _ hx' hpc => exact h.silent hx' hpc
  | told x x' hrun hx' =>
    obtain ⟨hi, -⟩ := h.events hx' hrun (by decide)
    have hpending : x'.pendingStopTransaction = false := by
      by_contra hp
      exact absurd (hi.deferring (by simpa using hp)) (show ¬ Pc.Deferring .events by decide)
    exact hi.goOn x'.input (.inr hpending)
  | ended x x' hp hx' =>
    cases hx' with
    | unsent hshort => exact absurd hshort hmem
    | invalidated habove => exact absurd hlim habove
    | push m _ hm => exact h.ended hm
  | processed x x' inp input hin hx' =>
    have hnoted := h.dispatch inp.request
    cases hx' with
    | replied x' _ hx' => exact (hnoted.replied hx').goOn input (.inl (by decide))
    | closing id _ => exact (hnoted.closing id).goOn input (.inl (by decide))
    | opened x' htype hrun hx' =>
      have hcount : (x.dispatch inp.request).transaction.toNat <
          (x.dispatch inp.request).starts := by
        have := h.counted
        rw [Xenstore.starts_dispatch x htype]
        exact Nat.lt_succ_of_le this
      have hstarts : (x.dispatch inp.request).starts < 2 ^ 31 := by
        rw [Xenstore.starts,
          ← show x'.requests = (x.dispatch inp.request).requests from hx'.requests]
        exact hfew
      exact (hnoted.opened (by decide) hrun hcount hstarts hx').goOn input (.inl (by decide))

end

/-- Allocations succeed, and the output limit is not reached. -/
def Session.Unhindered (r : Session) : SessionAction → Prop
  | .thread => false ∉ r.shared.allocs ∧ BelowLimit r.thread.xenstore
  | .guest _ | .stop | .other _ => True

theorem Move.starts_le {s : Shared} {t t' : Thread} (h : Move s t t') :
    t.xenstore.starts ≤ t'.xenstore.starts := by
  have hle : ∀ {x x' : Xenstore}, x'.requests = x.requests → x.starts ≤ x'.starts := by
    intro x x' hx'
    rw [Xenstore.starts, Xenstore.starts, hx']
  cases h with
  | silent _ _ hx' _ => exact hle hx'.requests
  | told x x' _ hx' => exact hle hx'.requests
  | ended x x' _ hx' => exact hle hx'.requests
  | processed x x' inp input _ hx' =>
    have hnoted : x.starts ≤ (x.dispatch inp.request).starts := by
      simp only [Xenstore.starts, Xenstore.dispatch, List.filter_append, List.length_append]
      omega
    refine Nat.le_trans hnoted ?_
    cases hx' with
    | replied x' _ hx' => exact hle hx'.requests
    | opened x' _ _ hx' => exact hle hx'.requests
    | closing id _ => exact Nat.le_refl _

/-- The invariant as long as there are few starts; there were no more of them before. -/
theorem TransactionInv.step {r r' : Session} {a : SessionAction}
    (h : r.thread.xenstore.starts < 2 ^ 31 → TransactionInv r.thread) (hfree : r.Unhindered a)
    (hstep : r.step a = some r') :
    r'.thread.xenstore.starts < 2 ^ 31 → TransactionInv r'.thread := by
  intro hfew
  rcases Session.step_cases hstep with ⟨rfl, hmove⟩ | ⟨hsilent, hpc⟩
  · have hbefore := h (Nat.lt_of_le_of_lt hmove.starts_le hfew)
    exact hbefore.move hmove hfree.1 hfree.2 hfew
  · rw [Xenstore.starts, hsilent.requests] at hfew
    exact (h hfew).silent hsilent fun _ hd => hpc.symm ▸ hd

theorem TransactionInv.start (domid : UInt32) (domint : XenstoreDomainInterface) (slot : Nat)
    (stackWord : Nat → UInt32) :
    TransactionInv ⟨.loopTest, .started domid domint slot stackWord⟩ where
  deferring hp := by cases hp
  running ho := by
    obtain ⟨before, start, after, heq, -⟩ := ho
    simp [Xenstore.started] at heq
  single _ _ _ _ _ heq := by simp [Xenstore.started] at heq
  heldBack _ _ _ _ _ heq := by simp [Xenstore.started] at heq
  counted := Nat.le_refl _
  numbered := ⟨[], rfl, .nil, fun _ hn => absurd hn List.not_mem_nil⟩

/-- The messages of a run: transactions are told one after the other, with growing numbers, and
no event stands inside one. -/
theorem run_transactions {s : Shared} {domid : UInt32} {domint : XenstoreDomainInterface}
    {slot : Nat} {stackWord : Nat → UInt32} {as : List SessionAction} {r : Session}
    (hfree : Along Session.step Session.Unhindered (.start s domid domint slot stackWord) as)
    (hrun : run Session.step (.start s domid domint slot stackWord) as = some r)
    (hfew : r.thread.xenstore.starts < 2 ^ 31 - 1) :
    ClosedBefore .transactionStart r.thread.xenstore.queued ∧
      ClosedBefore .watchEvent r.thread.xenstore.queued ∧
      ∃ ids : List Nat,
        (r.thread.xenstore.queued.filter fun m => m.type = .transactionStart).map Message.payload =
          ids.map (fun n => strBytes (decimal n)) ∧
        ids.Pairwise (· < ·) ∧ ∀ n ∈ ids, 0 < n ∧ n < 2 ^ 31 := by
  have h := run_invariant
    (I := fun r => r.thread.xenstore.starts < 2 ^ 31 → TransactionInv r.thread)
    (fun _ _ _ h hc hstep => TransactionInv.step h hc hstep)
    (fun _ => TransactionInv.start domid domint slot stackWord) hfree hrun (by omega)
  obtain ⟨ids, hids, hlt, hpos⟩ := h.numbered
  refine ⟨h.single, h.heldBack, ids, hids, hlt, fun n hn => ⟨(hpos n hn).1, ?_⟩⟩
  have := (hpos n hn).2
  have := h.counted
  omega

instance (r : Session) (a : SessionAction) : Decidable (r.Unhindered a) :=
  match a with
  | .thread => inferInstanceAs (Decidable (_ ∧ _))
  | .guest _ | .stop | .other _ => isTrue trivial

/-- XS_TRANSACTION_START, and XS_TRANSACTION_END with the answer that changes are kept. -/
def startThenEnd : Bytes :=
  XsdSockmsg.bytes ⟨6, 1, 0, 1⟩ ++ [0] ++ XsdSockmsg.bytes ⟨7, 2, 1, 2⟩ ++ [84, 0]

/-- Another domain writes below the watched node while the transaction is open. -/
def eventInside : List SessionAction :=
  List.replicate 11 .thread ++ .other (tokenWatch (ascii ['t'])) :: List.replicate 12 .thread

theorem run_transactions_eventInside : ∃ r,
    run Session.step (.start servedOne 1 (requestPage startThenEnd) 0 fun _ => 0) eventInside =
      some r ∧
    r.thread.xenstore.queued.map Message.type = [.transactionStart, .transactionEnd, .watchEvent] ∧
    ClosedBefore .watchEvent r.thread.xenstore.queued := by
  have hvals : (run Session.step (.start servedOne 1 (requestPage startThenEnd) 0 fun _ => 0)
      eventInside).map
        (fun r => (r.thread.xenstore.queued.map Message.type, r.thread.xenstore.starts)) =
      some ([.transactionStart, .transactionEnd, .watchEvent], 1) := by
    decide +kernel
  have hfree : Along Session.step Session.Unhindered
      (.start servedOne 1 (requestPage startThenEnd) 0 fun _ => 0) eventInside := by
    decide +kernel
  obtain ⟨r, hrun, hr⟩ := Option.map_eq_some_iff.mp hvals
  rw [Prod.mk.injEq] at hr
  have hfew : r.thread.xenstore.starts < 2 ^ 31 - 1 := by
    rw [hr.2]
    decide
  exact ⟨r, hrun, hr.1, (run_transactions hfree hrun hfew).2.1⟩

end Xenlib
