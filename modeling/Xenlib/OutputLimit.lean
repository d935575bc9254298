import Xenlib.Sessions

/-!
The number of buffers a client has on its `out_list`. Events are queued while there are less
than `XENSTORE_MAX_OUT_BUF_NUM`, replies are sent up to that number, so that a reply can bring
one buffer more.
-/

set_option autoImplicit false

namespace Xenlib

open Machine

/-- The step does not send a reply over `XENSTORE_MAX_OUT_BUF_NUM` buffers. -/
def Thread.Roomy (t : Thread) : Prop :=
  match t.pc with
  | .endTransaction => t.xenstore.pendingStopTransaction = true →
      t.xenstore.usedOutBufs < xenstoreMaxOutBufNum
  | .process => ∀ inp ∈ t.xenstore.input,
      inp.request.type = XsdSockmsgType.transactionEnd.code ∨
        t.xenstore.usedOutBufs < xenstoreMaxOutBufNum
  | _ => True

def Session.Roomy (r : Session) : SessionAction → Prop
  | .thread => r.thread.Roomy
  | .guest _ | .stop | .other _ => True

/-- The counter is right, and the buffers are at most `bound`. -/
structure OutBufs (bound : Int) (x : Xenstore) : Prop where
  tidy : x.Tidy
  le : x.usedOutBufs ≤ bound

section
variable {bound : Int} {x x' : Xenstore}

theorem OutBufs.push (h : OutBufs bound x) (hlt : x.usedOutBufs < bound) (m : Message) :
    OutBufs bound (x.push m) := by
  have ht := h.tidy
  refine ⟨?_, ?_⟩
  · show x.usedOutBufs + 1 = ((x.outList ++ [_]).length : Int)
    unfold Xenstore.Tidy at ht
    simp [ht]
  · show x.usedOutBufs + 1 ≤ bound
    omega

theorem OutBufs.silent (h : OutBufs bound x) (hx' : Silent x x') : OutBufs bound x' := by
  obtain ⟨ht, hle⟩ := hx'.shrinks h.tidy
  have hbound := h.le
  rw [h.tidy] at hbound
  refine ⟨ht, ?_⟩
  rw [ht]
  omega

/-- A reply adds a buffer, if at all, where there are at most `XENSTORE_MAX_OUT_BUF_NUM`. -/
theorem OutBufs.sent {short : Prop} {P : Message → Prop} (h : OutBufs bound x)
    (hx' : Sent short P x x') (hroom : BelowLimit x → x.usedOutBufs < bound) :
    OutBufs bound x' := by
  cases hx' with
  | unsent _ => exact h
  | push m hlim _ => exact h.push (hroom hlim) m
  | invalidated _ => exact h.silent (Silent.invalidated x)

theorem OutBufs.events (h : OutBufs bound x) (hx' : Events x x')
    (hbound : xenstoreMaxOutBufNum ≤ bound) : OutBufs bound x' := by
  induction hx' with
  | refl => exact h
  | push x' m _ hlim _ ih => exact ih.push (by omega) m

theorem OutBufs.congr (h : OutBufs bound x) (hout : x'.outList = x.outList)
    (hused : x'.usedOutBufs = x.usedOutBufs) : OutBufs bound x' := by
  refine ⟨?_, hused ▸ h.le⟩
  unfold Xenstore.Tidy
  rw [hout, hused]
  exact h.tidy

theorem OutBufs.move {s : Shared} {t t' : Thread} (h : OutBufs bound t.xenstore)
    (hmove : Move s t t') (hbound : xenstoreMaxOutBufNum ≤ bound)
    (hroom : bound = xenstoreMaxOutBufNum → t.Roomy) : OutBufs bound t'.xenstore := by
  -- below a bound that is greater than the limit a reply always has room
  have hsend : ∀ {y : Xenstore}, y.usedOutBufs = t.xenstore.usedOutBufs →
      (bound = xenstoreMaxOutBufNum → t.xenstore.usedOutBufs < xenstoreMaxOutBufNum) →
      BelowLimit y → y.usedOutBufs < bound := by
    intro y hy hlt hlim
    unfold BelowLimit at hlim
    by_cases heq : bound = xenstoreMaxOutBufNum
    · have := hlt heq
      omega
    · omega
  cases hmove with
  | ended x x' hp hx' =>
    have hx' := h.sent hx' (hsend rfl fun heq => hroom heq hp)
    exact hx'.congr rfl rfl
  | told x x' _ hx' => exact h.events hx' hbound
  | silent _ _ hx' _ => exact h.silent hx'
  | processed x x' inp input hin hx' =>
    have hafter : OutBufs bound x' := by
      cases hx' with
      | replied x' htype hx' =>
        have hbefore : OutBufs bound (x.dispatch inp.request) := h.congr rfl rfl
        refine hbefore.sent hx' (hsend rfl fun heq => ?_)
        exact (hroom heq inp hin).resolve_left htype
      | opened x' htype hrun hx' =>
        have hbefore : OutBufs bound (x.dispatch inp.request).opened := h.congr rfl rfl
        refine hbefore.sent hx' (hsend rfl fun heq => (hroom heq inp hin).resolve_left ?_)
        rw [htype]
        decide
      | closing id htype => exact h.congr rfl rfl
    exact hafter.congr rfl rfl

theorem OutBufs.step {r r' : Session} {a : SessionAction} (h : OutBufs bound r.thread.xenstore)
    (hbound : xenstoreMaxOutBufNum ≤ bound) (hroom : bound = xenstoreMaxOutBufNum → r.Roomy a)
    (hstep : r.step a = some r') : OutBufs bound r'.thread.xenstore := by
  rcases Session.step_cases hstep with ⟨rfl, hmove⟩ | ⟨hsilent, -⟩
  · exact h.move hmove hbound hroom
  · exact h.silent hsilent

theorem OutBufs.start (domid : UInt32) (domint : XenstoreDomainInterface) (slot : Nat)
    (stackWord : Nat → UInt32) (hbound : 0 ≤ bound) :
    OutBufs bound (.started domid domint slot stackWord) := ⟨rfl, hbound⟩

end

/-- Whatever the guest does, there is at most one buffer more than the limit. -/
theorem run_outList_length {s : Shared} {domid : UInt32} {domint : XenstoreDomainInterface}
    {slot : Nat} {stackWord : Nat → UInt32} {as : List SessionAction} {r : Session}
    (hrun : run Session.step (.start s domid domint slot stackWord) as = some r) :
    (r.thread.xenstore.outList.length : Int) ≤ xenstoreMaxOutBufNum + 1 := by
  have h := run_keeps (I := fun r => OutBufs (xenstoreMaxOutBufNum + 1) r.thread.xenstore)
    (fun _ _ _ h hstep => h.step (by decide) (fun heq => absurd heq (by decide)) hstep)
    (OutBufs.start domid domint slot stackWord (by decide)) hrun
  rw [← h.tidy]
  exact h.le

instance (t : Thread) : Decidable t.Roomy :=
  match t with
  | ⟨.endTransaction, _⟩ => inferInstanceAs (Decidable (_ → _))
  | ⟨.process, x⟩ => inferInstanceAs (Decidable (∀ inp ∈ x.input,
      inp.request.type = XsdSockmsgType.transactionEnd.code ∨
        x.usedOutBufs < xenstoreMaxOutBufNum))
  | ⟨.loopTest, _⟩ | ⟨.events, _⟩ | ⟨.idle, _⟩ | ⟨.readTest, _⟩ | ⟨.header, _⟩ | ⟨.payload, _⟩
  | ⟨.writeTest, _⟩ | ⟨.output, _⟩ | ⟨.cleanup, _⟩ | ⟨.dead, _⟩ => isTrue trivial

instance (r : Session) (a : SessionAction) : Decidable (r.Roomy a) :=
  match a with
  | .thread => inferInstanceAs (Decidable r.thread.Roomy)
  | .guest _ | .stop | .other _ => isTrue trivial

/-- A response ring without room, and a request of sixteen zero bytes: XS_CONTROL without a
payload. -/
def stuckPage : XenstoreDomainInterface := ⟨fun _ => 0, fun _ => 0, 0, 16, 0, 1024⟩

/-- The next request, and one round of the thread. -/
def stuckRound : List SessionAction := .guest stuckPage :: List.replicate 9 .thread

def stuckStart : Session := .start servedOne 1 stuckPage 0 fun _ => 0

/-- No step of the run sends a reply over the limit. -/
theorem run_outList_within {s : Shared} {domid : UInt32} {domint : XenstoreDomainInterface}
    {slot : Nat} {stackWord : Nat → UInt32} {as : List SessionAction} {r : Session}
    (hroom : Along Session.step Session.Roomy (.start s domid domint slot stackWord) as)
    (hrun : run Session.step (.start s domid domint slot stackWord) as = some r) :
    (r.thread.xenstore.outList.length : Int) ≤ xenstoreMaxOutBufNum := by
  have h := run_invariant (I := fun r => OutBufs xenstoreMaxOutBufNum r.thread.xenstore)
    (fun _ _ _ h hc hstep => h.step (Int.le_refl _) (fun _ => hc) hstep)
    (OutBufs.start domid domint slot stackWord (by decide)) hroom hrun
  rw [← h.tidy]
  exact h.le

/-- The replies to 100 requests fill the list. -/
theorem run_outList_within_stuck : ∃ r,
    run Session.step stuckStart (List.replicate 100 stuckRound).flatten = some r ∧
      r.thread.xenstore.outList.length = 100 ∧
      (r.thread.xenstore.outList.length : Int) ≤ xenstoreMaxOutBufNum := by
  have hlen : (run Session.step stuckStart (List.replicate 100 stuckRound).flatten).map
      (fun r => r.thread.xenstore.outList.length) = some 100 := by
    decide +kernel
  have hroom : Along Session.step Session.Roomy stuckStart
      (List.replicate 100 stuckRound).flatten := by
    decide +kernel
  obtain ⟨r, hrun, hfull⟩ := Option.map_eq_some_iff.mp hlen
  exact ⟨r, hrun, hfull, run_outList_within hroom hrun⟩

/-- The reply to the last of 101 requests is sent while there are 100 buffers. -/
theorem outList_over_limit : ∃ r,
    run Session.step stuckStart (List.replicate 101 stuckRound).flatten = some r ∧
      ¬ (r.thread.xenstore.outList.length : Int) ≤ xenstoreMaxOutBufNum := by
  have hlen : (run Session.step stuckStart (List.replicate 101 stuckRound).flatten).map
      (fun r => r.thread.xenstore.outList.length) = some 101 := by
    decide +kernel
  obtain ⟨r, hrun, hmany⟩ := Option.map_eq_some_iff.mp hlen
  refine ⟨r, hrun, ?_⟩
  rw [hmany]
  decide

end Xenlib
