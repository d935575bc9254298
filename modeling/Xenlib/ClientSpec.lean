import Xenlib.Client
import Xenlib.ServerSpec

/-!
What a reply does to a client: below the output limit it queues one message or, without
memory, none; above the limit the client is invalidated.
-/

set_option autoImplicit false

namespace Xenlib

open Wp

/-- The message a call of `send_reply_sz` queues: the reply itself, or E2BIG in its place. -/
structure ReplyTo (id : UInt32) (type : XsdSockmsgType) (data : Bytes) (m : Message) : Prop where
  reqId : m.reqId = id
  fits : data.length ≤ xenstorePayloadMax → m.type = type ∧ m.payload = data
  tooBig : xenstorePayloadMax < data.length →
    m.type = .error ∧ m.payload = strBytes (errString .e2big)

theorem wp_queueReply {xenstore : Xenstore} {id : UInt32} {type : XsdSockmsgType} {data : Bytes}
    {Q : Xenstore → Shared → Prop} {E : Fault → Prop} {s : Shared}
    (hsent : ∀ txId rest, rest <:+ s.allocs →
      Q (xenstore.push ⟨type, id, txId, data⟩) { s with allocs := rest })
    (hmem : ∀ rest, rest <:+ s.allocs → false ∈ s.allocs → Q xenstore { s with allocs := rest }) :
    wp (queueReply xenstore id type data) Q E s := by
  unfold queueReply
  simp only [wp_bind, wp_alloc]
  refine wp_kMalloc_drawn fun b rest₁ hd₁ => ?_
  cases b with
  | false => exact hmem rest₁ hd₁.suffix (hd₁.fail rfl)
  | true =>
    simp only [Bool.not_true, Bool.false_eq_true, if_false, wp_bind, wp_alloc]
    refine wp_kMalloc_drawn fun b rest₂ hd₂ => ?_
    have hs₂ := hd₂.suffix.trans hd₁.suffix
    cases b with
    | false => exact hmem rest₂ hs₂ (hd₁.suffix.subset (hd₂.fail rfl))
    | true => exact hsent _ rest₂ hs₂

theorem wp_sendErrno {xenstore : Xenstore} {id : UInt32} {err : Errno}
    {Q : Xenstore → Shared → Prop} {E : Fault → Prop} {s : Shared}
    (hlim : xenstore.usedOutBufs ≤ xenstoreMaxOutBufNum)
    (hsent : ∀ txId rest, rest <:+ s.allocs →
      Q (xenstore.push ⟨.error, id, txId, strBytes (errString err)⟩) { s with allocs := rest })
    (hmem : ∀ rest, rest <:+ s.allocs → false ∈ s.allocs → Q xenstore { s with allocs := rest }) :
    wp (sendErrno xenstore id err) Q E s := by
  have hlen := errString_length err
  have hfit : ¬ (strBytes (errString err)).length > xenstorePayloadMax := by
    simp only [xenstorePayloadMax]; omega
  unfold sendErrno sendReplyOr
  rw [if_neg (by omega), if_neg hfit]
  exact wp_queueReply hsent hmem

theorem wp_sendReplySz {xenstore : Xenstore} {id : UInt32} {type : XsdSockmsgType} {data : Bytes}
    {Q : Xenstore → Shared → Prop} {E : Fault → Prop} {s : Shared}
    (hlim : xenstore.usedOutBufs ≤ xenstoreMaxOutBufNum)
    (hsent : ∀ m rest, rest <:+ s.allocs → ReplyTo id type data m →
      Q (xenstore.push m) { s with allocs := rest })
    (hmem : ∀ rest, rest <:+ s.allocs → false ∈ s.allocs → Q xenstore { s with allocs := rest }) :
    wp (sendReplySz xenstore id type data) Q E s := by
  unfold sendReplySz sendReplyOr
  rw [if_neg (by omega)]
  refine wp_ite (fun hbig => ?_) (fun hfit => ?_)
  · refine wp_sendErrno hlim
      (fun txId rest hs => hsent _ rest hs ⟨rfl, fun h => ?_, fun _ => ⟨rfl, rfl⟩⟩) hmem
    omega
  · refine wp_queueReply
      (fun txId rest hs => hsent _ rest hs ⟨rfl, fun _ => ⟨rfl, rfl⟩, fun h => ?_⟩) hmem
    omega

theorem wp_sendErrno_any {xenstore : Xenstore} {id : UInt32} {err : Errno}
    {Q : Xenstore → Shared → Prop} {E : Fault → Prop} {s : Shared}
    (hlim : xenstore.usedOutBufs ≤ xenstoreMaxOutBufNum)
    (h : ∀ x' rest, rest <:+ s.allocs → Q x' { s with allocs := rest }) :
    wp (sendErrno xenstore id err) Q E s :=
  wp_sendErrno hlim (fun _ rest hs => h _ rest hs) (fun rest hs _ => h _ rest hs)

theorem wp_sendReplySz_any {xenstore : Xenstore} {id : UInt32} {type : XsdSockmsgType}
    {data : Bytes} {Q : Xenstore → Shared → Prop} {E : Fault → Prop} {s : Shared}
    (hlim : xenstore.usedOutBufs ≤ xenstoreMaxOutBufNum)
    (h : ∀ x' rest, rest <:+ s.allocs → Q x' { s with allocs := rest }) :
    wp (sendReplySz xenstore id type data) Q E s :=
  wp_sendReplySz hlim (fun _ rest hs _ => h _ rest hs) (fun rest hs _ => h _ rest hs)

theorem removeRefEntriesRecursive_fault {domid : UInt32} {f : EntryList} {e : Fault}
    (h : removeRefEntriesRecursive domid f = .error e) : e = .emptyPerms := by
  induction f with
  | nil => cases h
  | cons key node children next ihc ihn =>
    unfold removeRefEntriesRecursive at h
    cases hp : node.perms.head? with
    | none => simp only [hp, Except.error.injEq] at h; exact h.symm
    | some owner =>
      simp only [hp] at h
      by_cases ho : owner.domid.toUInt32 = domid
      · rw [if_pos ho] at h
        exact ihn h
      · rw [if_neg ho] at h
        cases hc : removeRefEntriesRecursive domid children with
        | error e' => simp only [hc, Except.error.injEq] at h; subst h; exact ihc hc
        | ok c =>
          cases hn : removeRefEntriesRecursive domid next with
          | error e' => simp only [hc, hn, Except.error.injEq] at h; subst h; exact ihn hn
          | ok n => simp [hc, hn] at h

theorem wp_removeRefEntries {domid : UInt32} {Q : Unit → Shared → Prop} {E : Fault → Prop}
    {s : Shared}
    (h : ∀ children, removeRefEntriesRecursive domid s.root.children = .ok children →
      Q () { s with root := { s.root with children := children } })
    (hE : removeRefEntriesRecursive domid s.root.children = .error .emptyPerms → E .emptyPerms) :
    wp (removeRefEntries domid) Q E s := by
  unfold removeRefEntries
  simp only [wp_bind, wp_get]
  refine wp_lift (fun children hc => h children hc) (fun e he => ?_)
  have heq := removeRefEntriesRecursive_fault he
  subst heq
  exact hE he

/-- A released service: nothing is mapped or buffered any more. -/
def Xenstore.released (xenstore : Xenstore) : Xenstore :=
  { freeBufferedData xenstore with mapped := false, releases := xenstore.releases + 1 }

theorem wp_releaseDomainStored {xenstore : Xenstore} {Q : Xenstore → Shared → Prop}
    {E : Fault → Prop} {s : Shared}
    (h : ∀ children, bitSet s.usedThreads xenstore.xsStackSlot = true →
      removeRefEntriesRecursive xenstore.domid s.root.children = .ok children →
      Q xenstore.released { s with
        usedThreads := s.usedThreads &&& ~~~ UInt32.ofNat (2 ^ xenstore.xsStackSlot)
        root := { s.root with children := children } })
    (hassert : s.domuMax ≤ xenstore.xsStackSlot ∨
      bitSet s.usedThreads xenstore.xsStackSlot = false → E .assertion)
    (hempty : removeRefEntriesRecursive xenstore.domid s.root.children = .error .emptyPerms →
      E .emptyPerms) :
    wp (releaseDomainStored xenstore) Q E s := by
  unfold releaseDomainStored freeStackIdx
  simp only [wp_bind, wp_get]
  refine wp_ite (fun hmax => hassert (Or.inl hmax)) (fun _ => ?_)
  refine wp_ite (fun hbit => hassert (Or.inr (by simpa using hbit))) (fun hbit => ?_)
  rw [wp_modify]
  exact wp_removeRefEntries (fun children hc => h children (by simpa using hbit) hc) hempty

def idleClient (domid : UInt32) : Xenstore :=
  .started domid ⟨fun _ => 0, fun _ => 0, 0, 0, 0, 0⟩ 0 (fun _ => 0)

end Xenlib
