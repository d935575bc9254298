import Xenlib.Handlers
import Xenlib.ClientSpec

/-!
Rules for the parts the request handlers share.
-/

set_option autoImplicit false

namespace Xenlib

open Wp

theorem wp_withPath {x : Xenstore} {id : UInt32} {payload : Bytes} {body : CString → SrvM Xenstore}
    {text : CString} {s : Shared} {Q : Xenstore → Shared → Prop} {E : Fault → Prop}
    (htext : readStr payload = .ok text)
    (herr : ∀ e rest, rest <:+ s.allocs →
      resolvePath text x.domid = .error e ∨ false ∈ s.allocs →
      wp (sendErrno x id e) Q E { s with allocs := rest })
    (hok : ∀ full rest, rest <:+ s.allocs → resolvePath text x.domid = .ok full →
      wp (body full) Q E { s with allocs := rest }) :
    wp (withPath x id payload body) Q E s := by
  unfold withPath
  rw [wp_bind]
  refine wp_lift (fun t ht => ?_) (fun e he => ?_)
  · rw [htext] at ht
    cases ht
    rw [wp_bind, wp_alloc]
    refine wp_constructPath (fun rest hs => ?_) (fun rest hs hmem => herr _ rest hs (Or.inr hmem))
    cases hr : resolvePath text x.domid with
    | error e => exact herr e rest hs (Or.inl hr)
    | ok full => exact hok full rest hs hr
  · rw [htext] at he
    cases he

theorem wp_withPath_nil {x : Xenstore} {id : UInt32} {payload : Bytes}
    {body : CString → SrvM Xenstore} {text : CString} {s : Shared}
    {Q : Xenstore → Shared → Prop} {E : Fault → Prop} (hs : s.allocs = [])
    (htext : readStr payload = .ok text)
    (herr : ∀ e, resolvePath text x.domid = .error e → wp (sendErrno x id e) Q E s)
    (hok : ∀ full, resolvePath text x.domid = .ok full → wp (body full) Q E s) :
    wp (withPath x id payload body) Q E s := by
  refine wp_withPath htext (fun e rest hrest he => ?_) (fun full rest hrest hr => ?_)
  · rw [allocs_same hs hrest]
    rcases he with he | hmem
    · exact herr e he
    · rw [hs] at hmem
      cases hmem
  · rw [allocs_same hs hrest]
    exact hok full hr

theorem wp_invalidateClient_queued (x : Xenstore) (s : Shared) :
    wp (invalidateClient x) (fun x' _ => x'.queued = x.queued) (fun _ => True) s :=
  wp_releaseDomainStored (fun _ _ _ => rfl) (fun _ => trivial) (fun _ => trivial)

theorem wp_sendReplyOr_over {tooBig : SrvM Xenstore} {x : Xenstore} {id : UInt32}
    {type : XsdSockmsgType} {data : Bytes} {s : Shared}
    (hover : ¬ x.usedOutBufs ≤ xenstoreMaxOutBufNum) :
    wp (sendReplyOr tooBig x id type data) (fun x' _ => x'.queued = x.queued)
      (fun _ => True) s := by
  unfold sendReplyOr
  rw [if_pos (by omega)]
  exact wp_invalidateClient_queued x s

/-- What `construct_data` gives. -/
def payloadData (payload : Bytes) (pathLen : Nat) : Option CString :=
  if pathLen = payload.length then none
  else
    let data := payload.drop pathLen
    some (strHead (if payload.getLast? = some 0 then data.dropLast else data))

theorem constructData_nil (payload : Bytes) (pathLen : Nat) :
    constructData payload pathLen [] = .ok (.ok (payloadData payload pathLen), []) := by
  unfold constructData payloadData
  split <;> rfl

theorem wp_constructData_payload {payload : Bytes} {pathLen : Nat}
    {Q : Except Errno (Option CString) → List Bool → Prop} {E : Fault → Prop} {allocs : List Bool}
    (hok : ∀ rest, rest <:+ allocs → Q (.ok (payloadData payload pathLen)) rest)
    (hmem : ∀ rest, rest <:+ allocs → false ∈ allocs → Q (.error .enomem) rest) :
    wp (constructData payload pathLen) Q E allocs := by
  unfold constructData
  unfold payloadData at hok
  split
  · rename_i hend
    have hq := hok allocs List.suffix_rfl
    rw [if_pos hend] at hq
    exact hq
  · rename_i hmore
    rw [wp_bind]
    refine wp_kMalloc_drawn fun b rest hd => ?_
    cases b with
    | false => exact hmem rest hd.suffix (hd.fail rfl)
    | true =>
      have hq := hok rest hd.suffix
      rw [if_neg hmore] at hq
      exact hq

theorem wp_constructData {payload : Bytes} {pathLen : Nat}
    {Q : Except Errno (Option CString) → List Bool → Prop} {E : Fault → Prop} {allocs : List Bool}
    (hok : ∀ data rest, rest <:+ allocs → Q (.ok data) rest)
    (hmem : ∀ rest, rest <:+ allocs → false ∈ allocs → Q (.error .enomem) rest) :
    wp (constructData payload pathLen) Q E allocs :=
  wp_constructData_payload (fun rest hs => hok _ rest hs) hmem

def BufferedData.request (inp : BufferedData) : Request :=
  let header := XsdSockmsg.ofBytes inp.buffer
  ⟨header.type, header.reqId, (inp.buffer.drop headerSize).take (inp.totalSize - headerSize)⟩

def Xenstore.dispatch (x : Xenstore) (r : Request) : Xenstore :=
  { x with requests := x.requests ++ [r] }

theorem wp_processMessage {x : Xenstore} {inp : BufferedData} {Q : Xenstore → Shared → Prop}
    {E : Fault → Prop} {s : Shared} (hin : x.input = some inp)
    (hunknown : messageHandle inp.request.type = none →
      wp (sendErrno (x.dispatch inp.request) 0 .enosys) Q E s)
    (hknown : ∀ h, messageHandle inp.request.type = some h →
      wp (h (x.dispatch inp.request) inp.request.reqId inp.request.payload)
        (fun x' s' => (x'.input = none → E .nullInput) ∧
          (x'.input ≠ none → Q { x' with input := none } s')) E s) :
    wp (processMessage x) Q E s := by
  cases x
  cases hin
  unfold processMessage
  dsimp only
  cases hh : messageHandle (XsdSockmsg.ofBytes inp.buffer).type with
  | none => exact hunknown hh
  | some h =>
    simp only [wp_bind]
    refine wp_conseq (hknown h hh) fun x' s' hx' => ?_
    cases hi : x'.input with
    | none => exact hx'.1 hi
    | some i => exact hx'.2 (by simp [hi])

end Xenlib
