import Xenlib.HandlersSpec

/-!
What a guest reads after it has written. The value goes through `construct_data`, the value
update of `xss_do_write_deadline` and `handle_read`. An empty value is passed on as no value,
and a path without components is not walked.
-/

set_option autoImplicit false

namespace Xenlib

open Keyed Wp

def textBytes (v : CString) : Bytes := v.map Subtype.val

@[simp] theorem textBytes_length (v : CString) : (textBytes v).length = v.length :=
  List.length_map _

theorem strHead_textBytes (v : CString) : strHead (textBytes v) = v := by
  induction v with
  | nil => rfl
  | cons c v ih =>
    have hc : c.val ≠ 0 := c.property
    simp only [textBytes, List.map_cons, strHead, hc, dite_false]
    exact congrArg (c :: ·) ih

theorem textBytes_getLast? (v : CString) : (textBytes v).getLast? ≠ some 0 := by
  intro h
  obtain ⟨c, -, hc⟩ := List.mem_map.mp (List.mem_of_getLast? h)
  exact c.property hc

theorem textBytes_injective {v w : CString} (h : textBytes v = textBytes w) : v = w := by
  rw [← strHead_textBytes v, h, strHead_textBytes]

/-- The value that goes into the store: none at all for an empty one. -/
def writtenData (v : CString) : Option CString := if v = [] then none else some v

theorem wp_constructData_value {p v : CString}
    {Q : Except Errno (Option CString) → List Bool → Prop} {E : Fault → Prop} {allocs : List Bool}
    (hok : ∀ rest, Q (.ok (writtenData v)) rest) (hmem : ∀ rest, Q (.error .enomem) rest) :
    wp (constructData (strBytes p ++ textBytes v) (xenstoreStrByteSize (some p))) Q E allocs := by
  have hlen : (strBytes p).length = xenstoreStrByteSize (some p) := strBytes_length p
  unfold constructData
  refine wp_ite (fun hend => ?_) (fun hend => ?_)
  · have hv : v = [] := by
      rw [List.length_append, hlen, textBytes_length] at hend
      exact List.length_eq_zero_iff.mp (by omega)
    rw [writtenData, if_pos hv] at hok
    exact hok allocs
  · have hv : v ≠ [] := by
      rintro rfl
      exact hend (by simp [textBytes, hlen])
    rw [wp_bind]
    refine wp_kMalloc_drawn fun b rest _ => ?_
    cases b with
    | false => exact hmem rest
    | true =>
      have hne : textBytes v ≠ [] := fun h => hv (List.map_eq_nil_iff.mp h)
      have hlast : (strBytes p ++ textBytes v).getLast? ≠ some 0 := by
        rw [List.getLast?_append_of_ne_nil _ hne]
        exact textBytes_getLast? v
      rw [writtenData, if_neg hv] at hok
      simp only [Bool.not_true, Bool.false_eq_true, if_false, hlast, wp_pure]
      rw [← hlen, List.drop_left, strHead_textBytes]
      exact hok rest

/-- The request was answered as a write, that is with OK. -/
def WriteAnswered (x x' : Xenstore) : Prop :=
  ∃ m, x'.queued = x.queued ++ [m] ∧ m.type = .write

theorem not_writeAnswered_same {x x' : Xenstore} (h : x'.queued = x.queued) :
    ¬ WriteAnswered x x' := by
  rintro ⟨m, hm, -⟩
  rw [h] at hm
  simpa using congrArg List.length hm

theorem wp_sendErrno_not_write (x : Xenstore) (id : UInt32) (e : Errno) (s : Shared) :
    wp (sendErrno x id e) (fun x' _ => ¬ WriteAnswered x x') (fun _ => True) s := by
  by_cases hlim : x.usedOutBufs ≤ xenstoreMaxOutBufNum
  · refine wp_sendErrno hlim (fun txId rest _ => ?_) (fun rest _ _ => not_writeAnswered_same rfl)
    rintro ⟨m, hm, htype⟩
    have heq := List.append_cancel_left hm
    cases heq
    cases htype
  · exact wp_conseq (wp_sendReplyOr_over hlim) fun x' _ h => not_writeAnswered_same h

def writtenRoot (path : CString) (data : Option CString) (root : XsEntry) : XsEntry :=
  if tokens path = [] then root
  else root.plant (freshNode []) (updNode data) (tokens path)

/-- A path without components is not walked. -/
theorem wp_xssDoWriteDeadline_root {path : CString} {data : Option CString} {domid : UInt32}
    {perms : List XsPermEntry} {deadline : Deadline} {E : Fault → Prop} {s : Shared}
    (h : tokens path = []) :
    wp (xssDoWriteDeadline path data domid perms deadline) (fun _ s' => s'.root = s.root) E s := by
  unfold xssDoWriteDeadline
  simp only [wp_bind, wp_alloc]
  refine wp_kMalloc_drawn fun b rest _ => ?_
  cases b with
  | false => rfl
  | true =>
    simp only [Bool.not_true, Bool.false_eq_true, if_false, wp_bind]
    refine wp_lock fun rc locks _ => ?_
    cases rc with
    | some e => rfl
    | none =>
      simp only [wp_bind, wp_get, wp_alloc, wp_modify, wp_pure, writeTree, h]

theorem wp_xssDoWriteDeadline_written {path : CString} {data : Option CString} {domid : UInt32}
    {deadline : Deadline} {s : Shared} :
    wp (xssDoWriteDeadline path data domid [] deadline)
      (fun rc s' => rc = none → s'.root = writtenRoot path data s.root) (fun _ => True) s := by
  by_cases ht : tokens path = []
  · refine wp_conseq (wp_xssDoWriteDeadline_root ht) fun _ s' hroot _ => ?_
    rw [hroot, writtenRoot, if_pos ht]
  · refine wp_xssDoWriteDeadline (fun rc root rest locks _ hw hrc => ?_) (fun _ => trivial)
    subst hrc
    rcases hw with ⟨hnil, -⟩ | hw
    · exact absurd hnil ht
    · cases hw with
      | written => rw [writtenRoot, if_neg ht]

theorem wp_handleWrite_root {x : Xenstore} {id : UInt32} {p v path : CString} {s : Shared}
    (hpath : resolvePath p x.domid = .ok path) :
    wp (handleWrite x id (strBytes p ++ textBytes v))
      (fun x' s' => WriteAnswered x x' → s'.root = writtenRoot path (writtenData v) s.root)
      (fun _ => True) s := by
  have herr : ∀ e s', wp (sendErrno x id e)
      (fun x' s' => WriteAnswered x x' → s'.root = writtenRoot path (writtenData v) s.root)
      (fun _ => True) s' := by
    intro e s'
    exact wp_conseq (wp_sendErrno_not_write x id e s') fun _ _ h h' => absurd h' h
  unfold handleWrite handleWriteAs
  rw [readStr_strBytes, wp_bind]
  refine wp_lift (fun text htext => ?_) (fun _ _ => trivial)
  cases htext
  refine wp_ite (fun _ => herr _ _) (fun _ => ?_)
  rw [wp_bind, wp_alloc]
  refine wp_constructPath (fun rest _ => ?_) (fun rest _ _ => herr _ _)
  rw [hpath]
  simp only [wp_bind, wp_alloc]
  refine wp_constructData_value (fun rest => ?_) (fun rest => herr _ _)
  simp only [wp_bind]
  refine wp_conseq wp_xssDoWriteDeadline_written fun rc s₁ hw => ?_
  cases rc with
  | some e => exact herr e s₁
  | none =>
    have hroot := hw rfl
    simp only [wp_bind, wp_pure]
    by_cases hlim : x.usedOutBufs ≤ xenstoreMaxOutBufNum
    · refine wp_sendReplySz_any hlim fun x' rest' _ => ?_
      refine wp_notifyWatchers (fun s₂ s' evs hn hf _ _ _ => ?_) (fun _ _ => trivial)
      rw [hf.root, hn.frame.root]
      exact hroot
    · refine wp_conseq (wp_sendReplyOr_over hlim) fun x' s₂ hq => ?_
      exact wp_notifyWatchers (fun _ _ _ _ _ _ _ h => absurd h (not_writeAnswered_same hq))
        (fun _ _ => trivial)

theorem wp_keyToEntryCheckPerm_found {root : XsEntry} {key : CString} {domid : UInt32}
    {perms : XsPerm} {e : EntryRef} {Q : Option EntryRef → List Bool → Prop} {E : Fault → Prop}
    {allocs : List Bool} (hf : foundEntry root key = some e)
    (hp : checkPerms e.entry.label perms domid = .ok true) (hmem : false ∉ allocs)
    (h : ∀ rest, rest <:+ allocs → Q (some e) rest) :
    wp (keyToEntryCheckPerm root key domid perms) Q E allocs := by
  unfold keyToEntryCheckPerm
  rw [wp_bind]
  refine wp_keyToEntry (fun rest hs => ?_) (fun _ _ hfail => absurd hfail hmem)
  rw [wp_bind, hf]
  refine wp_lift (fun b hb => ?_) (fun e' he => ?_)
  · simp only [checkPermsForEntry, hp, Except.ok.injEq] at hb
    subst hb
    exact h rest hs
  · simp [checkPermsForEntry, hp] at he

/-- The handler queues one message, which is the answer with these data. -/
def Sends (handler : SrvM Xenstore) (x : Xenstore) (id : UInt32) (type : XsdSockmsgType)
    (data : Bytes) (s : Shared) : Prop :=
  ∃ x' s' m, handler s = .ok (x', s') ∧ x'.queued = x.queued ++ [m] ∧ ReplyTo id type data m

section Sends
variable {x : Xenstore} {id : UInt32} {payload : Bytes} {p path : CString} {s : Shared}

theorem sends_withPath {body : CString → SrvM Xenstore} {type : XsdSockmsgType} {data : Bytes}
    (htext : readStr payload = .ok p) (hpath : resolvePath p x.domid = .ok path)
    (hmem : false ∉ s.allocs)
    (hbody : ∀ rest, false ∉ rest → wp (body path)
      (fun x' _ => ∃ m, x'.queued = x.queued ++ [m] ∧ ReplyTo id type data m) (fun _ => False)
      { s with allocs := rest }) :
    Sends (withPath x id payload body) x id type data s := by
  have hrun : wp (withPath x id payload body)
      (fun x' _ => ∃ m, x'.queued = x.queued ++ [m] ∧ ReplyTo id type data m)
      (fun _ => False) s := by
    refine wp_withPath htext (fun e' rest _ he => ?_) (fun full rest hs hfull => ?_)
    · rcases he with he | he
      · rw [hpath] at he
        cases he
      · exact absurd he hmem
    · rw [hpath] at hfull
      cases hfull
      exact hbody rest fun h => hmem (hs.subset h)
  obtain ⟨x', s', hrun, m, hm⟩ := wp_total hrun
  exact ⟨x', s', m, hrun, hm⟩

theorem wp_sendReplySz_sends {type : XsdSockmsgType} {data : Bytes}
    (hlim : x.usedOutBufs ≤ xenstoreMaxOutBufNum) (hmem : false ∉ s.allocs) :
    wp (sendReplySz x id type data)
      (fun x' _ => ∃ m, x'.queued = x.queued ++ [m] ∧ ReplyTo id type data m) (fun _ => False) s :=
  wp_sendReplySz hlim (fun m _ _ hm => ⟨m, rfl, hm⟩) (fun _ _ hfail => absurd hfail hmem)

theorem handleRead_sends {e : EntryRef} (htext : readStr payload = .ok p)
    (hpath : resolvePath p x.domid = .ok path) (hmem : false ∉ s.allocs)
    (hf : foundEntry s.root path = some e)
    (hp : checkPerms e.entry.label .read x.domid = .ok true)
    (hlim : x.usedOutBufs ≤ xenstoreMaxOutBufNum) :
    Sends (handleRead x id payload) x id .read (textBytes (e.entry.label.value.getD [])) s := by
  refine sends_withPath htext hpath hmem fun rest hrest => ?_
  simp only [wp_bind, wp_get, wp_alloc]
  refine wp_keyToEntryCheckPerm_found hf hp hrest fun rest' hs' => ?_
  exact wp_sendReplySz_sends hlim fun h => hrest (hs'.subset h)

end Sends

theorem wp_handleRead_over {x : Xenstore} {id : UInt32} {p : CString} {s : Shared}
    (hover : ¬ x.usedOutBufs ≤ xenstoreMaxOutBufNum) :
    wp (handleRead x id (strBytes p)) (fun x' _ => x'.queued = x.queued) (fun _ => True) s := by
  have htext : readStr (strBytes p) = .ok p := by simpa using readStr_strBytes p []
  refine wp_withPath htext (fun e rest _ _ => wp_sendReplyOr_over hover) (fun full rest _ _ => ?_)
  simp only [wp_bind, wp_get, wp_alloc]
  refine wp_conseq (wp_trivial _ _) fun entry rest' _ => ?_
  cases entry with
  | none => exact wp_sendReplyOr_over hover
  | some e => exact wp_sendReplyOr_over hover

/-- The text `handle_read` sends for a path: the value of the node, or nothing. -/
def storedValue (root : XsEntry) (path : CString) : CString :=
  ((foundEntry root path).bind fun e => e.entry.label.value).getD []

theorem plant_value {root e : XsEntry} {perms : List XsPermEntry} {data : Option CString}
    {toks : List CString}
    (h : (root.plant (freshNode perms) (updNode data) toks).lookup toks = some e) :
    e.label.value = data.or ((root.lookup toks).bind fun e => e.label.value) := by
  have hupd : ∀ node : XsNode, (updNode data node).value = data.or node.value := by
    intro node
    cases data <;> rfl
  have hview := Tree.view_plant (freshNode perms) (updNode data) (freshNode_idem perms) toks toks
    root
  simp only [Tree.view, h, Option.map_some, if_true, List.prefix_rfl] at hview
  cases hl : root.lookup toks with
  | none =>
    rw [hl, Option.map_none] at hview
    have hlabel := congrArg Prod.fst (Option.some.inj hview)
    rw [show e.label = _ from hlabel, hupd]
    rfl
  | some s =>
    rw [hl, Option.map_some] at hview
    have hlabel := congrArg Prod.fst (Option.some.inj hview)
    rw [show e.label = _ from hlabel, hupd]
    rfl

theorem writtenRoot_value {root : XsEntry} {path v : CString} {e : EntryRef} (hn : Normalized path)
    (hf : foundEntry (writtenRoot path (writtenData v) root) path = some e) :
    e.entry.label.value.getD [] =
      if path ≠ [slash] ∧ v ≠ [] then v else storedValue root path := by
  by_cases hslash : path = [slash]
  · have hroot : writtenRoot path (writtenData v) root = root := by
      rw [writtenRoot, if_pos (by rw [hslash]; decide)]
    rw [hroot] at hf
    rw [if_neg fun h => h.1 hslash, storedValue, hf]
    rfl
  · obtain ⟨ht, -⟩ := hn.tokens_ne_nil hslash
    rw [writtenRoot, if_neg ht, foundEntry_normalized hn hslash] at hf
    obtain ⟨t, hl, rfl⟩ := Option.map_eq_some_iff.mp hf
    have hold : storedValue root path =
        ((root.lookup (tokens path)).bind fun e => e.label.value).getD [] := by
      rw [storedValue, foundEntry_normalized hn hslash]
      cases root.lookup (tokens path) <;> rfl
    rw [plant_value hl, hold]
    by_cases hv : v = []
    · simp [writtenData, hv]
    · simp [writtenData, hv, hslash]

/-- An XS_READ of `p` is answered with `v`. -/
def ReadsBack (x : Xenstore) (id : UInt32) (p v : CString) (s : Shared) : Prop :=
  ∃ x' s' m, handleRead x id (strBytes p) s = .ok (x', s') ∧ x'.queued = x.queued ++ [m] ∧
    m.reqId = id ∧ m.type = .read ∧ m.payload = textBytes v

theorem ReadsBack.limit {x : Xenstore} {id : UInt32} {p v : CString} {s : Shared}
    (h : ReadsBack x id p v s) : x.usedOutBufs ≤ xenstoreMaxOutBufNum := by
  obtain ⟨x', s', m, hrun, hm, -⟩ := h
  by_contra hover
  rw [wp_ok (wp_handleRead_over hover) hrun] at hm
  simpa using congrArg List.length hm

theorem ReplyTo.read_iff {id : UInt32} {v w : CString} {m : Message}
    (h : ReplyTo id .read (textBytes w) m) (hv : (textBytes v).length ≤ xenstorePayloadMax) :
    m.type = .read ∧ m.payload = textBytes v ↔ w = v := by
  constructor
  · rintro ⟨htype, hpayload⟩
    by_cases hbig : xenstorePayloadMax < (textBytes w).length
    · rw [(h.tooBig hbig).1] at htype
      cases htype
    · rw [(h.fits (by omega)).2] at hpayload
      exact textBytes_injective hpayload
  · rintro rfl
    exact h.fits hv

/-- After an XS_WRITE of `v` at `p` that was answered OK, an XS_READ of `p` by the same guest,
which may read the node, is answered with `v` exactly when the guest is below the output limit
and either the value is not empty and the path is not "/", or the node held `v` all along. -/
theorem readBack_iff {x x₁ x' : Xenstore} {s s₁ : Shared} {id id' : UInt32} {p v path : CString}
    {e : EntryRef} (hpath : resolvePath p x.domid = .ok path)
    (hfit : (strBytes p ++ textBytes v).length ≤ xenstorePayloadMax)
    (hwrite : handleWrite x id (strBytes p ++ textBytes v) s = .ok (x₁, s₁))
    (hok : WriteAnswered x x₁) (hf : foundEntry s₁.root path = some e)
    (hread : checkPerms e.entry.label .read x.domid = .ok true) (hdomid : x'.domid = x.domid)
    (hmem : false ∉ s₁.allocs) :
    ReadsBack x' id' p v s₁ ↔ x'.usedOutBufs ≤ xenstoreMaxOutBufNum ∧
      (path ≠ [slash] ∧ v ≠ [] ∨ storedValue s.root path = v) := by
  have hroot := wp_ok (wp_handleWrite_root hpath) hwrite hok
  have hvalue := writtenRoot_value ⟨p, x.domid, hpath⟩ (hroot ▸ hf)
  rw [← hdomid] at hpath hread
  have htext : readStr (strBytes p) = .ok p := by simpa using readStr_strBytes p []
  have hlen : (textBytes v).length ≤ xenstorePayloadMax := by
    rw [List.length_append] at hfit
    omega
  have hstored : e.entry.label.value.getD [] = v ↔
      path ≠ [slash] ∧ v ≠ [] ∨ storedValue s.root path = v := by
    rw [hvalue]
    split
    · simp [*]
    · simp [*]
  rw [← hstored]
  constructor
  · intro hback
    refine ⟨hback.limit, ?_⟩
    obtain ⟨x₂, s₂, m, hrun, hm, hreply⟩ :=
      @handleRead_sends x' id' _ p path s₁ e htext hpath hmem hf hread hback.limit
    obtain ⟨x₃, s₃, m', hrun', hm', -, hanswer⟩ := hback
    rw [hrun] at hrun'
    cases hrun'
    have hsame := List.append_cancel_left (hm.symm.trans hm')
    cases hsame
    exact (hreply.read_iff hlen).mp hanswer
  · rintro ⟨hlim, hheld⟩
    obtain ⟨x₂, s₂, m, hrun, hm, hreply⟩ :=
      @handleRead_sends x' id' _ p path s₁ e htext hpath hmem hf hread hlim
    exact ⟨x₂, s₂, m, hrun, hm, hreply.reqId, (hreply.read_iff hlen).mpr hheld⟩

/-- The store with the value "x" at "/a". -/
def heldByOne : Shared :=
  { ownedByOne with
    root := ⟨⟨none, [⟨0, .none⟩]⟩,
      .cons (ascii ['a']) ⟨some (ascii ['x']), [⟨1, .none⟩]⟩ .nil .nil⟩ }

theorem readBack_iff_value : ∃ x₁ s₁,
    handleWrite (idleClient 1) 7 (strBytes (ascii ['/', 'a']) ++ textBytes (ascii ['y']))
      heldByOne =
      .ok (x₁, s₁) ∧ ReadsBack x₁ 8 (ascii ['/', 'a']) (ascii ['y']) s₁ := by
  refine ⟨_, _, rfl, ?_⟩
  refine Iff.mpr (@readBack_iff (idleClient 1) _ _ heldByOne _ 7 8 (ascii ['/', 'a']) (ascii ['y'])
    _ _ rfl (by decide) rfl ⟨_, rfl, rfl⟩ rfl rfl rfl List.not_mem_nil)
    ⟨by decide, Or.inl (by decide)⟩

/-- Overwriting "x" with the empty value is answered OK, and the guest still reads "x". -/
theorem readBack_empty : ¬ ∀ (x x₁ : Xenstore) (s s₁ : Shared) (id id' : UInt32)
    (p v path : CString) (e : EntryRef), resolvePath p x.domid = .ok path →
    (strBytes p ++ textBytes v).length ≤ xenstorePayloadMax →
    handleWrite x id (strBytes p ++ textBytes v) s = .ok (x₁, s₁) → WriteAnswered x x₁ →
    foundEntry s₁.root path = some e → checkPerms e.entry.label .read x.domid = .ok true →
    x₁.usedOutBufs ≤ xenstoreMaxOutBufNum → s₁.allocs = [] → ReadsBack x₁ id' p v s₁ := by
  intro h
  obtain ⟨x', s', m, hrun, hm, -, -, hpayload⟩ :=
    h (idleClient 1) _ heldByOne _ 7 8 (ascii ['/', 'a']) [] _ _ rfl (by decide) rfl
      ⟨_, rfl, rfl⟩ rfl rfl (by decide) rfl
  have hlast := congrArg (fun r => r.toOption.map fun r =>
    (r.1.queued.getLast?).map (·.payload)) hrun
  rw [show ∀ a : Xenstore × Shared, (Except.ok a : Except Fault _).toOption = some a from
    fun _ => rfl, Option.map_some, hm, List.getLast?_concat, Option.map_some, hpayload] at hlast
  revert hlast
  decide +kernel

end Xenlib
