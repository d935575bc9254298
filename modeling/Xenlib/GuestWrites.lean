import Xenlib.HandlersSpec

/-!
What guests can change. A request of a guest creates nodes only below nodes it may write,
sets only values it may write, and removes only subtrees it may write. The exception is a
guest that is over its output limit: the reply then stops its service, and everything the
guest owns goes with it.
-/

set_option autoImplicit false

namespace Xenlib

open Keyed Wp

/-- What a request of `domid` that addresses `addressed` may do to the store. -/
structure GuestChange (domid : UInt32) (addressed : Option (List CString)) (root root' : XsEntry) :
    Prop where
  created : ∀ q, root.lookup q = none → (root'.lookup q).isSome →
    ∃ a n, a <+: q ∧ root.lookup a = some n ∧
      (∀ r, r <+: q → (root.lookup r).isSome → r <+: a) ∧ Grants n.label domid
  value : ∀ q n n', root.lookup q = some n → root'.lookup q = some n' →
    n'.label.value ≠ n.label.value → addressed = some q ∧ Grants n.label domid
  perms : ∀ q n n', root.lookup q = some n → root'.lookup q = some n' →
    n'.label.perms = n.label.perms
  removed : ∀ q, (root.lookup q).isSome → root'.lookup q = none →
    ∃ p n, addressed = some p ∧ p <+: q ∧ root.lookup p = some n ∧ Grants n.label domid

theorem GuestChange.refl (domid : UInt32) (addressed : Option (List CString)) (root : XsEntry) :
    GuestChange domid addressed root root := by
  refine ⟨fun q h hs => ?_, fun q n n' h h' hne => ?_, fun q n n' h h' => ?_, fun q hs h => ?_⟩
  · rw [h] at hs; cases hs
  · rw [h] at h'; cases h'; exact absurd rfl hne
  · rw [h] at h'; cases h'; rfl
  · rw [h] at hs; cases hs

theorem view_of_lookup {root n : XsEntry} {q : List CString} (h : root.lookup q = some n) :
    root.view q = some (n.label, n.children.keys) := by
  rw [Tree.view, h]
  rfl

section Plant
variable {domid : UInt32} {addressed : Option (List CString)} {root : XsEntry}
variable {fresh upd : XsNode → XsNode} {p : List CString}

/-- The deepest existing node on the way to `p` is the nearest ancestor of every missing
prefix of `p`. -/
theorem grants_nearest {q : List CString} (hq : root.lookup q = none) (hqp : q <+: p)
    (hg : Grants (root.anchor p) domid) :
    ∃ a n, a <+: q ∧ root.lookup a = some n ∧
      (∀ r, r <+: q → (root.lookup r).isSome → r <+: a) ∧ Grants n.label domid := by
  obtain ⟨a, n, hap, hn, hlabel, hmax⟩ := Tree.anchor_spec p root
  have haq : a <+: q := by
    rcases List.prefix_or_prefix_of_prefix hap hqp with h | h
    · exact h
    · obtain ⟨r, rfl⟩ := h
      have hex : (root.lookup q).isSome := Tree.lookup_isSome_of_append (by rw [hn]; rfl)
      rw [hq] at hex
      cases hex
  exact ⟨a, n, haq, hn, fun r hr hs => hmax r (hr.trans hqp) hs, by rw [hlabel]; exact hg⟩

theorem guestChange_plant (hf : ∀ a, fresh (fresh a) = fresh a)
    (hnew : root.lookup p = none → Grants (root.anchor p) domid)
    (hperms : ∀ n, (upd n).perms = n.perms)
    (hval : ∀ n, root.lookup p = some n → (upd n.label).value ≠ n.label.value →
      addressed = some p ∧ Grants n.label domid) :
    GuestChange domid addressed root (root.plant fresh upd p) := by
  have hview := fun q => Tree.view_plant fresh upd hf p q root
  have hkept : ∀ q n n', root.lookup q = some n → (root.plant fresh upd p).lookup q = some n' →
      n'.label = if q = p then upd n.label else n.label := by
    intro q n n' hn hn'
    have h := hview q
    rw [view_of_lookup hn', view_of_lookup hn] at h
    simp only [Option.some.injEq, Prod.mk.injEq] at h
    exact h.1
  refine ⟨fun q hq hs => ?_, fun q n n' hn hn' hne => ?_, fun q n n' hn hn' => ?_,
    fun q hs hq => ?_⟩
  · have hqp : q <+: p := by
      by_contra hqp
      have h := hview q
      rw [(Tree.view_eq_none root q).mpr hq] at h
      simp only [if_neg hqp] at h
      rw [Tree.view_eq_none] at h
      rw [h] at hs
      cases hs
    obtain ⟨r, rfl⟩ := hqp
    refine grants_nearest hq (List.prefix_append q r) (hnew ?_)
    cases hl : root.lookup (q ++ r) with
    | none => rfl
    | some n =>
      have hex : (root.lookup q).isSome := Tree.lookup_isSome_of_append (by rw [hl]; rfl)
      rw [hq] at hex
      cases hex
  · have hlabel := hkept q n n' hn hn'
    by_cases hqp : q = p
    · subst hqp
      rw [if_pos rfl] at hlabel
      exact hval n hn (by rw [← hlabel]; exact hne)
    · rw [if_neg hqp] at hlabel
      exact absurd (by rw [hlabel]) hne
  · rw [hkept q n n' hn hn']
    split
    · exact hperms _
    · rfl
  · obtain ⟨n, hn⟩ := Option.isSome_iff_exists.mp hs
    have h := hview q
    rw [(Tree.view_eq_none _ q).mpr hq, view_of_lookup hn] at h
    cases h

theorem guestChange_remove {n : XsEntry} (hd : root.children.Distinct) (hp : p ≠ [])
    (hn : root.lookup p = some n) (hg : Grants n.label domid) :
    GuestChange domid (some p) root (root.remove p) := by
  obtain ⟨r, k, rfl⟩ : ∃ r k, p = r ++ [k] :=
    ⟨p.dropLast, p.getLast hp, (List.dropLast_append_getLast hp).symm⟩
  have hview := fun q => Tree.view_remove r k q hd
  have hkept : ∀ q m m', root.lookup q = some m → (root.remove (r ++ [k])).lookup q = some m' →
      m'.label = m.label := by
    intro q m m' hm hm'
    have h := hview q
    rw [view_of_lookup hm', view_of_lookup hm] at h
    split at h
    · cases h
    · simp only [Option.map_some, Option.some.injEq, Prod.mk.injEq] at h
      exact h.1
  refine ⟨fun q hq hs => ?_, fun q m m' hm hm' hne => ?_, fun q m m' hm hm' => ?_,
    fun q hs hq => ?_⟩
  · have h := hview q
    rw [(Tree.view_eq_none root q).mpr hq, Option.map_none, ite_self, Tree.view_eq_none] at h
    rw [h] at hs
    cases hs
  · exact absurd (by rw [hkept q m m' hm hm']) hne
  · rw [hkept q m m' hm hm']
  · refine ⟨r ++ [k], n, rfl, ?_, hn, hg⟩
    by_contra hpq
    obtain ⟨m, hm⟩ := Option.isSome_iff_exists.mp hs
    have h := hview q
    rw [if_neg hpq, (Tree.view_eq_none _ q).mpr hq, view_of_lookup hm] at h
    cases h

end Plant

/-- A write changes only what its outcome says. -/
theorem WriteOutcome.guestChange {data : Option CString} {domid : UInt32} {allocs : List Bool}
    {toks : List CString} {root root' : XsEntry} {rc : Option Errno}
    (h : WriteOutcome data domid [] allocs false toks root rc root') :
    GuestChange domid (some toks) root root' := by
  cases h with
  | refused e => exact GuestChange.refl _ _ _
  | written hnew hdata =>
    refine guestChange_plant (freshNode_idem []) hnew (updNode_perms data) (fun n hn hne => ?_)
    refine ⟨rfl, ?_⟩
    have hd : data ≠ none := by
      rintro rfl
      exact hne rfl
    simpa only [writeTarget, hn] using hdata hd
  | leftover p rest k n hmem htoks hp hk hg =>
    have hanchor : root.anchor (p ++ [k]) = n.label := by
      obtain ⟨a, m, hap, hm, hlabel, hmax⟩ := Tree.anchor_spec (p ++ [k]) root
      have hpa : p <+: a := hmax p (List.prefix_append p [k]) (by rw [hp]; rfl)
      have hne : a ≠ p ++ [k] := by
        rintro rfl
        rw [Tree.lookup_append, hp, Option.bind_some, Tree.lookup_cons, hk] at hm
        cases hm
      have hlen := hap.length_le
      have ha : a = p := by
        refine (hpa.eq_of_length_le ?_).symm
        by_contra hlt
        refine hne (hap.eq_of_length_le ?_)
        simp only [List.length_append, List.length_singleton] at hlen ⊢
        omega
      subst ha
      rw [hp] at hm
      cases hm
      exact hlabel.symm
    refine guestChange_plant (fun _ => rfl) (fun _ => by rw [hanchor]; exact hg) (fun _ => rfl)
      (fun n' hn' hne => absurd rfl hne)
  | dropped h => cases h

inductive GuestOp where
  | write | mkdir | rm
  deriving DecidableEq, Repr

/-- A request of the kinds above, with the client it comes from. -/
structure GuestRequest where
  xenstore : Xenstore
  id : UInt32
  op : GuestOp
  payload : Bytes

def GuestRequest.handle (r : GuestRequest) : SrvM Xenstore :=
  match r.op with
  | .write => handleWrite r.xenstore r.id r.payload
  | .mkdir => handleMkdir r.xenstore r.id r.payload
  | .rm => handleRm r.xenstore r.id r.payload

/-- The node a request addresses: for a write the one at the path `construct_path` gives, for a
removal the one `key_to_entry` finds. -/
def GuestRequest.addressed (r : GuestRequest) (root : XsEntry) : Option (List CString) :=
  match readStr r.payload with
  | .error _ => none
  | .ok text =>
    match r.op with
    | .rm => (foundEntry root text).map EntryRef.path
    | _ => (resolvePath text r.xenstore.domid).toOption.map tokens

/-- No removal of "/". -/
def GuestRequest.NotRoot (r : GuestRequest) : Prop :=
  r.op = .rm → readStr r.payload ≠ .ok [slash]

section Request
variable {x : Xenstore} {id : UInt32} {payload : Bytes}

theorem wp_handleWriteAs_store (type : XsdSockmsgType) (s : Shared)
    (hd : s.root.children.Distinct) (hlim : x.usedOutBufs ≤ xenstoreMaxOutBufNum) :
    wp (handleWriteAs type x id payload)
      (fun _ s' => s'.root.children.Distinct ∧
        (s'.root = s.root ∨ ∃ text full, readStr payload = .ok text ∧
          resolvePath text x.domid = .ok full ∧
          GuestChange x.domid (some (tokens full)) s.root s'.root))
      (fun _ => True) s := by
  unfold handleWriteAs
  rw [wp_bind]
  refine wp_lift (fun text htext => ?_) (fun _ _ => trivial)
  refine wp_ite (fun _ => wp_sendErrno_any hlim fun _ _ _ => ⟨hd, Or.inl rfl⟩) (fun _ => ?_)
  rw [wp_bind, wp_alloc]
  refine wp_constructPath (fun rest _ => ?_)
    (fun rest _ _ => wp_sendErrno_any hlim fun _ _ _ => ⟨hd, Or.inl rfl⟩)
  cases hfull : resolvePath text x.domid with
  | error e => exact wp_sendErrno_any hlim fun _ _ _ => ⟨hd, Or.inl rfl⟩
  | ok full =>
    simp only [wp_bind, wp_alloc]
    refine wp_constructData (fun data rest _ => ?_)
      (fun rest _ _ => wp_sendErrno_any hlim fun _ _ _ => ⟨hd, Or.inl rfl⟩)
    simp only [wp_bind]
    refine wp_xssDoWriteDeadline (fun rc root rest locks _ hw => ?_) (fun _ => trivial)
    have hchange : root.children.Distinct ∧ (root = s.root ∨ ∃ text full,
        readStr payload = .ok text ∧ resolvePath text x.domid = .ok full ∧
        GuestChange x.domid (some (tokens full)) s.root root) := by
      rcases hw with ⟨_, _, hroot⟩ | hw
      · exact ⟨by rw [hroot]; exact hd, Or.inl hroot⟩
      · exact ⟨hw.distinct hd, Or.inr ⟨text, full, htext, hfull, hw.guestChange⟩⟩
    cases rc with
    | some e => exact wp_sendErrno_any hlim fun _ _ _ => hchange
    | none =>
      simp only [wp_bind, wp_pure]
      refine wp_sendReplySz_any hlim fun x' rest' _ => ?_
      refine wp_notifyWatchers (fun s₁ s' evs hn hf _ _ => ?_) (fun _ _ => trivial)
      rw [hf.root, hn.frame.root]
      exact hchange

theorem wp_handleRm_store (s : Shared) (hd : s.root.children.Distinct)
    (hlim : x.usedOutBufs ≤ xenstoreMaxOutBufNum) (hroot : readStr payload ≠ .ok [slash]) :
    wp (handleRm x id payload)
      (fun _ s' => s'.root.children.Distinct ∧
        (s'.root = s.root ∨ ∃ text entry, readStr payload = .ok text ∧
          foundEntry s.root text = some entry ∧
          GuestChange x.domid (some entry.path) s.root s'.root))
      (fun _ => True) s := by
  unfold handleRm xssDoRmDeadline
  simp only [wp_bind, wp_pure]
  refine wp_lift (fun text htext => ?_) (fun _ _ => trivial)
  refine wp_mono (wp_xssDoRmLocked s) (fun r s₁ hr => ?_) (fun _ _ => trivial)
  obtain ⟨rc, localEvents⟩ := r
  obtain ⟨evs, hevs, hrm⟩ := hr
  simp only at hrm
  refine wp_dispatchLocalWatchEventsLocked _ s₁ fun s₂ hf _ _ => ?_
  have hchange : s₂.root.children.Distinct ∧ (s₂.root = s.root ∨ ∃ text entry,
      readStr payload = .ok text ∧ foundEntry s.root text = some entry ∧
      GuestChange x.domid (some entry.path) s.root s₂.root) := by
    rw [hf.root]
    cases hrm with
    | refused e hn => rw [hn.frame.root]; exact ⟨hd, Or.inl rfl⟩
    | freed s₀ entry hn hfound hg hfree =>
      have hne : text ≠ [slash] := by
        rintro rfl
        exact hroot htext
      have hp : entry.path ≠ [] := by
        obtain ⟨hep, htok⟩ := foundEntry_path hfound hne
        rw [hep]
        exact htok
      rw [freeEntry_root hfree, freeNode, hn.frame.root]
      exact ⟨Tree.distinct_remove hd, Or.inr ⟨text, entry, htext, hfound,
        guestChange_remove hd hp (foundEntry_lookup hfound) hg⟩⟩
  cases rc with
  | some e => exact wp_sendErrno_any hlim fun _ _ _ => hchange
  | none =>
    unfold sendReplyRead
    exact wp_sendReplySz_any hlim fun _ _ _ => hchange

end Request

theorem GuestRequest.handle_change {r : GuestRequest} {s s' : Shared} {x' : Xenstore}
    (hd : s.root.children.Distinct) (hlim : r.xenstore.usedOutBufs ≤ xenstoreMaxOutBufNum)
    (hroot : r.NotRoot) (h : r.handle s = .ok (x', s')) :
    s'.root.children.Distinct ∧
      GuestChange r.xenstore.domid (r.addressed s.root) s.root s'.root := by
  have hwrite : ∀ type, handleWriteAs type r.xenstore r.id r.payload s = .ok (x', s') →
      r.op ≠ .rm → s'.root.children.Distinct ∧
        GuestChange r.xenstore.domid (r.addressed s.root) s.root s'.root := by
    intro type hrun hop
    obtain ⟨hd', hsame | ⟨text, full, htext, hfull, hchange⟩⟩ :=
      wp_ok (wp_handleWriteAs_store type s hd hlim) hrun
    · exact ⟨hd', by rw [hsame]; exact GuestChange.refl _ _ _⟩
    · refine ⟨hd', ?_⟩
      have haddr : r.addressed s.root = some (tokens full) := by
        unfold GuestRequest.addressed
        simp only [htext]
        cases hk : r.op with
        | rm => exact absurd hk hop
        | write => simp [hfull, Except.toOption]
        | mkdir => simp [hfull, Except.toOption]
      rw [haddr]
      exact hchange
  cases hop : r.op with
  | write =>
    simp only [GuestRequest.handle, hop, handleWrite] at h
    exact hwrite .write h (by rw [hop]; decide)
  | mkdir =>
    simp only [GuestRequest.handle, hop, handleMkdir] at h
    exact hwrite .mkdir h (by rw [hop]; decide)
  | rm =>
    simp only [GuestRequest.handle, hop] at h
    obtain ⟨hd', hsame | ⟨text, entry, htext, hfound, hchange⟩⟩ :=
      wp_ok (wp_handleRm_store s hd hlim (hroot hop)) h
    · exact ⟨hd', by rw [hsame]; exact GuestChange.refl _ _ _⟩
    · refine ⟨hd', ?_⟩
      have haddr : r.addressed s.root = some entry.path := by
        simp [GuestRequest.addressed, htext, hop, hfound]
      rw [haddr]
      exact hchange

/-- A run of requests by any guests. Between two requests everything but the store may change:
replies are consumed, watches come and go, memory runs out and comes back. -/
inductive GuestRun : Shared → List (Shared × GuestRequest × Shared) → Prop where
  | done (s : Shared) : GuestRun s []
  | request (s t s' u : Shared) (r : GuestRequest) (x' : Xenstore)
      (rest : List (Shared × GuestRequest × Shared)) (ht : t.root = s.root)
      (h : r.handle t = .ok (x', s')) (hu : u.root = s'.root) (hrest : GuestRun u rest) :
      GuestRun s ((t, r, s') :: rest)

/-- In every run of requests below the output limit, each request changes only what its guest
may write. -/
theorem guestRun_changes (s : Shared) (run : List (Shared × GuestRequest × Shared))
    (hwf : WellFormed s.root) (hrun : GuestRun s run)
    (hguest : ∀ step ∈ run, step.2.1.xenstore.domid ≠ 0 ∧ step.2.1.NotRoot)
    (hlim : ∀ step ∈ run, step.2.1.xenstore.usedOutBufs ≤ xenstoreMaxOutBufNum) :
    ∀ step ∈ run, GuestChange step.2.1.xenstore.domid (step.2.1.addressed step.1.root)
      step.1.root step.2.2.root := by
  have hd := hwf.distinct
  clear hwf
  induction hrun with
  | done s =>
    intro step hstep
    exact absurd hstep List.not_mem_nil
  | request s t s' u r x' rest ht h hu hrest ih =>
    rw [← ht] at hd
    have hfirst := List.mem_cons_self (a := (t, r, s')) (l := rest)
    have hlim₀ : r.xenstore.usedOutBufs ≤ xenstoreMaxOutBufNum := hlim _ hfirst
    have hroot : r.NotRoot := (hguest _ hfirst).2
    obtain ⟨hd', hchange⟩ := GuestRequest.handle_change hd hlim₀ hroot h
    intro step hstep
    rcases List.mem_cons.mp hstep with rfl | hstep
    · exact hchange
    · refine ih (fun step hs => hguest step (List.mem_cons_of_mem _ hs))
        (fun step hs => hlim step (List.mem_cons_of_mem _ hs)) ?_ step hstep
      rw [hu]
      exact hd'

/-- Domain 1 writes "/a/b". -/
def writeBelowA : GuestRequest :=
  ⟨idleClient 1, 7, .write, strBytes (ascii ['/', 'a', '/', 'b']) ++ strBytes (ascii ['v'])⟩

theorem guestRun_changes_write : ∃ x' s', writeBelowA.handle ownedByOne = .ok (x', s') ∧
    GuestChange 1 (some [ascii ['a'], ascii ['b']]) ownedByOne.root s'.root := by
  have hrun : ∃ x' s', writeBelowA.handle ownedByOne = .ok (x', s') := ⟨_, _, rfl⟩
  obtain ⟨x', s', hs'⟩ := hrun
  have hguest : writeBelowA.xenstore.domid ≠ 0 := by decide
  have hlim : writeBelowA.xenstore.usedOutBufs ≤ xenstoreMaxOutBufNum := by decide
  refine ⟨x', s', hs', ?_⟩
  refine guestRun_changes ownedByOne [(ownedByOne, writeBelowA, s')] ownedByOne_wellFormed
    (.request _ _ _ _ _ _ _ rfl hs' rfl (.done s')) ?_ ?_ (ownedByOne, writeBelowA, s')
    List.mem_cons_self
  · intro step hstep
    rw [List.mem_singleton.mp hstep]
    exact ⟨hguest, by intro h; cases h⟩
  · intro step hstep
    rw [List.mem_singleton.mp hstep]
    exact hlim

/-- A client of domain 1 that left 101 replies unread asks for a write it may not do. -/
def writeOverLimit : GuestRequest :=
  ⟨{ idleClient 1 with outList := List.replicate 101 ⟨0, headerSize, []⟩, usedOutBufs := 101 }, 7,
    .write, strBytes (ascii ['/', 'b']) ++ strBytes (ascii ['v'])⟩

/-- The error reply stops the service of domain 1, and its node "/a" is removed. -/
theorem guestChange_fails_over_limit :
    ¬ ∀ (r : GuestRequest) (s s' : Shared) (x' : Xenstore), WellFormed s.root →
      r.xenstore.domid ≠ 0 → r.NotRoot → r.handle s = .ok (x', s') →
      GuestChange r.xenstore.domid (r.addressed s.root) s.root s'.root := by
  intro h
  have hchange := h writeOverLimit { ownedByOne with usedThreads := 1 } _ _ ownedByOne_wellFormed
    (by decide) (by intro h; cases h) rfl
  obtain ⟨p, n, haddr, hpq, _⟩ := hchange.removed [ascii ['a']] (by decide) (by decide)
  have hb : writeOverLimit.addressed ownedByOne.root = some [ascii ['b']] := by decide
  cases hb.symm.trans haddr
  revert hpq
  decide

end Xenlib
