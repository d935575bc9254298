import Xenlib.DomCreate
import Xenlib.Registry
import Xenlib.Spelling

/-!
The nodes of a new domain. A write of the control domain fails only where an allocation does;
what the writes add stays below the three directories of the domain, so that taking these away
brings back the tree as it was.
-/

set_option autoImplicit false

namespace Xenlib

open Wp Keyed

/-- `rest` is left of the outcomes `allocs`, and when something `failed` a failure was drawn. -/
structure Spent (allocs : List Bool) (failed : Bool) (rest : List Bool) : Prop where
  suffix : rest <:+ allocs
  failures : failed = true → rest.count false < allocs.count false

theorem Spent.refl (allocs : List Bool) : Spent allocs false allocs := ⟨List.suffix_rfl, nofun⟩

theorem Spent.after {allocs rest rest' : List Bool} {failed : Bool} (h : Spent rest failed rest')
    (hs : rest <:+ allocs) : Spent allocs failed rest' :=
  ⟨h.suffix.trans hs, fun hf => (h.failures hf).trans_le (hs.sublist.count_le false)⟩

theorem Spent.before {allocs rest rest' : List Bool} {failed : Bool} (h : Spent allocs failed rest)
    (hs : rest' <:+ rest) : Spent allocs failed rest' :=
  ⟨hs.trans h.suffix, fun hf => (hs.sublist.count_le false).trans_lt (h.failures hf)⟩

theorem Spent.granted {allocs rest : List Bool} {failed : Bool} (h : Spent allocs failed rest)
    (hmem : false ∉ allocs) : failed = false := by
  cases failed with
  | false => rfl
  | true =>
    have hlt := h.failures rfl
    rw [List.count_eq_zero_of_not_mem hmem] at hlt
    omega

theorem wp_kMalloc_spent {Q : Bool → List Bool → Prop} {E : Fault → Prop} {allocs : List Bool}
    (h : ∀ b rest, Spent allocs (!b) rest → Q b rest) : wp kMalloc Q E allocs := by
  cases allocs with
  | nil => exact h true [] (.refl [])
  | cons b bs =>
    refine h b bs ⟨List.suffix_cons b bs, fun hb => ?_⟩
    cases b with
    | true => cases hb
    | false => simp

theorem wp_kMallocs_spent {Q : Bool → List Bool → Prop} {E : Fault → Prop} {allocs : List Bool}
    (n : Nat) (h : ∀ b rest, Spent allocs (!b) rest → Q b rest) : wp (kMallocs n) Q E allocs := by
  induction n generalizing allocs with
  | zero => exact h true allocs (.refl allocs)
  | succ n ih =>
    unfold kMallocs
    rw [wp_bind]
    refine wp_kMalloc_spent fun b rest hb => ?_
    cases b with
    | true => exact ih fun b' rest' hb' => h b' rest' (hb'.after hb.suffix)
    | false => exact h false rest hb

section Write
variable {value : CString} {perms : List XsPermEntry}

theorem wp_newEntryPerms_spent {parent : XsNode} {domid : UInt32} {allocs : List Bool} :
    wp (newEntryPerms perms parent domid) (fun r rest => Spent allocs r.1.isSome rest)
      (fun _ => False) allocs := by
  unfold newEntryPerms
  split
  · unfold setPermsByArray
    rw [wp_bind]
    refine wp_kMallocs_spent _ fun b rest hb => ?_
    cases b <;> exact hb
  · unfold inheritPerms
    rw [wp_bind]
    refine wp_kMallocs_spent _ fun b rest hb => ?_
    cases b <;> exact hb

/-- The control domain may write everywhere: a write that fails ran out of memory. -/
theorem wp_writeWalk_spent (toks : List CString) (inserted : Bool) (t : XsEntry)
    (allocs : List Bool) :
    wp (writeWalk (some value) 0 perms toks inserted t)
      (fun r rest => Spent allocs r.1.isSome rest) (fun _ => False) allocs := by
  induction toks generalizing inserted t allocs with
  | nil =>
    unfold writeWalk writeValue
    rw [checkPerms_zero]
    simp only [wp_bind, wp_lift_ok, if_true]
    refine wp_kMalloc_spent fun b rest hb => ?_
    cases b <;> exact hb
  | cons tok toks ih =>
    unfold writeWalk
    cases t.children.find? tok with
    | some iter =>
      simp only [wp_bind]
      exact wp_conseq (ih inserted iter allocs) fun r rest hr => hr
    | none =>
      rw [checkPerms_zero]
      simp only [wp_bind, wp_lift_ok, Bool.not_true, Bool.false_eq_true, if_false]
      refine wp_kMalloc_spent fun b rest₁ h₁ => ?_
      cases b with
      | false => exact h₁
      | true =>
        simp only [Bool.not_true, Bool.false_eq_true, if_false, wp_bind]
        refine wp_kMalloc_spent fun b rest₂ h₂ => ?_
        have hs₂ := h₂.after h₁.suffix
        cases b with
        | false => exact hs₂
        | true =>
          simp only [Bool.not_true, Bool.false_eq_true, if_false, wp_bind]
          refine wp_conseq wp_newEntryPerms_spent fun r rest₃ h₃ => ?_
          have hs₃ := h₃.after hs₂.suffix
          obtain ⟨rc, node⟩ := r
          cases rc with
          | some e => exact hs₃
          | none =>
            simp only [wp_bind]
            refine wp_conseq (ih true _ rest₃) fun r rest₄ h₄ => ?_
            have hs₄ := h₄.after hs₃.suffix
            split
            · exact hs₄
            · exact hs₄

theorem wp_xssDoWriteDeadline_spent {path : CString} {s : Shared} :
    wp (xssDoWriteDeadline path (some value) 0 perms .forever)
      (fun rc s' => Spent s.allocs rc.isSome s'.allocs) (fun _ => False) s := by
  unfold xssDoWriteDeadline
  simp only [wp_bind, wp_alloc]
  refine wp_kMalloc_spent fun b rest hb => ?_
  cases b with
  | false => exact hb
  | true =>
    simp only [Bool.not_true, Bool.false_eq_true, if_false, wp_bind]
    refine wp_lock fun rc locks hrc => ?_
    obtain rfl : rc = none := hrc.resolve_right (by simp)
    simp only [wp_bind, wp_get, wp_alloc, wp_modify, wp_pure]
    unfold writeTree
    cases tokens path with
    | nil => exact hb
    | cons tok toks =>
      exact wp_conseq (wp_writeWalk_spent (tok :: toks) false s.root rest)
        fun r rest' hr => hr.after hb.suffix

end Write

section Draws
variable {α β : Type}

def Draws (x : SrvM α) : Prop :=
  ∀ s, wp x (fun _ s' => s'.allocs <:+ s.allocs) (fun _ => True) s

theorem Draws.pure (a : α) : Draws (pure a : SrvM α) := fun _ => List.suffix_rfl

theorem Draws.bind {x : SrvM α} {f : α → SrvM β} (hx : Draws x) (hf : ∀ a, Draws (f a)) :
    Draws (x >>= f) := by
  intro s
  rw [wp_bind]
  refine wp_conseq (hx s) fun a s₁ h₁ => ?_
  exact wp_conseq (hf a s₁) fun _ _ h₂ => h₂.trans h₁

theorem Draws.ite {c : Prop} [Decidable c] {x y : SrvM α} (hx : Draws x) (hy : Draws y) :
    Draws (if c then x else y) := by
  split
  · exact hx
  · exact hy

theorem Draws.throw (e : Fault) : Draws (throw e : SrvM α) := fun _ => trivial

theorem Draws.get : Draws (get : SrvM Shared) := fun _ => List.suffix_rfl

theorem Draws.modify {f : Shared → Shared} (h : ∀ s, (f s).allocs = s.allocs) :
    Draws (modify f : SrvM PUnit) := by
  intro s
  rw [wp_modify, h s]

theorem Draws.lock (deadline : Deadline) : Draws (xssMutexLockDeadline deadline) :=
  fun _ => wp_lock fun _ _ _ => List.suffix_rfl

theorem Draws.kMalloc : Draws (alloc kMalloc) := by
  intro s
  rw [wp_alloc]
  exact wp_kMalloc_drawn fun _ _ hd => hd.suffix

theorem Draws.find (root : XsEntry) (key : CString) (domid : UInt32) (perms : XsPerm) :
    Draws (alloc (keyToEntryCheckPerm root key domid perms)) := by
  intro s
  rw [wp_alloc]
  exact wp_keyToEntryCheckPerm (fun _ _ hs _ _ => hs) (fun _ hs _ => hs) (fun _ => trivial)

theorem draws_queuePendingWatchEvent (w : WatchEntry) (domid : UInt32) (path : CString)
    (deadline : Deadline) : Draws (queuePendingWatchEvent w domid path deadline) := by
  refine .bind .kMalloc fun _ => .ite (.pure _) (.bind .kMalloc fun _ => .ite (.pure _) ?_)
  refine .bind (.lock _) fun rc => ?_
  cases rc with
  | some e => exact .pure _
  | none => exact .bind (.modify fun _ => rfl) fun _ => .pure _

theorem draws_queueLocalWatchEventLocked (localEvents : List Nat) (w : WatchEntry)
    (path : CString) : Draws (queueLocalWatchEventLocked localEvents w path) := by
  refine .ite (.pure _) (.bind .kMalloc fun _ => .ite (.pure _) (.ite (.throw _) ?_))
  exact .bind (.modify fun _ => rfl) fun _ => .pure _

theorem draws_queueWatchLoop (path : CString) (recursiveRemove : Bool) (deadline : Deadline)
    (iters : List WatchEntry) (localEvents : List Nat) :
    Draws (queueWatchLoop path recursiveRemove deadline iters localEvents) := by
  induction iters generalizing localEvents with
  | nil => exact .pure _
  | cons iter rest ih =>
    unfold queueWatchLoop
    split
    · exact ih _
    · refine .bind .get fun s => .bind (.find _ _ _ _) fun entry => ?_
      cases entry with
      | none => exact ih _
      | some _ =>
        cases iter.domain with
        | none =>
          exact .ite (.throw _) (.bind (draws_queueLocalWatchEventLocked _ _ _) fun _ => ih _)
        | some domid =>
          refine .bind (draws_queuePendingWatchEvent _ _ _ _) fun rc => ?_
          split
          · exact ih _
          · exact .pure _
          · exact .pure _

theorem draws_queueWatchNotifications (path : CString) (recursiveRemove : Bool)
    (deadline : Deadline) :
    Draws (queueWatchNotificationsXselLocked path recursiveRemove deadline) := by
  refine .bind (.lock _) fun rc => ?_
  cases rc with
  | some e => exact .pure _
  | none => exact .bind .get fun s => draws_queueWatchLoop _ _ _ _ _

theorem draws_dispatch (ids : List Nat) : Draws (dispatchLocalWatchEventsLocked ids) := by
  induction ids with
  | nil => exact .pure _
  | cons id ids ih => exact .bind (.modify fun _ => rfl) fun _ => ih

theorem draws_notifyWatchers (path : CString) : Draws (notifyWatchers path) := by
  have hlocked : Draws (notifyWatchersLocked path .forever) := by
    refine .bind (.lock _) fun rc => ?_
    cases rc with
    | some e => exact .pure _
    | none =>
      refine .bind (.lock _) fun rc => ?_
      cases rc with
      | some e => exact .pure _
      | none => exact draws_queueWatchNotifications _ _ _
  exact .bind (.bind hlocked fun _ => .bind (draws_dispatch _) fun _ => .pure _) fun _ => .pure _

end Draws

def withoutDomain (domid : UInt32) (t : XsEntry) : XsEntry :=
  ((t.remove (localDomainDir domid)).remove (vmDir domid)).remove (libxlDir domid)

structure DomainDirs (t : XsEntry) : Prop where
  domains : (t.lookup [cstr "local", cstr "domain"]).isSome
  vm : (t.lookup [cstr "vm"]).isSome
  libxl : (t.lookup [cstr "libxl"]).isSome

def OfDomain (domid : UInt32) (p : List CString) : Prop :=
  localDomainDir domid <+: p ∨ vmDir domid <+: p ∨ libxlDir domid <+: p

/-- `t'` has grown out of `t` by nodes of the domain. -/
structure Grown (domid : UInt32) (t t' : XsEntry) : Prop where
  dirs : DomainDirs t'
  without : withoutDomain domid t' = withoutDomain domid t

theorem lookup_plant_of_isSome {fresh upd : XsNode → XsNode} (hf : ∀ n, fresh (fresh n) = fresh n)
    (p : List CString) {q : List CString} {t : XsEntry} (h : (t.lookup q).isSome) :
    ((t.plant fresh upd p).lookup q).isSome := by
  rw [← Tree.view_isSome] at h ⊢
  rw [Tree.view_plant fresh upd hf]
  cases hv : t.view q with
  | none => simp [hv] at h
  | some e => rfl

theorem DomainDirs.plant {fresh upd : XsNode → XsNode} (hf : ∀ n, fresh (fresh n) = fresh n)
    (p : List CString) {t : XsEntry} (h : DomainDirs t) : DomainDirs (t.plant fresh upd p) where
  domains := lookup_plant_of_isSome hf p h.domains
  vm := lookup_plant_of_isSome hf p h.vm
  libxl := lookup_plant_of_isSome hf p h.libxl

theorem withoutDomain_plant {domid : UInt32} {fresh upd : XsNode → XsNode} {p : List CString}
    {t : XsEntry} (h : DomainDirs t) (hp : OfDomain domid p) :
    withoutDomain domid (t.plant fresh upd p) = withoutDomain domid t := by
  have hlv : cstr "vm" ≠ cstr "local" := by decide
  have hxl : cstr "libxl" ≠ cstr "local" := by decide
  have hxv : cstr "libxl" ≠ cstr "vm" := by decide
  unfold withoutDomain
  rcases hp with ⟨q, rfl⟩ | ⟨q, rfl⟩ | ⟨q, rfl⟩
  · have hl : (t.plant fresh upd (localDomainDir domid ++ q)).remove (localDomainDir domid) =
        t.remove (localDomainDir domid) :=
      Tree.remove_plant fresh upd [cstr "local", cstr "domain"] (decimalInt domid) q h.domains
    rw [hl]
  · have hl : (t.plant fresh upd (vmDir domid ++ q)).remove (localDomainDir domid) =
        (t.remove (localDomainDir domid)).plant fresh upd (vmDir domid ++ q) :=
      Tree.remove_plant_ne fresh upd hlv _ _ t
    have hvm : ((t.remove (localDomainDir domid)).lookup [cstr "vm"]).isSome := by
      rw [localDomainDir, Tree.lookup_remove_ne hlv]
      exact h.vm
    have hv : ((t.remove (localDomainDir domid)).plant fresh upd (vmDir domid ++ q)).remove
        (vmDir domid) = (t.remove (localDomainDir domid)).remove (vmDir domid) :=
      Tree.remove_plant fresh upd [cstr "vm"] (uuidOf domid) q hvm
    rw [hl, hv]
  · have hl : (t.plant fresh upd (libxlDir domid ++ q)).remove (localDomainDir domid) =
        (t.remove (localDomainDir domid)).plant fresh upd (libxlDir domid ++ q) :=
      Tree.remove_plant_ne fresh upd hxl _ _ t
    have hv : ((t.remove (localDomainDir domid)).plant fresh upd (libxlDir domid ++ q)).remove
        (vmDir domid) =
        ((t.remove (localDomainDir domid)).remove (vmDir domid)).plant fresh upd
          (libxlDir domid ++ q) :=
      Tree.remove_plant_ne fresh upd hxv _ _ _
    rw [hl, hv]
    refine Tree.remove_plant fresh upd [cstr "libxl"] (decimalInt domid) q ?_
    rw [vmDir, Tree.lookup_remove_ne hxv, localDomainDir, Tree.lookup_remove_ne hxl]
    exact h.libxl

theorem Grown.refl {domid : UInt32} {t : XsEntry} (h : DomainDirs t) : Grown domid t t := ⟨h, rfl⟩

theorem Grown.plant {domid : UInt32} {t t' : XsEntry} {fresh upd : XsNode → XsNode}
    {p : List CString} (h : Grown domid t t') (hf : ∀ n, fresh (fresh n) = fresh n)
    (hp : OfDomain domid p) : Grown domid t (t'.plant fresh upd p) :=
  ⟨h.dirs.plant hf p, (withoutDomain_plant h.dirs hp).trans h.without⟩

theorem OfDomain.missing {domid : UInt32} {t : XsEntry} {p rest : List CString} {k : CString}
    (h : DomainDirs t) (hp : OfDomain domid (p ++ k :: rest)) (hk : t.lookup (p ++ [k]) = none) :
    OfDomain domid (p ++ [k]) := by
  have hsplit : p ++ k :: rest = (p ++ [k]) ++ rest := by simp
  have hbelow {d : List CString} {x : CString} (hd : (t.lookup d).isSome)
      (hx : d ++ [x] <+: p ++ k :: rest) : d ++ [x] <+: p ++ [k] := by
    rw [hsplit] at hx
    rcases List.prefix_or_prefix_of_prefix hx (List.prefix_append (p ++ [k]) rest) with h' | h'
    · exact h'
    · rcases List.prefix_concat_iff.mp h' with heq | ⟨q, hq⟩
      · rw [heq]
      · rw [← hq, Tree.lookup_append, hk] at hd
        cases hd
  rcases hp with hp | hp | hp
  · exact Or.inl (hbelow (d := [cstr "local", cstr "domain"]) h.domains hp)
  · exact Or.inr (Or.inl (hbelow (d := [cstr "vm"]) h.vm hp))
  · exact Or.inr (Or.inr (hbelow (d := [cstr "libxl"]) h.libxl hp))

def NodeWrite.perms (w : NodeWrite) (domid : UInt32) : List XsPermEntry :=
  match w.writer with
  | .guestDomainRw => [⟨domid.toUInt16, .none⟩]
  | .guestDomainRo =>
    if domid = 0 then [⟨0, .none⟩] else [⟨0, .none⟩, ⟨domid.toUInt16, .read⟩]
  | .plain => [⟨0, .none⟩]

theorem NodeWrite.run_eq (w : NodeWrite) (domid : UInt32) :
    w.run domid = xssWriteWith (some (renderPath w.path)) (some w.value) (w.perms domid) := by
  obtain ⟨writer, path, value⟩ := w
  cases writer <;> rfl

structure Quiet (s : Shared) : Prop where
  idle : ∀ w ∈ s.watches, w.pendingPath = none
  relative : ∀ w ∈ s.watches, w.isRelative = true →
    (localDomainPath (w.domain.getD 0)).length ≤ w.key.length

structure Undisturbed (s s' : Shared) : Prop where
  usedThreads : s'.usedThreads = s.usedThreads
  domuMax : s'.domuMax = s.domuMax
  watches : s'.watches = s.watches

theorem Undisturbed.trans {a b c : Shared} (h₁ : Undisturbed a b) (h₂ : Undisturbed b c) :
    Undisturbed a c :=
  ⟨h₂.usedThreads.trans h₁.usedThreads, h₂.domuMax.trans h₁.domuMax,
    h₂.watches.trans h₁.watches⟩

theorem Quiet.undisturbed {s s' : Shared} (h : Quiet s) (hu : Undisturbed s s') : Quiet s' := by
  obtain ⟨hi, hr⟩ := h
  rw [← hu.watches] at hi hr
  exact ⟨hi, hr⟩

theorem wp_notifyWatchers_quiet {path : CString} {s : Shared} (hq : Quiet s)
    (hperms : PermsOk s.root) :
    wp (notifyWatchers path)
      (fun _ s' => s'.root = s.root ∧ Undisturbed s s' ∧ s'.allocs <:+ s.allocs)
      (fun _ => False) s := by
  have hframe : wp (notifyWatchers path) (fun _ s' => s'.root = s.root ∧ Undisturbed s s')
      (fun _ => False) s := by
    refine wp_notifyWatchers (fun s₁ s' evs hn hf hw _ => ?_)
      (fun e he => not_notifyFault hperms hq.idle hq.relative he)
    have hf' := hn.frame.trans hf
    refine ⟨hf'.root, hf'.usedThreads, hf'.domuMax, ?_⟩
    rw [hw, hn.watches, clear_markPending hq.idle]
  exact wp_mono (wp_and hframe (draws_notifyWatchers path s))
    (fun _ _ h => ⟨h.1.1, h.1.2, h.2⟩) (fun _ h => h.1)

section Nodes
variable {domid : UInt32} {t : XsEntry}

/-- A write of a node of the domain that fails leaves at most nodes of the domain behind. -/
theorem Wrote.grown {p : List CString} {data : Option CString} {perms : List XsPermEntry}
    {s : Shared} {e : Errno} {root : XsEntry} (hg : Grown domid t s.root) (hc : Components p)
    (hp : OfDomain domid p) (h : Wrote (renderPath p) data 0 perms s (some e) root) :
    Grown domid t root := by
  rcases h with ⟨_, hrc, _⟩ | h
  · cases hrc
  rw [tokens_renderPath hc] at h
  cases h with
  | refused => exact hg
  | leftover q rest k n _ htoks hq hk _ =>
    refine hg.plant (fun _ => rfl) (OfDomain.missing hg.dirs (htoks ▸ hp) ?_)
    simp [Tree.lookup_append, hq, Tree.lookup_cons, hk]
  | dropped h => cases h

theorem OfDomain.ne_nil {p : List CString} (h : OfDomain domid p) : p ≠ [] := by
  rintro rfl
  rcases h with h | h | h <;> cases List.prefix_nil.mp h

theorem Wrote.planted {p : List CString} {data : Option CString} {perms : List XsPermEntry}
    {s : Shared} {root : XsEntry} (hc : Components p) (hne : p ≠ [])
    (h : Wrote (renderPath p) data 0 perms s none root) :
    root = s.root.plant (freshNode perms) (updNode data) p := by
  rcases h with ⟨htoks, -⟩ | h
  · rw [tokens_renderPath hc] at htoks
    exact absurd htoks hne
  · rw [tokens_renderPath hc] at h
    cases h
    rfl

theorem wp_nodeWrite {w : NodeWrite} {s : Shared} (hq : Quiet s) (hwf : WellFormed s.root)
    (hg : Grown domid t s.root) (hc : Components w.path) (hp : OfDomain domid w.path) :
    wp (w.run domid) (fun rc s' => Spent s.allocs rc.isSome s'.allocs ∧ Undisturbed s s' ∧
      Grown domid t s'.root ∧ (rc = none → s'.root =
        s.root.plant (freshNode (w.perms domid)) (updNode (some w.value)) w.path))
      (fun _ => False) s := by
  rw [NodeWrite.run_eq]
  unfold xssWriteWith
  rw [wp_bind]
  have hwrite : wp (xssDoWriteDeadline (renderPath w.path) (some w.value) 0 (w.perms domid)
      .forever)
      (fun rc s₁ => Undisturbed s s₁ ∧
        Wrote (renderPath w.path) (some w.value) 0 (w.perms domid) s rc s₁.root)
      (fun _ => False) s :=
    wp_xssDoWriteDeadline (fun rc root rest locks _ hw => ⟨⟨rfl, rfl, rfl⟩, hw⟩)
      (fun h => h hwf.permsOk)
  refine wp_mono (wp_and wp_xssDoWriteDeadline_spent hwrite) (fun rc s₁ h => ?_) (fun _ h => h.1)
  obtain ⟨hspent, hu, hw⟩ := h
  cases rc with
  | some e => exact ⟨hspent, hu, hw.grown hg hc hp, nofun⟩
  | none =>
    have hroot := hw.planted hc hp.ne_nil
    have hwf₁ : WellFormed s₁.root := by
      rw [hroot]
      exact hwf.plant hc (fun n hn => freshNode_perms_ne_nil hn)
        (fun n hn => by rwa [updNode_perms])
    rw [wp_bind]
    refine wp_conseq (wp_notifyWatchers_quiet (hq.undisturbed hu) hwf₁.permsOk) fun _ s₂ h₂ => ?_
    refine ⟨⟨h₂.2.2.trans hspent.suffix, nofun⟩, hu.trans h₂.2.1, ?_, fun _ => h₂.1.trans hroot⟩
    rw [h₂.1, hroot]
    exact hg.plant (freshNode_idem _) hp

/-- The directory of the domain in "/libxl" belongs to the control domain. -/
def LibxlOwned (domid : UInt32) (t : XsEntry) : Prop :=
  ∀ e, t.view (libxlDir domid) = some e → e.1.perms.head? = some ⟨0, .none⟩

/-- A write that keeps to the directories of the domain, and to the permissions of "/libxl". -/
structure NodeOk (domid : UInt32) (w : NodeWrite) : Prop where
  components : Components w.path
  ofDomain : OfDomain domid w.path
  libxl : libxlDir domid <+: w.path → w.perms domid = [⟨0, .none⟩]

theorem LibxlOwned.plant {w : NodeWrite} (h : LibxlOwned domid t) (hw : NodeOk domid w) :
    LibxlOwned domid (t.plant (freshNode (w.perms domid)) (updNode (some w.value)) w.path) := by
  intro e he
  rw [Tree.view_plant _ _ (freshNode_idem _)] at he
  cases hv : t.view (libxlDir domid) with
  | some e' =>
    rw [hv] at he
    simp only [Option.some.injEq] at he
    subst he
    have hperms := h e' hv
    simp only
    split
    · rw [updNode_perms]
      exact hperms
    · exact hperms
  | none =>
    simp only [hv] at he
    split at he
    · rename_i hpre
      simp only [Option.some.injEq] at he
      subst he
      simp only [hw.libxl hpre]
      split <;> rfl
    · cases he

/-- What the writes have made of `t` when all of them succeed. -/
structure NodesWritten (domid : UInt32) (ws : List NodeWrite) (t t' : XsEntry) : Prop where
  wellFormed : WellFormed t'
  libxl : LibxlOwned domid t'
  kept : ∀ q, (t.lookup q).isSome → (t'.lookup q).isSome
  written : ∀ w ∈ ws, (t'.lookup w.path).isSome

theorem wp_writeNodes (ws : List NodeWrite) (hws : ∀ w ∈ ws, NodeOk domid w) {s : Shared}
    (hq : Quiet s) (hwf : WellFormed s.root) (hg : Grown domid t s.root)
    (hlib : LibxlOwned domid s.root) :
    wp (writeNodes domid ws) (fun rc s' => Spent s.allocs rc.isSome s'.allocs ∧
      Undisturbed s s' ∧ Grown domid t s'.root ∧
      (rc = none → NodesWritten domid ws s.root s'.root)) (fun _ => False) s := by
  induction ws generalizing s with
  | nil =>
    exact ⟨.refl _, ⟨rfl, rfl, rfl⟩, hg, fun _ => ⟨hwf, hlib, fun _ h => h, nofun⟩⟩
  | cons w ws ih =>
    have hw := hws w List.mem_cons_self
    unfold writeNodes
    rw [wp_bind]
    refine wp_conseq (wp_nodeWrite hq hwf hg hw.components hw.ofDomain) fun rc s₁ h₁ => ?_
    obtain ⟨hspent, hu, hg₁, hroot⟩ := h₁
    cases rc with
    | some e => exact ⟨hspent, hu, hg₁, nofun⟩
    | none =>
      have hroot := hroot rfl
      have hwf₁ : WellFormed s₁.root := by
        rw [hroot]
        exact hwf.plant hw.components (fun n hn => freshNode_perms_ne_nil hn)
          (fun n hn => by rwa [updNode_perms])
      have hlib₁ : LibxlOwned domid s₁.root := by
        rw [hroot]
        exact hlib.plant hw
      refine wp_conseq (ih (fun v hv => hws v (List.mem_cons_of_mem _ hv)) (hq.undisturbed hu) hwf₁
        hg₁ hlib₁) fun rc s₂ h₂ => ?_
      obtain ⟨hspent₂, hu₂, hg₂, hdone⟩ := h₂
      refine ⟨hspent₂.after hspent.suffix, hu.trans hu₂, hg₂, fun hrc => ?_⟩
      obtain ⟨hwf₂, hlib₂, hkept, hwritten⟩ := hdone hrc
      refine ⟨hwf₂, hlib₂, fun q hq => hkept q ?_, fun v hv => ?_⟩
      · rw [hroot]
        exact lookup_plant_of_isSome (freshNode_idem _) _ hq
      · rcases List.mem_cons.mp hv with rfl | hv
        · refine hkept _ ?_
          rw [hroot]
          exact lookup_plant_isSome _
        · exact hwritten v hv

theorem Components.append {a b : List CString} (ha : Components a) (hb : Components b) :
    Components (a ++ b) := by
  intro t ht
  rcases List.mem_append.mp ht with ht | ht
  · exact ha t ht
  · exact hb t ht

theorem slash_notMem_zeroPadded (width n : Nat) : slash ∉ zeroPadded width n := by
  intro hmem
  rcases List.mem_append.mp hmem with hmem | hmem
  · obtain ⟨c, hc, heq⟩ := List.mem_filterMap.mp hmem
    rw [(List.mem_replicate.mp hc).2] at heq
    exact absurd heq (by decide)
  · exact (decimal_digits n).2 hmem

theorem uuidOf_digits (domid : UInt32) : uuidOf domid ≠ [] ∧ slash ∉ uuidOf domid := by
  refine ⟨fun h => absurd (List.append_eq_nil_iff.mp h).1 (by decide), fun hmem => ?_⟩
  rcases List.mem_append.mp hmem with hmem | hmem
  · exact absurd hmem (by decide)
  · unfold paddedInt at hmem
    split at hmem
    · exact slash_notMem_zeroPadded _ _ hmem
    · rcases List.mem_append.mp hmem with hmem | hmem
      · exact absurd hmem (by decide)
      · exact slash_notMem_zeroPadded _ _ hmem

theorem components_localDomainDir (domid : UInt32) : Components (localDomainDir domid) := by
  have hdirs : Components [cstr "local", cstr "domain"] := by unfold Components; decide
  exact hdirs.append (List.forall_mem_singleton.mpr (decimalInt_digits domid))

theorem components_vmDir (domid : UInt32) : Components (vmDir domid) := by
  have hdirs : Components [cstr "vm"] := by unfold Components; decide
  exact hdirs.append (List.forall_mem_singleton.mpr (uuidOf_digits domid))

theorem components_libxlDir (domid : UInt32) : Components (libxlDir domid) := by
  have hdirs : Components [cstr "libxl"] := by unfold Components; decide
  exact hdirs.append (List.forall_mem_singleton.mpr (decimalInt_digits domid))

theorem nodeOk_local {writer : NodeWriter} {q : List CString} {value : CString}
    (hq : Components q) : NodeOk domid ⟨writer, localDomainDir domid ++ q, value⟩ where
  components := (components_localDomainDir domid).append hq
  ofDomain := Or.inl (List.prefix_append _ _)
  libxl h := absurd (List.cons_prefix_cons.mp h).1 (by decide)

theorem nodeOk_vm {writer : NodeWriter} {q : List CString} {value : CString}
    (hq : Components q) : NodeOk domid ⟨writer, vmDir domid ++ q, value⟩ where
  components := (components_vmDir domid).append hq
  ofDomain := Or.inr (Or.inl (List.prefix_append _ _))
  libxl h := absurd (List.cons_prefix_cons.mp h).1 (by decide)

theorem nodeOk_libxl {q : List CString} {value : CString} (hq : Components q) :
    NodeOk domid ⟨.plain, libxlDir domid ++ q, value⟩ where
  components := (components_libxlDir domid).append hq
  ofDomain := Or.inr (Or.inr (List.prefix_append _ _))
  libxl _ := rfl

instance (toks : List CString) : Decidable (Components toks) :=
  inferInstanceAs (Decidable (∀ t ∈ toks, t ≠ [] ∧ slash ∉ t))

theorem nodeOk_nodeWrites (name : CString) (numVcpus maxMemKb : Nat) :
    ∀ w ∈ nodeWrites domid name numVcpus maxMemKb, NodeOk domid w := by
  have hcpu (i : Nat) : Components [cstr "cpu", decimal i, cstr "availability"] := by
    intro t ht
    rcases List.mem_cons.mp ht with rfl | ht
    · decide
    rcases List.mem_cons.mp ht with rfl | ht
    · exact decimal_digits i
    · rw [List.mem_singleton.mp ht]
      decide
  have hrw : ∀ d ∈ rwDirs, Components d := by decide
  have hroot : NodeOk domid ⟨.guestDomainRw, localDomainDir domid, []⟩ := by
    have h := @nodeOk_local domid .guestDomainRw [] [] nofun
    rwa [List.append_nil] at h
  unfold nodeWrites
  simp only [List.forall_mem_append, List.forall_mem_cons, List.forall_mem_map]
  refine ⟨⟨⟨⟨⟨hroot, nofun⟩, fun i _ => nodeOk_local (hcpu i)⟩, ?_⟩,
    fun d hd => nodeOk_local (hrw d hd)⟩, nodeOk_libxl (by decide), nodeOk_libxl (by decide), nofun⟩
  exact ⟨nodeOk_local (by decide), nodeOk_local (by decide), nodeOk_local (by decide),
    nodeOk_local (by decide), nodeOk_local (by decide), nodeOk_local (by decide),
    nodeOk_vm (by decide), nodeOk_local (by decide), nodeOk_vm (by decide), nodeOk_vm (by decide),
    nodeOk_local (by decide), nodeOk_local (by decide), nodeOk_local (by decide), nofun⟩

omit domid t in
theorem wp_queuePendingWatchEvent_forever (w : WatchEntry) (domid : UInt32) (path : CString)
    (s : Shared) :
    wp (queuePendingWatchEvent w domid path .forever)
      (fun rc _ => rc = none ∨ rc = some .enomem) (fun _ => True) s := by
  unfold queuePendingWatchEvent
  rw [wp_bind, wp_alloc]
  refine wp_kMalloc_drawn fun b rest₁ _ => wp_ite (fun _ => Or.inr rfl) (fun _ => ?_)
  rw [wp_bind, wp_alloc]
  refine wp_kMalloc_drawn fun b rest₂ _ => wp_ite (fun _ => Or.inr rfl) (fun _ => ?_)
  rw [wp_bind]
  refine wp_lock fun rc locks hrc => ?_
  obtain rfl : rc = none := hrc.resolve_right (by simp)
  rw [wp_bind, wp_modify]
  exact Or.inl rfl

theorem wp_queueWatchLoop_forever (path : CString) (recursiveRemove : Bool)
    (iters : List WatchEntry) (localEvents : List Nat) (s : Shared) :
    wp (queueWatchLoop path recursiveRemove .forever iters localEvents)
      (fun r _ => r.1 = none) (fun _ => True) s := by
  induction iters generalizing localEvents s with
  | nil => exact rfl
  | cons iter rest ih =>
    unfold queueWatchLoop
    split
    · exact ih _ _
    · rw [wp_bind, wp_get, wp_bind]
      refine wp_conseq (wp_trivial _ s) fun entry s₁ _ => ?_
      cases entry with
      | none => exact ih _ _
      | some _ =>
        cases iter.domain with
        | none =>
          refine wp_ite (fun _ => trivial) (fun _ => ?_)
          rw [wp_bind]
          exact wp_conseq (wp_trivial _ s₁) fun _ s₂ _ => ih _ _
        | some domid =>
          rw [wp_bind]
          refine wp_conseq (wp_queuePendingWatchEvent_forever iter domid _ s₁) fun rc s₂ hrc => ?_
          rcases hrc with rfl | rfl
          · exact ih _ _
          · exact rfl

theorem wp_queueWatchNotifications_forever (path : CString) (recursiveRemove : Bool) (s : Shared) :
    wp (queueWatchNotificationsXselLocked path recursiveRemove .forever)
      (fun r _ => r.1 = none) (fun _ => True) s := by
  unfold queueWatchNotificationsXselLocked
  rw [wp_bind]
  refine wp_lock fun rc locks hrc => ?_
  obtain rfl : rc = none := hrc.resolve_right (by simp)
  rw [wp_bind, wp_get]
  exact wp_queueWatchLoop_forever _ _ _ _ _

/-- The node at `p` is taken out of the tree. -/
structure TakenOut (p : List CString) (s s' : Shared) : Prop where
  root : s'.root = s.root.remove p
  usedThreads : s'.usedThreads = s.usedThreads
  domuMax : s'.domuMax = s.domuMax
  allocs : s'.allocs <:+ s.allocs

def nextAlloc (s : Shared) : Bool := s.allocs.headD true

omit domid t in
theorem nextAlloc_of_granted {s : Shared} (h : false ∉ s.allocs) : nextAlloc s = true := by
  cases hs : s.allocs with
  | nil =>
    rw [nextAlloc, hs]
    rfl
  | cons b bs =>
    rw [nextAlloc, hs]
    cases b with
    | true => rfl
    | false => exact absurd (hs ▸ List.mem_cons_self) h

omit domid t in
theorem wp_keyToEntryCheckPerm_zero {p : List CString} {root : XsEntry} {allocs : List Bool}
    {perms : XsPerm} {Q : Option EntryRef → List Bool → Prop}
    {E : Fault → Prop} (hc : Components p) (hne : p ≠ [])
    (hlen : (renderPath p).length ≤ xenstoreAbsPathMax)
    (hfound : ∀ e, root.lookup p = some e → allocs.headD true = true →
      Q (some ⟨p, e⟩) allocs.tail)
    (hnone : root.lookup p = none ∨ allocs.headD true = false → Q none allocs.tail) :
    wp (keyToEntryCheckPerm root (renderPath p) 0 perms) Q E allocs := by
  have hroot : ¬ xenstoreIsRootPath (renderPath p) = true := by
    rw [xenstoreIsRootPath_iff]
    exact renderPath_ne_slash hc hne
  have hentry : entryAt root p = (root.lookup p).map fun e => ⟨p, e⟩ := by
    cases p with
    | nil => exact absurd rfl hne
    | cons k ks => rfl
  have htail : wp kMalloc (fun b rest => b = allocs.headD true ∧ rest = allocs.tail)
      (fun _ => False) allocs := by
    cases allocs with
    | nil => exact ⟨rfl, rfl⟩
    | cons b bs => exact ⟨rfl, rfl⟩
  unfold keyToEntryCheckPerm keyToEntry
  rw [if_neg (by omega), if_neg hroot, wp_bind, wp_bind]
  refine wp_mono htail (fun b rest h => ?_) (fun _ h => h.elim)
  obtain ⟨rfl, rfl⟩ := h
  cases hb : allocs.headD true with
  | false => exact hnone (Or.inr hb)
  | true =>
    rw [tokens_renderPath hc, hentry]
    cases he : root.lookup p with
    | none => exact hnone (Or.inl he)
    | some e =>
      have hfound := hfound e he hb
      simp only [if_true, Option.map_some, wp_pure, wp_bind, checkPermsForEntry, checkPerms_zero,
        wp_lift_ok]
      exact hfound

/-- A removal takes the node away unless the copy of the path finds no memory, and the watches
are told. -/
structure RemovalTold (p : List CString) (s s' : Shared) : Prop where
  root : s'.root = if nextAlloc s then s.root.remove p else s.root
  usedThreads : s'.usedThreads = s.usedThreads
  domuMax : s'.domuMax = s.domuMax
  allocs : s'.allocs <:+ s.allocs
  watches : (∀ w ∈ s.watches, w.pendingPath = none) → s'.watches = s.watches

omit domid t in
theorem wp_xssRm_told {p : List CString} (hc : Components p) (hne : p ≠ [])
    (hlen : (renderPath p).length ≤ xenstoreAbsPathMax) {s : Shared} :
    wp (xssRm (some (renderPath p))) (fun _ s' => RemovalTold p s s')
      (NotifyFault (renderPath p) true (linkedWatches s) s) s := by
  unfold xssRm xssDoRmDeadline xssDoRmLocked
  simp only [wp_bind, wp_pure]
  refine wp_lock fun rc locks₁ hrc => ?_
  obtain rfl : rc = none := hrc.resolve_right (by simp)
  simp only [wp_bind]
  refine wp_lock fun rc locks₂ hrc => ?_
  obtain rfl : rc = none := hrc.resolve_right (by simp)
  simp only [wp_bind, wp_get, wp_alloc]
  refine wp_keyToEntryCheckPerm_zero hc hne hlen (fun e _ hgranted => ?_) (fun hnone => ?_)
  · simp only [wp_bind]
    refine wp_mono (wp_and (wp_and (wp_queueWatchNotificationsXselLocked _)
      (draws_queueWatchNotifications _ _ _ _)) (wp_queueWatchNotifications_forever _ _ _))
      (fun r s₁ h => ?_) (fun _ h => h.1.1)
    obtain ⟨⟨⟨evs, hevs, hn⟩, hdraw⟩, hrc⟩ := h
    obtain ⟨rc, localEvents⟩ := r
    obtain rfl : rc = none := hrc
    simp only at hevs
    subst hevs
    simp only [wp_bind, wp_pure]
    refine wp_of_ok (freeEntry_below hne) ?_
    have hkept (sd : Shared) : wp (dispatchLocalWatchEventsLocked (evs.map Prod.fst))
        (fun _ s' => Frame sd s' ∧ s'.watches = clearPending (evs.map Prod.fst) sd.watches)
        (NotifyFault (renderPath p) true (linkedWatches s) s) sd :=
      wp_dispatchLocalWatchEventsLocked _ sd fun s' hf hw _ => ⟨hf, hw⟩
    refine wp_mono (wp_and (hkept _) (draws_dispatch _ _)) (fun _ s' h => ?_) (fun _ h => h.1)
    obtain ⟨⟨hf, hw⟩, hdraw'⟩ := h
    refine ⟨?_, hf.usedThreads.trans hn.frame.usedThreads, hf.domuMax.trans hn.frame.domuMax,
      (hdraw'.trans hdraw).trans (List.tail_suffix _), fun hidle => ?_⟩
    · rw [hf.root, nextAlloc, hgranted, if_pos rfl]
      show s₁.root.remove p = s.root.remove p
      rw [hn.frame.root]
    · rw [hw]
      show clearPending _ s₁.watches = s.watches
      rw [hn.watches, clear_markPending hidle]
  · refine ⟨?_, rfl, rfl, List.tail_suffix _, fun _ => rfl⟩
    show s.root = _
    rcases hnone with hgone | hno
    · rw [Tree.remove_eq_self hgone, ite_self]
    · rw [nextAlloc, hno, if_neg Bool.false_ne_true]

omit domid t in
theorem wp_xssRm_granted {p : List CString} (hc : Components p) (hne : p ≠ [])
    (hlen : (renderPath p).length ≤ xenstoreAbsPathMax) {s : Shared} (hmem : false ∉ s.allocs) :
    wp (xssRm (some (renderPath p))) (fun _ s' => TakenOut p s s') (fun _ => True) s := by
  refine wp_mono (wp_xssRm_told hc hne hlen) (fun _ s' h => ?_) (fun _ _ => trivial)
  refine ⟨?_, h.usedThreads, h.domuMax, h.allocs⟩
  rw [h.root, nextAlloc_of_granted hmem, if_pos rfl]

end Nodes

end Xenlib
