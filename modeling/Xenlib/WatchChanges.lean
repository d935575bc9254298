import Xenlib.WatchThreads
import Xenlib.ServerSpec
import Mathlib.Logic.Relation

/-!
What the sections do to the watches, their references and their events. Every section is a row
of a few kinds of changes, and the invariants of the registry are proved change by change.
-/

set_option autoImplicit false

namespace Xenlib

open Wp

/-- The watch without what may change while it is registered. -/
def WatchEntry.bare (w : WatchEntry) : WatchEntry :=
  { w with isRelative := false, pendingPath := none }

/-- The watch without what is still to be told to a local client. -/
def WatchEntry.still (w : WatchEntry) : WatchEntry :=
  { w with pendingPath := none }

theorem bare_of_still {vs ws : List WatchEntry}
    (h : vs.map WatchEntry.still = ws.map WatchEntry.still) :
    vs.map WatchEntry.bare = ws.map WatchEntry.bare := by
  have hbare := congrArg (List.map WatchEntry.bare) h
  rwa [List.map_map, List.map_map] at hbare

namespace WatchRegistry

def LinkedAs (r : WatchRegistry) (id : Nat) (domain : Option UInt32) : Prop :=
  ∃ w ∈ r.shared.watches, w.id = id ∧ w.domain = domain ∧ w.linked = true

def KnownAs (r : WatchRegistry) (id : Nat) (domain : Option UInt32) : Prop :=
  ∃ w ∈ r.shared.watches, w.id = id ∧ w.domain = domain

def link (r : WatchRegistry) (w : WatchEntry) : WatchRegistry :=
  { r with
    refs := Function.update r.refs w.id 1
    shared := { r.shared with watches := r.shared.watches ++ [w] } }

def unlinked (r : WatchRegistry) (id : Nat) : WatchRegistry :=
  { r with shared := { r.shared with
      watches := r.shared.watches.map fun w =>
        if w.id = id then { w with linked := false } else w } }

def reformed (r : WatchRegistry) (id : Nat) (isRelative : Bool) : WatchRegistry :=
  { r with shared := { r.shared with
      watches := r.shared.watches.map fun w =>
        if w.id = id then { w with isRelative := isRelative } else w } }

def queue (r : WatchRegistry) (e : PendingWatchEvent) : WatchRegistry :=
  { r.getRef e.watch with
    shared := { r.shared with pendingWatchEventList := r.shared.pendingWatchEventList ++ [e] }
    queued := r.queued ++ [e]
    told := r.told ++ [e.watch] }

def takeTo (r : WatchRegistry) (e : PendingWatchEvent) (pending : List PendingWatchEvent) :
    WatchRegistry :=
  WatchRegistry.putRef { r with
    shared := { r.shared with pendingWatchEventList := pending }
    taken := r.taken ++
      ((r.shared.watches.find? fun w => w.id = e.watch).toList.map fun w => (e, w)) } e.watch

/-- The registry without the tree, the outcomes to come and what may change of a watch. -/
structure Same (r r' : WatchRegistry) : Prop where
  watches : r'.shared.watches.map WatchEntry.bare = r.shared.watches.map WatchEntry.bare
  pending : r'.shared.pendingWatchEventList = r.shared.pendingWatchEventList
  refs : r'.refs = r.refs
  destroyed : r'.destroyed = r.destroyed
  queued : r'.queued = r.queued
  told : r'.told = r.told
  taken : r'.taken = r.taken

structure Still (r r' : WatchRegistry) : Prop where
  same : r.Same r'
  forms : r'.shared.watches.map WatchEntry.still = r.shared.watches.map WatchEntry.still

end WatchRegistry

inductive Change where
  | quiet
  | reform (w : WatchEntry) (isRelative : Bool)
  | insert (w : WatchEntry)
  | queue (e : PendingWatchEvent)
  /-- A reference is taken and given back, where the lock of the pending list timed out. -/
  | bounce (id : Nat)
  | unlink (w : WatchEntry)
  | take (e : PendingWatchEvent)
  /-- A reference for a local event. -/
  | hold (id : Nat)
  | drop (id : Nat)

open WatchRegistry in
inductive Makes : Change → WatchRegistry → WatchRegistry → Prop where
  | quiet {r r' : WatchRegistry} (h : r.Still r') : Makes .quiet r r'
  | reform {r : WatchRegistry} {w : WatchEntry} {isRelative : Bool}
      (hw : w ∈ linkedWatches r.shared) :
      Makes (.reform w isRelative) r (r.reformed w.id isRelative)
  | insert {r : WatchRegistry} {w : WatchEntry} (hid : w.id = r.shared.watches.length)
      (hlinked : w.linked = true) : Makes (.insert w) r (r.link w)
  | queue {r : WatchRegistry} {e : PendingWatchEvent} (h : r.LinkedAs e.watch (some e.domain)) :
      Makes (.queue e) r (r.queue e)
  | bounce {r : WatchRegistry} {id : Nat} {domid : UInt32} (h : r.LinkedAs id (some domid)) :
      Makes (.bounce id) r ((r.getRef id).putRef id)
  | unlink {r : WatchRegistry} {w : WatchEntry} (hw : w ∈ linkedWatches r.shared) :
      Makes (.unlink w) r ((r.unlinked w.id).putRef w.id)
  | take {r : WatchRegistry} {e : PendingWatchEvent} {before after : List PendingWatchEvent}
      (h : r.shared.pendingWatchEventList = before ++ e :: after)
      (hbefore : ∀ e' ∈ before, e'.domain ≠ e.domain) :
      Makes (.take e) r (r.takeTo e (before ++ after))
  | hold {r : WatchRegistry} {id : Nat} (h : r.KnownAs id none) :
      Makes (.hold id) r { r.getRef id with told := r.told ++ [id] }
  | drop {r : WatchRegistry} {id : Nat} (h : r.KnownAs id none) :
      Makes (.drop id) r (r.putRef id)

/-- A row of changes that `P` allows. -/
def Does (P : Change → Prop) : WatchRegistry → WatchRegistry → Prop :=
  Relation.ReflTransGen fun r r' => ∃ c, P c ∧ Makes c r r'

section Does
variable {P P' : Change → Prop} {r r' r'' : WatchRegistry}

theorem Does.refl (r : WatchRegistry) : Does P r r := Relation.ReflTransGen.refl

theorem Does.trans (h : Does P r r') (h' : Does P r' r'') : Does P r r'' :=
  Relation.ReflTransGen.trans h h'

theorem Does.one {c : Change} (hc : P c) (h : Makes c r r') : Does P r r' :=
  Relation.ReflTransGen.single ⟨c, hc, h⟩

theorem Does.mono (h : Does P r r') (hP : ∀ c, P c → P' c) : Does P' r r' := by
  induction h with
  | refl => exact .refl r
  | tail _ hlast ih =>
    obtain ⟨c, hc, hm⟩ := hlast
    exact ih.trans (.one (hP c hc) hm)

/-- What every change keeps, the row keeps. -/
theorem Does.keeps {I : WatchRegistry → Prop}
    (hstep : ∀ c r r', P c → Makes c r r' → I r → I r') (h : Does P r r') (hr : I r) : I r' := by
  induction h with
  | refl => exact hr
  | tail _ hlast ih =>
    obtain ⟨c, hc, hm⟩ := hlast
    exact hstep c _ _ hc hm ih

end Does

section Watches
variable {r r' : WatchRegistry} {id : Nat} {domain : Option UInt32}

namespace WatchRegistry

/-- The names are handed out in order and never again. -/
def Ordered (r : WatchRegistry) : Prop :=
  r.shared.watches.map WatchEntry.id = List.range r.shared.watches.length

theorem bare_setRelative (id : Nat) (isRelative : Bool) (watches : List WatchEntry) :
    (watches.map fun w => if w.id = id then { w with isRelative := isRelative } else w).map
      WatchEntry.bare = watches.map WatchEntry.bare := by
  rw [List.map_map]
  apply List.map_congr_left
  intro w _
  simp only [Function.comp]
  split <;> rfl

theorem same_reformed (r : WatchRegistry) (id : Nat) (isRelative : Bool) :
    r.Same (r.reformed id isRelative) :=
  ⟨bare_setRelative id isRelative r.shared.watches, rfl, rfl, rfl, rfl, rfl, rfl⟩

theorem linkedAs_iff_bare : r.LinkedAs id domain ↔
    ∃ w ∈ r.shared.watches.map WatchEntry.bare,
      w.id = id ∧ w.domain = domain ∧ w.linked = true := by
  simp [LinkedAs, WatchEntry.bare]

theorem knownAs_iff_bare : r.KnownAs id domain ↔
    ∃ w ∈ r.shared.watches.map WatchEntry.bare, w.id = id ∧ w.domain = domain := by
  simp [KnownAs, WatchEntry.bare]

theorem LinkedAs.known (h : r.LinkedAs id domain) : r.KnownAs id domain := by
  obtain ⟨w, hw, hid, hdomain, _⟩ := h
  exact ⟨w, hw, hid, hdomain⟩

theorem linkedAs_of_mem {w : WatchEntry} (h : w ∈ linkedWatches r.shared) :
    r.LinkedAs w.id w.domain := by
  obtain ⟨hw, hlinked⟩ := List.mem_filter.mp h
  exact ⟨w, hw, rfl, rfl, hlinked⟩

theorem Same.linkedAs (h : r.Same r') : r'.LinkedAs id domain ↔ r.LinkedAs id domain := by
  rw [linkedAs_iff_bare, linkedAs_iff_bare, h.watches]

theorem Same.knownAs (h : r.Same r') : r'.KnownAs id domain ↔ r.KnownAs id domain := by
  rw [knownAs_iff_bare, knownAs_iff_bare, h.watches]

theorem Same.length (h : r.Same r') : r'.shared.watches.length = r.shared.watches.length := by
  simpa using congrArg List.length h.watches

theorem map_id_bare (watches : List WatchEntry) :
    watches.map WatchEntry.id = (watches.map WatchEntry.bare).map WatchEntry.id := by
  simp [WatchEntry.bare, Function.comp_def]

theorem Ordered.same (hr : r.Ordered) (h : r.Same r') : r'.Ordered := by
  unfold Ordered
  rw [map_id_bare, h.watches, ← map_id_bare, h.length]
  exact hr

theorem Ordered.id_lt (hr : r.Ordered) {w : WatchEntry} (hw : w ∈ r.shared.watches) :
    w.id < r.shared.watches.length :=
  id_lt_of_ids hr hw

theorem Ordered.unique (hr : r.Ordered) {v w : WatchEntry} (hv : v ∈ r.shared.watches)
    (hw : w ∈ r.shared.watches) (hid : v.id = w.id) : v = w :=
  eq_of_ids hr hv hw hid

theorem Ordered.link (hr : r.Ordered) {w : WatchEntry} (hid : w.id = r.shared.watches.length) :
    (r.link w).Ordered := by
  unfold Ordered WatchRegistry.link
  rw [List.map_append, hr, List.length_append, List.map_singleton, List.length_singleton, hid,
    List.range_succ]

theorem Ordered.unlinked (hr : r.Ordered) (id : Nat) : (r.unlinked id).Ordered := by
  unfold Ordered WatchRegistry.unlinked
  rw [List.length_map, ← hr, List.map_map]
  apply List.map_congr_left
  intro w _
  simp only [Function.comp]
  split <;> rfl

theorem mem_unlinked {w : WatchEntry} {gone : Nat} (hw : w ∈ (r.unlinked gone).shared.watches) :
    ∃ v ∈ r.shared.watches, w = if v.id = gone then { v with linked := false } else v := by
  obtain ⟨v, hv, rfl⟩ := List.mem_map.mp hw
  exact ⟨v, hv, rfl⟩

end WatchRegistry

theorem Makes.ordered {c : Change} (h : Makes c r r') (hr : r.Ordered) : r'.Ordered := by
  cases h with
  | quiet h => exact hr.same h.same
  | reform _ => exact hr.same (WatchRegistry.same_reformed _ _ _)
  | insert hid _ => exact hr.link hid
  | unlink hw => exact hr.unlinked _
  | queue _ | bounce _ | take _ _ | hold _ | drop _ => exact hr

theorem Makes.known {c : Change} (h : Makes c r r') (hr : r.KnownAs id domain) :
    r'.KnownAs id domain := by
  cases h with
  | quiet h => exact h.same.knownAs.mpr hr
  | reform _ => exact (WatchRegistry.same_reformed _ _ _).knownAs.mpr hr
  | insert hid _ =>
    obtain ⟨w, hw, hname⟩ := hr
    exact ⟨w, List.mem_append_left _ hw, hname⟩
  | @unlink _ gone _ =>
    obtain ⟨w, hw, rfl, rfl⟩ := hr
    refine ⟨_, List.mem_map_of_mem hw, ?_⟩
    split <;> exact ⟨rfl, rfl⟩
  | queue _ | bounce _ | take _ _ | hold _ | drop _ => exact hr

theorem Makes.linked {c : Change} (h : Makes c r r') (hr : r.LinkedAs id domain)
    (hc : ∀ w, c = .unlink w → w.id ≠ id) : r'.LinkedAs id domain := by
  cases h with
  | quiet h => exact h.same.linkedAs.mpr hr
  | reform _ => exact (WatchRegistry.same_reformed _ _ _).linkedAs.mpr hr
  | insert hid _ =>
    obtain ⟨w, hw, hname⟩ := hr
    exact ⟨w, List.mem_append_left _ hw, hname⟩
  | @unlink _ gone _ =>
    obtain ⟨w, hw, rfl, hdomain, hlinked⟩ := hr
    refine ⟨w, ?_, rfl, hdomain, hlinked⟩
    have hmem := List.mem_map_of_mem
      (f := fun w => if w.id = gone.id then { w with linked := false } else w) hw
    rwa [if_neg fun h => hc gone rfl h.symm] at hmem
  | queue _ | bounce _ | take _ _ | hold _ | drop _ => exact hr

end Watches

section Kept
variable {P : Change → Prop} {r r' : WatchRegistry} {id : Nat} {domain : Option UInt32}

theorem Does.ordered (h : Does P r r') (hr : r.Ordered) : r'.Ordered :=
  h.keeps (fun _ _ _ _ hm => hm.ordered) hr

theorem Does.known (h : Does P r r') (hr : r.KnownAs id domain) : r'.KnownAs id domain :=
  h.keeps (fun _ _ _ _ hm => hm.known) hr

theorem Does.linked (h : Does P r r') (hP : ∀ w, ¬ P (.unlink w)) (hr : r.LinkedAs id domain) :
    r'.LinkedAs id domain :=
  h.keeps (fun _ _ _ hc hm hl => hm.linked hl fun w hw => absurd (hw ▸ hc) (hP w)) hr

end Kept

/-- The program does what `P` allows, or it stops with a fault. -/
def Ran {α : Type} (P : Change → Prop) (r : WatchRegistry) (x : RefM α)
    (Q : α → WatchRegistry → Prop) : Prop :=
  wp x (fun a r' => Does P r r' ∧ Q a r') (fun _ => True) r

@[simp] theorem wp_unref {α : Type} (x : SrvM α) (Q : α → WatchRegistry → Prop) (E : Fault → Prop)
    (r : WatchRegistry) :
    wp (unref x) Q E r = wp x (fun a s => Q a { r with shared := s }) E r.shared := by
  unfold wp unref
  cases x r.shared <;> rfl

section Ran
variable {P : Change → Prop} {r : WatchRegistry} {α β : Type}

theorem Ran.pure {a : α} {Q : α → WatchRegistry → Prop} (h : Q a r) : Ran P r (pure a) Q :=
  ⟨.refl r, h⟩

theorem Ran.throw {e : Fault} {Q : α → WatchRegistry → Prop} : Ran P r (throw e) Q := trivial

theorem Ran.bind {x : RefM α} {f : α → RefM β} {Q : α → WatchRegistry → Prop}
    {R : β → WatchRegistry → Prop} (hx : Ran P r x Q)
    (hf : ∀ a r', Does P r r' → Q a r' → Ran P r' (f a) R) : Ran P r (x >>= f) R := by
  unfold Ran
  rw [wp_bind]
  refine wp_conseq hx fun a r' ha => wp_conseq (hf a r' ha.1 ha.2) fun b r'' hb => ?_
  exact ⟨ha.1.trans hb.1, hb.2⟩

theorem Ran.ite {b : Prop} [Decidable b] {x y : RefM α} {Q : α → WatchRegistry → Prop}
    (hx : b → Ran P r x Q) (hy : ¬ b → Ran P r y Q) : Ran P r (if b then x else y) Q :=
  wp_ite hx hy

theorem Ran.mono {x : RefM α} {Q R : α → WatchRegistry → Prop} (h : Ran P r x Q)
    (hQ : ∀ a r', Does P r r' → Q a r' → R a r') : Ran P r x R :=
  wp_conseq h fun a r' ha => ⟨ha.1, hQ a r' ha.1 ha.2⟩

theorem Ran.allow {P' : Change → Prop} {x : RefM α} {Q : α → WatchRegistry → Prop}
    (h : Ran P r x Q) (hP : ∀ c, P c → P' c) : Ran P' r x Q :=
  wp_conseq h fun _ _ ha => ⟨ha.1.mono hP, ha.2⟩

theorem Ran.get : Ran P r get fun a r' => r = a ∧ r = r' := ⟨.refl r, rfl, rfl⟩

theorem Ran.modify {f : WatchRegistry → WatchRegistry} {c : Change} (hc : P c)
    (h : Makes c r (f r)) : Ran P r (modify f) fun _ r' => r' = f r := ⟨.one hc h, rfl⟩

structure RegistryKept (s s' : Shared) : Prop where
  watches : s'.watches.map WatchEntry.still = s.watches.map WatchEntry.still
  pending : s'.pendingWatchEventList = s.pendingWatchEventList

def Calm (x : SrvM α) (Q : α → Prop) : Prop :=
  ∀ s₀, Holds (RegistryKept s₀) (fun _ => True) x Q

theorem Ran.calm {x : SrvM α} {Q : α → Prop} (hP : P .quiet) (hx : Calm x Q) :
    Ran P r (unref x) fun a r' => r.Same r' ∧ Q a := by
  unfold Ran
  rw [wp_unref]
  refine wp_conseq (hx r.shared r.shared ⟨rfl, rfl⟩) fun a s hs => ?_
  have hsame : r.Same { r with shared := s } :=
    ⟨bare_of_still hs.2.watches, hs.2.pending, rfl, rfl, rfl, rfl, rfl⟩
  exact ⟨.one hP (.quiet ⟨hsame, hs.2.watches⟩), hsame, hs.1⟩

theorem calm_alloc (x : AllocM α) : Calm (alloc x) fun _ => True := by
  intro s₀ s hs
  rw [wp_alloc]
  exact wp_conseq (wp_trivial x s.allocs) fun _ _ _ => ⟨trivial, hs.1, hs.2⟩

theorem calm_constructPath (path : CString) (domid : UInt32) :
    Calm (alloc (constructPath path domid)) fun a =>
      ∀ key, a = .ok key → resolvePath path domid = .ok key := by
  intro s₀ s hs
  rw [wp_alloc]
  refine wp_constructPath (fun rest _ => ⟨fun key hkey => hkey, hs.1, hs.2⟩) fun rest _ _ => ?_
  exact ⟨fun key (hkey : Except.error _ = _) => (by cases hkey), hs.1, hs.2⟩

theorem calm_lock (deadline : Deadline) : Calm (xssMutexLockDeadline deadline) fun _ => True :=
  fun _ _ hs => wp_lock fun _ _ _ => ⟨trivial, hs.1, hs.2⟩

theorem calm_modify {f : Shared → Shared} (h : ∀ s, RegistryKept s (f s)) :
    Calm (modify f) fun _ => True :=
  fun _ => Holds.modify fun s hs => ⟨(h s).watches.trans hs.watches, (h s).pending.trans hs.pending⟩

theorem still_setPendingPath (id : Nat) (path : Option CString) (s : Shared) :
    (setPendingPath id path s).watches.map WatchEntry.still =
      s.watches.map WatchEntry.still := by
  unfold setPendingPath
  rw [List.map_map]
  apply List.map_congr_left
  intro w _
  simp only [Function.comp]
  split <;> rfl

theorem calm_dispatch (id : Nat) : Calm (dispatchLocalWatchEvent id) fun _ => True :=
  calm_modify fun s => ⟨still_setPendingPath id none s, rfl⟩

theorem calm_freeEntry (entry : EntryRef) : Calm (freeEntry entry) fun _ => True := by
  intro s₀ s hs
  unfold freeEntry
  exact wp_ite (fun _ => trivial) fun _ => ⟨trivial, hs.watches, hs.pending⟩

theorem calm_endScan (scan : Scan) (rc : Option Errno) :
    Calm (endScan scan rc) fun _ => True := by
  unfold endScan
  split
  · exact calm_freeEntry _
  · exact fun _ => .pure trivial

theorem calm_write (path : CString) (data : Option CString) (domid : UInt32)
    (perms : List XsPermEntry) (deadline : Deadline) :
    Calm (xssDoWriteDeadline path data domid perms deadline) fun _ => True := by
  intro s₀
  refine (calm_alloc _ s₀).bind fun _ _ => .ite (fun _ => .pure trivial) fun _ => ?_
  refine (calm_lock deadline s₀).bind fun rc _ => ?_
  cases rc with
  | some e => exact .pure trivial
  | none =>
    refine Holds.get.bind fun s _ => (calm_alloc _ s₀).bind fun r _ => ?_
    refine Holds.bind ?_ fun _ (_ : True) => .pure trivial
    exact Holds.modify fun _ hs => ⟨hs.watches, hs.pending⟩

theorem calm_invalidateClient (x : Xenstore) :
    Calm (invalidateClient x) fun x' => x'.domid = x.domid := by
  intro s₀
  unfold invalidateClient releaseDomainStored freeStackIdx removeRefEntries
  refine Holds.bind (Q := fun _ => True) ?_ fun _ _ => ?_
  · refine Holds.get.bind fun s _ => .ite (fun _ => .throw trivial) fun _ => ?_
    refine .ite (fun _ => .throw trivial) fun _ => ?_
    exact Holds.modify fun _ hs => ⟨hs.watches, hs.pending⟩
  · refine Holds.bind (Q := fun _ => True) ?_ fun _ _ => .pure rfl
    refine Holds.get.bind fun s _ => (Holds.lift (fun _ _ => trivial) fun _ _ => trivial).bind
      fun _ (_ : True) => ?_
    exact Holds.modify fun _ hs => ⟨hs.watches, hs.pending⟩

theorem calm_queueReply (x : Xenstore) (reqId : UInt32) (type : XsdSockmsgType) (data : Bytes) :
    Calm (queueReply x reqId type data) fun x' => x'.domid = x.domid := by
  intro s₀
  refine (calm_alloc _ s₀).bind fun _ _ => .ite (fun _ => .pure rfl) fun _ => ?_
  exact (calm_alloc _ s₀).bind fun _ _ => .ite (fun _ => .pure rfl) fun _ => .pure rfl

theorem calm_sendReplyOr {tooBig : SrvM Xenstore} {x : Xenstore} {reqId : UInt32}
    {type : XsdSockmsgType} {data : Bytes} (h : Calm tooBig fun x' => x'.domid = x.domid) :
    Calm (sendReplyOr tooBig x reqId type data) fun x' => x'.domid = x.domid := by
  intro s₀
  refine .ite (fun _ => calm_invalidateClient x s₀) fun _ => .ite (fun _ => h s₀) fun _ => ?_
  exact calm_queueReply x reqId type data s₀

theorem calm_sendReplySz (x : Xenstore) (reqId : UInt32) (type : XsdSockmsgType) (data : Bytes) :
    Calm (sendReplySz x reqId type data) fun x' => x'.domid = x.domid :=
  calm_sendReplyOr (calm_sendReplyOr fun _ => .pure rfl)

theorem calm_fireWatcher (x : Xenstore) (event : PendingWatchEvent) :
    Calm (fireWatcher x event) fun a => a.1.domid = x.domid := by
  intro s₀
  refine Holds.get.bind fun s _ => ?_
  cases s.watches.find? fun w => w.id = event.watch with
  | none => exact .pure rfl
  | some watch =>
    refine .ite (fun _ => .pure rfl) fun _ => .ite (fun _ => .throw trivial) fun _ => ?_
    refine .ite (fun _ => .pure rfl) fun _ => ?_
    refine (Holds.lift (fun _ _ => trivial) fun _ _ => trivial).bind fun payload (_ : True) => ?_
    refine (calm_alloc _ s₀).bind fun _ _ => .ite (fun _ => .pure rfl) fun _ => ?_
    exact (calm_sendReplySz x 0 .watchEvent payload s₀).bind fun x' hx' => .pure hx'

end Ran

section Sections
variable {P : Change → Prop} {r : WatchRegistry}

theorem ran_queuePending {watch : WatchEntry} {domid : UInt32} {path : CString}
    {deadline : Deadline} (hquiet : P .quiet) (hqueue : P (.queue ⟨path, watch.id, domid⟩))
    (hbounce : P (.bounce watch.id)) (hlinked : r.LinkedAs watch.id (some domid)) :
    Ran P r (queuePendingRef watch domid path deadline) fun _ _ => True := by
  refine (Ran.calm hquiet (calm_alloc _)).bind fun _ r₁ _ ⟨h₁, _⟩ => ?_
  refine .ite (fun _ => .pure trivial) fun _ => ?_
  refine (Ran.calm hquiet (calm_alloc _)).bind fun _ r₂ _ ⟨h₂, _⟩ => ?_
  refine .ite (fun _ => .pure trivial) fun _ => ?_
  replace hlinked := h₂.linkedAs.mpr (h₁.linkedAs.mpr hlinked)
  unfold Ran sysRefGet watchEntryPut
  simp only [wp_bind, wp_modify, wp_unref]
  refine wp_lock fun rc locks _ => ?_
  have hsame : r₂.Still { r₂ with shared := { r₂.shared with locks := locks } } :=
    ⟨⟨rfl, rfl, rfl, rfl, rfl, rfl, rfl⟩, rfl⟩
  replace hlinked := hsame.same.linkedAs.mpr hlinked
  cases rc with
  | some e =>
    exact ⟨(Does.one hquiet (.quiet hsame)).trans (.one hbounce (.bounce hlinked)), trivial⟩
  | none =>
    have hmade := Makes.queue (e := ⟨path, watch.id, domid⟩) hlinked
    exact ⟨(Does.one hquiet (.quiet hsame)).trans (.one hqueue hmade), trivial⟩

def LocalEvents (events : List Nat) (r : WatchRegistry) : Prop := ∀ id ∈ events, r.KnownAs id none

theorem LocalEvents.does {events : List Nat} {r' : WatchRegistry} (h : LocalEvents events r)
    (hr : Does P r r') : LocalEvents events r' := fun id hid => hr.known (h id hid)

theorem ran_queueLocal {localEvents : List Nat} {entry : WatchEntry} {path : CString}
    (hquiet : P .quiet) (hhold : P (.hold entry.id)) (hevents : LocalEvents localEvents r)
    (hknown : r.KnownAs entry.id none) :
    Ran P r (queueLocalRef localEvents entry path) fun a r' => LocalEvents a.2 r' := by
  refine .ite (fun _ => .pure hevents) fun _ => ?_
  refine (Ran.calm hquiet (calm_alloc _)).bind fun _ r₁ hr₁ _ =>
    .ite (fun _ => .pure (hevents.does hr₁)) fun _ => ?_
  have hheld := Makes.hold (hr₁.known hknown)
  unfold Ran sysRefGet
  simp only [wp_bind, wp_modify]
  refine wp_ite (fun _ => trivial) fun _ => ?_
  simp only [wp_bind, wp_unref, wp_modify]
  have hdone : Does P r₁ { r₁.getRef entry.id with
      shared := setPendingPath entry.id (some path) r₁.shared, told := r₁.told ++ [entry.id] } := by
    refine (Does.one hhold hheld).trans (.one hquiet (.quiet ?_))
    have hstill := still_setPendingPath entry.id (some path) r₁.shared
    exact ⟨⟨bare_of_still hstill, rfl, rfl, rfl, rfl, rfl, rfl⟩, hstill⟩
  refine ⟨hdone, fun id hid => ?_⟩
  rcases List.mem_append.mp hid with hid | hid
  · exact hdone.known (hr₁.known (hevents id hid))
  · cases List.mem_singleton.mp hid
    exact hdone.known (hr₁.known hknown)

def ScanOutcome.localEvents : ScanOutcome → List Nat
  | .next events | .stop _ events => events

def Change.Scans : Change → Prop
  | .quiet | .queue _ | .bounce _ | .hold _ => True
  | _ => False

theorem ran_queueWatchRound {path : CString} {recursiveRemove : Bool} {deadline : Deadline}
    {iter : WatchEntry} {localEvents : List Nat} (hquiet : P .quiet)
    (hqueue : ∀ eventPath domid, watchEventPath iter path recursiveRemove = some eventPath →
      iter.domain = some domid → P (.queue ⟨eventPath, iter.id, domid⟩))
    (hbounce : P (.bounce iter.id)) (hhold : P (.hold iter.id))
    (hlinked : r.LinkedAs iter.id iter.domain) (hevents : LocalEvents localEvents r) :
    Ran P r (queueWatchRound path recursiveRemove deadline iter localEvents)
      fun a r' => LocalEvents a.localEvents r' := by
  unfold queueWatchRound
  cases hpath : watchEventPath iter path recursiveRemove with
  | none => exact .pure hevents
  | some eventPath =>
    refine Ran.get.bind ?_
    rintro _ _ - ⟨rfl, rfl⟩
    refine (Ran.calm hquiet (calm_alloc _)).bind fun entry r₁ hr₁ ⟨h₁, _⟩ => ?_
    cases entry with
    | none => exact .pure (hevents.does hr₁)
    | some entry =>
      replace hlinked := h₁.linkedAs.mpr hlinked
      cases hd : iter.domain with
      | none =>
        rw [hd] at hlinked
        refine .ite (fun _ => .throw) fun _ => ?_
        exact (ran_queueLocal hquiet hhold (hevents.does hr₁) hlinked.known).bind
          fun a r' _ ha => .pure ha
      | some domid =>
        rw [hd] at hlinked
        have hevent := hqueue eventPath domid hpath hd
        refine (ran_queuePending hquiet hevent hbounce hlinked).bind fun rc r₂ hr₂ _ => ?_
        cases rc with
        | none => exact .pure ((hevents.does hr₁).does hr₂)
        | some e => cases e <;> exact .pure ((hevents.does hr₁).does hr₂)

theorem ran_scanRound {scan : Scan} (hquiet : P .quiet)
    (hqueue : ∀ iter ∈ scan.rest, ∀ eventPath domid,
      watchEventPath iter scan.path scan.entry.isSome = some eventPath →
        iter.domain = some domid → P (.queue ⟨eventPath, iter.id, domid⟩))
    (hbounce : ∀ id, P (.bounce id)) (hhold : ∀ id, P (.hold id))
    (hrest : ∀ iter ∈ scan.rest, r.LinkedAs iter.id iter.domain)
    (hevents : LocalEvents scan.localEvents r) :
    Ran P r (scanRound scan) fun a r' =>
      LocalEvents a.2 r' ∧ ∀ scan' ∈ a.1, LocalEvents scan'.localEvents r' ∧
        ∀ iter ∈ scan'.rest, iter ∈ scan.rest := by
  unfold scanRound
  cases hscan : scan.rest with
  | nil =>
    refine (Ran.calm hquiet (calm_endScan scan none)).bind fun _ r₁ hr₁ _ => .pure ?_
    exact ⟨hevents.does hr₁, fun _ h => by cases h⟩
  | cons iter rest =>
    have hmem : iter ∈ scan.rest := by
      rw [hscan]
      exact List.mem_cons_self
    refine (ran_queueWatchRound hquiet (hqueue iter hmem) (hbounce _) (hhold _) (hrest iter hmem)
      hevents).bind fun a r₁ _ ha => ?_
    cases a with
    | next events =>
      refine .pure ⟨fun _ h => (List.not_mem_nil h).elim, ?_⟩
      rintro _ ⟨⟩
      exact ⟨ha, fun iter hiter => List.mem_cons_of_mem _ hiter⟩
    | stop rc events =>
      refine (Ran.calm hquiet (calm_endScan scan rc)).bind fun _ r₂ hr₂ _ => .pure ?_
      exact ⟨LocalEvents.does ha hr₂, fun _ h => by cases h⟩

theorem ran_beginScan {path : CString} {entry : Option EntryRef} {deadline : Deadline}
    (hquiet : P .quiet) :
    Ran P r (beginScan path entry deadline) fun a r' =>
      ∀ scan ∈ a, scan.localEvents = [] ∧ scan.rest = linkedWatches r'.shared := by
  refine (Ran.calm hquiet (calm_lock deadline)).bind fun rc r₁ _ _ => ?_
  cases rc with
  | some e => exact .pure fun _ h => by cases h
  | none =>
    refine Ran.get.bind ?_
    rintro _ _ - ⟨rfl, rfl⟩
    refine .pure ?_
    rintro _ ⟨⟩
    exact ⟨rfl, rfl⟩

theorem ran_beginNotify {path : CString} {deadline : Deadline} (hquiet : P .quiet) :
    Ran P r (beginNotify path deadline) fun a r' =>
      ∀ scan ∈ a, scan.localEvents = [] ∧ scan.rest = linkedWatches r'.shared := by
  refine (Ran.calm hquiet (calm_lock deadline)).bind fun rc _ _ _ => ?_
  cases rc with
  | some e => exact .pure fun _ h => by cases h
  | none =>
    refine (Ran.calm hquiet (calm_lock deadline)).bind fun rc _ _ _ => ?_
    cases rc with
    | some e => exact .pure fun _ h => by cases h
    | none => exact ran_beginScan hquiet

theorem ran_beginRemove {key : CString} {callerId : UInt32} {deadline : Deadline}
    (hquiet : P .quiet) :
    Ran P r (beginRemove key callerId deadline) fun a r' =>
      ∀ scan ∈ a, scan.localEvents = [] ∧ scan.rest = linkedWatches r'.shared := by
  refine (Ran.calm hquiet (calm_lock deadline)).bind fun rc _ _ _ => ?_
  cases rc with
  | some e => exact .pure fun _ h => by cases h
  | none =>
    refine (Ran.calm hquiet (calm_lock deadline)).bind fun rc _ _ _ => ?_
    cases rc with
    | some e => exact .pure fun _ h => by cases h
    | none =>
      refine Ran.get.bind ?_
      rintro _ _ - ⟨rfl, rfl⟩
      refine (Ran.calm hquiet (calm_alloc _)).bind fun entry _ _ _ => ?_
      cases entry with
      | none => exact .pure fun _ h => by cases h
      | some entry => exact ran_beginScan hquiet

theorem keyToWatcher_mem {key : CString} {token : Bytes} {domain : Option UInt32}
    {ws : List WatchEntry} {w : WatchEntry} (h : keyToWatcher key token domain ws = .ok (some w)) :
    w ∈ ws ∧ w.domain = domain ∧ w.key = key := by
  induction ws with
  | nil => simp [keyToWatcher] at h
  | cons iter rest ih =>
    unfold keyToWatcher at h
    split at h
    · rename_i hfit
      simp only [Bool.and_eq_true, decide_eq_true_eq] at hfit
      split at h
      · cases h
      · cases h
        exact ⟨List.mem_cons_self, hfit⟩
      · exact (ih h).imp_left (List.mem_cons_of_mem _)
    · exact (ih h).imp_left (List.mem_cons_of_mem _)

theorem ran_keyToWatcher {key : CString} {token : Bytes} {domain : Option UInt32} :
    Ran P r (unref (Wp.lift (keyToWatcher key token domain (linkedWatches r.shared))))
      fun found r' => r = r' ∧
        ∀ w ∈ found, w ∈ linkedWatches r.shared ∧ w.domain = domain ∧ w.key = key := by
  unfold Ran
  rw [wp_unref]
  refine wp_lift (fun found hfound => ⟨.refl r, rfl, ?_⟩) fun _ _ => trivial
  rintro w ⟨⟩
  exact keyToWatcher_mem hfound

theorem ran_lookWatch {domid : UInt32} {path : CString} {token : Bytes} {isRelative : Bool}
    (hreform : ∀ w : WatchEntry, w.domain = some domid → w.key = path →
      P (.reform w isRelative)) :
    Ran P r (lookWatch domid path token isRelative) fun found r' =>
      ∀ w ∈ found, r'.LinkedAs w.id (some domid) ∧ w ∈ linkedWatches r.shared ∧ w.key = path := by
  refine Ran.get.bind ?_
  rintro _ _ - ⟨rfl, rfl⟩
  refine ran_keyToWatcher.bind ?_
  rintro found _ - ⟨rfl, hfound⟩
  cases found with
  | none => exact .pure fun _ h => by cases h
  | some w =>
    obtain ⟨hw, hdomain, hkey⟩ := hfound w rfl
    have hlinked := WatchRegistry.linkedAs_of_mem hw
    rw [hdomain] at hlinked
    have hmade : Makes (.reform w isRelative) r (r.reformed w.id isRelative) := .reform hw
    unfold Ran
    simp only [wp_bind, wp_unref, wp_modify]
    refine ⟨.one (hreform w hdomain hkey) hmade, ?_⟩
    rintro _ ⟨⟩
    exact ⟨(WatchRegistry.same_reformed r w.id isRelative).linkedAs.mpr hlinked, hw, hkey⟩

theorem ran_addWatch {w : WatchEntry} (hP : P (.insert w)) (hid : w.id = r.shared.watches.length)
    (hlinked : w.linked = true) : Ran P r (addWatch w) fun _ r' => r' = r.link w := by
  unfold Ran addWatch sysRefInit
  simp only [wp_bind, wp_modify, wp_unref]
  exact ⟨.one hP (.insert hid hlinked), rfl⟩

theorem linkedAs_link {w : WatchEntry} (hlinked : w.linked = true) :
    (r.link w).LinkedAs w.id w.domain :=
  ⟨w, List.mem_append_right _ List.mem_cons_self, rfl, rfl, hlinked⟩

theorem ran_createWatch {domid : UInt32} {path : CString} {token : Bytes} {isRelative : Bool}
    (hquiet : P .quiet) (hinsert : ∀ w : WatchEntry, w.domain = some domid → w.key = path →
      w.isRelative = isRelative → P (.insert w)) :
    Ran P r (createWatch domid path token isRelative) fun made r' =>
      ∀ w ∈ made, r'.LinkedAs w.id (some domid) ∧ w ∈ r'.shared.watches ∧ w.key = path := by
  refine (Ran.calm hquiet (calm_alloc _)).bind fun _ _ _ _ =>
    .ite (fun _ => .pure fun _ h => by cases h) fun _ => ?_
  refine (Ran.calm hquiet (calm_alloc _)).bind fun _ _ _ _ =>
    .ite (fun _ => .pure fun _ h => by cases h) fun _ => ?_
  refine (Ran.calm hquiet (calm_alloc _)).bind fun _ _ _ _ =>
    .ite (fun _ => .pure fun _ h => by cases h) fun _ => ?_
  unfold insertWatch
  simp only [bind_assoc, pure_bind]
  refine Ran.get.bind ?_
  rintro _ _ - ⟨rfl, rfl⟩
  refine (ran_addWatch (hinsert _ rfl rfl rfl) rfl rfl).bind ?_
  rintro _ _ - rfl
  refine .pure ?_
  rintro _ ⟨⟩
  exact ⟨linkedAs_link rfl, List.mem_append_right _ List.mem_cons_self, rfl⟩

theorem ran_initialEvent {wentry : WatchEntry} {domid : UInt32} {path : CString}
    (hquiet : P .quiet) (hqueue : P (.queue ⟨path, wentry.id, domid⟩))
    (hbounce : P (.bounce wentry.id)) (hlinked : r.LinkedAs wentry.id (some domid)) :
    Ran P r (initialEvent wentry domid path) fun _ _ => True := by
  refine Ran.get.bind ?_
  rintro _ _ - ⟨rfl, rfl⟩
  refine (Ran.calm hquiet (calm_alloc _)).bind fun entry r₁ _ ⟨h₁, _⟩ => ?_
  cases entry with
  | none => exact .pure trivial
  | some entry =>
    exact (ran_queuePending hquiet hqueue hbounce (h₁.linkedAs.mpr hlinked)).bind
      fun _ _ _ _ => .pure trivial

theorem ran_removeWatchEntry {w : WatchEntry} (hP : P (.unlink w))
    (hw : w ∈ linkedWatches r.shared) :
    Ran P r (removeWatchEntry w.id) fun _ r' => r' = (r.unlinked w.id).putRef w.id := by
  unfold Ran removeWatchEntry watchEntryPut unlinkWatch
  simp only [wp_bind, wp_modify, wp_unref]
  exact ⟨.one hP (.unlink hw), rfl⟩

theorem ran_removeWatch {domid : UInt32} {path : CString} {token : Bytes}
    (hunlink : ∀ w : WatchEntry, w.domain = some domid → P (.unlink w)) :
    Ran P r (removeWatch domid path token) fun _ _ => True := by
  refine Ran.get.bind ?_
  rintro _ _ - ⟨rfl, rfl⟩
  refine ran_keyToWatcher.bind ?_
  rintro found _ - ⟨rfl, hfound⟩
  cases found with
  | none => exact .pure trivial
  | some w =>
    obtain ⟨hw, hdomain, -⟩ := hfound w rfl
    exact (ran_removeWatchEntry (hunlink w hdomain) hw).mono fun _ _ _ _ => trivial

theorem ran_removeWatchEntries {ws : List WatchEntry} (hP : ∀ w ∈ ws, P (.unlink w))
    (hws : ∀ w ∈ ws, w ∈ linkedWatches r.shared) (hids : (ws.map WatchEntry.id).Nodup) :
    Ran P r (removeWatchEntries ws) fun _ r' =>
      ∀ w ∈ linkedWatches r'.shared, w ∈ linkedWatches r.shared ∧ w.id ∉ ws.map WatchEntry.id := by
  induction ws generalizing r with
  | nil => exact .pure fun w hw => ⟨hw, List.not_mem_nil⟩
  | cons w ws ih =>
    obtain ⟨hnot, hnodup⟩ := List.nodup_cons.mp hids
    refine (ran_removeWatchEntry (hP w List.mem_cons_self) (hws w List.mem_cons_self)).bind ?_
    rintro _ r₁ - rfl
    have hlater : ∀ v ∈ ws, v ∈ linkedWatches ((r.unlinked w.id).putRef w.id).shared := by
      intro v hv
      have hne : v.id ≠ w.id := fun h => hnot (h ▸ List.mem_map_of_mem hv)
      obtain ⟨hmem, hlinked⟩ := List.mem_filter.mp (hws v (List.mem_cons_of_mem _ hv))
      refine List.mem_filter.mpr ⟨List.mem_map.mpr ⟨v, hmem, if_neg hne⟩, hlinked⟩
    refine (ih (fun v hv => hP v (List.mem_cons_of_mem _ hv)) hlater hnodup).mono ?_
    intro _ r' _ hleft v hv
    obtain ⟨hv₁, hgone⟩ := hleft v hv
    obtain ⟨hmem, hlinked⟩ := List.mem_filter.mp hv₁
    obtain ⟨u, hu, rfl⟩ := WatchRegistry.mem_unlinked hmem
    by_cases hid : u.id = w.id
    · rw [if_pos hid] at hlinked
      cases hlinked
    · rw [if_neg hid] at hlinked hgone ⊢
      refine ⟨List.mem_filter.mpr ⟨hu, hlinked⟩, ?_⟩
      simp only [List.map_cons, List.mem_cons, not_or]
      exact ⟨hid, hgone⟩

theorem ran_cleanupWatches {domid : UInt32} (hr : r.Ordered)
    (hunlink : ∀ w : WatchEntry, w.domain = some domid → P (.unlink w)) :
    Ran P r (cleanupWatches domid) fun _ r' =>
      ∀ w ∈ linkedWatches r'.shared, w.domain ≠ some domid := by
  refine Ran.get.bind ?_
  rintro _ _ - ⟨rfl, rfl⟩
  have hids : (((linkedWatches r.shared).filter fun w => w.domain = some domid).map
      WatchEntry.id).Nodup := by
    have hall : (r.shared.watches.map WatchEntry.id).Nodup := by
      rw [hr]
      exact List.nodup_range
    exact hall.sublist ((List.filter_sublist.trans List.filter_sublist).map _)
  refine (ran_removeWatchEntries (fun w hw => ?_)
    (fun w hw => List.mem_of_mem_filter hw) hids).mono ?_
  · exact hunlink w (by simpa using (List.mem_filter.mp hw).2)
  · intro _ r' _ hleft w hw hdomain
    obtain ⟨hlinked, hgone⟩ := hleft w hw
    exact hgone (List.mem_map_of_mem (List.mem_filter.mpr ⟨hlinked, by simpa using hdomain⟩))

theorem erase_first {e : PendingWatchEvent} {before after : List PendingWatchEvent}
    (h : ∀ e' ∈ before, e'.domain ≠ e.domain) :
    (before ++ e :: after).erase e = before ++ after := by
  have hnot : e ∉ before := fun hmem => h e hmem rfl
  rw [List.erase_append_right _ hnot, List.erase_cons_head]

theorem ran_takeEvent {e : PendingWatchEvent} {before after : List PendingWatchEvent}
    (hP : P (.take e)) (h : r.shared.pendingWatchEventList = before ++ e :: after)
    (hbefore : ∀ e' ∈ before, e'.domain ≠ e.domain) :
    Ran P r (takeEvent e) fun _ r' => r' = r.takeTo e (before ++ after) := by
  unfold Ran takeEvent watchEntryPut
  simp only [wp_bind, wp_modify, h, erase_first hbefore]
  exact ⟨.one hP (.take h hbefore), rfl⟩

/-- The loops over `pending_watch_event_list` pass events of other domains. -/
theorem others_append {domid : UInt32} {before : List PendingWatchEvent} {e : PendingWatchEvent}
    (hbefore : ∀ e ∈ before, e.domain ≠ domid) (he : e.domain ≠ domid) :
    ∀ e' ∈ before ++ [e], e'.domain ≠ domid := by
  intro e' he'
  rcases List.mem_append.mp he' with he' | he'
  · exact hbefore e' he'
  · cases List.mem_singleton.mp he'
    exact he

theorem ran_dropEvents {domid : UInt32} {before events : List PendingWatchEvent}
    (hP : ∀ e : PendingWatchEvent, e.domain = domid → P (.take e))
    (h : r.shared.pendingWatchEventList = before ++ events)
    (hbefore : ∀ e ∈ before, e.domain ≠ domid) :
    Ran P r (dropEvents domid events) fun _ r' =>
      ∀ e ∈ r'.shared.pendingWatchEventList, e.domain ≠ domid := by
  induction events generalizing r before with
  | nil =>
    refine .pure ?_
    rw [h, List.append_nil]
    exact hbefore
  | cons e rest ih =>
    refine .ite (fun he => ?_) fun he => ?_
    · refine (ran_takeEvent (hP e he) h (he ▸ hbefore)).bind ?_
      rintro _ _ - rfl
      exact ih rfl hbefore
    · exact ih (h.trans (List.append_cons before e rest)) (others_append hbefore he)

theorem ran_cleanupEvents {domid : UInt32}
    (hP : ∀ e : PendingWatchEvent, e.domain = domid → P (.take e)) :
    Ran P r (cleanupEvents domid) fun _ r' =>
      ∀ e ∈ r'.shared.pendingWatchEventList, e.domain ≠ domid := by
  refine Ran.get.bind ?_
  rintro _ _ - ⟨rfl, rfl⟩
  exact ran_dropEvents hP (List.nil_append _).symm fun _ h => (List.not_mem_nil h).elim

theorem ran_pendingRounds {x : Xenstore} {before events : List PendingWatchEvent}
    (hquiet : P .quiet) (hP : ∀ e : PendingWatchEvent, e.domain = x.domid → P (.take e))
    (h : r.shared.pendingWatchEventList = before ++ events)
    (hbefore : ∀ e ∈ before, e.domain ≠ x.domid) :
    Ran P r (pendingRounds events x) fun x' _ => x'.domid = x.domid := by
  induction events generalizing r x before with
  | nil => exact .pure rfl
  | cons e rest ih =>
    refine .ite (fun he => ?_) fun he => ?_
    · exact ih hP (h.trans (List.append_cons before e rest)) (others_append hbefore he)
    · have hdomain : e.domain = x.domid := Decidable.not_not.mp he
      refine (Ran.calm hquiet (calm_fireWatcher x e)).bind ?_
      rintro ⟨x', rc⟩ r₁ - ⟨h₁, hx' : x'.domid = x.domid⟩
      cases rc with
      | some e => exact .pure hx'
      | none =>
        rw [← hx'] at hP hbefore hdomain
        refine (ran_takeEvent (hP e hdomain) (h₁.pending.trans h) (hdomain ▸ hbefore)).bind ?_
        rintro _ _ - rfl
        exact (ih hP rfl hbefore).mono fun x'' _ _ hx'' => hx''.trans hx'

theorem ran_processPending {x : Xenstore} (hquiet : P .quiet)
    (hP : ∀ e : PendingWatchEvent, e.domain = x.domid → P (.take e)) :
    Ran P r (processPending x) fun x' _ => x'.domid = x.domid := by
  refine Ran.get.bind ?_
  rintro _ _ - ⟨rfl, rfl⟩
  exact ran_pendingRounds hquiet hP (List.nil_append _).symm fun _ h => (List.not_mem_nil h).elim

theorem ran_checkLocal {key : CString} {deadline : Deadline} (hquiet : P .quiet) :
    Ran P r (checkLocal key deadline) fun _ _ => True := by
  refine (Ran.calm hquiet (calm_lock deadline)).bind fun rc _ _ _ => ?_
  cases rc with
  | some e => exact .pure trivial
  | none =>
    refine Ran.get.bind ?_
    rintro _ _ - ⟨rfl, rfl⟩
    exact (Ran.calm hquiet (calm_alloc _)).bind fun _ _ _ _ => .pure trivial

theorem ran_checkPath {path : CString} {deadline : Deadline} (hquiet : P .quiet) :
    Ran P r (WatchServer.checkPath path deadline) fun a _ =>
      ∀ b, a = .ok b → resolvePath path 0 = .ok b.1 := by
  refine (Ran.calm hquiet (calm_constructPath path 0)).bind fun key _ _ ⟨_, hkey⟩ => ?_
  cases key with
  | error e => exact .pure fun _ h => by cases h
  | ok key =>
    refine (ran_checkLocal hquiet).bind fun fire _ _ _ => ?_
    cases fire with
    | error e => exact .pure fun _ h => by cases h
    | ok fire =>
      refine .pure ?_
      rintro _ ⟨⟩
      exact hkey key rfl

theorem ran_lookLocal {key token : CString} {deadline : Deadline} (hquiet : P .quiet) :
    Ran P r (lookLocalDeadline key token deadline) fun _ _ => True := by
  refine (Ran.calm hquiet (calm_lock deadline)).bind fun rc _ _ _ => ?_
  cases rc with
  | some e => exact .pure trivial
  | none =>
    refine Ran.get.bind ?_
    rintro _ _ - ⟨rfl, rfl⟩
    refine ran_keyToWatcher.bind fun found _ _ _ => ?_
    cases found <;> exact .pure trivial

theorem ran_insertLocal {path key token : CString} {isRelative fire : Bool} (hquiet : P .quiet)
    (hinsert : ∀ w : WatchEntry, w.domain = none → w.key = key → w.isRelative = isRelative →
      P (.insert w)) (hhold : ∀ id, P (.hold id)) :
    Ran P r (insertLocal path key token isRelative fire) fun a r' => LocalEvents a.2 r' := by
  have hnone : ∀ r', LocalEvents [] r' := fun _ _ h => (List.not_mem_nil h).elim
  refine Ran.get.bind ?_
  rintro _ _ - ⟨rfl, rfl⟩
  refine (ran_addWatch (hinsert _ rfl rfl rfl) rfl rfl).bind ?_
  rintro _ _ - rfl
  refine .ite (fun _ => ?_) fun _ => .pure (hnone _)
  exact (ran_queueLocal hquiet (hhold _) (hnone _) (linkedAs_link rfl).known).bind
    fun _ _ _ ha => .pure ha

theorem ran_createLocal {path key token : CString} {isRelative fire : Bool} {deadline : Deadline}
    (hquiet : P .quiet) (hinsert : ∀ w : WatchEntry, w.domain = none → w.key = key →
      w.isRelative = isRelative → P (.insert w))
    (hhold : ∀ id, P (.hold id)) :
    Ran P r (createLocal path key token isRelative fire deadline) fun a r' =>
      ∀ made ∈ a.toOption, LocalEvents made.2 r' := by
  refine (Ran.calm hquiet (calm_alloc _)).bind fun _ _ _ _ =>
    .ite (fun _ => .pure fun _ h => by cases h) fun _ => ?_
  refine (Ran.calm hquiet (calm_alloc _)).bind fun _ _ _ _ =>
    .ite (fun _ => .pure fun _ h => by cases h) fun _ => ?_
  refine (Ran.calm hquiet (calm_lock deadline)).bind fun rc _ _ _ => ?_
  cases rc with
  | some e => exact .pure fun _ h => by cases h
  | none =>
    refine (ran_lookLocal hquiet).bind fun rc _ _ _ => ?_
    cases rc with
    | some e => exact .pure fun _ h => by cases h
    | none =>
      refine (ran_insertLocal hquiet hinsert hhold).bind fun made _ _ hmade => .pure ?_
      rintro _ ⟨⟩
      exact hmade

theorem ran_removeLocal {path token : CString} {deadline : Deadline} (hquiet : P .quiet)
    (hunlink : ∀ w : WatchEntry, w.domain = none → P (.unlink w)) :
    Ran P r (removeLocal path token deadline) fun _ _ => True := by
  refine (Ran.calm hquiet (calm_alloc _)).bind fun key _ _ _ => ?_
  cases key with
  | error e => exact .pure trivial
  | ok key =>
    refine (Ran.calm hquiet (calm_lock deadline)).bind fun rc _ _ _ => ?_
    cases rc with
    | some e => exact .pure trivial
    | none =>
      refine Ran.get.bind ?_
      rintro _ _ - ⟨rfl, rfl⟩
      refine ran_keyToWatcher.bind ?_
      rintro found _ - ⟨rfl, hfound⟩
      cases found with
      | none => exact .pure trivial
      | some w =>
        obtain ⟨hw, hdomain, -⟩ := hfound w rfl
        exact (ran_removeWatchEntry (hunlink w hdomain) hw).bind fun _ _ _ _ => .pure trivial

end Sections

end Xenlib
