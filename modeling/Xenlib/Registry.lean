import Xenlib.StoreInv

/-!
The shared state as the thread of one domain relies on it: a well-formed store, a watch
registry in order, and the stack slot of the thread. Outside of a notification no watch has
a pending path, and every pending event names a watch whose key is not longer than its path.
-/

set_option autoImplicit false

namespace Xenlib

open Wp

def WatchEntry.settled (w : WatchEntry) : WatchEntry := { w with pendingPath := none }

theorem settled_set (id : Nat) (path : Option CString) (watches : List WatchEntry) :
    (watches.map fun w => if w.id = id then { w with pendingPath := path } else w).map
      WatchEntry.settled = watches.map WatchEntry.settled := by
  rw [List.map_map]
  apply List.map_congr_left
  intro w _
  simp only [Function.comp]
  split <;> rfl

theorem settled_markPending (evs : List (Nat × CString)) (watches : List WatchEntry) :
    (markPending evs watches).map WatchEntry.settled = watches.map WatchEntry.settled := by
  induction evs generalizing watches with
  | nil => rfl
  | cons e evs ih => exact (ih _).trans (settled_set e.1 (some e.2) watches)

theorem settled_clearPending (ids : List Nat) (watches : List WatchEntry) :
    (clearPending ids watches).map WatchEntry.settled = watches.map WatchEntry.settled := by
  induction ids generalizing watches with
  | nil => rfl
  | cons id ids ih => exact (ih _).trans (settled_set id none watches)

theorem pending_of_mem_mark {evs : List (Nat × CString)} {watches : List WatchEntry}
    {w : WatchEntry} (h : w ∈ markPending evs watches) : w ∈ watches ∨ w.id ∈ evs.map Prod.fst := by
  induction evs generalizing watches with
  | nil => exact Or.inl h
  | cons e evs ih =>
    rcases ih h with hw | hw
    · obtain ⟨v, hv, rfl⟩ := List.mem_map.mp hw
      by_cases hid : v.id = e.1
      · rw [if_pos hid]
        exact Or.inr (List.mem_cons.mpr (Or.inl hid))
      · rw [if_neg hid]
        exact Or.inl hv
    · exact Or.inr (List.mem_cons_of_mem _ hw)

theorem pending_of_mem_clear {ids : List Nat} {watches : List WatchEntry} {w : WatchEntry}
    (h : w ∈ clearPending ids watches) :
    w.pendingPath = none ∨ w ∈ watches ∧ w.id ∉ ids := by
  induction ids generalizing watches with
  | nil => exact Or.inr ⟨h, List.not_mem_nil⟩
  | cons id ids ih =>
    rcases ih h with hw | ⟨hw, hne⟩
    · exact Or.inl hw
    · obtain ⟨v, hv, rfl⟩ := List.mem_map.mp hw
      by_cases hid : v.id = id
      · rw [if_pos hid]
        exact Or.inl rfl
      · rw [if_neg hid] at hne ⊢
        exact Or.inr ⟨hv, fun hmem => (List.mem_cons.mp hmem).elim hid hne⟩

theorem map_settled {watches : List WatchEntry} (h : ∀ w ∈ watches, w.pendingPath = none) :
    watches.map WatchEntry.settled = watches := by
  refine (List.map_congr_left fun w hw => ?_).trans (List.map_id watches)
  have hp := h w hw
  cases w
  cases hp
  rfl

theorem clear_markPending {evs : List (Nat × CString)} {watches : List WatchEntry}
    (h : ∀ w ∈ watches, w.pendingPath = none) :
    clearPending (evs.map Prod.fst) (markPending evs watches) = watches := by
  have hidle : ∀ w ∈ clearPending (evs.map Prod.fst) (markPending evs watches),
      w.pendingPath = none := by
    intro w hw
    rcases pending_of_mem_clear hw with hp | ⟨hm, hne⟩
    · exact hp
    · exact h w ((pending_of_mem_mark hm).resolve_right hne)
  rw [← map_settled hidle, settled_clearPending, settled_markPending, map_settled h]

/-- Between two notifications only a node without permissions can stop the next one. -/
theorem NotifyFault.emptyPerms {s : Shared} {path : CString} {recursiveRemove : Bool} {e : Fault}
    (he : NotifyFault path recursiveRemove (linkedWatches s) s e)
    (hidle : ∀ w ∈ s.watches, w.pendingPath = none)
    (hrel : ∀ w ∈ s.watches, w.isRelative = true →
      (localDomainPath (w.domain.getD 0)).length ≤ w.key.length) : e = .emptyPerms := by
  cases e with
  | emptyPerms => rfl
  | assertion =>
    obtain ⟨w, hw, _, hp, _⟩ := he
    rw [hidle w (List.mem_of_mem_filter hw)] at hp
    cases hp
  | outOfBounds =>
    obtain ⟨w, hw, hd, hr, eventPath, hp, hlen⟩ := he
    have hkey := hrel w (List.mem_of_mem_filter hw) hr
    rw [hd, Option.getD_none] at hkey
    have := watchEventPath_length hp
    omega
  | nullEntry => exact he.elim
  | nullInput => exact he.elim
  | unmappedRing => exact he.elim
  | unlinkedNode => exact he.elim

/-- Between two notifications the next one does not fault. -/
theorem not_notifyFault {s : Shared} {path : CString} {recursiveRemove : Bool} {e : Fault}
    (hperms : PermsOk s.root) (hidle : ∀ w ∈ s.watches, w.pendingPath = none)
    (hrel : ∀ w ∈ s.watches, w.isRelative = true →
      (localDomainPath (w.domain.getD 0)).length ≤ w.key.length) :
    ¬ NotifyFault path recursiveRemove (linkedWatches s) s e := by
  intro he
  obtain rfl := he.emptyPerms hidle hrel
  exact he hperms

/-- A watch between two steps of the server. Only the tokens of `domid` are looked at. -/
structure WatchOk (domid : UInt32) (w : WatchEntry) : Prop where
  idle : w.pendingPath = none
  token : w.domain = some domid → ∃ t, readStr w.token = .ok t
  relative : w.isRelative = true → (localDomainPath (w.domain.getD 0)).length ≤ w.key.length

structure EventOk (watches : List WatchEntry) (e : PendingWatchEvent) : Prop where
  known : e.watch < watches.length
  path : ∀ w ∈ watches, w.id = e.watch →
    w.domain = some e.domain ∧ w.key.length ≤ e.eventPath.length

structure RegistryOk (domid : UInt32) (watches : List WatchEntry)
    (events : List PendingWatchEvent) : Prop where
  ids : watches.map WatchEntry.id = List.range watches.length
  entries : ∀ w ∈ watches, WatchOk domid w
  pending : ∀ e ∈ events, EventOk watches e

section Registry
variable {domid : UInt32} {watches : List WatchEntry} {events : List PendingWatchEvent}

theorem RegistryOk.id_lt (h : RegistryOk domid watches events) {w : WatchEntry} (hw : w ∈ watches) :
    w.id < watches.length :=
  id_lt_of_ids h.ids hw

theorem RegistryOk.unique (h : RegistryOk domid watches events) {v w : WatchEntry}
    (hv : v ∈ watches) (hw : w ∈ watches) (hid : v.id = w.id) : v = w :=
  eq_of_ids h.ids hv hw hid

theorem RegistryOk.event (h : RegistryOk domid watches events) {w : WatchEntry} (hw : w ∈ watches)
    {e : PendingWatchEvent} (hid : e.watch = w.id) (hd : w.domain = some e.domain)
    (hp : w.key.length ≤ e.eventPath.length) : EventOk watches e where
  known := by
    rw [hid]
    exact h.id_lt hw
  path v hv hvid := by
    rw [h.unique hv hw (hvid.trans hid)]
    exact ⟨hd, hp⟩

theorem RegistryOk.map (h : RegistryOk domid watches events) {f : WatchEntry → WatchEntry}
    (hid : ∀ w, (f w).id = w.id) (hd : ∀ w, (f w).domain = w.domain) (hk : ∀ w, (f w).key = w.key)
    (hok : ∀ w ∈ watches, WatchOk domid (f w)) : RegistryOk domid (watches.map f) events where
  ids := by
    rw [List.map_map, List.length_map, ← h.ids]
    exact List.map_congr_left fun w _ => hid w
  entries := by
    intro v hv
    obtain ⟨w, hw, rfl⟩ := List.mem_map.mp hv
    exact hok w hw
  pending := by
    intro e he
    refine ⟨by rw [List.length_map]; exact (h.pending e he).known, fun v hv hvid => ?_⟩
    obtain ⟨w, hw, rfl⟩ := List.mem_map.mp hv
    rw [hid] at hvid
    rw [hd, hk]
    exact (h.pending e he).path w hw hvid

theorem RegistryOk.add (h : RegistryOk domid watches events) {w : WatchEntry}
    (hid : w.id = watches.length) (hok : WatchOk domid w) :
    RegistryOk domid (watches ++ [w]) events where
  ids := by
    rw [List.map_append, h.ids, List.map_singleton, hid, List.length_append, List.length_singleton,
      List.range_succ]
  entries := by
    intro v hv
    rcases List.mem_append.mp hv with hv | hv
    · exact h.entries v hv
    · rw [List.mem_singleton.mp hv]
      exact hok
  pending := by
    intro e he
    have hold := h.pending e he
    refine ⟨?_, fun v hv hvid => ?_⟩
    · rw [List.length_append]
      exact Nat.lt_add_right _ hold.known
    · rcases List.mem_append.mp hv with hv | hv
      · exact hold.path v hv hvid
      · rw [List.mem_singleton.mp hv, hid] at hvid
        exact absurd hold.known (by omega)

end Registry

/-- `slot` is the stack slot of the thread that serves `domid`. -/
structure ServerInv (domid : UInt32) (slot : Nat) (s : Shared) : Prop where
  store : StoreInv s
  registry : RegistryOk domid s.watches s.pendingWatchEventList
  slotHeld : slot < s.domuMax ∧ bitSet s.usedThreads slot = true

/-- The program keeps the invariant, comes to its end and gives a result with `Q`. -/
abbrev Runs {α : Type} (domid : UInt32) (slot : Nat) (x : SrvM α) (Q : α → Prop) : Prop :=
  Holds (ServerInv domid slot) (fun _ => False) x Q

section Runs
variable {domid : UInt32} {slot : Nat} {s s' : Shared}

theorem ServerInv.frame (h : ServerInv domid slot s) (hf : Frame s s') (hw : s'.watches = s.watches)
    (he : ∀ e ∈ s'.pendingWatchEventList,
      e ∈ s.pendingWatchEventList ∨ EventOk s.watches e) : ServerInv domid slot s' where
  store := h.store.frame hf
  registry := by
    rw [hw]
    exact ⟨h.registry.ids, h.registry.entries, fun e hm => (he e hm).elim (h.registry.pending e) id⟩
  slotHeld := by
    rw [hf.usedThreads, hf.domuMax]
    exact h.slotHeld

theorem ServerInv.withStore (h : ServerInv domid slot s) (hs : StoreInv s')
    (hw : s'.watches = s.watches) (he : s'.pendingWatchEventList = s.pendingWatchEventList)
    (hu : s'.usedThreads = s.usedThreads) (hm : s'.domuMax = s.domuMax) :
    ServerInv domid slot s' :=
  ⟨hs, by rw [hw, he]; exact h.registry, by rw [hu, hm]; exact h.slotHeld⟩

theorem runs_alloc {α : Type} {x : AllocM α} {a : α} (hx : x [] = .ok (a, [])) :
    Runs domid slot (alloc x) (· = a) :=
  fun _ hs => wp_of_ok (alloc_nil hs.store.allocs hx) ⟨rfl, hs⟩

theorem ServerInv.notified (h : ServerInv domid slot s) {path : CString} {recursiveRemove : Bool}
    {evs : List (Nat × CString)} (hn : Notified path recursiveRemove (linkedWatches s) s s' evs)
    {e : PendingWatchEvent} (he : e ∈ s'.pendingWatchEventList) :
    e ∈ s.pendingWatchEventList ∨ EventOk s.watches e := by
  refine (hn.events e he).imp_right ?_
  rintro ⟨w, hw, hid, hd, hp⟩
  exact h.registry.event (List.mem_of_mem_filter hw) hid hd (watchEventPath_length hp)

theorem ServerInv.no_notifyFault (h : ServerInv domid slot s) {path : CString}
    {recursiveRemove : Bool} {e : Fault}
    (he : NotifyFault path recursiveRemove (linkedWatches s) s e) : False :=
  not_notifyFault h.store.wellFormed.permsOk (fun w hw => (h.registry.entries w hw).idle)
    (fun w hw => (h.registry.entries w hw).relative) he

theorem runs_notifyWatchers (path : CString) :
    Runs domid slot (notifyWatchers path) fun _ => True := by
  intro s hs
  refine wp_notifyWatchers (fun s₁ s' evs hn hf hw he => ⟨trivial, ?_⟩)
    (fun e he => hs.no_notifyFault he)
  refine hs.frame (hn.frame.trans hf) ?_ fun e hm => hs.notified hn (he ▸ hm)
  rw [hw, hn.watches, clear_markPending fun w hw => (hs.registry.entries w hw).idle]

theorem runs_xssDoWriteDeadline (path : CString) (data : Option CString) (caller : UInt32)
    (perms : List XsPermEntry) (deadline : Deadline) :
    Runs domid slot (xssDoWriteDeadline path data caller perms deadline) fun _ => True := by
  intro s hs
  refine wp_xssDoWriteDeadline (fun rc root rest locks hrest hw => ⟨trivial, ?_⟩)
    (fun hp => hp hs.store.wellFormed.permsOk)
  exact hs.withStore (hs.store.wrote hrest hw) rfl rfl rfl rfl

/-- A removal, unless the caller may remove "/". -/
theorem wp_xssDoRmDeadline {key : CString} {callerId : UInt32} {deadline : Deadline}
    (hs : ServerInv domid slot s) (hroot : key = [slash] → ¬ Grants s.root.label callerId) :
    wp (xssDoRmDeadline key callerId deadline) (fun _ s' => ServerInv domid slot s')
      (fun _ => False) s := by
  unfold xssDoRmDeadline
  simp only [wp_bind, wp_pure]
  refine wp_mono (wp_xssDoRmLocked s) (fun r s₁ hr => ?_) (fun e he => ?_)
  · obtain ⟨rc, localEvents⟩ := r
    obtain ⟨evs, hevs, hrm⟩ := hr
    simp only at hevs hrm
    subst hevs
    have hidle := fun w hw => (hs.registry.entries w hw).idle
    refine wp_dispatchLocalWatchEventsLocked _ s₁ fun s₂ hf hw he => ?_
    cases hrm with
    | refused e hn =>
      refine hs.frame (hn.frame.trans hf) ?_ fun e hm => hs.notified hn (he ▸ hm)
      rw [hw, hn.watches, clear_markPending hidle]
    | freed s₀ entry hn hfound hg hfree =>
      obtain ⟨-, rfl⟩ := freeEntry_ok hfree
      have hs₀ := hs.store.frame hn.frame
      have hfreed : StoreInv { s₀ with root := freeNode s₀.root entry } :=
        ⟨hs₀.wellFormed.remove _, hs₀.allocs⟩
      refine ServerInv.withStore (s := { s₂ with root := s.root }) ?_ (hfreed.frame hf)
        rfl rfl rfl rfl
      refine hs.frame ⟨rfl, hf.usedThreads.trans hn.frame.usedThreads,
        hf.domuMax.trans hn.frame.domuMax, fun h => hf.allocs (hn.frame.allocs h)⟩ ?_
        fun e hm => hs.notified hn (he ▸ hm)
      show s₂.watches = s.watches
      rw [hw]
      show clearPending _ s₀.watches = _
      rw [hn.watches, clear_markPending hidle]
  · rcases he with ⟨_, hp⟩ | he | ⟨-, hkey, hg⟩
    · exact hp hs.store.wellFormed.permsOk
    · exact hs.no_notifyFault he
    · exact hroot hkey hg

theorem wp_queueOwnEvent {watch : WatchEntry} {deadline : Deadline} (hs : ServerInv domid slot s)
    {w : WatchEntry} (hmem : w ∈ s.watches) (hid : watch.id = w.id) (hd : w.domain = some domid) :
    wp (queuePendingWatchEvent watch domid w.key deadline) (fun _ s' => ServerInv domid slot s')
      (fun _ => False) s := by
  refine wp_queuePendingWatchEvent fun rc s' hf _ hws he => hs.frame hf hws fun e hm => ?_
  rcases he with he | he
  · exact Or.inl (he ▸ hm)
  · rw [he, List.mem_append, List.mem_singleton] at hm
    refine hm.imp_right ?_
    rintro rfl
    exact hs.registry.event hmem hid hd (Nat.le_refl _)

end Runs

end Xenlib
