import Xenlib.ServerSpec
import Xenlib.Lib.Machine

/-!
Local watch callbacks that call back into the server. A notification queues all the watches
that it concerns and then runs their callbacks one by one. A callback may write or remove
nodes itself, and the dispatch of that change runs inside the first one. Each watch has room
for one pending path only.
-/

set_option autoImplicit false

namespace Xenlib

open Wp Machine

inductive LocalOp where
  | write (path value : Option CString) (txId : UInt32) (deadline : Deadline)
  | mkdir (path : Option CString) (txId : UInt32) (deadline : Deadline)
  | rm (path : Option CString) (txId : UInt32) (deadline : Deadline)

/-- The shape of the three calls up to the dispatch of the queued events. -/
def lockedWithPath (path : Option CString) (txId : UInt32)
    (body : CString → SrvM (Option Errno × List Nat)) : SrvM (Option Errno × List Nat) := do
  match path with
  | none => pure (some .einval, [])
  | some path =>
    if txId ≠ 0 then pure (some .enotsup, [])
    else match ← alloc (constructPath path 0) with
      | .error e => pure (some e, [])
      | .ok localPath => body localPath

/-- A call up to the dispatch: what is written or removed, and the events it queues. -/
def LocalOp.locked : LocalOp → SrvM (Option Errno × List Nat)
  | .write path value txId deadline =>
    match value with
    | none => pure (some .einval, [])
    | some value => lockedWithPath path txId fun p => writeNotifyLocked p value deadline
  | .mkdir path txId deadline => lockedWithPath path txId fun p => writeNotifyLocked p [] deadline
  | .rm path txId deadline => lockedWithPath path txId fun p => xssDoRmLocked p 0 deadline

def LocalOp.call : LocalOp → SrvM (Option Errno)
  | .write path value txId deadline => xsWriteTimeout path value txId deadline
  | .mkdir path txId deadline => xsMkdirTimeout path txId deadline
  | .rm path txId deadline => xsRmTimeout path txId deadline

def dispatchQueued (r : Option Errno × List Nat) : SrvM (Option Errno) := do
  dispatchLocalWatchEventsLocked r.2
  pure r.1

theorem lockedWithPath_call (path : Option CString) (txId : UInt32)
    (body : CString → SrvM (Option Errno × List Nat)) :
    lockedWithPath path txId body >>= dispatchQueued =
      xsWithPath path txId fun p => body p >>= dispatchQueued := by
  cases path with
  | none => rfl
  | some path =>
    simp only [lockedWithPath, xsWithPath]
    split
    · rfl
    · funext s
      simp only [bind, StateT.bind, Except.bind]
      cases alloc (constructPath path 0) s with
      | error e => rfl
      | ok r =>
        obtain ⟨a, s'⟩ := r
        cases a <;> rfl

theorem LocalOp.call_eq (op : LocalOp) : op.call = op.locked >>= dispatchQueued := by
  cases op with
  | write path value txId deadline =>
    cases value with
    | none => rfl
    | some value => exact (lockedWithPath_call path txId _).symm
  | mkdir path txId deadline => exact (lockedWithPath_call path txId _).symm
  | rm path txId deadline => exact (lockedWithPath_call path txId _).symm

/-- One run of the dispatch loop: the events it has not taken off its list yet. `running` tells
whether it has called a callback, which may call back. -/
structure DispatchFrame where
  running : Bool
  remaining : List Nat

/-- The dispatch loops in progress, the innermost first, and the events queued so far. -/
structure DispatchState where
  shared : Shared
  stack : List DispatchFrame
  queued : List (Nat × CString)
  /-- The assertion of `queue_local_watch_event_locked` failed. -/
  failed : Bool

inductive DispatchAction where
  /-- A call of a Dom0 thread, or of the callback that runs innermost. -/
  | call (op : LocalOp)
  /-- The innermost loop goes on to its next event. -/
  | dispatch
  /-- The innermost loop has come to its end. -/
  | finish

def pendingOf (watches : List WatchEntry) (id : Nat) : Option CString :=
  (watches.find? fun w => w.id = id).bind WatchEntry.pendingPath

def queuedEvent (watches : List WatchEntry) (id : Nat) : Nat × CString :=
  (id, (pendingOf watches id).getD [])

/-- Calls come from outside of any dispatch, or from the callback that runs. -/
def DispatchState.mayCall (d : DispatchState) : Bool :=
  match d.stack with
  | [] => true
  | frame :: _ => frame.running

def DispatchState.step (d : DispatchState) (a : DispatchAction) : Option DispatchState :=
  if d.failed then none
  else match a with
    | .call op =>
      if d.mayCall then
        match op.locked d.shared with
        | .error .assertion => some { d with failed := true }
        | .error _ => none
        | .ok ((_, localEvents), s) =>
          some { d with
            shared := s
            stack := ⟨false, localEvents⟩ :: d.stack
            queued := d.queued ++ localEvents.map (queuedEvent s.watches) }
      else none
    | .dispatch =>
      match d.stack with
      | ⟨_, id :: rest⟩ :: frames =>
        match dispatchLocalWatchEvent id d.shared with
        | .error _ => none
        | .ok ((), s) => some { d with shared := s, stack := ⟨true, rest⟩ :: frames }
      | _ => none
    | .finish =>
      match d.stack with
      | ⟨_, []⟩ :: frames => some { d with stack := frames }
      | _ => none

def DispatchState.waiting (d : DispatchState) : List Nat :=
  d.stack.flatMap DispatchFrame.remaining

def DispatchState.delivered (d : DispatchState) : List (Nat × CString) :=
  d.shared.calls.map fun c => (c.watch, c.path)

/-- The assertion held whenever an event was queued. A watch is on one dispatch list at most, and
has a pending path exactly when it is. Every event that was queued was delivered, or waits to
be, once and with its path. -/
structure DeliveredOnce (d : DispatchState) : Prop where
  asserted : d.failed = false
  oneList : d.waiting.Nodup
  pending : ∀ id, (pendingOf d.shared.watches id).isSome ↔ id ∈ d.waiting
  balance : d.queued.Perm (d.delivered ++ d.waiting.map (queuedEvent d.shared.watches))

/-- The path of a call once it is resolved. A write without a value does not look at its path. -/
def LocalOp.resolved : LocalOp → Option CString
  | .write _ none _ _ => none
  | .write path (some _) txId _ | .mkdir path txId _ | .rm path txId _ =>
    if txId ≠ 0 then none else path.bind fun p => (resolvePath p 0).toOption

/-- A removal tells the watches above the path and those below it, a write those above. -/
def LocalOp.ConcernsAt (root : XsEntry) (w : WatchEntry) (p : CString) : LocalOp → Prop
  | .rm .. => Concerned root p true w
  | .write .. | .mkdir .. => xenstorePathContains w.key p = true

def LocalOp.Concerns (op : LocalOp) (root : XsEntry) (w : WatchEntry) : Prop :=
  ∃ p, op.resolved = some p ∧ op.ConcernsAt root w p

def DispatchAction.Apart (d : DispatchState) : DispatchAction → Prop
  | .call op => ∀ w ∈ linkedWatches d.shared, w.id ∈ d.waiting → ¬ op.Concerns d.shared.root w
  | _ => True

/-- The part of a call that queues `evs`. -/
structure Queues (s s' : Shared) (evs : List (Nat × CString)) : Prop where
  calls : s'.calls = s.calls
  watches : s'.watches = markPending evs s.watches
  sublist : (evs.map Prod.fst).Sublist ((linkedWatches s).map WatchEntry.id)
  free : ∀ e ∈ evs, ∃ w ∈ linkedWatches s, w.id = e.1 ∧ w.pendingPath = none

theorem Queues.nil {s s' : Shared} (hc : s'.calls = s.calls) (hw : s'.watches = s.watches) :
    Queues s s' [] :=
  ⟨hc, hw, List.nil_sublist _, fun _ he => absurd he List.not_mem_nil⟩

theorem Notified.queues {path : CString} {recursiveRemove : Bool} {s s₁ s₂ s' : Shared}
    {evs : List (Nat × CString)}
    (h : Notified path recursiveRemove (linkedWatches s₁) s₁ s₂ evs) (hc₁ : s₁.calls = s.calls)
    (hw₁ : s₁.watches = s.watches) (hc₂ : s'.calls = s₂.calls) (hw₂ : s'.watches = s₂.watches) :
    Queues s s' evs := by
  have hl : linkedWatches s₁ = linkedWatches s := by simp only [linkedWatches, hw₁]
  refine ⟨hc₂.trans (h.calls.trans hc₁), hw₂.trans (by rw [h.watches, hw₁]), ?_, fun e he => ?_⟩
  · rw [← hl]
    exact h.sublist
  · obtain ⟨w, hw, hid, _, hp, _⟩ := h.queued e he
    exact ⟨w, hl ▸ hw, hid, hp⟩

/-- The assertion of a call fails only for a watch that it concerns and that has a path pending. -/
def LocalOp.Clash (op : LocalOp) (s : Shared) (e : Fault) : Prop :=
  e = .assertion → ∃ w ∈ linkedWatches s, w.pendingPath.isSome ∧ op.Concerns s.root w

theorem wp_lockedWithPath {path : Option CString} {txId : UInt32}
    {body : CString → SrvM (Option Errno × List Nat)} {E : Fault → Prop} {s : Shared}
    (h : ∀ text p rest, path = some text → txId = 0 → resolvePath text 0 = .ok p →
      wp (body p) (fun r s' => ∃ evs, r.2 = evs.map Prod.fst ∧ Queues s s' evs) E
        { s with allocs := rest }) :
    wp (lockedWithPath path txId body)
      (fun r s' => ∃ evs, r.2 = evs.map Prod.fst ∧ Queues s s' evs) E s := by
  unfold lockedWithPath
  cases path with
  | none => exact ⟨[], rfl, .nil rfl rfl⟩
  | some text =>
    refine wp_ite (fun _ => ⟨[], rfl, .nil rfl rfl⟩) (fun htx => ?_)
    rw [wp_bind, wp_alloc]
    refine wp_constructPath (fun rest _ => ?_) (fun _ _ _ => ⟨[], rfl, .nil rfl rfl⟩)
    cases hr : resolvePath text 0 with
    | error e => exact ⟨[], rfl, .nil rfl rfl⟩
    | ok p => exact h text p rest rfl (Decidable.not_not.mp htx) hr

theorem wp_writeNotifyLocked {p value : CString} {deadline : Deadline} (s : Shared) :
    wp (writeNotifyLocked p value deadline)
      (fun r s' => ∃ evs, r.2 = evs.map Prod.fst ∧ Queues s s' evs)
      (fun e => e = .assertion → ∃ w ∈ linkedWatches s, w.pendingPath.isSome ∧
        xenstorePathContains w.key p = true) s := by
  unfold writeNotifyLocked
  rw [wp_bind]
  refine wp_xssDoWriteDeadline (fun rc root rest locks _ _ => ?_) (fun _ he => by cases he)
  cases rc with
  | some e => exact ⟨[], rfl, .nil rfl rfl⟩
  | none =>
    refine wp_mono (wp_notifyWatchersLocked _) (fun r s' ⟨evs, hr, hn⟩ => ?_) (fun e he hass => ?_)
    · exact ⟨evs, hr, hn.queues rfl rfl rfl rfl⟩
    · subst hass
      obtain ⟨w, hw, _, hp, eventPath, hq, _⟩ := he
      refine ⟨w, hw, hp, ?_⟩
      unfold watchEventPath at hq
      by_contra hno
      simp [hno] at hq

theorem freeEntry_watches {entry : EntryRef} {s s' : Shared}
    (h : freeEntry entry s = .ok ((), s')) : s'.calls = s.calls ∧ s'.watches = s.watches := by
  obtain ⟨-, rfl⟩ := freeEntry_ok h
  exact ⟨rfl, rfl⟩

/-- What a call does up to its dispatch. -/
theorem LocalOp.wp_locked (op : LocalOp) (s : Shared) :
    wp op.locked (fun r s' => ∃ evs, r.2 = evs.map Prod.fst ∧ Queues s s' evs) (op.Clash s) s := by
  have hlift : ∀ {rest : List Bool} {s' : Shared} {evs : List (Nat × CString)},
      Queues { s with allocs := rest } s' evs → Queues s s' evs :=
    fun h => ⟨h.calls, h.watches, h.sublist, h.free⟩
  cases op with
  | write path value txId deadline =>
    cases value with
    | none => exact ⟨[], rfl, .nil rfl rfl⟩
    | some value =>
      refine wp_lockedWithPath fun text p rest hp htx hr => ?_
      refine wp_mono (wp_writeNotifyLocked _) (fun r s' ⟨evs, he, hq⟩ => ⟨evs, he, hlift hq⟩)
        (fun e he hass => ?_)
      obtain ⟨w, hw, hpend, hkey⟩ := he hass
      exact ⟨w, hw, hpend, p, by simp [LocalOp.resolved, hp, htx, hr, Except.toOption], hkey⟩
  | mkdir path txId deadline =>
    refine wp_lockedWithPath fun text p rest hp htx hr => ?_
    refine wp_mono (wp_writeNotifyLocked _) (fun r s' ⟨evs, he, hq⟩ => ⟨evs, he, hlift hq⟩)
      (fun e he hass => ?_)
    obtain ⟨w, hw, hpend, hkey⟩ := he hass
    exact ⟨w, hw, hpend, p, by simp [LocalOp.resolved, hp, htx, hr, Except.toOption], hkey⟩
  | rm path txId deadline =>
    refine wp_lockedWithPath fun text p rest hp htx hr => ?_
    refine wp_mono (wp_xssDoRmLocked _) (fun r s' ⟨evs, he, hrm⟩ => ⟨evs, he, ?_⟩)
      (fun e he hass => ?_)
    · generalize r.1 = rc at hrm
      cases hrm with
      | refused e hn => exact hn.queues rfl rfl rfl rfl
      | freed s₁ entry hn _ _ hfree =>
        obtain ⟨hc, hw⟩ := freeEntry_watches hfree
        exact hn.queues rfl rfl hc hw
    · subst hass
      rcases he with ⟨he, _⟩ | he | ⟨he, _⟩
      · cases he
      · obtain ⟨w, hw, _, hpend, hcon⟩ := he
        exact ⟨w, hw, hpend, p, by simp [LocalOp.resolved, hp, htx, hr, Except.toOption], hcon⟩
      · cases he

section Registry
variable {watches : List WatchEntry}

theorem filter_watch {w : WatchEntry} {id : Nat} (hn : (watches.map WatchEntry.id).Nodup)
    (hw : w ∈ watches) (hid : w.id = id) : watches.filter (fun v => v.id = id) = [w] := by
  subst hid
  induction watches with
  | nil => cases hw
  | cons v rest ih =>
    rw [List.map_cons, List.nodup_cons] at hn
    rcases List.mem_cons.mp hw with rfl | hw
    · rw [List.filter_cons_of_pos (by simp)]
      have hnone : rest.filter (fun v => v.id = w.id) = [] := by
        rw [List.filter_eq_nil_iff]
        intro v hv he
        have he : v.id = w.id := by simpa using he
        exact hn.1 (he ▸ List.mem_map_of_mem hv)
      rw [hnone]
    · have hne : v.id ≠ w.id := fun he => hn.1 (he ▸ List.mem_map_of_mem hw)
      rw [List.filter_cons_of_neg (by simpa using hne)]
      exact ih hn.2 hw

theorem find_watch {w : WatchEntry} (hn : (watches.map WatchEntry.id).Nodup) (hw : w ∈ watches) :
    watches.find? (fun v => v.id = w.id) = some w := by
  rw [← List.head?_filter, filter_watch hn hw rfl]
  rfl

theorem pendingOf_watch {w : WatchEntry} (hn : (watches.map WatchEntry.id).Nodup)
    (hw : w ∈ watches) : pendingOf watches w.id = w.pendingPath := by
  unfold pendingOf
  rw [find_watch hn hw]
  rfl

theorem pendingOf_isSome {id : Nat} (h : (pendingOf watches id).isSome) :
    ∃ w ∈ watches, w.id = id ∧ w.pendingPath = pendingOf watches id := by
  unfold pendingOf at h ⊢
  cases hf : watches.find? fun w => w.id = id with
  | none => rw [hf] at h; cases h
  | some w =>
    have hid := List.find?_some hf
    exact ⟨w, List.mem_of_find?_eq_some hf, by simpa using hid, rfl⟩

theorem pendingOf_set (i : Nat) (path : Option CString) (j : Nat) :
    pendingOf (watches.map fun w => if w.id = i then { w with pendingPath := path } else w) j =
      if j = i then (watches.find? fun w => w.id = j).bind fun _ => path
      else pendingOf watches j := by
  have hid : ∀ w : WatchEntry,
      (if w.id = i then { w with pendingPath := path } else w).id = w.id := by
    intro w
    split <;> rfl
  unfold pendingOf
  rw [List.find?_map]
  have hcomp : ((fun w : WatchEntry => decide (w.id = j)) ∘ fun w =>
      if w.id = i then { w with pendingPath := path } else w) = fun w => decide (w.id = j) := by
    funext w
    simp only [Function.comp, hid]
  rw [hcomp]
  cases hf : watches.find? fun w => w.id = j with
  | none => simp
  | some w =>
    have hwj : w.id = j := by simpa using List.find?_some hf
    by_cases hji : j = i
    · simp [hwj, hji]
    · simp [hwj, hji]

theorem set_ids (i : Nat) (path : Option CString) :
    (watches.map fun w => if w.id = i then { w with pendingPath := path } else w).map
      WatchEntry.id = watches.map WatchEntry.id := by
  rw [List.map_map]
  apply List.map_congr_left
  intro w _
  simp only [Function.comp]
  split <;> rfl

theorem find_isSome {id : Nat} :
    (watches.find? fun w => w.id = id).isSome ↔ id ∈ watches.map WatchEntry.id := by
  simp

theorem markPending_ids (evs : List (Nat × CString)) (watches : List WatchEntry) :
    (markPending evs watches).map WatchEntry.id = watches.map WatchEntry.id := by
  induction evs generalizing watches with
  | nil => rfl
  | cons e evs ih => exact (ih _).trans (set_ids e.1 (some e.2))

theorem pendingOf_mark_other {evs : List (Nat × CString)} {id : Nat} (h : id ∉ evs.map Prod.fst) :
    pendingOf (markPending evs watches) id = pendingOf watches id := by
  induction evs generalizing watches with
  | nil => rfl
  | cons e evs ih =>
    rw [List.map_cons, List.mem_cons, not_or] at h
    refine (ih h.2).trans ?_
    rw [pendingOf_set, if_neg h.1]

theorem pendingOf_mark {evs : List (Nat × CString)} (hn : (evs.map Prod.fst).Nodup)
    {e : Nat × CString} (he : e ∈ evs) (hid : e.1 ∈ watches.map WatchEntry.id) :
    pendingOf (markPending evs watches) e.1 = some e.2 := by
  induction evs generalizing watches with
  | nil => cases he
  | cons e' evs ih =>
    rw [List.map_cons, List.nodup_cons] at hn
    rcases List.mem_cons.mp he with rfl | he
    · refine (pendingOf_mark_other hn.1).trans ?_
      rw [pendingOf_set, if_pos rfl]
      obtain ⟨w, hw⟩ := Option.isSome_iff_exists.mp (find_isSome.mpr hid)
      rw [hw]
      rfl
    · exact ih hn.2 he (by rw [set_ids]; exact hid)

end Registry

structure CallbackInv (d : DispatchState) : Prop extends DeliveredOnce d where
  ids : (d.shared.watches.map WatchEntry.id).Nodup

def DispatchState.start (s : Shared) : DispatchState := ⟨s, [], [], false⟩

theorem CallbackInv.start {s : Shared} (hids : (s.watches.map WatchEntry.id).Nodup)
    (hpend : ∀ w ∈ s.watches, w.pendingPath = none) (hcalls : s.calls = []) :
    CallbackInv (.start s) where
  asserted := rfl
  oneList := List.nodup_nil
  pending := by
    intro id
    constructor
    · intro h
      obtain ⟨w, hw, _, hp⟩ := pendingOf_isSome h
      rw [← hp, hpend w hw] at h
      cases h
    · intro h
      cases h
  balance := by
    simp [DispatchState.start, DispatchState.delivered, DispatchState.waiting, hcalls]
  ids := hids

theorem CallbackInv.call {d : DispatchState} {s' : Shared} {evs : List (Nat × CString)}
    (h : CallbackInv d) (hq : Queues d.shared s' evs) :
    CallbackInv { d with
      shared := s'
      stack := ⟨false, evs.map Prod.fst⟩ :: d.stack
      queued := d.queued ++ (evs.map Prod.fst).map (queuedEvent s'.watches) } := by
  have hsub : (linkedWatches d.shared).Sublist d.shared.watches := List.filter_sublist
  have hevs : (evs.map Prod.fst).Nodup := hq.sublist.nodup ((hsub.map WatchEntry.id).nodup h.ids)
  have hnew : ∀ id ∈ evs.map Prod.fst, id ∉ d.waiting := by
    intro id hid hwait
    obtain ⟨e, he, rfl⟩ := List.mem_map.mp hid
    obtain ⟨w, hw, hwid, hp⟩ := hq.free e he
    have hsome := (h.pending e.1).mpr hwait
    rw [← hwid, pendingOf_watch h.ids (hsub.subset hw), hp] at hsome
    cases hsome
  have hknown : ∀ id ∈ evs.map Prod.fst, id ∈ d.shared.watches.map WatchEntry.id := fun id hid =>
    (hsub.map WatchEntry.id).subset (hq.sublist.subset hid)
  have hsame : d.waiting.map (queuedEvent s'.watches) =
      d.waiting.map (queuedEvent d.shared.watches) := by
    apply List.map_congr_left
    intro id hid
    have hne : id ∉ evs.map Prod.fst := fun hmem => hnew id hmem hid
    simp only [queuedEvent, hq.watches, pendingOf_mark_other hne]
  refine ⟨⟨h.asserted, ?_, fun id => ?_, ?_⟩, ?_⟩
  · exact List.nodup_append'.mpr ⟨hevs, h.oneList, fun id h₁ h₂ => hnew id h₁ h₂⟩
  · show (pendingOf s'.watches id).isSome ↔ id ∈ evs.map Prod.fst ++ d.waiting
    rw [hq.watches, List.mem_append]
    by_cases hid : id ∈ evs.map Prod.fst
    · obtain ⟨e, he, rfl⟩ := List.mem_map.mp hid
      rw [pendingOf_mark hevs he (hknown e.1 hid)]
      exact ⟨fun _ => Or.inl hid, fun _ => rfl⟩
    · rw [pendingOf_mark_other hid, h.pending id]
      exact ⟨Or.inr, fun hor => hor.resolve_left hid⟩
  · show (d.queued ++ _).Perm (s'.calls.map _ ++
      (evs.map Prod.fst ++ d.waiting).map (queuedEvent s'.watches))
    rw [hq.calls, List.map_append, hsame]
    have hb := h.balance.append_right ((evs.map Prod.fst).map (queuedEvent s'.watches))
    refine hb.trans ?_
    rw [List.append_assoc]
    exact List.Perm.append_left _ List.perm_append_comm
  · rw [hq.watches, markPending_ids]
    exact h.ids

theorem CallbackInv.dispatch {d : DispatchState} {running : Bool} {id : Nat} {rest : List Nat}
    {frames : List DispatchFrame} {s' : Shared} (h : CallbackInv d)
    (hstack : d.stack = ⟨running, id :: rest⟩ :: frames)
    (hs : dispatchLocalWatchEvent id d.shared = .ok ((), s')) :
    CallbackInv { d with shared := s', stack := ⟨true, rest⟩ :: frames } := by
  have hwait : d.waiting = id :: (rest ++ frames.flatMap DispatchFrame.remaining) := by
    simp only [DispatchState.waiting, hstack, List.flatMap_cons, List.cons_append]
  have hnodup := h.oneList
  rw [hwait, List.nodup_cons] at hnodup
  have hsome : (pendingOf d.shared.watches id).isSome :=
    (h.pending id).mpr (by rw [hwait]; exact List.mem_cons_self)
  obtain ⟨w, hw, hwid, hp⟩ := pendingOf_isSome hsome
  obtain ⟨path, hpath⟩ := Option.isSome_iff_exists.mp hsome
  have hother : ∀ j, j ≠ id → pendingOf s'.watches j = pendingOf d.shared.watches j := by
    intro j hj
    cases hs
    exact (pendingOf_set id none j).trans (if_neg hj)
  have hcleared : pendingOf s'.watches id = none := by
    cases hs
    refine (pendingOf_set id none id).trans ?_
    rw [if_pos rfl]
    cases d.shared.watches.find? fun w => w.id = id <;> rfl
  have hsame : (rest ++ frames.flatMap DispatchFrame.remaining).map (queuedEvent s'.watches) =
      (rest ++ frames.flatMap DispatchFrame.remaining).map (queuedEvent d.shared.watches) := by
    apply List.map_congr_left
    intro j hj
    simp only [queuedEvent, hother j fun he => hnodup.1 (he ▸ hj)]
  have hcalls : s'.calls.map (fun c => (c.watch, c.path)) =
      d.delivered ++ [queuedEvent d.shared.watches id] := by
    cases hs
    have hone : d.shared.watches.filter (fun w => w.id = id) = [w] := filter_watch h.ids hw hwid
    simp only [DispatchState.delivered, List.map_append, hone, hp, hpath, queuedEvent,
      List.flatMap_singleton, Option.toList_some, List.map_singleton, Option.getD_some]
  refine ⟨⟨h.asserted, hnodup.2, fun j => ?_, ?_⟩, ?_⟩
  · show (pendingOf s'.watches j).isSome ↔ j ∈ rest ++ frames.flatMap DispatchFrame.remaining
    by_cases hj : j = id
    · rw [hj, hcleared]
      exact ⟨fun hf => (by cases hf), fun hmem => absurd hmem hnodup.1⟩
    · rw [hother j hj, h.pending j, hwait, List.mem_cons]
      exact ⟨fun hor => hor.resolve_left hj, Or.inr⟩
  · show d.queued.Perm (s'.calls.map _ ++
      (rest ++ frames.flatMap DispatchFrame.remaining).map (queuedEvent s'.watches))
    have hb := h.balance
    rw [hwait, List.map_cons] at hb
    rw [hcalls, hsame, List.append_assoc]
    exact hb
  · cases hs
    exact (set_ids id none).symm ▸ h.ids

theorem CallbackInv.step {d d' : DispatchState} {a : DispatchAction} (h : CallbackInv d)
    (ha : a.Apart d) (hstep : d.step a = some d') : CallbackInv d' := by
  have hok : ¬ d.failed = true := by
    rw [h.asserted]
    exact Bool.noConfusion
  unfold DispatchState.step at hstep
  rw [if_neg hok] at hstep
  cases a with
  | call op =>
    simp only at hstep
    split at hstep
    · have hwp := op.wp_locked d.shared
      cases hl : op.locked d.shared with
      | error e =>
        have hclash := wp_error hwp hl
        cases e with
        | assertion =>
          -- the watch in the way waits on a list, and the call does not concern it
          obtain ⟨w, hw, hpend, hcon⟩ := hclash rfl
          refine absurd hcon (ha w hw ((h.pending w.id).mp ?_))
          rw [pendingOf_watch h.ids (List.filter_sublist.subset hw)]
          exact hpend
        | _ => simp [hl] at hstep
      | ok r =>
        obtain ⟨⟨rc, localEvents⟩, s'⟩ := r
        obtain ⟨evs, hevs, hq⟩ := wp_ok hwp hl
        simp only [hl, Option.some.injEq] at hstep
        simp only at hevs
        subst hevs hstep
        exact h.call hq
    · cases hstep
  | dispatch =>
    simp only at hstep
    split at hstep
    · next running id rest frames hstack =>
      cases hs : dispatchLocalWatchEvent id d.shared with
      | error e => simp [hs] at hstep
      | ok r =>
        simp only [hs, Option.some.injEq] at hstep
        subst hstep
        exact h.dispatch hstack hs
    · cases hstep
  | finish =>
    simp only at hstep
    split at hstep
    · next running frames hstack =>
      cases hstep
      have hwait : d.waiting = frames.flatMap DispatchFrame.remaining := by
        simp only [DispatchState.waiting, hstack, List.flatMap_cons, List.nil_append]
      have hpending := h.pending
      have hbalance := h.balance
      have honeList := h.oneList
      rw [hwait] at hbalance honeList
      simp only [hwait] at hpending
      exact ⟨⟨h.asserted, honeList, hpending, hbalance⟩, h.ids⟩
    · cases hstep

/-- Callbacks may write and remove as they like, as long as no call concerns a watch whose own
event waits in one of the dispatches that the call is nested in. -/
theorem run_deliveredOnce {s : Shared} {as : List DispatchAction} {d : DispatchState}
    (hids : (s.watches.map WatchEntry.id).Nodup)
    (hpend : ∀ w ∈ s.watches, w.pendingPath = none) (hcalls : s.calls = [])
    (hapart : Along DispatchState.step (fun d a => a.Apart d) (.start s) as)
    (hrun : run DispatchState.step (.start s) as = some d) : DeliveredOnce d :=
  (run_invariant (fun _ _ _ => CallbackInv.step) (CallbackInv.start hids hpend hcalls) hapart
    hrun).toDeliveredOnce

instance (root : XsEntry) (path : CString) (recursiveRemove : Bool) (w : WatchEntry) :
    Decidable (Concerned root path recursiveRemove w) :=
  match h : watchEventPath w path recursiveRemove with
  | none => isFalse fun ⟨_, he, _⟩ => by rw [h] at he; cases he
  | some eventPath => decidable_of_iff ((foundEntry root eventPath).isSome)
      ⟨fun hf => ⟨eventPath, h, hf⟩, fun ⟨_, he, hf⟩ => by rw [h] at he; cases he; exact hf⟩

instance (op : LocalOp) (root : XsEntry) (w : WatchEntry) (p : CString) :
    Decidable (op.ConcernsAt root w p) :=
  match op with
  | .rm .. => inferInstanceAs (Decidable (Concerned root p true w))
  | .write .. | .mkdir .. => inferInstanceAs (Decidable (_ = true))

instance (op : LocalOp) (root : XsEntry) (w : WatchEntry) : Decidable (op.Concerns root w) :=
  match h : op.resolved with
  | none => isFalse fun ⟨_, he, _⟩ => by rw [h] at he; cases he
  | some p => decidable_of_iff (op.ConcernsAt root w p)
      ⟨fun hc => ⟨p, h, hc⟩, fun ⟨_, he, hc⟩ => by rw [h] at he; cases he; exact hc⟩

instance (d : DispatchState) (a : DispatchAction) : Decidable (a.Apart d) :=
  match a with
  | .call op => inferInstanceAs (Decidable (∀ w ∈ linkedWatches d.shared,
      w.id ∈ d.waiting → ¬ op.Concerns d.shared.root w))
  | .dispatch | .finish => isTrue trivial

/-- Two clients in Dom0 watch "/a" and a third watches "/b". -/
def threeWatches : Shared :=
  { ownedByOne with
    watches :=
      [⟨0, ascii ['/', 'a'], [116, 0], none, false, true, none⟩,
       ⟨1, ascii ['/', 'a'], [117, 0], none, false, true, none⟩,
       ⟨2, ascii ['/', 'b'], [118, 0], none, false, true, none⟩] }

def writeOf (path : List Char) : DispatchAction :=
  .call (.write (some (ascii path)) (some []) 0 .forever)

/-- A write below "/a", and a write below "/b" from the callback of the first watch. -/
def nestedApart : List DispatchAction :=
  [writeOf ['/', 'a', '/', 'x'], .dispatch, writeOf ['/', 'b', '/', 'y'], .dispatch, .finish,
   .dispatch, .finish]

theorem run_deliveredOnce_nestedApart : ∃ d,
    run DispatchState.step (.start threeWatches) nestedApart = some d ∧ d.waiting = [] ∧
      d.delivered = [(0, ascii ['/', 'a', '/', 'x']), (2, ascii ['/', 'b', '/', 'y']),
        (1, ascii ['/', 'a', '/', 'x'])] ∧ DeliveredOnce d := by
  have hvals : (run DispatchState.step (.start threeWatches) nestedApart).map (fun d =>
      (d.waiting, d.delivered)) = some ([], [(0, ascii ['/', 'a', '/', 'x']),
        (2, ascii ['/', 'b', '/', 'y']), (1, ascii ['/', 'a', '/', 'x'])]) := by
    decide +kernel
  obtain ⟨d, hrun, hd⟩ := Option.map_eq_some_iff.mp hvals
  rw [Prod.mk.injEq] at hd
  refine ⟨d, hrun, hd.1, hd.2, run_deliveredOnce ?_ ?_ rfl ?_ hrun⟩
  · decide +kernel
  · decide +kernel
  · decide +kernel

/-- A write below "/a", and another one from the callback of the first watch. -/
def nestedClash : List DispatchAction :=
  [writeOf ['/', 'a', '/', 'x'], .dispatch, writeOf ['/', 'a', '/', 'y']]

/-- The event of the second watch is still queued when the callback of the first one causes
the next. -/
theorem nestedClash_not_deliveredOnce : ∃ d,
    run DispatchState.step (.start threeWatches) nestedClash = some d ∧ d.failed = true ∧
      ¬ DeliveredOnce d := by
  have hvals : (run DispatchState.step (.start threeWatches) nestedClash).map
      DispatchState.failed = some true := by
    decide +kernel
  obtain ⟨d, hrun, hd⟩ := Option.map_eq_some_iff.mp hvals
  refine ⟨d, hrun, hd, fun h => ?_⟩
  rw [h.asserted] at hd
  cases hd

end Xenlib
