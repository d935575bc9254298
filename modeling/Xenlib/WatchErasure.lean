import Xenlib.WatchChanges

/-!
The sections of `WatchRefs` against the functions in `Handlers`. There the loop of
`process_pending_watch_events` writes the list back when it is done, and
`cleanup_domain_watches` is one update; here events go one by one, each with its reference.
-/

set_option autoImplicit false

namespace Xenlib

open Wp

/-- The states are the same but for the list of pending events. -/
def WithPending (pending : List PendingWatchEvent) (s t : Shared) : Prop :=
  s = { t with pendingWatchEventList := pending }

section Pending
variable {pending : List PendingWatchEvent}

theorem pending_alloc {α : Type} (x : AllocM α) :
    Agree (WithPending pending) Eq (alloc x) (alloc x) := by
  rintro _ t rfl
  unfold alloc
  cases x t.allocs with
  | error e => rfl
  | ok r => exact ⟨rfl, rfl⟩

theorem pending_sendReplyOr {tooBig : SrvM Xenstore} {x : Xenstore}
    (hlimit : x.usedOutBufs ≤ xenstoreMaxOutBufNum)
    (h : Agree (WithPending pending) Eq tooBig tooBig) (id : UInt32) (type : XsdSockmsgType)
    (data : Bytes) :
    Agree (WithPending pending) Eq (sendReplyOr tooBig x id type data)
      (sendReplyOr tooBig x id type data) := by
  unfold sendReplyOr queueReply
  refine .ite (fun hover => absurd hover (not_lt.mpr hlimit)) fun _ => .ite (fun _ => h) ?_
  intro _
  refine (pending_alloc _).bind_eq fun _ => .ite (fun _ => .pure rfl) fun _ => ?_
  exact (pending_alloc _).bind_eq fun _ => .ite (fun _ => .pure rfl) fun _ => .pure rfl

theorem pending_fireWatcher (x : Xenstore) (event : PendingWatchEvent) :
    Agree (WithPending pending) Eq (fireWatcher x event) (fireWatcher x event) := by
  unfold fireWatcher
  refine Agree.get.bind ?_
  rintro _ t rfl
  cases t.watches.find? fun w => w.id = event.watch with
  | none => exact .pure rfl
  | some watch =>
    refine .ite (fun _ => .pure rfl) fun _ => .ite (fun _ => .throw _) fun _ => ?_
    refine .ite (fun _ => .pure rfl) fun hlimit => (Agree.lift _).bind_eq fun payload => ?_
    refine (pending_alloc _).bind_eq fun _ => .ite (fun _ => .pure rfl) fun _ => ?_
    have hroom : x.usedOutBufs ≤ xenstoreMaxOutBufNum := by
      unfold xenstoreMaxOutBufNum at *
      omega
    refine (pending_sendReplyOr hroom ?_ 0 .watchEvent payload).bind_eq fun _ => .pure rfl
    exact pending_sendReplyOr hroom (.pure rfl) 0 .error _

end Pending

theorem pendingWatchLoop_other {e : PendingWatchEvent} {rest : List PendingWatchEvent}
    {x : Xenstore} (he : e.domain ≠ x.domid) :
    pendingWatchLoop (e :: rest) x =
      pendingWatchLoop rest x >>= fun a => pure (a.1, e :: a.2) := by
  rw [pendingWatchLoop, if_pos he]

/-- The loop that collects what is left gives what is left when the events go one by one. -/
theorem wp_pendingRounds_loop {before events : List PendingWatchEvent} {x : Xenstore}
    {r : WatchRegistry} {s : Shared} (h : WithPending (before ++ events) r.shared s)
    (hbefore : ∀ e ∈ before, e.domain ≠ x.domid) :
    wp (pendingRounds events x)
      (fun x' r' => ∃ kept s', pendingWatchLoop events x s = .ok ((x', kept), s') ∧
        WithPending (before ++ kept) r'.shared s')
      (fun e => pendingWatchLoop events x s = .error e) r := by
  induction events generalizing r s x before with
  | nil => exact ⟨[], s, rfl, h⟩
  | cons e rest ih =>
    have hp : r.shared.pendingWatchEventList = before ++ e :: rest :=
      congrArg Shared.pendingWatchEventList h
    unfold pendingRounds
    refine wp_ite (fun he => ?_) fun he => ?_
    · rw [pendingWatchLoop_other he]
      rw [List.append_cons] at h
      refine wp_mono (ih h (others_append hbefore he)) ?_ ?_
      · rintro x' r' ⟨kept, s', hloop, hr'⟩
        refine ⟨e :: kept, s', ?_, ?_⟩
        · simp only [bind, StateT.bind, Except.bind, hloop]
          rfl
        · rwa [List.append_cons]
      · intro err herr
        simp only [bind, StateT.bind, Except.bind, herr]
    · have hd : e.domain = x.domid := Decidable.not_not.mp he
      rw [wp_bind, wp_unref]
      refine wp_mono (wp_and ((pending_fireWatcher x e).wp h)
        (calm_fireWatcher x e _ _ ⟨rfl, rfl⟩)) ?_ ?_
      · rintro ⟨x', rc⟩ s₁ ⟨⟨_, s₂, hfire, rfl, hs₁⟩, hx', -⟩
        rw [pendingWatchLoop, if_neg he]
        simp only [bind, StateT.bind, Except.bind, hfire]
        cases rc with
        | some err => exact ⟨e :: rest, s₂, rfl, hs₁⟩
        | none =>
          have hdomid : x.domid = x'.domid := hx'.symm
          rw [hdomid] at hbefore hd
          have herase : s₁.pendingWatchEventList.erase e = before ++ rest := by
            rw [hs₁]
            exact erase_first (hd ▸ hbefore)
          show wp (takeEvent e >>= fun _ => pendingRounds rest x') _ _ _
          unfold takeEvent watchEntryPut
          simp only [wp_bind, wp_modify]
          refine ih ?_ hbefore
          show ({ s₁ with pendingWatchEventList := s₁.pendingWatchEventList.erase e } : Shared) = _
          rw [herase, hs₁]
      · rintro err ⟨hfire, -⟩
        rw [pendingWatchLoop, if_neg he]
        simp only [bind, StateT.bind, Except.bind, hfire]

theorem processPendingWatchEvents_eq (x : Xenstore) (s : Shared) :
    processPendingWatchEvents x s =
      (pendingWatchLoop s.pendingWatchEventList x >>= fun a =>
        (modify fun s => { s with pendingWatchEventList := a.2 }) >>= fun _ => pure a.1) s := rfl

theorem erases_processPending (x : Xenstore) :
    Erases (processPending x) (processPendingWatchEvents x) := by
  rintro r _ rfl
  have hrun : wp (processPending x)
      (fun x' r' => processPendingWatchEvents x r.shared = .ok (x', r'.shared))
      (fun e => processPendingWatchEvents x r.shared = .error e) r := by
    unfold processPending
    simp only [wp_bind, wp_get, processPendingWatchEvents_eq]
    have hloop := @wp_pendingRounds_loop [] r.shared.pendingWatchEventList x r r.shared rfl
      fun _ h => (List.not_mem_nil h).elim
    refine wp_mono hloop ?_ ?_
    · rintro x' r' ⟨kept, s', hkept, hr'⟩
      simp only [bind, StateT.bind, Except.bind, hkept]
      rw [hr']
      rfl
    · intro e he
      simp only [bind, StateT.bind, Except.bind, he]
  unfold wp at hrun
  cases hx : processPending x r with
  | error e =>
    simp only [hx] at hrun
    simp only [hrun]
  | ok a =>
    simp only [hx] at hrun
    simp only [hrun]
    exact ⟨trivial, trivial⟩

/-- The section of `handle_unwatch` under `wel_mutex`. -/
def unwatchLocked (domid : UInt32) (path : CString) (token : Bytes) : SrvM Unit := do
  let s ← get
  match ← Wp.lift (keyToWatcher path token (some domid) (linkedWatches s)) with
  | some entry => unlinkWatch entry.id
  | none => pure ()

theorem handleUnwatch_eq (x : Xenstore) (id : UInt32) (payload : Bytes) :
    handleUnwatch x id payload = withPath x id payload (fun path =>
      unwatchLocked x.domid path (payload.drop (strnlen payload + 1)) >>= fun _ =>
        sendReply x id .unwatch []) := by
  unfold handleUnwatch unwatchLocked
  congr 1
  funext path
  simp only [bind_assoc]
  congr 1
  funext s
  congr 1
  funext entry
  cases entry with
  | none => rfl
  | some entry => rfl

theorem erases_last {count : RefM Unit} {x : RefM Unit} {y : SrvM Unit}
    (h : ∀ r, ∃ r', count r = .ok ((), r') ∧ r'.shared = r.shared) (hxy : Erases x y) :
    Erases (x >>= fun _ => count) y := by
  rw [← bind_pure y]
  refine hxy.bind_eq fun _ => ?_
  rintro r _ rfl
  obtain ⟨r', hcount, hshared⟩ := h r
  simp only [hcount]
  exact ⟨trivial, hshared⟩

theorem erases_removeWatch (domid : UInt32) (path : CString) (token : Bytes) :
    Erases (removeWatch domid path token) (unwatchLocked domid path token) := by
  unfold removeWatch unwatchLocked removeWatchEntry
  refine Agree.get.bind fun r s hr => ?_
  subst hr
  refine (erases_unref _).bind_eq fun entry => ?_
  cases entry with
  | none => exact .pure rfl
  | some entry => exact erases_last (fun _ => ⟨_, rfl, rfl⟩) (erases_unref _)

theorem wp_removeWatchEntries {r : WatchRegistry} (ws : List WatchEntry) :
    wp (removeWatchEntries ws) (fun _ r' => r'.shared = { r.shared with
      watches := r.shared.watches.map fun w =>
        if w.id ∈ ws.map WatchEntry.id then { w with linked := false } else w })
      (fun _ => False) r := by
  induction ws generalizing r with
  | nil =>
    show r.shared = _
    simp
  | cons w ws ih =>
    unfold removeWatchEntries removeWatchEntry unlinkWatch watchEntryPut
    simp only [wp_bind, wp_unref, wp_modify]
    refine wp_conseq ih fun _ r' hr' => ?_
    rw [hr']
    refine congrArg (fun watches => { r.shared with watches := watches }) ?_
    show (r.shared.watches.map _).map _ = _
    rw [List.map_map]
    refine List.map_congr_left fun v _ => ?_
    by_cases hv : v.id = w.id
    · simp [hv]
    · simp [hv]

theorem wp_dropEvents {r : WatchRegistry} {domid : UInt32}
    {before events : List PendingWatchEvent}
    (h : r.shared.pendingWatchEventList = before ++ events)
    (hbefore : ∀ e ∈ before, e.domain ≠ domid) :
    wp (dropEvents domid events) (fun _ r' => r'.shared = { r.shared with
      pendingWatchEventList := before ++ events.filter fun e => e.domain ≠ domid })
      (fun _ => False) r := by
  induction events generalizing r before with
  | nil =>
    show r.shared = { r.shared with pendingWatchEventList := before ++ [] }
    rw [← h]
  | cons e rest ih =>
    unfold dropEvents
    refine wp_ite (fun he => ?_) fun he => ?_
    · have herase : r.shared.pendingWatchEventList.erase e = before ++ rest := by
        rw [h]
        exact erase_first (he ▸ hbefore)
      unfold takeEvent watchEntryPut
      simp only [wp_bind, wp_modify]
      refine wp_conseq (ih herase hbefore) fun _ r' hr' => ?_
      rw [hr', List.filter_cons_of_neg (by simpa using he)]
      rfl
    · refine wp_conseq (ih (h.trans (List.append_cons before e rest))
        (others_append hbefore he)) fun _ r' hr' => ?_
      rw [hr', List.filter_cons_of_pos (by simpa using he), List.append_assoc]
      rfl

theorem cleanup_erased {r : WatchRegistry} (hr : r.Ordered) (domid : UInt32) :
    wp (cleanupWatches domid >>= fun _ => cleanupEvents domid)
      (fun _ r' => cleanupDomainWatches domid r.shared = .ok ((), r'.shared))
      (fun _ => False) r := by
  unfold cleanupWatches cleanupEvents
  simp only [wp_bind, wp_get]
  refine wp_conseq (wp_removeWatchEntries _) fun _ r₁ hr₁ => ?_
  refine wp_conseq (@wp_dropEvents r₁ domid [] _ rfl fun _ h => (List.not_mem_nil h).elim)
    fun _ r₂ hr₂ => ?_
  rw [hr₂, hr₁]
  have hmap : r.shared.watches.map (fun w =>
        if w.domain = some domid then { w with linked := false } else w) =
      r.shared.watches.map fun w =>
        if w.id ∈ ((linkedWatches r.shared).filter fun w => w.domain = some domid).map
          WatchEntry.id then { w with linked := false } else w := by
    refine List.map_congr_left fun w hw => ?_
    by_cases hmem : w.id ∈ ((linkedWatches r.shared).filter fun w => w.domain = some domid).map
        WatchEntry.id
    · obtain ⟨v, hv, hid⟩ := List.mem_map.mp hmem
      obtain ⟨hlinked, hdomain⟩ := List.mem_filter.mp hv
      obtain rfl := hr.unique (List.mem_of_mem_filter hlinked) hw hid
      rw [if_pos hmem, if_pos (of_decide_eq_true hdomain)]
    · rw [if_neg hmem]
      by_cases hdomain : w.domain = some domid
      · -- a watch of the domain that is not on the list stays as it is
        have hnot : w.linked = false := by
          by_contra hlinked
          refine hmem (List.mem_map_of_mem (List.mem_filter.mpr ⟨List.mem_filter.mpr ⟨hw, ?_⟩, ?_⟩))
          · simpa using hlinked
          · exact decide_eq_true hdomain
        rw [if_pos hdomain, ← hnot]
      · rw [if_neg hdomain]
  show Except.ok ((), ({ r.shared with watches := _, pendingWatchEventList := _ } : Shared)) = _
  rw [hmap]
  rfl

end Xenlib
