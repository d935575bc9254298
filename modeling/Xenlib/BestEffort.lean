import Xenlib.Notification

/-!
A notification when memory is scarce. A local watch that cannot be told is passed over, a guest's
ends the loop: the watches behind it are not told whatever memory there is for them.
-/

set_option autoImplicit false

namespace Xenlib

open Wp

/-- The allocations of `key_to_entry`. -/
def lookupAllocs (key : CString) : Nat :=
  if key.length > xenstoreAbsPathMax then 0 else if xenstoreIsRootPath key then 0 else 1

/-- The allocations the loop makes for an event: its path, and for a guest the entry. -/
def eventAllocs (w : WatchEntry) : Nat := if w.domain.isSome then 2 else 1

/-- The allocations the loop makes for a watch, if they all succeed. -/
def ownAllocs (root : XsEntry) (path : CString) (recursiveRemove : Bool) (w : WatchEntry) : Nat :=
  match watchEventPath w path recursiveRemove with
  | none => 0
  | some eventPath =>
    lookupAllocs eventPath +
      if (queuedPath root path recursiveRemove w).isSome then eventAllocs w else 0

/-- The outcomes of `needed` allocations of which the first `granted` succeed: nothing is asked
for after a failure. -/
def dealt : Nat → Nat → List Bool
  | 0, _ => []
  | _ + 1, 0 => [false]
  | needed + 1, granted + 1 => true :: dealt needed granted

/-- The outcomes the loop meets when `granted` says for each watch how many of its allocations
succeed. -/
def assigned (root : XsEntry) (path : CString) (recursiveRemove : Bool)
    (granted : WatchEntry → Nat) (iters : List WatchEntry) : List Bool :=
  iters.flatMap fun w => dealt (ownAllocs root path recursiveRemove w) (granted w)

section Draw
variable {Q : Bool → List Bool → Prop} {E : Fault → Prop} {tail : List Bool} {k granted : Nat}

theorem wp_kMalloc_dealt (hfail : granted = 0 → Q false tail)
    (hok : 0 < granted → Q true (dealt k (granted - 1) ++ tail)) :
    wp kMalloc Q E (dealt (k + 1) granted ++ tail) := by
  rw [wp_kMalloc]
  cases granted with
  | zero => exact hfail rfl
  | succ g => exact hok (by omega)

theorem wp_keyToEntry_dealt {root : XsEntry} {key : CString}
    {Q : Option EntryRef → List Bool → Prop} (hfail : granted < lookupAllocs key → Q none tail)
    (hok : lookupAllocs key ≤ granted →
      Q (foundEntry root key) (dealt k (granted - lookupAllocs key) ++ tail)) :
    wp (keyToEntry root key) Q E (dealt (lookupAllocs key + k) granted ++ tail) := by
  unfold keyToEntry
  unfold foundEntry at hok
  by_cases hlen : key.length > xenstoreAbsPathMax
  · simp only [lookupAllocs, hlen, if_true, Nat.zero_le, forall_const, Nat.sub_zero] at hok
    simpa [lookupAllocs, hlen] using hok
  by_cases hr : xenstoreIsRootPath key = true
  · simp only [lookupAllocs, hlen, hr, if_true, if_false, Nat.zero_le, forall_const,
      Nat.sub_zero] at hok
    simpa [lookupAllocs, hlen, hr] using hok
  · have hone : lookupAllocs key = 1 := by
      rw [lookupAllocs, if_neg hlen, if_neg hr]
    rw [hone] at hfail hok ⊢
    simp only [hlen, hr, if_false, Bool.false_eq_true, wp_bind] at hok ⊢
    rw [Nat.add_comm]
    exact wp_kMalloc_dealt (fun hz => hfail (by omega)) (fun hpos => hok (by omega))

theorem wp_keyToEntryCheckPerm_dealt {root : XsEntry} {key : CString} {domid : UInt32}
    {perms : XsPerm} {Q : Option EntryRef → List Bool → Prop} (herr : ∀ e, ¬ PermsOk root → E e)
    (hfail : granted < lookupAllocs key → Q none tail)
    (hok : lookupAllocs key ≤ granted → Q ((foundEntry root key).filter fun e =>
      checkPerms e.entry.label perms domid = .ok true)
        (dealt k (granted - lookupAllocs key) ++ tail)) :
    wp (keyToEntryCheckPerm root key domid perms) Q E
      (dealt (lookupAllocs key + k) granted ++ tail) := by
  unfold keyToEntryCheckPerm
  rw [wp_bind]
  refine wp_keyToEntry_dealt hfail fun hle => ?_
  have hq := hok hle
  rw [wp_bind]
  refine wp_lift (fun b hb => ?_) (fun e he => herr e (checkPermsForEntry_error he))
  cases hf : foundEntry root key with
  | none =>
    rw [hf] at hb hq
    cases hb
    exact hq
  | some e =>
    rw [hf] at hb hq
    have hb' : checkPerms e.entry.label perms domid = .ok b := hb
    rw [Option.filter_some, hb'] at hq
    cases b with
    | true => simpa using hq
    | false => simpa using hq

end Draw

section Loop
variable (root : XsEntry) (path : CString) (recursiveRemove : Bool) (granted : WatchEntry → Nat)

def affordedPath (w : WatchEntry) : Option CString :=
  if ownAllocs root path recursiveRemove w ≤ granted w then queuedPath root path recursiveRemove w
  else none

/-- The node of the event is found, but there is no memory for the event of this guest. -/
def Stops (w : WatchEntry) : Prop :=
  w.domain.isSome ∧ (queuedPath root path recursiveRemove w).isSome ∧
    granted w < ownAllocs root path recursiveRemove w ∧
    ownAllocs root path recursiveRemove w ≤ granted w + eventAllocs w

instance (w : WatchEntry) : Decidable (Stops root path recursiveRemove granted w) := by
  unfold Stops
  infer_instance

def reached (iters : List WatchEntry) : List WatchEntry :=
  iters.takeWhile fun w => ¬ Stops root path recursiveRemove granted w

structure Scarce (iters : List WatchEntry) (localEvents : List Nat) (s : Shared)
    (r : Option Errno × List Nat) (s' : Shared) : Prop where
  rc : r.1 = none
  locals : r.2 = localEvents ++ (localNotices (affordedPath root path recursiveRemove granted)
    (reached root path recursiveRemove granted iters)).map Prod.fst
  events : s'.pendingWatchEventList = s.pendingWatchEventList ++
    guestNotices (affordedPath root path recursiveRemove granted)
      (reached root path recursiveRemove granted iters)

variable {root path recursiveRemove granted} {w : WatchEntry} {iters : List WatchEntry}
  {localEvents : List Nat} {s s' : Shared} {r : Option Errno × List Nat} {eventPath : CString}

theorem reached_cons (h : ¬ Stops root path recursiveRemove granted w) :
    reached root path recursiveRemove granted (w :: iters) =
      w :: reached root path recursiveRemove granted iters := by
  simp [reached, h]

theorem Scarce.skip (hs : ¬ Stops root path recursiveRemove granted w)
    (hn : affordedPath root path recursiveRemove granted w = none) {rest : List Bool}
    (h : Scarce root path recursiveRemove granted iters localEvents { s with allocs := rest }
      r s') :
    Scarce root path recursiveRemove granted (w :: iters) localEvents s r s' := by
  obtain ⟨hrc, hlocals, hevents⟩ := h
  refine ⟨hrc, ?_, ?_⟩
  · rw [hlocals, reached_cons hs]
    simp [localNotices, hn]
  · rw [hevents, reached_cons hs]
    simp [guestNotices, hn]

theorem Scarce.local (hs : ¬ Stops root path recursiveRemove granted w) (hd : w.domain = none)
    (hn : affordedPath root path recursiveRemove granted w = some eventPath) {shown : CString}
    {rest : List Bool} (h : Scarce root path recursiveRemove granted iters (localEvents ++ [w.id])
      (setPendingPath w.id (some shown) { s with allocs := rest }) r s') :
    Scarce root path recursiveRemove granted (w :: iters) localEvents s r s' := by
  obtain ⟨hrc, hlocals, hevents⟩ := h
  refine ⟨hrc, ?_, ?_⟩
  · rw [hlocals, reached_cons hs]
    simp [localNotices, hd, hn]
  · rw [hevents, reached_cons hs]
    simp [guestNotices, hd, setPendingPath]

theorem Scarce.guest (hs : ¬ Stops root path recursiveRemove granted w) {domid : UInt32}
    (hd : w.domain = some domid)
    (hn : affordedPath root path recursiveRemove granted w = some eventPath)
    {rest locks : List Bool} (h : Scarce root path recursiveRemove granted iters localEvents
      { s with
        allocs := rest, locks := locks,
        pendingWatchEventList := s.pendingWatchEventList ++ [⟨eventPath, w.id, domid⟩] } r s') :
    Scarce root path recursiveRemove granted (w :: iters) localEvents s r s' := by
  obtain ⟨hrc, hlocals, hevents⟩ := h
  refine ⟨hrc, ?_, ?_⟩
  · rw [hlocals, reached_cons hs]
    simp [localNotices, hd]
  · rw [hevents, reached_cons hs]
    simp [guestNotices, hd, hn]

theorem Scarce.stop (hs : Stops root path recursiveRemove granted w) {rest : List Bool} :
    Scarce root path recursiveRemove granted (w :: iters) localEvents s (none, localEvents)
      { s with allocs := rest } := by
  refine ⟨rfl, ?_, ?_⟩ <;> simp [reached, hs, localNotices, guestNotices]

theorem assigned_cons (tail : List Bool) :
    assigned root path recursiveRemove granted (w :: iters) ++ tail =
      dealt (ownAllocs root path recursiveRemove w) (granted w) ++
        (assigned root path recursiveRemove granted iters ++ tail) := by
  simp [assigned]

theorem ownAllocs_of_some (hev : watchEventPath w path recursiveRemove = some eventPath) :
    ownAllocs root path recursiveRemove w = lookupAllocs eventPath +
      if (queuedPath root path recursiveRemove w).isSome then eventAllocs w else 0 := by
  simp [ownAllocs, hev]

theorem queuedPath_of_filter (hev : watchEventPath w path recursiveRemove = some eventPath) :
    queuedPath root path recursiveRemove w = ((foundEntry root eventPath).filter fun e =>
      checkPerms e.entry.label .read (w.domain.getD 0) = .ok true).map fun _ => eventPath := by
  rw [queuedPath, hev, Option.filter_some]
  cases foundEntry root eventPath with
  | none => rfl
  | some e =>
    have howner : w.owner = w.domain.getD 0 := rfl
    by_cases hc : checkPerms e.entry.label .read (w.domain.getD 0) = .ok true
    · simp [howner, hc, Option.filter_some]
    · simp [howner, hc, Option.filter_some]

theorem wp_queueWatchLoop_scarce {deadline : Deadline} {tail : List Bool}
    (iters : List WatchEntry) (localEvents : List Nat) (s : Shared) (hroot : s.root = root)
    (hlocks : false ∉ s.locks)
    (hallocs : s.allocs = assigned root path recursiveRemove granted iters ++ tail) :
    wp (queueWatchLoop path recursiveRemove deadline iters localEvents)
      (fun r s' => Scarce root path recursiveRemove granted iters localEvents s r s')
      (fun _ => ¬ (PermsOk root ∧ ∀ w ∈ iters, LocalOk w)) s := by
  induction iters generalizing localEvents s with
  | nil => exact ⟨rfl, by simp [reached, localNotices], by simp [reached, guestNotices]⟩
  | cons w iters ih =>
    subst hroot
    have hrest : ¬ (PermsOk s.root ∧ ∀ v ∈ iters, LocalOk v) →
        ¬ (PermsOk s.root ∧ ∀ v ∈ w :: iters, LocalOk v) :=
      fun hbad hgood => hbad ⟨hgood.1, fun v hv => hgood.2 v (List.mem_cons_of_mem _ hv)⟩
    rw [assigned_cons] at hallocs
    unfold queueWatchLoop
    cases hev : watchEventPath w path recursiveRemove with
    | none =>
      have hq : queuedPath s.root path recursiveRemove w = none := by
        rw [queuedPath, hev, Option.filter_none]
      have hown : ownAllocs s.root path recursiveRemove w = 0 := by simp [ownAllocs, hev]
      rw [hown] at hallocs
      have hstop : ¬ Stops s.root path recursiveRemove granted w := by
        rintro ⟨-, hsome, -⟩
        simp [hq] at hsome
      refine wp_mono (ih localEvents s rfl hlocks hallocs) (fun _ _ h => ?_) (fun _ => hrest)
      exact Scarce.skip hstop (by simp [affordedPath, hq]) h
    | some eventPath =>
      have hq := @queuedPath_of_filter s.root path recursiveRemove w eventPath hev
      have hown := @ownAllocs_of_some s.root path recursiveRemove w eventPath hev
      rw [hown] at hallocs
      simp only [wp_bind, wp_get, wp_alloc, hallocs]
      refine wp_keyToEntryCheckPerm_dealt (fun _ hbad hgood => hbad hgood.1) (fun hfew => ?_)
        fun hle => ?_
      · -- the node could not be looked up: the watch is passed over
        have hstop : ¬ Stops s.root path recursiveRemove granted w := by
          rintro ⟨-, hsome, -, hle⟩
          rw [hown, if_pos hsome] at hle
          omega
        refine wp_mono (ih localEvents _ rfl hlocks rfl) (fun _ _ h => ?_) (fun _ => hrest)
        refine Scarce.skip hstop ?_ h
        rw [affordedPath, hown, if_neg (by omega)]
      cases hf : (foundEntry s.root eventPath).filter fun e =>
          checkPerms e.entry.label .read (w.domain.getD 0) = .ok true with
      | none =>
        rw [hf, Option.map_none] at hq
        have hstop : ¬ Stops s.root path recursiveRemove granted w := by
          rintro ⟨-, hsome, -⟩
          simp [hq] at hsome
        refine wp_mono (ih localEvents _ rfl hlocks ?_) (fun _ _ h => ?_) (fun _ => hrest)
        · simp [hq, dealt]
        · exact Scarce.skip hstop (by simp [affordedPath, hq]) h
      | some e =>
        rw [hf, Option.map_some] at hq
        rw [hq, Option.isSome_some, if_pos rfl] at hown ⊢
        cases hd : w.domain with
        | none =>
          have hone : eventAllocs w = 1 := by simp [eventAllocs, hd]
          have hstop : ¬ Stops s.root path recursiveRemove granted w := by
            rintro ⟨hdom, -⟩
            simp [hd] at hdom
          rw [hone] at hown ⊢
          refine wp_ite (fun hshort => ?_) (fun _ => ?_)
          · intro hgood
            exact (hgood.2 w List.mem_cons_self).long hd hev hshort
          unfold queueLocalWatchEventLocked
          simp only [hd, Option.isSome_none, Bool.false_eq_true, if_false, wp_bind, wp_alloc]
          refine wp_kMalloc_dealt (k := 0) (fun hz => ?_) (fun hpos => ?_)
          · -- no memory for the event of a local watch: it is passed over as well
            simp only [Bool.not_false, if_true, wp_pure]
            refine wp_mono (ih localEvents _ rfl hlocks rfl) (fun _ _ h => ?_) (fun _ => hrest)
            refine Scarce.skip hstop ?_ h
            rw [affordedPath, if_neg (by omega)]
          · simp only [Bool.not_true, Bool.false_eq_true, if_false]
            refine wp_ite (fun hpending => ?_) (fun _ => ?_)
            · intro hgood
              rw [(hgood.2 w List.mem_cons_self).idle hd] at hpending
              cases hpending
            simp only [wp_bind, wp_modify, wp_pure]
            refine wp_mono (ih _ _ rfl hlocks rfl) (fun _ _ h => ?_) (fun _ => hrest)
            have hpath : affordedPath s.root path recursiveRemove granted w = some eventPath := by
              rw [affordedPath, if_pos (by omega), hq]
            exact Scarce.local hstop hd hpath h
        | some domid =>
          have htwo : eventAllocs w = 2 := by simp [eventAllocs, hd]
          rw [htwo] at hown ⊢
          have hstops : granted w - lookupAllocs eventPath < 2 →
              Stops s.root path recursiveRemove granted w := by
            intro hlt
            refine ⟨by simp [hd], by simp [hq], by omega, by omega⟩
          unfold queuePendingWatchEvent
          simp only [wp_bind, wp_alloc]
          refine wp_kMalloc_dealt (k := 1) (fun hz => ?_) (fun hpos => ?_)
          · exact Scarce.stop (hstops (by omega))
          simp only [Bool.not_true, Bool.false_eq_true, if_false, wp_bind, wp_alloc]
          refine wp_kMalloc_dealt (k := 0) (fun hz => ?_) (fun hpos' => ?_)
          · exact Scarce.stop (hstops (by omega))
          have hstop : ¬ Stops s.root path recursiveRemove granted w := by
            rintro ⟨-, -, hlt, -⟩
            omega
          simp only [Bool.not_true, Bool.false_eq_true, if_false, wp_bind]
          refine wp_lock_cases (fun hout => absurd (supplied_of_notMem hlocks) hout.2) fun _ => ?_
          simp only [wp_bind, wp_modify, wp_pure]
          refine wp_mono (ih localEvents _ rfl (notMem_locksAfter hlocks) rfl) (fun _ _ h => ?_)
            (fun _ => hrest)
          refine Scarce.guest hstop hd ?_ h
          rw [affordedPath, if_pos (by omega), hq]

end Loop

theorem wp_queueWatchNotifications_scarce {path : CString} {recursiveRemove : Bool}
    {deadline : Deadline} {granted : WatchEntry → Nat} {s : Shared} (hlocks : false ∉ s.locks)
    (hallocs : s.allocs = assigned s.root path recursiveRemove granted (linkedWatches s)) :
    wp (queueWatchNotificationsXselLocked path recursiveRemove deadline)
      (fun r s' => Scarce s.root path recursiveRemove granted (linkedWatches s) [] s r s')
      (fun _ => ¬ (PermsOk s.root ∧ ∀ w ∈ linkedWatches s, LocalOk w)) s := by
  unfold queueWatchNotificationsXselLocked
  rw [wp_bind]
  refine wp_lock_cases (fun hout => absurd (supplied_of_notMem hlocks) hout.2) fun _ => ?_
  simp only [wp_bind, wp_get]
  refine wp_conseq (@wp_queueWatchLoop_scarce s.root path recursiveRemove granted deadline []
    (linkedWatches s) [] _ rfl
    (notMem_locksAfter hlocks) (by simpa using hallocs)) fun _ _ h => ?_
  exact ⟨h.rc, h.locals, h.events⟩

def EventQueued (s : Shared) (localEvents : List Nat) (s' : Shared) (w : WatchEntry) : Prop :=
  match w.domain with
  | none => w.id ∈ localEvents
  | some _ => ∃ new, s'.pendingWatchEventList = s.pendingWatchEventList ++ new ∧
      ∃ e ∈ new, e.watch = w.id

/-- The watch is due an event, and its own allocations succeed. -/
def Affordable (root : XsEntry) (path : CString) (recursiveRemove : Bool)
    (granted : WatchEntry → Nat) (w : WatchEntry) : Prop :=
  (notice root path recursiveRemove w).isSome ∧
    ownAllocs root path recursiveRemove w ≤ granted w

/-- When `granted` says how many allocations of each watch succeed, every watch that is due an
event and has its own allocations gets it. -/
def BestEffort (path : CString) (recursiveRemove : Bool) (deadline : Deadline)
    (granted : WatchEntry → Nat) (s : Shared) : Prop :=
  ∃ rc localEvents s', queueWatchNotificationsXselLocked path recursiveRemove deadline
      { s with allocs := assigned s.root path recursiveRemove granted (linkedWatches s) } =
        .ok ((rc, localEvents), s') ∧
    ∀ w ∈ linkedWatches s, Affordable s.root path recursiveRemove granted w →
      EventQueued s localEvents s' w

/-- A guest's watch without memory for its event stands before one that could be told. -/
def CutShort (path : CString) (recursiveRemove : Bool) (granted : WatchEntry → Nat) (s : Shared) :
    Prop :=
  ∃ before w after v, linkedWatches s = before ++ w :: after ∧
    Stops s.root path recursiveRemove granted w ∧ v ∈ after ∧
    Affordable s.root path recursiveRemove granted v

section Watches
variable {path : CString} {recursiveRemove : Bool} {granted : WatchEntry → Nat} {s s' : Shared}
  {deadline : Deadline} {localEvents : List Nat} {r : Option Errno × List Nat} {w : WatchEntry}

theorem Scarce.told {root : XsEntry} {iters : List WatchEntry}
    (h : Scarce root path recursiveRemove granted iters [] s r s')
    (hw : w ∈ reached root path recursiveRemove granted iters)
    (ht : (affordedPath root path recursiveRemove granted w).isSome) :
    EventQueued s r.2 s' w := by
  obtain ⟨eventPath, ht⟩ := Option.isSome_iff_exists.mp ht
  unfold EventQueued
  cases hd : w.domain with
  | none =>
    rw [h.locals, List.nil_append]
    refine List.mem_map.mpr ⟨(w.id, localEventPath w eventPath), ?_, rfl⟩
    exact List.mem_filterMap.mpr ⟨w, hw, by simp [hd, ht]⟩
  | some domid =>
    refine ⟨_, h.events, ⟨eventPath, w.id, domid⟩, ?_, rfl⟩
    exact List.mem_filterMap.mpr ⟨w, hw, by simp [hd, ht]⟩

theorem Scarce.reached_of_queued {root : XsEntry} {iters : List WatchEntry}
    (h : Scarce root path recursiveRemove granted iters [] s r s')
    (hq : EventQueued s r.2 s' w) :
    ∃ v ∈ reached root path recursiveRemove granted iters, v.id = w.id := by
  unfold EventQueued at hq
  cases hd : w.domain with
  | none =>
    rw [hd] at hq
    have hid : w.id ∈ r.2 := hq
    rw [h.locals, List.nil_append] at hid
    obtain ⟨e, he, hid⟩ := List.mem_map.mp hid
    obtain ⟨v, hv, htell⟩ := List.mem_filterMap.mp he
    refine ⟨v, hv, ?_⟩
    split at htell
    · obtain ⟨_, -, rfl⟩ := Option.map_eq_some_iff.mp htell
      exact hid
    · cases htell
  | some domid =>
    rw [hd] at hq
    obtain ⟨new, hnew, e, he, hid⟩ := hq
    rw [h.events] at hnew
    rw [← List.append_cancel_left hnew] at he
    obtain ⟨v, hv, htell⟩ := List.mem_filterMap.mp he
    refine ⟨v, hv, ?_⟩
    obtain ⟨_, -, htell⟩ := Option.bind_eq_some_iff.mp htell
    obtain ⟨_, -, rfl⟩ := Option.map_eq_some_iff.mp htell
    exact hid

theorem reached_subset {root : XsEntry} {before after : List WatchEntry}
    (hs : Stops root path recursiveRemove granted w) :
    reached root path recursiveRemove granted (before ++ w :: after) ⊆ before := by
  intro v hv
  unfold reached at hv
  rw [List.takeWhile_append] at hv
  split at hv
  · simpa [hs] using hv
  · exact (List.takeWhile_prefix _).subset hv

theorem exists_stop {root : XsEntry} {iters : List WatchEntry} (hw : w ∈ iters)
    (hn : w ∉ reached root path recursiveRemove granted iters) :
    ∃ before v after, iters = before ++ v :: after ∧ Stops root path recursiveRemove granted v ∧
      (w = v ∨ w ∈ after) := by
  induction iters with
  | nil => cases hw
  | cons u iters ih =>
    by_cases hs : Stops root path recursiveRemove granted u
    · exact ⟨[], u, iters, rfl, hs, List.mem_cons.mp hw⟩
    · rw [reached_cons hs, List.mem_cons, not_or] at hn
      obtain ⟨before, v, after, rfl, hv, hwv⟩ := ih ((List.mem_cons.mp hw).resolve_left hn.1) hn.2
      exact ⟨u :: before, v, after, rfl, hv, hwv⟩

theorem affordedPath_isSome (hp : Canonical path) (hlen : path.length ≤ xenstoreAbsPathMax)
    (hw : Registered w) (h : Affordable s.root path recursiveRemove granted w) :
    (affordedPath s.root path recursiveRemove granted w).isSome := by
  rw [affordedPath, if_pos h.2, queuedPath_eq_notice hp hlen hw.key hw.length]
  exact h.1

theorem scarce_run (hlocks : false ∉ s.locks) (hok : PermsOk s.root)
    (hreg : ∀ w ∈ linkedWatches s, LocalOk w) :
    ∃ r s', queueWatchNotificationsXselLocked path recursiveRemove deadline
      { s with allocs := assigned s.root path recursiveRemove granted (linkedWatches s) } =
        .ok (r, s') ∧
      Scarce s.root path recursiveRemove granted (linkedWatches s) [] s r s' := by
  have hspec := @wp_queueWatchNotifications_scarce path recursiveRemove deadline granted
    { s with allocs := assigned s.root path recursiveRemove granted (linkedWatches s) } hlocks rfl
  obtain ⟨r, s', hrun, h⟩ := wp_total (wp_mono hspec (fun _ _ h => h) fun _ hbad =>
    hbad ⟨hok, hreg⟩)
  exact ⟨r, s', hrun, h.rc, h.locals, h.events⟩

theorem bestEffort_of (hlocks : false ∉ s.locks) (hok : PermsOk s.root) (hp : Canonical path)
    (hlen : path.length ≤ xenstoreAbsPathMax) (hreg : ∀ w ∈ linkedWatches s, Registered w)
    (h : ¬ CutShort path recursiveRemove granted s) :
    BestEffort path recursiveRemove deadline granted s := by
  obtain ⟨r, s', hrun, hscarce⟩ := @scarce_run path recursiveRemove granted s deadline hlocks hok
    fun w hw => (hreg w hw).toLocalOk
  refine ⟨r.1, r.2, s', hrun, fun w hw haff => hscarce.told ?_ ?_⟩
  · by_contra hn
    obtain ⟨before, v, after, hsplit, hv, hwv⟩ := exists_stop hw hn
    rcases hwv with rfl | hwv
    · have hlt := hv.2.2.1
      have hle := haff.2
      omega
    · exact h ⟨before, v, after, w, hsplit, hv, hwv, haff⟩
  · exact affordedPath_isSome hp hlen (hreg w hw) haff

theorem not_bestEffort (hlocks : false ∉ s.locks) (hok : PermsOk s.root)
    (hreg : ∀ w ∈ linkedWatches s, LocalOk w)
    (hids : ((linkedWatches s).map WatchEntry.id).Nodup)
    (h : CutShort path recursiveRemove granted s) :
    ¬ BestEffort path recursiveRemove deadline granted s := by
  rintro ⟨rc, localEvents, s', hrun, hall⟩
  obtain ⟨r, s'', hrun', hscarce⟩ := @scarce_run path recursiveRemove granted s deadline hlocks hok
    hreg
  cases hrun.symm.trans hrun'
  obtain ⟨before, w, after, v, hsplit, hs, hv, haff⟩ := h
  have hmem : v ∈ linkedWatches s := by
    rw [hsplit]
    exact List.mem_append_right _ (List.mem_cons_of_mem _ hv)
  obtain ⟨u, hu, hid⟩ := hscarce.reached_of_queued (hall v hmem haff)
  rw [hsplit] at hu hids
  have hu := reached_subset hs hu
  rw [List.map_append, List.nodup_append] at hids
  refine hids.2.2 u.id (List.mem_map_of_mem hu) v.id ?_ hid
  exact List.mem_map_of_mem (List.mem_cons_of_mem _ hv)

end Watches

/-- The notification is best effort exactly when no guest's watch without memory for its event
stands before a watch that could be told. -/
theorem bestEffort_iff (path : CString) (recursiveRemove : Bool) (deadline : Deadline)
    (granted : WatchEntry → Nat) (s : Shared) (hlocks : false ∉ s.locks) (hok : PermsOk s.root)
    (hp : Canonical path) (hlen : path.length ≤ xenstoreAbsPathMax)
    (hreg : ∀ w ∈ linkedWatches s, Registered w)
    (hids : ((linkedWatches s).map WatchEntry.id).Nodup) :
    BestEffort path recursiveRemove deadline granted s ↔
      ¬ CutShort path recursiveRemove granted s :=
  ⟨fun h hcut => not_bestEffort hlocks hok (fun w hw => (hreg w hw).toLocalOk) hids hcut h,
    bestEffort_of hlocks hok hp hlen hreg⟩

/-- Two watches of domain 1, on "/a" and on "/". -/
def watchedTwice : Shared :=
  { ownedByOne with
    watches := [⟨0, ascii ['/', 'a'], strBytes (ascii ['t']), some 1, false, true, none⟩,
      ⟨1, [slash], strBytes (ascii ['u']), some 1, false, true, none⟩] }

theorem watchedTwice_permsOk : PermsOk watchedTwice.root := ownedByOne_wellFormed.permsOk

theorem watchedTwice_registered : ∀ w ∈ linkedWatches watchedTwice, Registered w := by
  intro w hw
  have hw : w ∈ watchedTwice.watches := List.mem_of_mem_filter hw
  simp only [watchedTwice, List.mem_cons, List.not_mem_nil, or_false] at hw
  rcases hw with rfl | rfl
  · exact ⟨⟨nofun, nofun⟩, by decide, by decide⟩
  · exact ⟨⟨nofun, nofun⟩, by decide, by decide⟩

/-- The event of the first watch finds no memory, and the second watch is not told either. -/
theorem second_watch_missed :
    ¬ ∀ (path : CString) (recursiveRemove : Bool) (deadline : Deadline)
      (granted : WatchEntry → Nat) (s : Shared), false ∉ s.locks → PermsOk s.root →
      Canonical path → path.length ≤ xenstoreAbsPathMax →
      (∀ w ∈ linkedWatches s, Registered w) → ((linkedWatches s).map WatchEntry.id).Nodup →
      BestEffort path recursiveRemove deadline granted s := by
  intro h
  have hcut : CutShort (ascii ['/', 'a']) false (fun w => if w.id = 0 then 1 else 3)
      watchedTwice := by
    refine ⟨[], _, [_], _, rfl, ?_, List.mem_cons_self, ?_, ?_⟩
    · decide +kernel
    · decide +kernel
    · decide +kernel
  exact not_bestEffort (by decide) watchedTwice_permsOk
    (fun w hw => (watchedTwice_registered w hw).toLocalOk) (by decide) hcut
    (h _ _ .forever _ _ (by decide) watchedTwice_permsOk (by decide) (by decide)
      watchedTwice_registered (by decide))

/-- Where the second watch is the one without memory, the first is told. -/
theorem bestEffort_last :
    BestEffort (ascii ['/', 'a']) false .forever (fun w => if w.id = 1 then 1 else 3)
      watchedTwice := by
  refine (bestEffort_iff (ascii ['/', 'a']) false .forever (fun w => if w.id = 1 then 1 else 3)
    watchedTwice (by decide) watchedTwice_permsOk (by decide) (by decide)
    watchedTwice_registered (by decide)).mpr ?_
  rintro ⟨before, w, after, v, hsplit, hs, hv, -⟩
  have hlinked : linkedWatches watchedTwice = watchedTwice.watches := by decide
  rw [hlinked] at hsplit
  cases before with
  | nil =>
    cases hsplit
    revert hs
    decide +kernel
  | cons u before =>
    -- the watch that stops the loop is the last one
    have hlen := congrArg List.length hsplit
    have hafter : after = [] := by
      rw [← List.length_eq_zero_iff]
      simp [watchedTwice] at hlen
      omega
    rw [hafter] at hv
    cases hv

end Xenlib
