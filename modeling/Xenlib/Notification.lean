import Xenlib.Components
import Xenlib.ServerSpec

/-!
Which watches a change is told to. On normalized paths the queue loop finds the watches at or
above the changed path, and for a removal those below it, in the order of the registry.
-/

set_option autoImplicit false

namespace Xenlib

open Wp

structure Granted (s : Shared) : Prop where
  allocs : false ∉ s.allocs
  locks : false ∉ s.locks

theorem wp_kMalloc_granted {Q : Bool → List Bool → Prop} {E : Fault → Prop} {allocs : List Bool}
    (hmem : false ∉ allocs) (h : ∀ rest, false ∉ rest → Q true rest) : wp kMalloc Q E allocs := by
  refine wp_kMalloc_drawn fun b rest hd => ?_
  cases b with
  | true => exact h rest fun hf => hmem (hd.suffix.subset hf)
  | false => exact absurd (hd.fail rfl) hmem

theorem wp_lock_granted {deadline : Deadline} {Q : Option Errno → Shared → Prop} {E : Fault → Prop}
    {s : Shared} (hs : Granted s) (h : ∀ locks, false ∉ locks → Q none { s with locks := locks }) :
    wp (xssMutexLockDeadline deadline) Q E s := by
  unfold wp xssMutexLockDeadline
  cases deadline with
  | forever => cases hl : s.locks <;> exact h s.locks hs.locks
  | timed =>
    have hlocks := hs.locks
    cases hl : s.locks with
    | nil => exact h s.locks hlocks
    | cons b rest =>
      rw [hl] at hlocks
      cases b with
      | true => exact h rest fun hf => hlocks (List.mem_cons_of_mem _ hf)
      | false => exact absurd List.mem_cons_self hlocks

/-- The domain whose permissions count: local watches read as the control domain. -/
def WatchEntry.owner (w : WatchEntry) : UInt32 := w.domain.getD 0

/-- The node exists and `domid` may read it. -/
def MayRead (root : XsEntry) (toks : List CString) (domid : UInt32) : Prop :=
  ∃ e, root.lookup toks = some e ∧ checkPerms e.label .read domid = .ok true

instance (root : XsEntry) (toks : List CString) (domid : UInt32) :
    Decidable (MayRead root toks domid) :=
  match h : root.lookup toks with
  | none => isFalse (by simp [MayRead, h])
  | some e => decidable_of_iff (checkPerms e.label .read domid = .ok true) (by simp [MayRead, h])

/-- The watch is at the changed path or above it. -/
def ToldAbove (root : XsEntry) (path : CString) (w : WatchEntry) : Prop :=
  tokens w.key <+: tokens path ∧ MayRead root (tokens path) w.owner

/-- The watch is at the removed path or below it. -/
def ToldBelow (root : XsEntry) (path : CString) (w : WatchEntry) : Prop :=
  tokens path <+: tokens w.key ∧ MayRead root (tokens w.key) w.owner

instance (root : XsEntry) (path : CString) (w : WatchEntry) : Decidable (ToldAbove root path w) :=
  inferInstanceAs (Decidable (_ ∧ _))

instance (root : XsEntry) (path : CString) (w : WatchEntry) : Decidable (ToldBelow root path w) :=
  inferInstanceAs (Decidable (_ ∧ _))

def notice (root : XsEntry) (path : CString) (recursiveRemove : Bool) (w : WatchEntry) :
    Option CString :=
  if ToldAbove root path w then some path
  else if recursiveRemove = true ∧ ToldBelow root path w then some w.key
  else none

/-- The events of guests, for the paths `tell` gives their watches. -/
def guestNotices (tell : WatchEntry → Option CString) (iters : List WatchEntry) :
    List PendingWatchEvent :=
  iters.filterMap fun w => w.domain.bind fun domid =>
    (tell w).map fun eventPath => ⟨eventPath, w.id, domid⟩

def localNotices (tell : WatchEntry → Option CString) (iters : List WatchEntry) :
    List (Nat × CString) :=
  iters.filterMap fun w =>
    if w.domain = none then (tell w).map fun eventPath => (w.id, localEventPath w eventPath)
    else none

/-- A local watch between two notifications: no event is pending, and if it was given by a
relative path its key starts with the directory of the control domain. -/
structure LocalOk (w : WatchEntry) : Prop where
  idle : w.domain = none → w.pendingPath = none
  relative : w.domain = none → w.isRelative = true → localDomainPath 0 <+: w.key

structure Registered (w : WatchEntry) : Prop extends LocalOk w where
  key : Canonical w.key
  length : w.key.length ≤ xenstoreAbsPathMax

def queuedPath (root : XsEntry) (path : CString) (recursiveRemove : Bool) (w : WatchEntry) :
    Option CString :=
  (watchEventPath w path recursiveRemove).filter fun eventPath =>
    (foundEntry root eventPath).any fun e => checkPerms e.entry.label .read w.owner = .ok true

structure Queued (tell : WatchEntry → Option CString) (iters : List WatchEntry) (s s' : Shared) :
    Prop where
  granted : Granted s'
  root : s'.root = s.root
  calls : s'.calls = s.calls
  events : s'.pendingWatchEventList = s.pendingWatchEventList ++ guestNotices tell iters
  watches : s'.watches = markPending (localNotices tell iters) s.watches

/-- How the queueing of `iters` ends after `k` locks: at the first acquisition that times out, or
with all events queued. -/
structure QueueEnd (k : Nat) (tell : WatchEntry → Option CString) (iters : List WatchEntry)
    (deadline : Deadline) (localEvents : List Nat) (s : Shared) (r : Option Errno × List Nat)
    (s' : Shared) : Prop where
  root : s'.root = s.root
  allocs : false ∉ s'.allocs
  calls : s'.calls = s.calls
  late : TimesOut deadline (k + (guestNotices tell iters).length) s.locks →
    r.1 = some .etimedout
  ready : ¬ TimesOut deadline (k + (guestNotices tell iters).length) s.locks →
    r = (none, localEvents ++ (localNotices tell iters).map Prod.fst) ∧
    s'.locks = locksAfter deadline (k + (guestNotices tell iters).length) s.locks ∧
    s'.pendingWatchEventList = s.pendingWatchEventList ++ guestNotices tell iters ∧
    s'.watches = markPending (localNotices tell iters) s.watches

theorem notMem_locksAfter {deadline : Deadline} {n : Nat} {locks : List Bool}
    (h : false ∉ locks) : false ∉ locksAfter deadline n locks := by
  unfold locksAfter
  split
  · exact fun hf => h (List.mem_of_mem_drop hf)
  · exact h

section Steps
variable {tell : WatchEntry → Option CString} {w : WatchEntry} {iters : List WatchEntry}
  {deadline : Deadline} {localEvents : List Nat} {r : Option Errno × List Nat}
  {s s' : Shared} {eventPath : CString}

theorem QueueEnd.skip {rest : List Bool} (hn : tell w = none)
    (h : QueueEnd 0 tell iters deadline localEvents { s with allocs := rest } r s') :
    QueueEnd 0 tell (w :: iters) deadline localEvents s r s' := by
  have hguest : guestNotices tell (w :: iters) = guestNotices tell iters := by
    simp [guestNotices, hn]
  have hlocal : localNotices tell (w :: iters) = localNotices tell iters := by
    simp [localNotices, hn]
  obtain ⟨hroot, hallocs, hcalls, hlate, hready⟩ := h
  rw [← hguest] at hlate hready
  rw [← hlocal] at hready
  exact ⟨hroot, hallocs, hcalls, hlate, hready⟩

theorem QueueEnd.local {rest : List Bool} (hd : w.domain = none) (hn : tell w = some eventPath)
    (h : QueueEnd 0 tell iters deadline (localEvents ++ [w.id])
      (setPendingPath w.id (some (localEventPath w eventPath)) { s with allocs := rest }) r s') :
    QueueEnd 0 tell (w :: iters) deadline localEvents s r s' := by
  have hguest : guestNotices tell (w :: iters) = guestNotices tell iters := by
    simp [guestNotices, hd]
  have hlocal : localNotices tell (w :: iters) =
      (w.id, localEventPath w eventPath) :: localNotices tell iters := by
    simp [localNotices, hd, hn]
  obtain ⟨hroot, hallocs, hcalls, hlate, hready⟩ := h
  rw [← hguest] at hlate hready
  refine ⟨hroot, hallocs, hcalls, hlate, fun ht => ?_⟩
  obtain ⟨hr, hlocks, hevents, hwatches⟩ := hready ht
  refine ⟨?_, hlocks, hevents, ?_⟩
  · rw [hr, hlocal, List.map_cons, List.append_assoc]
    rfl
  · rw [hwatches, hlocal]
    rfl

theorem QueueEnd.guest {allocs : List Bool} {domid : UInt32} (hd : w.domain = some domid)
    (hn : tell w = some eventPath) (hin : ¬ TimesOut deadline 1 s.locks)
    (h : QueueEnd 0 tell iters deadline localEvents
      { s with
        allocs := allocs, locks := locksAfter deadline 1 s.locks,
        pendingWatchEventList := s.pendingWatchEventList ++ [⟨eventPath, w.id, domid⟩] } r s') :
    QueueEnd 0 tell (w :: iters) deadline localEvents s r s' := by
  have hguest : guestNotices tell (w :: iters) =
      ⟨eventPath, w.id, domid⟩ :: guestNotices tell iters := by
    simp [guestNotices, hd, hn]
  have hlocal : localNotices tell (w :: iters) = localNotices tell iters := by
    simp [localNotices, hd]
  have hlen : 0 + (guestNotices tell (w :: iters)).length =
      1 + (0 + (guestNotices tell iters).length) := by
    rw [hguest, List.length_cons]
    omega
  have hlast : TimesOut deadline (0 + (guestNotices tell (w :: iters)).length) s.locks ↔
      TimesOut deadline (0 + (guestNotices tell iters).length)
        (locksAfter deadline 1 s.locks) := by
    rw [hlen, timesOut_add]
    exact or_iff_right hin
  obtain ⟨hroot, hallocs, hcalls, hlate, hready⟩ := h
  rw [← hlocal] at hready
  rw [← hlast] at hlate hready
  refine ⟨hroot, hallocs, hcalls, hlate, fun ht => ?_⟩
  obtain ⟨hr, hlocks, hevents, hwatches⟩ := hready ht
  refine ⟨hr, ?_, ?_, hwatches⟩
  · rw [hlocks, locksAfter_add, hlen]
  · rw [hevents, hguest, List.append_assoc]
    rfl

theorem QueueEnd.refused {k : Nat} {allocs : List Bool} (hmem : false ∉ allocs)
    (hout : TimesOut deadline 1 s.locks) :
    QueueEnd (1 + k) tell iters deadline localEvents s (some .etimedout, localEvents)
      { s with allocs := allocs, locks := locksAfter deadline 1 s.locks } := by
  have hall : TimesOut deadline (1 + k + (guestNotices tell iters).length) s.locks := by
    rw [Nat.add_assoc, timesOut_add]
    exact Or.inl hout
  exact ⟨rfl, hmem, rfl, fun _ => rfl, fun h => absurd hall h⟩

theorem QueueEnd.stop {allocs : List Bool} {domid : UInt32} (hd : w.domain = some domid)
    (hn : tell w = some eventPath) (hout : TimesOut deadline 1 s.locks)
    (hmem : false ∉ allocs) :
    QueueEnd 0 tell (w :: iters) deadline localEvents s (some .etimedout, localEvents)
      { s with allocs := allocs, locks := locksAfter deadline 1 s.locks } := by
  have hall : TimesOut deadline (0 + (guestNotices tell (w :: iters)).length) s.locks := by
    have hlen : 0 + (guestNotices tell (w :: iters)).length =
        1 + (guestNotices tell iters).length := by
      simp [guestNotices, hd, hn, Nat.add_comm]
    rw [hlen, timesOut_add]
    exact Or.inl hout
  exact ⟨rfl, hmem, rfl, fun _ => rfl, fun h => absurd hall h⟩

theorem QueueEnd.lock {k : Nat} {allocs : List Bool} (hin : ¬ TimesOut deadline 1 s.locks)
    (h : QueueEnd k tell iters deadline localEvents
      { s with allocs := allocs, locks := locksAfter deadline 1 s.locks } r s') :
    QueueEnd (1 + k) tell iters deadline localEvents s r s' := by
  have hlast : TimesOut deadline (1 + k + (guestNotices tell iters).length) s.locks ↔
      TimesOut deadline (k + (guestNotices tell iters).length)
        (locksAfter deadline 1 s.locks) := by
    rw [Nat.add_assoc, timesOut_add]
    exact or_iff_right hin
  obtain ⟨hroot, hallocs, hcalls, hlate, hready⟩ := h
  rw [← hlast] at hlate hready
  refine ⟨hroot, hallocs, hcalls, hlate, fun ht => ?_⟩
  obtain ⟨hr, hlocks, hevents, hwatches⟩ := hready ht
  refine ⟨hr, ?_, hevents, hwatches⟩
  rw [hlocks, locksAfter_add, Nat.add_assoc]

theorem QueueEnd.queued {k : Nat} (h : QueueEnd k tell iters deadline localEvents s r s')
    (hs : false ∉ s.locks) :
    r = (none, localEvents ++ (localNotices tell iters).map Prod.fst) ∧ Queued tell iters s s' := by
  obtain ⟨hr, hlocks, hevents, hwatches⟩ :=
    h.ready fun ht => ht.2 (supplied_of_notMem hs)
  exact ⟨hr, ⟨h.allocs, by rw [hlocks]; exact notMem_locksAfter hs⟩, h.root, h.calls, hevents,
    hwatches⟩

end Steps

section Loop
variable {path : CString} {recursiveRemove : Bool}

theorem wp_queuePendingWatchEvent_cases {w : WatchEntry} {domid : UInt32} {eventPath : CString}
    {deadline : Deadline} {Q : Option Errno → Shared → Prop} {E : Fault → Prop} {s : Shared}
    (hmem : false ∉ s.allocs)
    (hout : ∀ allocs, false ∉ allocs → TimesOut deadline 1 s.locks → Q (some .etimedout)
      { s with allocs := allocs, locks := locksAfter deadline 1 s.locks })
    (hin : ∀ allocs, false ∉ allocs → ¬ TimesOut deadline 1 s.locks → Q none { s with
      allocs := allocs, locks := locksAfter deadline 1 s.locks,
      pendingWatchEventList := s.pendingWatchEventList ++ [⟨eventPath, w.id, domid⟩] }) :
    wp (queuePendingWatchEvent w domid eventPath deadline) Q E s := by
  unfold queuePendingWatchEvent
  simp only [wp_bind, wp_alloc]
  refine wp_kMalloc_granted hmem fun rest₁ h₁ => ?_
  simp only [Bool.not_true, Bool.false_eq_true, if_false, wp_bind, wp_alloc]
  refine wp_kMalloc_granted h₁ fun rest₂ h₂ => ?_
  simp only [Bool.not_true, Bool.false_eq_true, if_false, wp_bind]
  exact wp_lock_cases (hout rest₂ h₂) (hin rest₂ h₂)

theorem wp_keyToEntryCheckPerm_granted {root : XsEntry} {key : CString} {domid : UInt32}
    {perms : XsPerm} {E : Fault → Prop} {Q : Option EntryRef → List Bool → Prop}
    {allocs : List Bool} (hmem : false ∉ allocs) (herr : ¬ PermsOk root → E .emptyPerms)
    (h : ∀ rest, false ∉ rest → Q ((foundEntry root key).filter fun e =>
      checkPerms e.entry.label perms domid = .ok true) rest) :
    wp (keyToEntryCheckPerm root key domid perms) Q E allocs := by
  have hrest : ∀ rest, rest <:+ allocs → false ∉ rest := fun rest hs hf => hmem (hs.subset hf)
  refine wp_keyToEntryCheckPerm (fun e rest hs hf hp => ?_) (fun rest hs hn => ?_) herr
  · have hq := h rest (hrest rest hs)
    rw [hf, Option.filter_some, if_pos (decide_eq_true hp)] at hq
    exact hq
  · have hq := h rest (hrest rest hs)
    cases hf : foundEntry root key with
    | none =>
      rw [hf] at hq
      exact hq
    | some e =>
      have hp := (hn.resolve_left hmem) e hf
      rw [hf, Option.filter_some, if_neg (by simp [hp])] at hq
      exact hq

theorem LocalOk.long {w : WatchEntry} {eventPath : CString} (h : LocalOk w)
    (hd : w.domain = none) (hp : watchEventPath w path recursiveRemove = some eventPath) :
    ¬ (w.isRelative && decide (eventPath.length < (localDomainPath 0).length)) = true := by
  intro hbad
  rw [Bool.and_eq_true, decide_eq_true_eq] at hbad
  have hkey := (h.relative hd hbad.1).length_le
  have hle := watchEventPath_length hp
  omega

/-- The loop, with memory at hand and any outcome of its locks. -/
theorem wp_queueWatchLoop_end {deadline : Deadline} (iters : List WatchEntry)
    (localEvents : List Nat) (s : Shared) (hmem : false ∉ s.allocs) :
    wp (queueWatchLoop path recursiveRemove deadline iters localEvents)
      (fun r s' =>
        QueueEnd 0 (queuedPath s.root path recursiveRemove) iters deadline localEvents s r s')
      (fun _ => ¬ (PermsOk s.root ∧ ∀ w ∈ iters, LocalOk w)) s := by
  induction iters generalizing localEvents s with
  | nil =>
    have hnone : ¬ TimesOut deadline 0 s.locks := fun h => h.2 fun i hi => absurd hi i.not_lt_zero
    refine ⟨rfl, hmem, rfl, fun h => absurd h hnone, fun _ => ⟨?_, ?_, ?_, rfl⟩⟩
    · simp [localNotices]
    · simp [guestNotices, locksAfter]
    · simp [guestNotices]
  | cons w iters ih =>
    have hrest : ∀ root : XsEntry, ¬ (PermsOk root ∧ ∀ v ∈ iters, LocalOk v) →
        ¬ (PermsOk root ∧ ∀ v ∈ w :: iters, LocalOk v) :=
      fun root hbad hgood => hbad ⟨hgood.1, fun v hv => hgood.2 v (List.mem_cons_of_mem _ hv)⟩
    unfold queueWatchLoop
    cases hev : watchEventPath w path recursiveRemove with
    | none =>
      have htell : queuedPath s.root path recursiveRemove w = none := by
        rw [queuedPath, hev, Option.filter_none]
      exact wp_mono (ih localEvents s hmem) (fun _ _ h => QueueEnd.skip htell h)
        (fun _ => hrest s.root)
    | some eventPath =>
      simp only [wp_bind, wp_get, wp_alloc]
      refine wp_keyToEntryCheckPerm_granted hmem (fun hbad hgood => hbad hgood.1) fun rest hr => ?_
      have htell : queuedPath s.root path recursiveRemove w =
          if (foundEntry s.root eventPath).any fun e =>
            checkPerms e.entry.label .read (w.domain.getD 0) = .ok true then some eventPath
          else none := by
        rw [queuedPath, hev, Option.filter_some]
        rfl
      cases hf : (foundEntry s.root eventPath).filter fun e =>
          checkPerms e.entry.label .read (w.domain.getD 0) = .ok true with
      | none =>
        have hany : ((foundEntry s.root eventPath).any fun e =>
            checkPerms e.entry.label .read (w.domain.getD 0) = .ok true) = false := by
          cases he : foundEntry s.root eventPath with
          | none => rfl
          | some e =>
            rw [he] at hf
            exact decide_eq_false (by simpa [Option.filter_some] using hf)
        rw [hany, if_neg Bool.false_ne_true] at htell
        exact wp_mono (ih localEvents _ hr) (fun _ _ h => QueueEnd.skip htell h)
          (fun _ => hrest s.root)
      | some e =>
        obtain ⟨he, hread⟩ := Option.filter_eq_some_iff.mp hf
        rw [he, Option.any_some, if_pos hread] at htell
        cases hd : w.domain with
        | none =>
          refine wp_ite (fun hshort => ?_) (fun _ => ?_)
          · intro hgood
            exact (hgood.2 w List.mem_cons_self).long hd hev hshort
          unfold queueLocalWatchEventLocked
          simp only [hd, Option.isSome_none, Bool.false_eq_true, if_false, wp_bind, wp_alloc]
          refine wp_kMalloc_granted hr fun rest' hr' => ?_
          simp only [Bool.not_true, Bool.false_eq_true, if_false]
          refine wp_ite (fun hpending => ?_) (fun _ => ?_)
          · intro hgood
            rw [(hgood.2 w List.mem_cons_self).idle hd] at hpending
            cases hpending
          simp only [wp_bind, wp_modify, wp_pure]
          refine wp_mono (ih _ _ ?_) (fun _ _ h => QueueEnd.local hd htell h)
            (fun _ => hrest s.root)
          exact hr'
        | some domid =>
          simp only [wp_bind]
          refine wp_queuePendingWatchEvent_cases hr (fun allocs hallocs hout => ?_)
            (fun allocs hallocs hin => ?_)
          · exact QueueEnd.stop hd htell hout hallocs
          · refine wp_mono (ih localEvents _ ?_) (fun _ _ h => QueueEnd.guest hd htell hin h)
              (fun _ => hrest s.root)
            exact hallocs

theorem wp_queueWatchNotifications_end {deadline : Deadline} {s : Shared}
    (hmem : false ∉ s.allocs) :
    wp (queueWatchNotificationsXselLocked path recursiveRemove deadline)
      (fun r s' => QueueEnd 1 (queuedPath s.root path recursiveRemove) (linkedWatches s) deadline
        [] s r s')
      (fun _ => ¬ (PermsOk s.root ∧ ∀ w ∈ linkedWatches s, LocalOk w)) s := by
  unfold queueWatchNotificationsXselLocked
  rw [wp_bind]
  refine wp_lock_cases (fun hout => ?_) (fun hin => ?_)
  · exact QueueEnd.refused (k := 0) hmem hout
  · simp only [wp_bind, wp_get]
    exact wp_conseq (wp_queueWatchLoop_end (linkedWatches s) [] _ hmem)
      fun _ _ h => QueueEnd.lock hin h

theorem wp_queueWatchNotifications_granted {deadline : Deadline} {s : Shared} (hs : Granted s)
    (hok : PermsOk s.root) (hreg : ∀ w ∈ linkedWatches s, LocalOk w) :
    wp (queueWatchNotificationsXselLocked path recursiveRemove deadline)
      (fun r s' => r = (none, (localNotices (queuedPath s.root path recursiveRemove)
          (linkedWatches s)).map Prod.fst) ∧
        Queued (queuedPath s.root path recursiveRemove) (linkedWatches s) s s')
      (fun _ => False) s :=
  wp_mono (wp_queueWatchNotifications_end hs.allocs) (fun _ _ h => h.queued hs.locks)
    (fun _ hbad => hbad ⟨hok, hreg⟩)

end Loop

/-- What a dispatch of `ids` does: every watch that has an event pending is called. -/
structure Dispatched (ids : List Nat) (s s' : Shared) : Prop where
  root : s'.root = s.root
  allocs : s'.allocs = s.allocs
  locks : s'.locks = s.locks
  events : s'.pendingWatchEventList = s.pendingWatchEventList
  calls : ∃ new, s'.calls = s.calls ++ new ∧ (∀ c ∈ new, c.watch ∈ ids) ∧
    ∀ w ∈ s.watches, w.pendingPath.isSome → w.id ∈ ids → ∃ c ∈ new, c.watch = w.id

theorem wp_dispatch_calls {E : Fault → Prop} (ids : List Nat) (s : Shared) :
    wp (dispatchLocalWatchEventsLocked ids) (fun _ s' => Dispatched ids s s') E s := by
  induction ids generalizing s with
  | nil => exact ⟨rfl, rfl, rfl, rfl, [], by simp, nofun, fun _ _ _ h => absurd h (by simp)⟩
  | cons id ids ih =>
    unfold dispatchLocalWatchEventsLocked dispatchLocalWatchEvent
    rw [wp_bind, wp_modify]
    refine wp_conseq (ih _) fun _ s' h => ?_
    obtain ⟨new, hcalls, hids, hall⟩ := h.calls
    refine ⟨h.root, h.allocs, h.locks, h.events, _, hcalls.trans (List.append_assoc _ _ _), ?_, ?_⟩
    · intro c hc
      rcases List.mem_append.mp hc with hc | hc
      · obtain ⟨w, -, hw⟩ := List.mem_flatMap.mp hc
        obtain ⟨path, -, rfl⟩ := List.mem_map.mp hw
        exact List.mem_cons_self
      · exact List.mem_cons_of_mem _ (hids c hc)
    · intro w hw hp hmem
      by_cases hid : w.id = id
      · obtain ⟨path, hpath⟩ := Option.isSome_iff_exists.mp hp
        refine ⟨⟨id, path, w.token⟩, List.mem_append_left _ (List.mem_flatMap.mpr ⟨w, ?_, ?_⟩), ?_⟩
        · exact List.mem_filter.mpr ⟨hw, decide_eq_true hid⟩
        · simp [hpath]
        · exact hid.symm
      · obtain ⟨c, hc, hcw⟩ := hall w
          (List.mem_map.mpr ⟨w, hw, if_neg hid⟩) hp ((List.mem_cons.mp hmem).resolve_left hid)
        exact ⟨c, List.mem_append_right _ hc, hcw⟩

theorem exists_pending_of_mark {evs : List (Nat × CString)} {watches : List WatchEntry} {id : Nat}
    (hid : id ∈ evs.map Prod.fst) (hw : ∃ w ∈ watches, w.id = id) :
    ∃ w ∈ markPending evs watches, w.id = id ∧ w.pendingPath.isSome := by
  have hkeep : ∀ (evs : List (Nat × CString)) (watches : List WatchEntry),
      (∃ w ∈ watches, w.id = id ∧ w.pendingPath.isSome) →
      ∃ w ∈ markPending evs watches, w.id = id ∧ w.pendingPath.isSome := by
    intro evs
    induction evs with
    | nil => exact fun _ h => h
    | cons e evs ih =>
      rintro watches ⟨w, hw, hwid, hp⟩
      refine ih _ ⟨_, List.mem_map_of_mem hw, ?_⟩
      split
      · exact ⟨hwid, rfl⟩
      · exact ⟨hwid, hp⟩
  induction evs generalizing watches with
  | nil => cases hid
  | cons e evs ih =>
    obtain ⟨w, hw, hwid⟩ := hw
    rcases List.mem_cons.mp hid with hid | hid
    · refine hkeep evs _ ⟨_, List.mem_map_of_mem hw, ?_⟩
      rw [if_pos (hwid.trans hid)]
      exact ⟨hwid, rfl⟩
    · refine ih hid ⟨_, List.mem_map_of_mem hw, ?_⟩
      split <;> exact hwid

/-- The events a notification has queued and dispatched. -/
structure Announced (tell : WatchEntry → Option CString) (s s' : Shared) : Prop where
  events : s'.pendingWatchEventList =
    s.pendingWatchEventList ++ guestNotices tell (linkedWatches s)
  calls : ∃ new, s'.calls = s.calls ++ new ∧
    ∀ id, (∃ c ∈ new, c.watch = id) ↔ id ∈ (localNotices tell (linkedWatches s)).map Prod.fst

theorem announced_of_dispatched {tell : WatchEntry → Option CString} {s s₁ s' : Shared}
    (hw : s₁.watches = markPending (localNotices tell (linkedWatches s)) s.watches)
    (hc : s₁.calls = s.calls)
    (he : s₁.pendingWatchEventList =
      s.pendingWatchEventList ++ guestNotices tell (linkedWatches s))
    (hd : Dispatched ((localNotices tell (linkedWatches s)).map Prod.fst) s₁ s') :
    Announced tell s s' where
  events := by rw [hd.events, he]
  calls := by
    obtain ⟨new, hcalls, hids, hall⟩ := hd.calls
    refine ⟨new, by rw [hcalls, hc], fun id => ⟨?_, fun hid => ?_⟩⟩
    · rintro ⟨c, hc, rfl⟩
      exact hids c hc
    · have hknown : ∃ w ∈ s.watches, w.id = id := by
        obtain ⟨e, he, rfl⟩ := List.mem_map.mp hid
        obtain ⟨w, hw, htell⟩ := List.mem_filterMap.mp he
        refine ⟨w, List.mem_of_mem_filter hw, ?_⟩
        split at htell
        · obtain ⟨p, -, rfl⟩ := Option.map_eq_some_iff.mp htell
          rfl
        · cases htell
      obtain ⟨w, hmem, hwid, hp⟩ := exists_pending_of_mark hid hknown
      rw [← hw] at hmem
      rw [← hwid] at hid ⊢
      exact hall w hmem hp hid

/-- An event for the watch was queued, or its callback was called. -/
def Alerted (s s' : Shared) (w : WatchEntry) : Prop :=
  match w.domain with
  | none => ∃ new, s'.calls = s.calls ++ new ∧ ∃ c ∈ new, c.watch = w.id
  | some _ => ∃ new, s'.pendingWatchEventList = s.pendingWatchEventList ++ new ∧
      ∃ e ∈ new, e.watch = w.id

theorem Announced.told {tell : WatchEntry → Option CString} {s s' : Shared} {w : WatchEntry}
    (h : Announced tell s s') (hw : w ∈ linkedWatches s) (ht : (tell w).isSome) :
    Alerted s s' w := by
  obtain ⟨eventPath, ht⟩ := Option.isSome_iff_exists.mp ht
  unfold Alerted
  cases hd : w.domain with
  | none =>
    obtain ⟨new, hcalls, hids⟩ := h.calls
    refine ⟨new, hcalls, (hids w.id).mpr (List.mem_map.mpr ?_)⟩
    refine ⟨(w.id, localEventPath w eventPath), ?_, rfl⟩
    exact List.mem_filterMap.mpr ⟨w, hw, by simp [hd, ht]⟩
  | some domid =>
    refine ⟨_, h.events, ⟨eventPath, w.id, domid⟩, ?_, rfl⟩
    exact List.mem_filterMap.mpr ⟨w, hw, by simp [hd, ht]⟩

theorem Announced.not_told {tell : WatchEntry → Option CString} {s s' : Shared} {w : WatchEntry}
    (h : Announced tell s s') (hw : linkedWatches s = [w]) (hd : w.domain = none)
    (ht : tell w = none) : ¬ Alerted s s' w := by
  obtain ⟨new, hcalls, hids⟩ := h.calls
  have hnone : localNotices tell (linkedWatches s) = [] := by simp [localNotices, hw, ht]
  unfold Alerted
  rw [hd]
  rintro ⟨new', hcalls', hcall⟩
  rw [hcalls] at hcalls'
  cases List.append_cancel_left hcalls'
  rw [hids, hnone] at hcall
  cases hcall

/-- How a notification that takes `k` locks before its loop ends. -/
structure NotifyEnd (k : Nat) (tell : WatchEntry → Option CString) (deadline : Deadline)
    (s : Shared) (rc : Option Errno) (s' : Shared) : Prop where
  root : s'.root = s.root
  allocs : false ∉ s'.allocs
  late : TimesOut deadline (k + (guestNotices tell (linkedWatches s)).length) s.locks →
    rc = some .etimedout
  told : ¬ TimesOut deadline (k + (guestNotices tell (linkedWatches s)).length) s.locks →
    rc = none ∧
    s'.locks = locksAfter deadline (k + (guestNotices tell (linkedWatches s)).length) s.locks ∧
    Announced tell s s'

theorem wp_dispatch_end {E : Fault → Prop} {k : Nat} {tell : WatchEntry → Option CString}
    {deadline : Deadline} {s s₁ : Shared} {r : Option Errno × List Nat}
    (h : QueueEnd k tell (linkedWatches s) deadline [] s r s₁) :
    wp (dispatchLocalWatchEventsLocked r.2)
      (fun _ s' => NotifyEnd k tell deadline s r.1 s') E s₁ := by
  refine wp_conseq (wp_dispatch_calls r.2 s₁) fun _ s' hdis => ⟨?_, ?_, h.late, fun ht => ?_⟩
  · rw [hdis.root, h.root]
  · rw [hdis.allocs]
    exact h.allocs
  · obtain ⟨hr, hlocks, hevents, hwatches⟩ := h.ready ht
    rw [hr, List.nil_append] at hdis
    refine ⟨by rw [hr], by rw [hdis.locks, hlocks], ?_⟩
    exact announced_of_dispatched hwatches h.calls hevents hdis

theorem wp_notifyWatchersDeadline_end {path : CString} {deadline : Deadline} {s : Shared}
    (hmem : false ∉ s.allocs) :
    wp (notifyWatchersDeadline path deadline)
      (fun rc s' => NotifyEnd 3 (queuedPath s.root path false) deadline s rc s')
      (fun _ => ¬ (PermsOk s.root ∧ ∀ w ∈ linkedWatches s, LocalOk w)) s := by
  have hqueue : wp (notifyWatchersLocked path deadline)
      (fun r s' => QueueEnd 3 (queuedPath s.root path false) (linkedWatches s) deadline [] s r s')
      (fun _ => ¬ (PermsOk s.root ∧ ∀ w ∈ linkedWatches s, LocalOk w)) s := by
    unfold notifyWatchersLocked
    rw [wp_bind]
    refine wp_lock_cases (fun hout => QueueEnd.refused (k := 2) hmem hout) (fun hin => ?_)
    rw [wp_bind]
    refine wp_lock_cases (fun hout => ?_) (fun hin' => ?_)
    · exact QueueEnd.lock (k := 2) hin (QueueEnd.refused (k := 1) hmem hout)
    · exact wp_conseq (wp_queueWatchNotifications_end hmem)
        fun _ _ h => QueueEnd.lock (k := 2) hin (QueueEnd.lock (k := 1) hin' h)
  unfold notifyWatchersDeadline
  simp only [wp_bind, wp_pure]
  exact wp_conseq hqueue fun r s₁ h => wp_dispatch_end h

theorem NotifyEnd.granted {k : Nat} {tell : WatchEntry → Option CString} {deadline : Deadline}
    {s s' : Shared} {rc : Option Errno} (h : NotifyEnd k tell deadline s rc s')
    (hs : false ∉ s.locks) : rc = none ∧ Granted s' ∧ Announced tell s s' := by
  obtain ⟨hrc, hlocks, hann⟩ := h.told fun ht => ht.2 (supplied_of_notMem hs)
  exact ⟨hrc, ⟨h.allocs, by rw [hlocks]; exact notMem_locksAfter hs⟩, hann⟩

theorem wp_notifyWatchersDeadline_granted {path : CString} {deadline : Deadline} {s : Shared}
    (hs : Granted s) (hok : PermsOk s.root) (hreg : ∀ w ∈ linkedWatches s, LocalOk w) :
    wp (notifyWatchersDeadline path deadline)
      (fun rc s' => rc = none ∧ s'.root = s.root ∧ Announced (queuedPath s.root path false) s s')
      (fun _ => False) s := by
  refine wp_mono (wp_notifyWatchersDeadline_end hs.allocs) (fun rc s' h => ?_)
    (fun _ hbad => hbad ⟨hok, hreg⟩)
  obtain ⟨hrc, -, hann⟩ := h.granted hs.locks
  exact ⟨hrc, h.root, hann⟩

/-- The node a key leads to, if `domid` may write it. -/
def writableEntry (root : XsEntry) (key : CString) (domid : UInt32) : Option EntryRef :=
  (foundEntry root key).filter fun e => checkPerms e.entry.label .write domid = .ok true

/-- How `xss_do_rm_deadline` ends: the node is freed and its watchers are told, or the store is
left as it was. -/
structure RmEnd (key : CString) (callerId : UInt32) (deadline : Deadline) (s : Shared)
    (rc : Option Errno) (s' : Shared) : Prop where
  allocs : false ∉ s'.allocs
  missing : writableEntry s.root key callerId = none → ¬ TimesOut deadline 2 s.locks →
    rc = some .einval
  refused : writableEntry s.root key callerId = none ∨
      TimesOut deadline (3 + (guestNotices (queuedPath s.root key true)
        (linkedWatches s)).length) s.locks →
    rc ≠ none ∧ s'.root = s.root
  freed : ∀ entry, writableEntry s.root key callerId = some entry →
    ¬ TimesOut deadline (3 + (guestNotices (queuedPath s.root key true)
      (linkedWatches s)).length) s.locks →
    rc = none ∧ (false ∉ s.locks → false ∉ s'.locks) ∧
    Announced (queuedPath s.root key true) s s' ∧
    entry.path ≠ [] ∧ s'.root = freeNode s.root entry

def FreesRoot (key : CString) (callerId : UInt32) (deadline : Deadline) (s : Shared) : Prop :=
  RemovesRoot s.root key callerId ∧ ¬ TimesOut deadline (3 + (guestNotices
    (queuedPath s.root key true) (linkedWatches s)).length) s.locks

theorem writableEntry_root {root : XsEntry} {key : CString} {callerId : UInt32}
    (h : RemovesRoot root key callerId) :
    writableEntry root key callerId = some ⟨[], root⟩ := by
  obtain ⟨rfl, hg⟩ := h
  exact Option.filter_eq_some_iff.mpr ⟨rfl, decide_eq_true hg⟩

theorem RmEnd.not_freesRoot {key : CString} {callerId : UInt32} {deadline : Deadline}
    {s s' : Shared} {rc : Option Errno} (h : RmEnd key callerId deadline s rc s') :
    ¬ FreesRoot key callerId deadline s := by
  rintro ⟨hroot, hin⟩
  exact (h.freed _ (writableEntry_root hroot) hin).2.2.2.1 rfl

theorem RmEnd.late {key : CString} {callerId : UInt32} {deadline : Deadline} {s s' : Shared}
    (hroot : s'.root = s.root) (hallocs : false ∉ s'.allocs) (hout : TimesOut deadline 2 s.locks) :
    RmEnd key callerId deadline s (some .etimedout) s' := by
  refine ⟨hallocs, fun _ h => absurd hout h, fun _ => ⟨by simp, hroot⟩,
    fun _ _ h => absurd ?_ h⟩
  rw [Nat.add_assoc 2 1, timesOut_add]
  exact Or.inl hout

theorem wp_xssDoRmDeadline_end {key : CString} {callerId : UInt32} {deadline : Deadline}
    {s : Shared} (hmem : false ∉ s.allocs) :
    wp (xssDoRmDeadline key callerId deadline)
      (fun rc s' => RmEnd key callerId deadline s rc s')
      (fun _ => ¬ (PermsOk s.root ∧ ∀ w ∈ linkedWatches s, LocalOk w) ∨
        FreesRoot key callerId deadline s) s := by
  unfold xssDoRmDeadline xssDoRmLocked
  simp only [wp_bind]
  refine wp_lock_cases (fun hout => ?_) (fun hin => ?_)
  · simp only [wp_pure]
    refine wp_conseq (wp_dispatch_calls [] _) fun _ s' hd => ?_
    refine RmEnd.late hd.root (by rw [hd.allocs]; exact hmem) ?_
    rw [show 2 = 1 + 1 from rfl, timesOut_add]
    exact Or.inl hout
  simp only [wp_bind]
  refine wp_lock_cases (fun hout => ?_) (fun hin' => ?_)
  · simp only [wp_pure]
    refine wp_conseq (wp_dispatch_calls [] _) fun _ s' hd => ?_
    refine RmEnd.late hd.root (by rw [hd.allocs]; exact hmem) ?_
    rw [show 2 = 1 + 1 from rfl, timesOut_add]
    exact Or.inr hout
  simp only [wp_bind, wp_get, wp_alloc]
  refine wp_keyToEntryCheckPerm_granted hmem (fun hbad => Or.inl fun hgood => hbad hgood.1)
    fun rest hrest => ?_
  cases hw : (foundEntry s.root key).filter fun e =>
      checkPerms e.entry.label .write callerId = .ok true with
  | none =>
    simp only [wp_pure]
    refine wp_conseq (wp_dispatch_calls [] _) fun _ s' hd => ⟨?_, fun _ _ => rfl,
      fun _ => ⟨by simp, hd.root⟩, fun _ he => absurd (hw.symm.trans he) (by simp)⟩
    rw [hd.allocs]
    exact hrest
  | some entry =>
    simp only [wp_bind]
    refine wp_mono (wp_queueWatchNotifications_end hrest) (fun r s₁ h => ?_)
      (fun _ hbad => Or.inl hbad)
    have hq : QueueEnd 3 (queuedPath s.root key true) (linkedWatches s) deadline [] s r s₁ :=
      QueueEnd.lock (k := 2) hin (QueueEnd.lock (k := 1) hin' h)
    by_cases ht : TimesOut deadline (3 + (guestNotices (queuedPath s.root key true)
        (linkedWatches s)).length) s.locks
    · obtain ⟨rc, evs⟩ := r
      obtain rfl : rc = some .etimedout := hq.late ht
      simp only [wp_pure]
      refine wp_conseq (wp_dispatch_calls evs s₁) fun _ s' hd => ⟨?_,
        fun hnone => absurd (hw.symm.trans hnone) (by simp), fun _ => ⟨by simp, ?_⟩,
        fun _ _ h => absurd ht h⟩
      · rw [hd.allocs]
        exact hq.allocs
      · rw [hd.root, hq.root]
    · obtain ⟨hr, hlocks, hevents, hwatches⟩ := hq.ready ht
      rw [hr]
      by_cases hp : entry.path = []
      · -- The root is in no list to be taken off.
        obtain ⟨hfound, hg⟩ := Option.filter_eq_some_iff.mp hw
        obtain rfl := (foundEntry_path_nil hfound).mp hp
        cases hfound
        simp only [wp_bind, freeEntry]
        have hg : checkPerms s.root.label .write callerId = .ok true := of_decide_eq_true hg
        exact Or.inr ⟨⟨rfl, hg⟩, ht⟩
      rw [wp_bind]
      refine wp_of_ok (freeEntry_below hp) ?_
      simp only [wp_pure, List.nil_append]
      refine wp_conseq (wp_dispatch_calls _ _) fun _ s' hdis => ⟨?_,
        fun hnone => absurd (hw.symm.trans hnone) (by simp), fun hbad => ?_, fun entry' he _ => ?_⟩
      · rw [hdis.allocs]
        exact hq.allocs
      · rcases hbad with hbad | hbad
        · exact absurd (hw.symm.trans hbad) (by simp)
        · exact absurd hbad ht
      · obtain rfl : entry = entry' := Option.some.inj (hw.symm.trans he)
        refine ⟨rfl, fun hs => ?_, ?_, hp, ?_⟩
        · rw [hdis.locks]
          exact hlocks ▸ notMem_locksAfter hs
        · refine announced_of_dispatched ?_ ?_ ?_ hdis
          · exact hwatches
          · exact hq.calls
          · exact hevents
        · rw [hdis.root, ← hq.root]

theorem wp_xssDoRmDeadline_granted {key : CString} {callerId : UInt32} {deadline : Deadline}
    {s : Shared} (hs : Granted s) (hok : PermsOk s.root) (hreg : ∀ w ∈ linkedWatches s, LocalOk w) :
    wp (xssDoRmDeadline key callerId deadline)
      (fun rc s' => match (foundEntry s.root key).filter fun e =>
          checkPerms e.entry.label .write callerId = .ok true with
        | none => rc = some .einval
        | some _ => rc = none ∧ Granted s' ∧ Announced (queuedPath s.root key true) s s')
      (fun _ => RemovesRoot s.root key callerId) s := by
  refine wp_mono (wp_xssDoRmDeadline_end hs.allocs) (fun rc s' h => ?_)
    (fun _ hbad => (hbad.resolve_left (not_not.mpr ⟨hok, hreg⟩)).1)
  have hin : ∀ n, ¬ TimesOut deadline n s.locks := fun n ht => ht.2 (supplied_of_notMem hs.locks)
  cases hw : (foundEntry s.root key).filter fun e =>
      checkPerms e.entry.label .write callerId = .ok true with
  | none => exact h.missing hw (hin 2)
  | some entry =>
    obtain ⟨hrc, hlocks, hann, -⟩ := h.freed entry hw (hin _)
    exact ⟨hrc, ⟨h.allocs, hlocks hs.locks⟩, hann⟩

section Exact
variable {root : XsEntry} {path : CString} {recursiveRemove : Bool}

/-- The text comparison selects the watches at or above the path, then those below it. -/
theorem watchEventPath_canonical {w : WatchEntry} (hp : Canonical path) (hk : Canonical w.key) :
    watchEventPath w path recursiveRemove =
      if tokens w.key <+: tokens path then some path
      else if recursiveRemove = true ∧ tokens path <+: tokens w.key then some w.key else none := by
  simp only [watchEventPath, hk.contains_iff hp, Bool.and_eq_true, hp.contains_iff hk]

theorem found_any_iff {key : CString} {domid : UInt32} (hkey : Canonical key)
    (hlen : key.length ≤ xenstoreAbsPathMax) :
    ((foundEntry root key).any fun e => checkPerms e.entry.label .read domid = .ok true) =
      decide (MayRead root (tokens key) domid) := by
  rw [foundEntry_canonical hkey hlen]
  cases hl : root.lookup (tokens key) with
  | none => simp [MayRead, hl]
  | some e => simp [MayRead, hl]

theorem queuedPath_eq_notice {w : WatchEntry} (hp : Canonical path)
    (hlen : path.length ≤ xenstoreAbsPathMax) (hkey : Canonical w.key)
    (hkeyLen : w.key.length ≤ xenstoreAbsPathMax) :
    queuedPath root path recursiveRemove w = notice root path recursiveRemove w := by
  rw [queuedPath, watchEventPath_canonical hp hkey]
  by_cases habove : tokens w.key <+: tokens path
  · rw [if_pos habove, Option.filter_some, found_any_iff hp hlen]
    by_cases hr : MayRead root (tokens path) w.owner
    · simp [notice, ToldAbove, habove, hr]
    · -- a key that is also below the path is the path itself
      have hbelow : ¬ ToldBelow root path w := by
        rintro ⟨hpre, hread⟩
        rw [habove.eq_of_length_le hpre.length_le] at hread
        exact hr hread
      simp [notice, ToldAbove, habove, hr, hbelow]
  · rw [if_neg habove]
    by_cases hbelow : recursiveRemove = true ∧ tokens path <+: tokens w.key
    · rw [if_pos hbelow, Option.filter_some, found_any_iff hkey hkeyLen]
      by_cases hr : MayRead root (tokens w.key) w.owner
      · simp [notice, ToldAbove, ToldBelow, habove, hbelow, hr]
      · simp [notice, ToldAbove, ToldBelow, habove, hbelow, hr]
    · have hnot : ¬ (recursiveRemove = true ∧ ToldBelow root path w) :=
        fun h => hbelow ⟨h.1, h.2.1⟩
      rw [if_neg hbelow, Option.filter_none]
      simp [notice, ToldAbove, habove, hnot]

/-- On normalized paths `queue_watch_notifications_xsel_locked` queues, in registry order and
once each, the watches that are due an event, and no others. -/
theorem queueWatchNotifications_exact {deadline : Deadline} {s : Shared} (hs : Granted s)
    (hok : PermsOk s.root) (hp : Canonical path) (hlen : path.length ≤ xenstoreAbsPathMax)
    (hreg : ∀ w ∈ linkedWatches s, Registered w) :
    ∃ s', queueWatchNotificationsXselLocked path recursiveRemove deadline s =
        .ok ((none, (localNotices (notice s.root path recursiveRemove)
          (linkedWatches s)).map Prod.fst), s') ∧
      Queued (notice s.root path recursiveRemove) (linkedWatches s) s s' := by
  have htell : ∀ w ∈ linkedWatches s, queuedPath s.root path recursiveRemove w =
      notice s.root path recursiveRemove w :=
    fun w hw => queuedPath_eq_notice hp hlen (hreg w hw).key (hreg w hw).length
  have hguest : guestNotices (queuedPath s.root path recursiveRemove) (linkedWatches s) =
      guestNotices (notice s.root path recursiveRemove) (linkedWatches s) :=
    List.filterMap_congr fun w hw => by rw [htell w hw]
  have hlocal : localNotices (queuedPath s.root path recursiveRemove) (linkedWatches s) =
      localNotices (notice s.root path recursiveRemove) (linkedWatches s) :=
    List.filterMap_congr fun w hw => by rw [htell w hw]
  obtain ⟨r, s', hrun, hr, hq⟩ := wp_total
    (@wp_queueWatchNotifications_granted path recursiveRemove deadline s hs hok
      fun w hw => (hreg w hw).toLocalOk)
  rw [hlocal] at hr
  refine ⟨s', by rw [hrun, hr], hq.granted, hq.root, hq.calls, ?_, ?_⟩
  · rw [hq.events, hguest]
  · rw [hq.watches, hlocal]

end Exact

/-- A local watch on "/" and a watch of domain 1 on "/a". -/
def watchedByOne : Shared :=
  { ownedByOne with
    watches := [⟨0, [slash], strBytes (ascii ['t']), none, false, true, none⟩,
      ⟨1, ascii ['/', 'a'], strBytes (ascii ['u']), some 1, false, true, none⟩] }

theorem watchedByOne_registered : ∀ w ∈ linkedWatches watchedByOne, Registered w := by
  intro w hw
  have hw : w ∈ watchedByOne.watches := List.mem_of_mem_filter hw
  simp only [watchedByOne, List.mem_cons, List.not_mem_nil, or_false] at hw
  rcases hw with rfl | rfl
  · exact ⟨⟨fun _ => rfl, nofun⟩, by decide, by decide⟩
  · exact ⟨⟨nofun, nofun⟩, by decide, by decide⟩

theorem queueWatchNotifications_exact_two : ∃ s',
    queueWatchNotificationsXselLocked (ascii ['/', 'a']) false .forever watchedByOne =
      .ok ((none, [0]), s') ∧
    s'.pendingWatchEventList = [⟨ascii ['/', 'a'], 1, 1⟩] := by
  obtain ⟨s', hrun, hq⟩ := @queueWatchNotifications_exact (ascii ['/', 'a']) false .forever
    watchedByOne ⟨List.not_mem_nil, List.not_mem_nil⟩ ownedByOne_wellFormed.permsOk (by decide)
    (by decide) watchedByOne_registered
  have hlocal : (localNotices (notice watchedByOne.root (ascii ['/', 'a']) false)
      (linkedWatches watchedByOne)).map Prod.fst = [0] := by decide +kernel
  have hguest : guestNotices (notice watchedByOne.root (ascii ['/', 'a']) false)
      (linkedWatches watchedByOne) = [⟨ascii ['/', 'a'], 1, 1⟩] := by decide +kernel
  refine ⟨s', by rw [hrun, hlocal], ?_⟩
  rw [hq.events, hguest]
  rfl

end Xenlib
