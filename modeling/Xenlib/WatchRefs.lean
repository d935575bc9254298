import Xenlib.Handlers
import Xenlib.Lib.TwoRuns

/-!
The registry of watches with its references, by the sections that run under a mutex. Each
section is the one of the functions in `Server` and `Handlers`, with the calls of `sys_ref_get`
and `watch_entry_put` where the source has them.
-/

set_option autoImplicit false

namespace Xenlib

open Wp

structure WatchRegistry where
  shared : Shared
  /-- `sys_ref` of the watches, by their names. -/
  refs : Nat → Nat
  /-- The calls of `destroy_watch_entry`. -/
  destroyed : List Nat
  /-- The events put on `pending_watch_event_list` so far. -/
  queued : List PendingWatchEvent
  /-- The watches an event was queued for so far, those of local clients too. -/
  told : List Nat
  /-- The events taken off the list so far, with their watches as they were then. -/
  taken : List (PendingWatchEvent × WatchEntry)

abbrev RefM := Wp.Prog WatchRegistry Fault

def unref {α : Type} (x : SrvM α) : RefM α := fun r =>
  match x r.shared with
  | .ok (a, s) => .ok (a, { r with shared := s })
  | .error e => .error e

def WatchRegistry.getRef (r : WatchRegistry) (id : Nat) : WatchRegistry :=
  { r with refs := Function.update r.refs id (r.refs id + 1) }

def WatchRegistry.putRef (r : WatchRegistry) (id : Nat) : WatchRegistry :=
  { r with
    refs := Function.update r.refs id (r.refs id - 1)
    destroyed := if r.refs id = 1 then r.destroyed ++ [id] else r.destroyed }

def sysRefInit (id : Nat) : RefM Unit :=
  modify fun r => { r with refs := Function.update r.refs id 1 }

def sysRefGet (id : Nat) : RefM Unit := modify fun r => r.getRef id

def watchEntryPut (id : Nat) : RefM Unit := modify fun r => r.putRef id

def unlinkWatch (id : Nat) : SrvM Unit :=
  modify fun s => { s with
    watches := s.watches.map fun w => if w.id = id then { w with linked := false } else w }

def removeWatchEntry (id : Nat) : RefM Unit := do
  unref (unlinkWatch id)
  watchEntryPut id

/-- `queue_pending_watch_event`. -/
def queuePendingRef (watch : WatchEntry) (domid : UInt32) (path : CString) (deadline : Deadline) :
    RefM (Option Errno) := do
  if !(← unref (alloc kMalloc)) then pure (some .enomem)
  else if !(← unref (alloc kMalloc)) then pure (some .enomem)
  else
    sysRefGet watch.id
    match ← unref (xssMutexLockDeadline deadline) with
    | some e =>
      watchEntryPut watch.id
      pure (some e)
    | none =>
      modify fun r => { r with
        shared := { r.shared with
          pendingWatchEventList := r.shared.pendingWatchEventList ++ [⟨path, watch.id, domid⟩] }
        queued := r.queued ++ [⟨path, watch.id, domid⟩]
        told := r.told ++ [watch.id] }
      pure none

/-- `queue_local_watch_event_locked`. -/
def queueLocalRef (localEvents : List Nat) (entry : WatchEntry) (path : CString) :
    RefM (Option Errno × List Nat) := do
  if entry.domain.isSome then pure (some .einval, localEvents)
  else if !(← unref (alloc kMalloc)) then pure (some .enomem, localEvents)
  else
    sysRefGet entry.id
    if entry.pendingPath.isSome then throw .assertion
    else
      unref (modify (setPendingPath entry.id (some path)))
      modify fun r => { r with told := r.told ++ [entry.id] }
      pure (none, localEvents ++ [entry.id])

/-- `dispatch_local_watch_events_locked`. -/
def dispatchRef : List Nat → RefM Unit
  | [] => pure ()
  | id :: rest => do
    unref (dispatchLocalWatchEvent id)
    watchEntryPut id
    dispatchRef rest

/-- What one round of the loop over `watch_entry_list` comes to. -/
inductive ScanOutcome where
  | next (localEvents : List Nat)
  | stop (rc : Option Errno) (localEvents : List Nat)

/-- One round of the loop of `queue_watch_notifications_xsel_locked`. -/
def queueWatchRound (path : CString) (recursiveRemove : Bool) (deadline : Deadline)
    (iter : WatchEntry) (localEvents : List Nat) : RefM ScanOutcome := do
  match watchEventPath iter path recursiveRemove with
  | none => pure (.next localEvents)
  | some eventPath =>
    let r ← get
    match ← unref (alloc (keyToEntryCheckPerm r.shared.root eventPath (iter.domain.getD 0)
        .read)) with
    | none => pure (.next localEvents)
    | some _ =>
      match iter.domain with
      | none =>
        let locLen := (localDomainPath 0).length
        if iter.isRelative && eventPath.length < locLen then throw .outOfBounds
        else
          let (_, localEvents) ← queueLocalRef localEvents iter
            (if iter.isRelative then eventPath.drop locLen else eventPath)
          pure (.next localEvents)
      | some domid =>
        match ← queuePendingRef iter domid eventPath deadline with
        | none => pure (.next localEvents)
        | some .enomem => pure (.stop none localEvents)
        | some e => pure (.stop (some e) localEvents)

def queueWatchRounds (path : CString) (recursiveRemove : Bool) (deadline : Deadline) :
    List WatchEntry → List Nat → RefM (Option Errno × List Nat)
  | [], localEvents => pure (none, localEvents)
  | iter :: rest, localEvents => do
    match ← queueWatchRound path recursiveRemove deadline iter localEvents with
    | .next localEvents => queueWatchRounds path recursiveRemove deadline rest localEvents
    | .stop rc localEvents => pure (rc, localEvents)

/-- The first section of `handle_watch`. -/
def lookWatch (domid : UInt32) (path : CString) (token : Bytes) (isRelative : Bool) :
    RefM (Option WatchEntry) := do
  let r ← get
  match ← unref (Wp.lift (keyToWatcher path token (some domid) (linkedWatches r.shared))) with
  | some wentry =>
    unref (modify fun s => { s with
      watches := s.watches.map fun w =>
        if w.id = wentry.id then { w with isRelative := isRelative } else w })
    pure (some wentry)
  | none => pure none

/-- The new watch comes with the reference of the list it is linked in. -/
def addWatch (wentry : WatchEntry) : RefM Unit := do
  sysRefInit wentry.id
  unref (modify fun s => { s with watches := s.watches ++ [wentry] })

def insertWatch (domid : UInt32) (path : CString) (token : Bytes) (isRelative : Bool) :
    RefM WatchEntry := do
  let r ← get
  let wentry := newWatch r.shared path token domid isRelative
  addWatch wentry
  pure wentry

/-- The watch is allocated before `wel_mutex` is taken again. -/
def createWatch (domid : UInt32) (path : CString) (token : Bytes) (isRelative : Bool) :
    RefM (Option WatchEntry) := do
  if !(← unref (alloc kMalloc)) then pure none
  else if !(← unref (alloc kMalloc)) then pure none
  else if !(← unref (alloc kMalloc)) then pure none
  else
    let wentry ← insertWatch domid path token isRelative
    pure (some wentry)

def initialEvent (wentry : WatchEntry) (domid : UInt32) (path : CString) : RefM Unit := do
  let r ← get
  match ← unref (alloc (keyToEntryCheckPerm r.shared.root path domid .read)) with
  | none => pure ()
  | some _ =>
    let _ ← queuePendingRef wentry domid path .forever
    pure ()

def removeWatch (domid : UInt32) (path : CString) (token : Bytes) : RefM Unit := do
  let r ← get
  match ← unref (Wp.lift (keyToWatcher path token (some domid) (linkedWatches r.shared))) with
  | some entry => removeWatchEntry entry.id
  | none => pure ()

/-- `cleanup_domain_watches` holds its two mutexes one after the other. -/
def removeWatchEntries : List WatchEntry → RefM Unit
  | [] => pure ()
  | w :: ws => do
    removeWatchEntry w.id
    removeWatchEntries ws

def cleanupWatches (domid : UInt32) : RefM Unit := do
  let r ← get
  removeWatchEntries ((linkedWatches r.shared).filter fun w => w.domain = some domid)

/-- An event goes, and its reference with it. The one that is taken is always the first of its
domain in the list. -/
def takeEvent (event : PendingWatchEvent) : RefM Unit := do
  modify fun r => { r with
    shared := { r.shared with
      pendingWatchEventList := r.shared.pendingWatchEventList.erase event }
    taken := r.taken ++
      ((r.shared.watches.find? fun w => w.id = event.watch).toList.map fun w => (event, w)) }
  watchEntryPut event.watch

def dropEvents (domid : UInt32) : List PendingWatchEvent → RefM Unit
  | [] => pure ()
  | pweIter :: rest => do
    if pweIter.domain = domid then
      takeEvent pweIter
      dropEvents domid rest
    else dropEvents domid rest

def cleanupEvents (domid : UInt32) : RefM Unit := do
  let r ← get
  dropEvents domid r.shared.pendingWatchEventList

def pendingRounds : List PendingWatchEvent → Xenstore → RefM Xenstore
  | [], xenstore => pure xenstore
  | iter :: rest, xenstore => do
    if iter.domain ≠ xenstore.domid then pendingRounds rest xenstore
    else match ← unref (fireWatcher xenstore iter) with
      | (xenstore, some _) => pure xenstore
      | (xenstore, none) =>
        takeEvent iter
        pendingRounds rest xenstore

def processPending (xenstore : Xenstore) : RefM Xenstore := do
  let r ← get
  pendingRounds r.shared.pendingWatchEventList xenstore

/-- `xs_watch_timeout` checks for an initial event before the watch is there. -/
def checkLocal (key : CString) (deadline : Deadline) : RefM (Except Errno Bool) := do
  match ← unref (xssMutexLockDeadline deadline) with
  | some e => pure (.error e)
  | none =>
    let r ← get
    let entry ← unref (alloc (keyToEntryCheckPerm r.shared.root key 0 .read))
    pure (.ok entry.isSome)

def lookLocal (key token : CString) : RefM (Option Errno) := do
  let r ← get
  match ← unref (Wp.lift (keyToWatcher key (strBytes token) none (linkedWatches r.shared))) with
  | some _ => pure (some .eexist)
  | none => pure none

def lookLocalDeadline (key token : CString) (deadline : Deadline) : RefM (Option Errno) := do
  match ← unref (xssMutexLockDeadline deadline) with
  | some e => pure (some e)
  | none => lookLocal key token

/-- `alloc_local_watch_entry`, with the name the watch gets when it is linked. -/
def newLocalWatch (s : Shared) (key token : CString) (isRelative : Bool) : WatchEntry :=
  ⟨s.watches.length, key, strBytes token, none, isRelative, true, none⟩

/-- Link the watch and queue its first event, which has the path as the caller wrote it. -/
def insertLocal (path key token : CString) (isRelative fireInitialEvent : Bool) :
    RefM (WatchEntry × List Nat) := do
  let r ← get
  let wentry := newLocalWatch r.shared key token isRelative
  addWatch wentry
  if fireInitialEvent then
    let (_, localEvents) ← queueLocalRef [] wentry path
    pure (wentry, localEvents)
  else pure (wentry, [])

/-- The last section: the watch is allocated, and `local_watch_dispatch_mutex` and `wel_mutex`
are taken. A watch that is not linked in the end was never known to anybody. -/
def createLocal (path key token : CString) (isRelative fireInitialEvent : Bool)
    (deadline : Deadline) : RefM (Except Errno (WatchEntry × List Nat)) := do
  if !(← unref (alloc kMalloc)) then pure (.error .enomem)
  else if !(← unref (alloc kMalloc)) then pure (.error .enomem)
  else match ← unref (xssMutexLockDeadline deadline) with
    | some e => pure (.error e)
    | none =>
      match ← lookLocalDeadline key token deadline with
      | some e => pure (.error e)
      | none =>
        let linked ← insertLocal path key token isRelative fireInitialEvent
        pure (.ok linked)

def removeLocal (path token : CString) (deadline : Deadline) : RefM (Option Errno) := do
  match ← unref (alloc (constructPath path 0)) with
  | .error e => pure (some e)
  | .ok key =>
    match ← unref (xssMutexLockDeadline deadline) with
    | some e => pure (some e)
    | none =>
      let r ← get
      match ← unref (Wp.lift (keyToWatcher key (strBytes token) none (linkedWatches r.shared))) with
      | some entry =>
        removeWatchEntry entry.id
        pure none
      | none => pure none

abbrev Erases {α : Type} (x : RefM α) (y : SrvM α) : Prop :=
  Agree (fun (r : WatchRegistry) (s : Shared) => r.shared = s) Eq x y

theorem erases_unref {α : Type} (x : SrvM α) : Erases (unref x) x := by
  rintro r _ rfl
  unfold unref
  cases x r.shared with
  | error e => rfl
  | ok a => exact ⟨rfl, rfl⟩

theorem erases_count {α : Type} {count : RefM Unit} {x : RefM α} {y : SrvM α}
    (h : ∀ r, ∃ r', count r = .ok ((), r') ∧ r'.shared = r.shared) (hxy : Erases x y) :
    Erases (count >>= fun _ => x) y := by
  rintro r _ rfl
  obtain ⟨r', hcount, hshared⟩ := h r
  have hrun := hxy r' r.shared hshared
  simpa only [bind, StateT.bind, Except.bind, hcount] using hrun

theorem erases_queuePending (watch : WatchEntry) (domid : UInt32) (path : CString)
    (deadline : Deadline) :
    Erases (queuePendingRef watch domid path deadline)
      (queuePendingWatchEvent watch domid path deadline) := by
  unfold queuePendingRef queuePendingWatchEvent
  refine (erases_unref _).bind_eq fun _ => .ite (fun _ => .pure rfl) fun _ => ?_
  refine (erases_unref _).bind_eq fun _ => .ite (fun _ => .pure rfl) fun _ => ?_
  refine erases_count (fun _ => ⟨_, rfl, rfl⟩) ((erases_unref _).bind_eq fun locked => ?_)
  cases locked with
  | some e => exact erases_count (fun _ => ⟨_, rfl, rfl⟩) (.pure rfl)
  | none => exact (Agree.modify fun r s hr => by rw [← hr]).bind_eq fun _ => .pure rfl

theorem erases_queueLocal (localEvents : List Nat) (entry : WatchEntry) (path : CString) :
    Erases (queueLocalRef localEvents entry path)
      (queueLocalWatchEventLocked localEvents entry path) := by
  unfold queueLocalRef queueLocalWatchEventLocked
  refine .ite (fun _ => .pure rfl) fun _ => (erases_unref _).bind_eq fun _ =>
    .ite (fun _ => .pure rfl) fun _ => erases_count (fun _ => ⟨_, rfl, rfl⟩) ?_
  refine .ite (fun _ => .throw _) fun _ => (erases_unref _).bind_eq fun _ => ?_
  exact erases_count (fun _ => ⟨_, rfl, rfl⟩) (.pure rfl)

theorem erases_dispatch (ids : List Nat) :
    Erases (dispatchRef ids) (dispatchLocalWatchEventsLocked ids) := by
  induction ids with
  | nil => exact .pure rfl
  | cons id rest ih =>
    exact (erases_unref _).bind_eq fun _ => erases_count (fun _ => ⟨_, rfl, rfl⟩) ih

theorem erases_queueWatchRounds (path : CString) (recursiveRemove : Bool) (deadline : Deadline)
    (iters : List WatchEntry) (localEvents : List Nat) :
    Erases (queueWatchRounds path recursiveRemove deadline iters localEvents)
      (queueWatchLoop path recursiveRemove deadline iters localEvents) := by
  induction iters generalizing localEvents with
  | nil => exact .pure rfl
  | cons iter rest ih =>
    unfold queueWatchRounds queueWatchRound queueWatchLoop
    cases watchEventPath iter path recursiveRemove with
    | none => exact ih localEvents
    | some eventPath =>
      simp only [bind_assoc]
      refine Agree.get.bind fun r s hr => ?_
      subst hr
      refine (erases_unref _).bind_eq fun entry => ?_
      cases entry with
      | none => exact ih localEvents
      | some entry =>
        cases iter.domain with
        | none =>
          simp only
          split
          · exact .throw _
          · simp only [bind_assoc]
            exact (erases_queueLocal _ _ _).bind_eq fun r => ih r.2
        | some domid =>
          simp only [bind_assoc]
          refine (erases_queuePending iter domid eventPath deadline).bind_eq fun rc => ?_
          cases rc with
          | none => exact ih localEvents
          | some e => cases e <;> exact .pure rfl

theorem erases_findOrAddWatch (x : Xenstore) (path : CString) (token : Bytes) (isRelative : Bool) :
    Erases (do
        match ← lookWatch x.domid path token isRelative with
        | some wentry => pure (some wentry)
        | none => createWatch x.domid path token isRelative)
      (findOrAddWatch x path token isRelative) := by
  unfold lookWatch createWatch insertWatch addWatch findOrAddWatch
  simp only [bind_assoc]
  refine Agree.get.bind fun r s hr => ?_
  subst hr
  refine (erases_unref _).bind_eq fun found => ?_
  cases found with
  | some wentry =>
    simp only [bind_assoc, pure_bind]
    exact (erases_unref _).bind_eq fun _ => .pure rfl
  | none =>
    simp only [pure_bind]
    refine (erases_unref _).bind_eq fun _ => .ite (fun _ => .pure rfl) fun _ => ?_
    refine (erases_unref _).bind_eq fun _ => .ite (fun _ => .pure rfl) fun _ => ?_
    refine (erases_unref _).bind_eq fun _ => .ite (fun _ => .pure rfl) fun _ => ?_
    rintro r _ rfl
    exact ⟨rfl, rfl⟩

end Xenlib
