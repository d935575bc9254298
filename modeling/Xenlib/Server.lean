import Xenlib.Entry

/-!
The state all threads of the server share, watch notification, and the functions Dom0
calls directly. Functions that take a lock and run to its release are one step here.
Local callbacks are user code: dispatching an event records the call, and what the
callback does next are calls of its own.
-/

set_option autoImplicit false

namespace Xenlib

/-- A watch. `linked` tells whether it is on `watch_entry_list`; an unlinked watch lives on
for the events that still point to it. -/
structure WatchEntry where
  id : Nat
  key : CString
  /-- The block of memory the token was copied to. -/
  token : Bytes
  /-- The watching guest, or none for a client inside the control domain. -/
  domain : Option UInt32
  isRelative : Bool
  linked : Bool
  pendingPath : Option CString
  deriving DecidableEq, Repr

structure PendingWatchEvent where
  eventPath : CString
  watch : Nat
  domain : UInt32
  deriving DecidableEq, Repr

structure LocalCall where
  watch : Nat
  path : CString
  token : Bytes
  deriving DecidableEq, Repr

structure Shared where
  root : XsEntry
  watches : List WatchEntry
  pendingWatchEventList : List PendingWatchEvent
  usedThreads : UInt32
  /-- `CONFIG_DOMU_MAX`. -/
  domuMax : Nat
  /-- Outcomes of the allocations to come; past the end of the list all succeed. -/
  allocs : List Bool
  /-- Outcomes of the lock attempts to come that have a deadline. -/
  locks : List Bool
  /-- The calls made to local watch callbacks. -/
  calls : List LocalCall

abbrev SrvM := Wp.Prog Shared Fault

/-- The static data of the server before `xs_init_root`. -/
def Shared.boot (domuMax : Nat) : Shared :=
  ⟨⟨⟨none, []⟩, .nil⟩, [], [], 0, domuMax, [], [], []⟩

inductive Deadline where
  | forever | timed
  deriving DecidableEq, Repr

def alloc {α : Type} (x : AllocM α) : SrvM α := fun s =>
  match x s.allocs with
  | .ok (a, rest) => .ok (a, { s with allocs := rest })
  | .error e => .error e

def xssMutexLockDeadline (deadline : Deadline) : SrvM (Option Errno) := fun s =>
  match deadline, s.locks with
  | .timed, false :: rest => .ok (some .etimedout, { s with locks := rest })
  | .timed, true :: rest => .ok (none, { s with locks := rest })
  | _, _ => .ok (none, s)

def xsInitRoot : SrvM (Option Errno) := do
  let (rc, node) ← alloc (setPermsByArray ⟨none, []⟩ [⟨0, .none⟩])
  modify fun s => { s with root := ⟨node, .nil⟩ }
  pure rc

def xssDoWriteDeadline (constPath : CString) (data : Option CString) (domid : UInt32)
    (perms : List XsPermEntry) (deadline : Deadline) : SrvM (Option Errno) := do
  if !(← alloc kMalloc) then pure (some .enomem)
  else match ← xssMutexLockDeadline deadline with
    | some e => pure (some e)
    | none =>
      let s ← get
      let (rc, root) ← alloc (writeTree constPath data domid perms s.root)
      modify fun s => { s with root := root }
      pure rc

/-- `free_node`. The root node is in no list, so `sys_dlist_remove` goes through its null links. -/
def freeEntry (entry : EntryRef) : SrvM Unit :=
  if entry.path = [] then throw .unlinkedNode
  else modify fun s => { s with root := freeNode s.root entry }

def removeRefEntries (domid : UInt32) : SrvM Unit := do
  let s ← get
  let children ← Wp.lift (removeRefEntriesRecursive domid s.root.children)
  modify fun s => { s with root := { s.root with children := children } }

def setPendingPath (id : Nat) (path : Option CString) (s : Shared) : Shared :=
  { s with watches := s.watches.map fun w =>
    if w.id = id then { w with pendingPath := path } else w }

/-- The token test of `key_to_watcher`: an empty token matches every watch. -/
def tokenMatches (token block : Bytes) : Except Fault Bool :=
  match readStr token with
  | .error e => .error e
  | .ok [] => .ok true
  | .ok t =>
    match readStr block with
    | .error e => .error e
    | .ok u => .ok (u = t)

/-- The first watch of `domain` on `key` with this token. The token is read only where the
domain and the key fit. -/
def keyToWatcher (key : CString) (token : Bytes) (domain : Option UInt32) :
    List WatchEntry → Except Fault (Option WatchEntry)
  | [] => .ok none
  | iter :: rest =>
    if iter.domain = domain && iter.key = key then
      match tokenMatches token iter.token with
      | .error e => .error e
      | .ok true => .ok (some iter)
      | .ok false => keyToWatcher key token domain rest
    else keyToWatcher key token domain rest

def queueLocalWatchEventLocked (localEvents : List Nat) (entry : WatchEntry) (path : CString) :
    SrvM (Option Errno × List Nat) := do
  if entry.domain.isSome then pure (some .einval, localEvents)
  else if !(← alloc kMalloc) then pure (some .enomem, localEvents)
  else if entry.pendingPath.isSome then throw .assertion
  else
    modify (setPendingPath entry.id (some path))
    pure (none, localEvents ++ [entry.id])

/-- Take one event off the list and call its callback. The pending path is cleared first, so
that the callback can queue the next event of its own watch. -/
def dispatchLocalWatchEvent (id : Nat) : SrvM Unit :=
  modify fun s =>
    { setPendingPath id none s with
      calls := s.calls ++ (s.watches.filter (·.id = id)).flatMap fun w =>
        w.pendingPath.toList.map fun path => ⟨id, path, w.token⟩ }

def dispatchLocalWatchEventsLocked : List Nat → SrvM Unit
  | [] => pure ()
  | id :: rest => do
    dispatchLocalWatchEvent id
    dispatchLocalWatchEventsLocked rest

def queuePendingWatchEvent (watch : WatchEntry) (domid : UInt32) (path : CString)
    (deadline : Deadline) : SrvM (Option Errno) := do
  if !(← alloc kMalloc) then pure (some .enomem)
  else if !(← alloc kMalloc) then pure (some .enomem)
  else match ← xssMutexLockDeadline deadline with
    | some e => pure (some e)
    | none =>
      modify fun s => { s with
        pendingWatchEventList := s.pendingWatchEventList ++ [⟨path, watch.id, domid⟩] }
      pure none

/-- The path a watch is told about, if the change concerns it. -/
def watchEventPath (iter : WatchEntry) (path : CString) (recursiveRemove : Bool) :
    Option CString :=
  if xenstorePathContains iter.key path then some path
  else if recursiveRemove && xenstorePathContains path iter.key then some iter.key
  else none

def queueWatchLoop (path : CString) (recursiveRemove : Bool) (deadline : Deadline) :
    List WatchEntry → List Nat → SrvM (Option Errno × List Nat)
  | [], localEvents => pure (none, localEvents)
  | iter :: rest, localEvents => do
    match watchEventPath iter path recursiveRemove with
    | none => queueWatchLoop path recursiveRemove deadline rest localEvents
    | some eventPath =>
      let s ← get
      match ← alloc (keyToEntryCheckPerm s.root eventPath (iter.domain.getD 0) .read) with
      | none => queueWatchLoop path recursiveRemove deadline rest localEvents
      | some _ =>
        match iter.domain with
        | none =>
          let locLen := (localDomainPath 0).length
          if iter.isRelative && eventPath.length < locLen then throw .outOfBounds
          else
            let (_, localEvents) ← queueLocalWatchEventLocked localEvents iter
              (if iter.isRelative then eventPath.drop locLen else eventPath)
            queueWatchLoop path recursiveRemove deadline rest localEvents
        | some domid =>
          match ← queuePendingWatchEvent iter domid eventPath deadline with
          | none => queueWatchLoop path recursiveRemove deadline rest localEvents
          | some .enomem => pure (none, localEvents)
          | some e => pure (some e, localEvents)

/-- `watch_entry_list`. -/
def linkedWatches (s : Shared) : List WatchEntry := s.watches.filter (·.linked)

def queueWatchNotificationsXselLocked (path : CString) (recursiveRemove : Bool)
    (deadline : Deadline) : SrvM (Option Errno × List Nat) := do
  match ← xssMutexLockDeadline deadline with
  | some e => pure (some e, [])
  | none =>
    let s ← get
    queueWatchLoop path recursiveRemove deadline (linkedWatches s) []

/-- `notify_watchers_deadline` up to the dispatch of the queued local events. -/
def notifyWatchersLocked (path : CString) (deadline : Deadline) :
    SrvM (Option Errno × List Nat) := do
  match ← xssMutexLockDeadline deadline with
  | some e => pure (some e, [])
  | none =>
    match ← xssMutexLockDeadline deadline with
    | some e => pure (some e, [])
    | none => queueWatchNotificationsXselLocked path false deadline

def notifyWatchersDeadline (path : CString) (deadline : Deadline) : SrvM (Option Errno) := do
  let (rc, localEvents) ← notifyWatchersLocked path deadline
  dispatchLocalWatchEventsLocked localEvents
  pure rc

def notifyWatchers (path : CString) : SrvM Unit := do
  let _ ← notifyWatchersDeadline path .forever
  pure ()

/-- `xss_do_rm_deadline` up to the dispatch of the queued local events. -/
def xssDoRmLocked (key : CString) (callerId : UInt32) (deadline : Deadline) :
    SrvM (Option Errno × List Nat) := do
  match ← xssMutexLockDeadline deadline with
  | some e => pure (some e, [])
  | none =>
    match ← xssMutexLockDeadline deadline with
    | some e => pure (some e, [])
    | none =>
      let s ← get
      match ← alloc (keyToEntryCheckPerm s.root key callerId .write) with
      | none => pure (some .einval, [])
      | some entry =>
        match ← queueWatchNotificationsXselLocked key true deadline with
        | (some e, localEvents) => pure (some e, localEvents)
        | (none, localEvents) =>
          freeEntry entry
          pure (none, localEvents)

def xssDoRmDeadline (key : CString) (callerId : UInt32) (deadline : Deadline) :
    SrvM (Option Errno) := do
  let (rc, localEvents) ← xssDoRmLocked key callerId deadline
  dispatchLocalWatchEventsLocked localEvents
  pure rc

def xssWriteWith (path value : Option CString) (perms : List XsPermEntry) :
    SrvM (Option Errno) := do
  match path, value with
  | some path, some value =>
    match ← xssDoWriteDeadline path (some value) 0 perms .forever with
    | some e => pure (some e)
    | none =>
      notifyWatchers path
      pure none
  | _, _ => pure (some .einval)

def xssWrite (path value : Option CString) : SrvM (Option Errno) :=
  xssWriteWith path value [⟨0, .none⟩]

def xssWriteGuestDomainRw (path value : Option CString) (domid : UInt32) : SrvM (Option Errno) :=
  xssWriteWith path value [⟨domid.toUInt16, .none⟩]

def xssWriteGuestDomainRo (path value : Option CString) (domid : UInt32) : SrvM (Option Errno) :=
  xssWriteWith path value
    (if domid = 0 then [⟨0, .none⟩] else [⟨0, .none⟩, ⟨domid.toUInt16, .read⟩])

def xssWriteGuestWithPermissions (path value : Option CString) (domid1 domid2 : UInt32) :
    SrvM (Option Errno) :=
  xssWriteWith path value [⟨domid1.toUInt16, .none⟩, ⟨domid2.toUInt16, .read⟩]

/-- Replace the permissions of the node at a path that `key_to_entry_check_perm` finds. -/
def setEntryPerms (path : CString) (perms : List XsPermEntry) : SrvM (Option Errno) := do
  let s ← get
  match ← alloc (keyToEntryCheckPerm s.root path 0 .none) with
  | none => pure (some .enoent)
  | some entry =>
    let (rc, node) ← alloc (setPermsByArray entry.entry.label perms)
    modify fun s => { s with root := s.root.modify (fun _ => node) entry.path }
    pure rc

def xssSetPerm (path : Option CString) (domid : UInt16) (perm : XsPerm) : SrvM (Option Errno) :=
  match path with
  | none => pure (some .enoent)
  | some path => setEntryPerms path [⟨domid, perm⟩]

def xssRm (path : Option CString) : SrvM (Option Errno) :=
  match path with
  | none => pure (some .einval)
  | some path => xssDoRmDeadline path 0 .forever

/-- The shape of the `xs_*_timeout` calls: check the arguments, resolve the path, run. -/
def xsWithPath (path : Option CString) (txId : UInt32) (body : CString → SrvM (Option Errno)) :
    SrvM (Option Errno) := do
  match path with
  | none => pure (some .einval)
  | some path =>
    if txId ≠ 0 then pure (some .enotsup)
    else match ← alloc (constructPath path 0) with
      | .error e => pure (some e)
      | .ok localPath => body localPath

/-- Write and notify, up to the dispatch of the queued local events. -/
def writeNotifyLocked (path : CString) (value : CString) (deadline : Deadline) :
    SrvM (Option Errno × List Nat) := do
  match ← xssDoWriteDeadline path (some value) 0 [⟨0, .none⟩] deadline with
  | some e => pure (some e, [])
  | none => notifyWatchersLocked path deadline

def writeNotifyDeadline (path : CString) (value : CString) (deadline : Deadline) :
    SrvM (Option Errno) := do
  let (rc, localEvents) ← writeNotifyLocked path value deadline
  dispatchLocalWatchEventsLocked localEvents
  pure rc

def xsWriteTimeout (path value : Option CString) (txId : UInt32) (deadline : Deadline) :
    SrvM (Option Errno) :=
  match value with
  | none => pure (some .einval)
  | some value => xsWithPath path txId fun localPath => writeNotifyDeadline localPath value deadline

def xsMkdirTimeout (path : Option CString) (txId : UInt32) (deadline : Deadline) :
    SrvM (Option Errno) :=
  xsWithPath path txId fun localPath => writeNotifyDeadline localPath [] deadline

def xsRmTimeout (path : Option CString) (txId : UInt32) (deadline : Deadline) :
    SrvM (Option Errno) :=
  xsWithPath path txId fun localPath => xssDoRmDeadline localPath 0 deadline

def xsSetPermissionsTimeout (path : Option CString) (perms : List XsPermEntry) (txId : UInt32)
    (deadline : Deadline) : SrvM (Option Errno) :=
  if perms = [] then pure (some .einval)
  else xsWithPath path txId fun localPath => do
    match ← xssMutexLockDeadline deadline with
    | some e => pure (some e)
    | none => setEntryPerms localPath perms

end Xenlib
