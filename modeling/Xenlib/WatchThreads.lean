import Xenlib.WatchRefs
import Xenlib.Lib.Machine

/-!
The watches of all domains as the threads of the server see them. A step is what a thread does
under a mutex. A thread that goes over the watches holds `wel_mutex` from the first round of its
loop to the last, and while it does only sections that need neither `wel_mutex` nor `xsel_mutex`
can run in between.
-/

set_option autoImplicit false

namespace Xenlib

open Wp

/-- A thread between two rounds of the loop of `queue_watch_notifications_xsel_locked`. -/
structure Scan where
  path : CString
  deadline : Deadline
  /-- The node that `xss_do_rm_deadline` frees after the loop. -/
  entry : Option EntryRef
  rest : List WatchEntry
  localEvents : List Nat

/-- Where the thread of a guest is. A registration keeps how many events had been queued when
it began. -/
inductive GuestPc where
  | idle
  /-- XS_WATCH found no watch and will make one. -/
  | looked (path : CString) (token : Bytes) (isRelative : Bool) (began : Nat)
  /-- XS_WATCH has its watch and will send the first event. -/
  | inserted (watch : WatchEntry) (path : CString) (began : Nat)
  /-- XS_WATCH is done. -/
  | registered (watch : Nat) (path : CString) (began : Nat)
  /-- `cleanup_domain_watches` has unlinked the watches. -/
  | cleaning
  deriving DecidableEq, Repr

/-- A call of `xs_watch_timeout` on its way. -/
structure LocalCallArgs where
  path : CString
  key : CString
  token : CString
  deadline : Deadline
  fireInitialEvent : Bool
  began : Nat
  deriving DecidableEq, Repr

inductive LocalPc where
  | idle
  | checked (call : LocalCallArgs)
  | looked (call : LocalCallArgs)
  | registered (watch : Nat) (key : CString) (began : Nat)
  deriving DecidableEq, Repr

structure WatchServer where
  registry : WatchRegistry
  scan : Option Scan
  /-- The local watches whose callbacks are still to be called. -/
  dispatching : List Nat
  /-- The local watches whose callbacks have not returned. -/
  calling : List Nat
  guest : UInt32 → GuestPc
  client : UInt32 → Xenstore
  /-- The threads of Dom0. -/
  localThread : Nat → LocalPc

def Xenstore.events (x : Xenstore) : List Message := x.queued.filter fun m => m.type = .watchEvent

inductive WatchAction where
  /-- `notify_watchers_deadline` takes its mutexes. -/
  | notify (path : CString) (deadline : Deadline)
  /-- `xss_do_rm_deadline` takes its mutexes and finds its node. -/
  | remove (key : CString) (callerId : UInt32) (deadline : Deadline)
  /-- One round of the loop over the watches, or its end. -/
  | round
  /-- The next local callback is called. -/
  | callback
  | callbackReturned
  /-- The three sections of XS_WATCH. -/
  | look (domid : UInt32) (path : CString) (token : Bytes) (isRelative : Bool)
  | insert (domid : UInt32)
  | initial (domid : UInt32)
  | unwatch (domid : UInt32) (path : CString) (token : Bytes)
  /-- The two sections of `cleanup_domain_watches`. -/
  | cleanupWatches (domid : UInt32)
  | cleanupEvents (domid : UInt32)
  | process (domid : UInt32)
  /-- Whatever else the thread of the domain does with its client: read and answer requests,
  write to the ring. -/
  | client (domid : UInt32) (x : Xenstore)
  /-- Any thread writes a node. -/
  | write (path : CString) (data : Option CString) (domid : UInt32) (perms : List XsPermEntry)
      (deadline : Deadline)
  /-- Any other section that changes the tree. -/
  | store (root : XsEntry)
  /-- The three sections of `xs_watch_timeout`. -/
  | localCheck (thread : Nat) (path token : CString) (deadline : Deadline)
  | localLook (thread : Nat)
  | localInsert (thread : Nat)
  | localUnwatch (path token : CString) (deadline : Deadline)

def beginScan (path : CString) (entry : Option EntryRef) (deadline : Deadline) :
    RefM (Option Scan) := do
  match ← unref (xssMutexLockDeadline deadline) with
  | some _ => pure none
  | none =>
    let r ← get
    pure (some ⟨path, deadline, entry, linkedWatches r.shared, []⟩)

def beginNotify (path : CString) (deadline : Deadline) : RefM (Option Scan) := do
  match ← unref (xssMutexLockDeadline deadline) with
  | some _ => pure none
  | none =>
    match ← unref (xssMutexLockDeadline deadline) with
    | some _ => pure none
    | none => beginScan path none deadline

def beginRemove (key : CString) (callerId : UInt32) (deadline : Deadline) :
    RefM (Option Scan) := do
  match ← unref (xssMutexLockDeadline deadline) with
  | some _ => pure none
  | none =>
    match ← unref (xssMutexLockDeadline deadline) with
    | some _ => pure none
    | none =>
      let r ← get
      match ← unref (alloc (keyToEntryCheckPerm r.shared.root key callerId .write)) with
      | none => pure none
      | some entry => beginScan key (some entry) deadline

def endScan (scan : Scan) (rc : Option Errno) : SrvM Unit :=
  match rc, scan.entry with
  | none, some entry => freeEntry entry
  | _, _ => pure ()

/-- One round. At the end the scan is gone and its local events are left to dispatch. -/
def scanRound (scan : Scan) : RefM (Option Scan × List Nat) := do
  match scan.rest with
  | [] =>
    unref (endScan scan none)
    pure (none, scan.localEvents)
  | iter :: rest =>
    match ← queueWatchRound scan.path scan.entry.isSome scan.deadline iter scan.localEvents with
    | .next localEvents => pure (some { scan with rest := rest, localEvents := localEvents }, [])
    | .stop rc localEvents =>
      unref (endScan scan rc)
      pure (none, localEvents)

namespace WatchServer

def enter {α : Type} (s : WatchServer) (x : RefM α) (k : α → WatchServer) : Option WatchServer :=
  match x s.registry with
  | .ok (a, r) => some { k a with registry := r }
  | .error _ => none

/-- Run a section under `wel_mutex` or `xsel_mutex`. -/
def enterLocked {α : Type} (s : WatchServer) (x : RefM α) (k : α → WatchServer) :
    Option WatchServer :=
  if s.scan.isSome then none else s.enter x k

def setGuest (s : WatchServer) (domid : UInt32) (pc : GuestPc) : WatchServer :=
  { s with guest := Function.update s.guest domid pc }

def setLocal (s : WatchServer) (thread : Nat) (pc : LocalPc) : WatchServer :=
  { s with localThread := Function.update s.localThread thread pc }

def setClient (s : WatchServer) (domid : UInt32) (x : Xenstore) : WatchServer :=
  { s with client := Function.update s.client domid x }

/-- The thread of the domain is not in the middle of an operation. -/
def ready (s : WatchServer) (domid : UInt32) : Bool :=
  match s.guest domid with
  | .idle | .registered _ _ _ => true
  | _ => false

def localReady (s : WatchServer) (thread : Nat) : Bool :=
  match s.localThread thread with
  | .idle | .registered _ _ _ => true
  | _ => false

def now (s : WatchServer) : Nat := s.registry.told.length

def stepScan (s : WatchServer) (scan : Scan) : Option WatchServer :=
  s.enter (scanRound scan) fun r =>
    { s with scan := r.1, dispatching := r.2 ++ s.dispatching }

def stepLook (s : WatchServer) (domid : UInt32) (path : CString) (token : Bytes)
    (isRelative : Bool) : Option WatchServer :=
  if !s.ready domid then none
  else s.enterLocked (lookWatch domid path token isRelative) fun found =>
    match found with
    | some wentry => s.setGuest domid (.inserted wentry path s.now)
    | none => s.setGuest domid (.looked path token isRelative s.now)

def stepInsert (s : WatchServer) (domid : UInt32) : Option WatchServer :=
  match s.guest domid with
  | .looked path token isRelative began =>
    s.enterLocked (createWatch domid path token isRelative) fun made =>
      match made with
      | some wentry => s.setGuest domid (.inserted wentry path began)
      | none => s.setGuest domid .idle
  | _ => none

def stepInitial (s : WatchServer) (domid : UInt32) : Option WatchServer :=
  match s.guest domid with
  | .inserted wentry path began =>
    s.enterLocked (initialEvent wentry domid path) fun _ =>
      s.setGuest domid (.registered wentry.id path began)
  | _ => none

def stepCleanupEvents (s : WatchServer) (domid : UInt32) : Option WatchServer :=
  match s.guest domid with
  | .cleaning => s.enter (cleanupEvents domid) fun _ => s.setGuest domid .idle
  | _ => none

def checkPath (path : CString) (deadline : Deadline) : RefM (Except Errno (CString × Bool)) := do
  match ← unref (alloc (constructPath path 0)) with
  | .error e => pure (.error e)
  | .ok key =>
    match ← checkLocal key deadline with
    | .error e => pure (.error e)
    | .ok fire => pure (.ok (key, fire))

def stepLocalCheck (s : WatchServer) (thread : Nat) (path token : CString) (deadline : Deadline) :
    Option WatchServer :=
  if !s.localReady thread then none
  else s.enterLocked (checkPath path deadline) fun r =>
    match r with
    | .error _ => s.setLocal thread .idle
    | .ok (key, fire) => s.setLocal thread (.checked ⟨path, key, token, deadline, fire, s.now⟩)

def stepLocalLook (s : WatchServer) (thread : Nat) : Option WatchServer :=
  match s.localThread thread with
  | .checked call =>
    s.enterLocked (lookLocalDeadline call.key call.token call.deadline) fun rc =>
      match rc with
      | some _ => s.setLocal thread .idle
      | none => s.setLocal thread (.looked call)
  | _ => none

def stepLocalInsert (s : WatchServer) (thread : Nat) : Option WatchServer :=
  match s.localThread thread with
  | .looked call =>
    s.enterLocked (createLocal call.path call.key call.token (!xenstoreIsAbsPath call.path)
        call.fireInitialEvent call.deadline) fun r =>
      match r with
      | .error _ => s.setLocal thread .idle
      | .ok (wentry, localEvents) =>
        { s.setLocal thread (.registered wentry.id call.key call.began) with
          dispatching := localEvents ++ s.dispatching }
  | _ => none

def step (s : WatchServer) : WatchAction → Option WatchServer
  | .notify path deadline =>
    s.enterLocked (beginNotify path deadline) fun scan => { s with scan := scan }
  | .remove key callerId deadline =>
    s.enterLocked (beginRemove key callerId deadline) fun scan => { s with scan := scan }
  | .round =>
    match s.scan with
    | some scan => s.stepScan scan
    | none => none
  | .callback =>
    match s.dispatching with
    | id :: rest =>
      s.enterLocked (unref (dispatchLocalWatchEvent id)) fun _ =>
        { s with dispatching := rest, calling := id :: s.calling }
    | [] => none
  | .callbackReturned =>
    match s.calling with
    | id :: rest => s.enterLocked (watchEntryPut id) fun _ => { s with calling := rest }
    | [] => none
  | .look domid path token isRelative => s.stepLook domid path token isRelative
  | .insert domid => s.stepInsert domid
  | .initial domid => s.stepInitial domid
  | .unwatch domid path token =>
    if !s.ready domid then none
    else s.enterLocked (removeWatch domid path token) fun _ => s.setGuest domid .idle
  | .cleanupWatches domid =>
    if !s.ready domid then none
    else s.enterLocked (cleanupWatches domid) fun _ => s.setGuest domid .cleaning
  | .cleanupEvents domid => s.stepCleanupEvents domid
  | .process domid =>
    if !s.ready domid then none
    else s.enterLocked (processPending (s.client domid)) fun x => s.setClient domid x
  | .client domid x =>
    if x.domid = domid ∧ x.events = (s.client domid).events then some (s.setClient domid x)
    else none
  | .write path data domid perms deadline =>
    s.enterLocked (unref (xssDoWriteDeadline path data domid perms deadline)) fun _ => s
  | .store root =>
    s.enterLocked (unref (modify fun sh => { sh with root := root })) fun _ => s
  | .localCheck thread path token deadline => s.stepLocalCheck thread path token deadline
  | .localLook thread => s.stepLocalLook thread
  | .localInsert thread => s.stepLocalInsert thread
  | .localUnwatch path token deadline =>
    s.enterLocked (removeLocal path token deadline) fun _ => s

structure Start (s : WatchServer) : Prop where
  watches : s.registry.shared.watches = []
  pending : s.registry.shared.pendingWatchEventList = []
  destroyed : s.registry.destroyed = []
  queued : s.registry.queued = []
  told : s.registry.told = []
  taken : s.registry.taken = []
  scan : s.scan = none
  dispatching : s.dispatching = []
  calling : s.calling = []
  guest : ∀ domid, s.guest domid = .idle
  localThread : ∀ thread, s.localThread thread = .idle
  client : ∀ domid, (s.client domid).domid = domid ∧ (s.client domid).events = []

def fresh (shared : Shared) : WatchServer where
  registry :=
    ⟨{ shared with watches := [], pendingWatchEventList := [] }, fun _ => 0, [], [], [], []⟩
  scan := none
  dispatching := []
  calling := []
  guest := fun _ => .idle
  client := fun domid =>
    Xenstore.started domid ⟨fun _ => 0, fun _ => 0, 0, 0, 0, 0⟩ 0 fun _ => 0
  localThread := fun _ => .idle

theorem fresh_start (shared : Shared) : (fresh shared).Start :=
  ⟨rfl, rfl, rfl, rfl, rfl, rfl, rfl, rfl, rfl, fun _ => rfl, fun _ => rfl, fun _ => ⟨rfl, rfl⟩⟩

end WatchServer

end Xenlib
