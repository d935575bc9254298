import Xenlib.Client

/-!
The fourteen request handlers, `process_message`, and the delivery of watch events to a
guest. A payload is the list of the `len` bytes that follow the header.
-/

set_option autoImplicit false

namespace Xenlib

abbrev Handler := Xenstore → UInt32 → Bytes → SrvM Xenstore

def okText : CString := ascii ['O', 'K']

/-- The start most handlers share: resolve the path at the head of the payload, or send the
error of `construct_path`. -/
def withPath (xenstore : Xenstore) (id : UInt32) (payload : Bytes)
    (body : CString → SrvM Xenstore) : SrvM Xenstore := do
  let text ← Wp.lift (readStr payload)
  match ← alloc (constructPath text xenstore.domid) with
  | .error e => sendErrno xenstore id e
  | .ok path => body path

def handleDirectory : Handler := fun xenstore id payload =>
  withPath xenstore id payload fun path => do
    let s ← get
    match ← alloc (keyToEntry s.root path) with
    | none => sendErrno xenstore id .enoent
    | some entry =>
      if !(← Wp.lift (checkPermsForEntry (some entry) xenstore.domid .read)) then
        sendErrno xenstore id .eacces
      else if !(← alloc kMalloc) then sendErrno xenstore id .enomem
      else sendReplySz xenstore id .directory (entry.entry.children.keys.flatMap strBytes)

/-- The value behind the path, or nothing when the payload ends with the path. The last byte
is dropped when it is a NUL. -/
def constructData (payload : Bytes) (pathLen : Nat) : AllocM (Except Errno (Option CString)) := do
  if pathLen = payload.length then pure (.ok none)
  else if !(← kMalloc) then pure (.error .enomem)
  else
    let data := payload.drop pathLen
    pure (.ok (some (strHead (if payload.getLast? = some 0 then data.dropLast else data))))

/-- `_handle_write`. -/
def handleWriteAs (msgType : XsdSockmsgType) : Handler := fun xenstore id payload => do
  let text ← Wp.lift (readStr payload)
  let pathLen := xenstoreStrByteSize (some text)
  if payload.length < pathLen then sendErrno xenstore id .einval
  else match ← alloc (constructPath text xenstore.domid) with
    | .error e => sendErrno xenstore id e
    | .ok path =>
      match ← alloc (constructData payload pathLen) with
      | .error e => sendErrno xenstore id e
      | .ok data =>
        match ← xssDoWriteDeadline path data xenstore.domid [] .forever with
        | some e => sendErrno xenstore id e
        | none =>
          let xenstore ← sendReply xenstore id msgType okText
          notifyWatchers path
          pure xenstore

def handleWrite : Handler := handleWriteAs .write

def handleMkdir : Handler := handleWriteAs .mkdir

def handleControl : Handler := fun xenstore id _ => sendReply xenstore id .control okText

def serializePerms (entry : XsNode) : AllocM (Option Bytes) := do
  if !(← kMalloc) then pure none
  else pure (some (entry.perms.flatMap fun p =>
    strBytes (xenstorePermToWire p.perm :: decimal p.domid.toNat)))

def handleGetPerms : Handler := fun xenstore id payload =>
  withPath xenstore id payload fun path => do
    let s ← get
    match ← alloc (keyToEntryCheckPerm s.root path xenstore.domid .read) with
    | none => sendErrno xenstore id .enoent
    | some entry =>
      match ← alloc (serializePerms entry.entry.label) with
      | none => sendErrno xenstore id .enoent
      | some permStr => sendReplySz xenstore id .getPerms permStr

/-- The section of `handle_set_perms` under the lock, and the reply. The guard of the source is
`!entry && is_owner(entry, ..)`: without a node it reads the permissions of a NULL pointer,
with a node the owner is not looked at. -/
def setPermsOf (xenstore : Xenstore) (id : UInt32) (permString : Bytes) (path : CString) :
    SrvM Xenstore := do
  let s ← get
  match ← alloc (keyToEntryCheckPerm s.root path xenstore.domid .none) with
  | none => throw .nullEntry
  | some entry =>
    let (rc, node) ← alloc (setPermsByStrings entry.entry.label permString)
    modify fun s => { s with root := s.root.modify (fun _ => node) entry.path }
    match rc with
    | some e => sendErrno xenstore id e
    | none => sendReply xenstore id .setPerms okText

def handleSetPerms : Handler := fun xenstore id payload =>
  let permsOffset := strnlen payload + 1
  if payload.length ≤ permsOffset then sendErrno xenstore id .einval
  else withPath xenstore id payload (setPermsOf xenstore id (payload.drop permsOffset))

def handleRead : Handler := fun xenstore id payload =>
  withPath xenstore id payload fun path => do
    let s ← get
    match ← alloc (keyToEntryCheckPerm s.root path xenstore.domid .read) with
    | none => sendErrno xenstore id .enoent
    | some entry => sendReplyRead xenstore id .read (entry.entry.label.value.getD [])

/-- The path goes to `xss_do_rm` as it is, without `construct_path`. -/
def handleRm : Handler := fun xenstore id payload => do
  let key ← Wp.lift (readStr payload)
  match ← xssDoRmDeadline key xenstore.domid .forever with
  | some e => sendErrno xenstore id e
  | none => sendReplyRead xenstore id .rm []

/-- Every watch ever made stays in the list, so its length is the next free name. -/
def newWatch (s : Shared) (key : CString) (token : Bytes) (domid : UInt32) (isRelative : Bool) :
    WatchEntry :=
  ⟨s.watches.length, key, token, some domid, isRelative, true, none⟩

def findOrAddWatch (xenstore : Xenstore) (path : CString) (token : Bytes) (isRelative : Bool) :
    SrvM (Option WatchEntry) := do
  let s ← get
  match ← Wp.lift (keyToWatcher path token (some xenstore.domid) (linkedWatches s)) with
  | some wentry =>
    modify fun s => { s with
      watches := s.watches.map fun w =>
        if w.id = wentry.id then { w with isRelative := isRelative } else w }
    pure (some wentry)
  | none =>
    if !(← alloc kMalloc) then pure none
    else if !(← alloc kMalloc) then pure none
    else if !(← alloc kMalloc) then pure none
    else
      let s ← get
      let wentry := newWatch s path token xenstore.domid isRelative
      set { s with watches := s.watches ++ [wentry] }
      pure (some wentry)

def handleWatch : Handler := fun xenstore id payload => do
  let pathIsRelative : Bool := payload.head? ≠ some slash.val
  let pathLen := strnlen payload + 1
  if (if pathIsRelative then xenstoreRelPathMax else xenstoreAbsPathMax) < pathLen then
    sendErrno xenstore id .e2big
  else withPath xenstore id payload fun path => do
    match ← findOrAddWatch xenstore path (payload.drop pathLen) pathIsRelative with
    | none => sendErrno xenstore id .enomem
    | some wentry =>
      let xenstore ← sendReply xenstore id .watch okText
      let s ← get
      match ← alloc (keyToEntryCheckPerm s.root path xenstore.domid .read) with
      | none => pure xenstore
      | some _ =>
        let _ ← queuePendingWatchEvent wentry xenstore.domid path .forever
        pure xenstore

def handleUnwatch : Handler := fun xenstore id payload =>
  withPath xenstore id payload fun path => do
    let s ← get
    match ← Wp.lift (keyToWatcher path (payload.drop (strnlen payload + 1)) (some xenstore.domid)
        (linkedWatches s)) with
    | some entry =>
      modify fun s => { s with
        watches := s.watches.map fun w =>
          if w.id = entry.id then { w with linked := false } else w }
      sendReply xenstore id .unwatch []
    | none => sendReply xenstore id .unwatch []

def cleanupDomainWatches (domid : UInt32) : SrvM Unit :=
  modify fun s => { s with
    watches := s.watches.map fun w =>
      if w.domain = some domid then { w with linked := false } else w
    pendingWatchEventList := s.pendingWatchEventList.filter fun e => e.domain ≠ domid }

def handleResetWatches : Handler := fun xenstore id _ => do
  cleanupDomainWatches xenstore.domid
  sendReply xenstore id .resetWatches okText

def handleTransactionStart : Handler := fun xenstore id _ =>
  if xenstore.runningTransaction ≠ 0 then sendErrno xenstore id .ebusy
  else
    let xenstore := { xenstore with
      transaction := xenstore.transaction + 1, runningTransaction := xenstore.transaction + 1 }
    sendReply xenstore id .transactionStart (decimalInt xenstore.runningTransaction)

/-- The reply is sent by the loop of the thread. -/
def handleTransactionStop : Handler := fun xenstore id _ =>
  pure { xenstore with
    stopTransactionId := id, pendingStopTransaction := true, runningTransaction := 0 }

def handleGetDomainPath : Handler := fun xenstore id payload =>
  sendReply xenstore id .getDomainPath
    ((ascii ['/', 'l', 'o', 'c', 'a', 'l', '/', 'd', 'o', 'm', 'a', 'i', 'n', '/'] ++
      strHead payload).take (xenstoreMaxLocalpathLen - 1))

def xsdSockmsgTypes : List XsdSockmsgType :=
  [.control, .directory, .read, .getPerms, .watch, .unwatch, .transactionStart, .transactionEnd,
   .introduce, .release, .getDomainPath, .write, .mkdir, .rm, .setPerms, .watchEvent, .error,
   .isDomainIntroduced, .resume, .setTarget, .resetWatches, .directoryPart, .getFeature,
   .setFeature, .getQuota, .setQuota]

def messageHandleList : XsdSockmsgType → Option Handler
  | .control => some handleControl
  | .directory => some handleDirectory
  | .read => some handleRead
  | .getPerms => some handleGetPerms
  | .watch => some handleWatch
  | .unwatch => some handleUnwatch
  | .transactionStart => some handleTransactionStart
  | .transactionEnd => some handleTransactionStop
  | .getDomainPath => some handleGetDomainPath
  | .write => some handleWrite
  | .mkdir => some handleMkdir
  | .rm => some handleRm
  | .setPerms => some handleSetPerms
  | .resetWatches => some handleResetWatches
  | _ => none

/-- The entry of `message_handle_list` at a type value of the wire. -/
def messageHandle (type : UInt32) : Option Handler :=
  (xsdSockmsgTypes.find? fun t => t.code = type).bind messageHandleList

/-- After an unknown operation the input buffer is kept. -/
def processMessage (xenstore : Xenstore) : SrvM Xenstore := do
  match xenstore.input with
  | none => throw .nullInput
  | some inp =>
    let header := XsdSockmsg.ofBytes inp.buffer
    let payload := (inp.buffer.drop headerSize).take (inp.totalSize - headerSize)
    let xenstore := { xenstore with
      requests := xenstore.requests ++ [⟨header.type, header.reqId, payload⟩] }
    match messageHandle header.type with
    | none => sendErrno xenstore 0 .enosys
    | some h =>
      let xenstore ← h xenstore header.reqId payload
      match xenstore.input with
      | none => throw .nullInput
      | some _ => pure { xenstore with input := none }

def handleInput (xenstore : Xenstore) : SrvM Xenstore := do
  match ← inputHeader xenstore with
  | (xenstore, false) => pure xenstore
  | (xenstore, true) =>
    match ← inputPayload xenstore with
    | (xenstore, false) => pure xenstore
    | (xenstore, true) => processMessage xenstore

/-- The bytes of an event: the path, relative where the watch is, and the token. -/
def watchEventPayload (watch : WatchEntry) (eventPath : CString) (domid : UInt32) :
    Except Fault Bytes :=
  let locLen := (localDomainPath domid).length
  match readStr watch.token with
  | .error e => .error e
  | .ok token =>
    if watch.isRelative then
      if (strBytes eventPath).length < locLen then .error .outOfBounds
      else .ok ((strBytes eventPath).drop locLen ++ strBytes token)
    else .ok (strBytes eventPath ++ strBytes token)

def fireWatcher (xenstore : Xenstore) (event : PendingWatchEvent) :
    SrvM (Xenstore × Option Errno) := do
  let s ← get
  match s.watches.find? fun w => w.id = event.watch with
  | none => pure (xenstore, none)
  | some watch =>
    if !watch.linked then pure (xenstore, none)
    else if xenstoreMaxLocalpathLen ≤ (localDomainPath xenstore.domid).length then throw .assertion
    else if xenstore.usedOutBufs > xenstoreMaxOutBufNum - 1 then pure (xenstore, some .enomem)
    else
      let payload ← Wp.lift (watchEventPayload watch event.eventPath xenstore.domid)
      if !(← alloc kMalloc) then pure (xenstore, some .enomem)
      else
        let xenstore ← sendReplySz xenstore 0 .watchEvent payload
        pure (xenstore, none)

/-- Fire the events of the domain; the result keeps the events that stay pending. -/
def pendingWatchLoop : List PendingWatchEvent → Xenstore →
    SrvM (Xenstore × List PendingWatchEvent)
  | [], xenstore => pure (xenstore, [])
  | iter :: rest, xenstore => do
    if iter.domain ≠ xenstore.domid then
      let (xenstore, kept) ← pendingWatchLoop rest xenstore
      pure (xenstore, iter :: kept)
    else match ← fireWatcher xenstore iter with
      | (xenstore, some _) => pure (xenstore, iter :: rest)
      | (xenstore, none) => pendingWatchLoop rest xenstore

def processPendingWatchEvents (xenstore : Xenstore) : SrvM Xenstore := do
  let s ← get
  let (xenstore, kept) ← pendingWatchLoop s.pendingWatchEventList xenstore
  modify fun s => { s with pendingWatchEventList := kept }
  pure xenstore

end Xenlib
