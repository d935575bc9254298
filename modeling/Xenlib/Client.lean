import Xenlib.Server
import Xenlib.Ring

/-!
The service of one guest: its buffers, the reply functions, and the release of the service
by `stop_domain_stored`. Besides the fields of `struct xenstore` a client keeps a history
of what was dispatched, queued, written and released.
-/

set_option autoImplicit false

namespace Xenlib

def xenstorePayloadMax : Nat := 4096
def xenstoreMaxOutBufNum : Int := 100

/-- `enum xsd_sockmsg_type`. -/
inductive XsdSockmsgType where
  | control | directory | read | getPerms | watch | unwatch | transactionStart | transactionEnd
  | introduce | release | getDomainPath | write | mkdir | rm | setPerms | watchEvent | error
  | isDomainIntroduced | resume | setTarget | resetWatches | directoryPart | getFeature
  | setFeature | getQuota | setQuota
  deriving DecidableEq, Repr

def XsdSockmsgType.code : XsdSockmsgType → UInt32
  | .control => 0
  | .directory => 1
  | .read => 2
  | .getPerms => 3
  | .watch => 4
  | .unwatch => 5
  | .transactionStart => 6
  | .transactionEnd => 7
  | .introduce => 8
  | .release => 9
  | .getDomainPath => 10
  | .write => 11
  | .mkdir => 12
  | .rm => 13
  | .setPerms => 14
  | .watchEvent => 15
  | .error => 16
  | .isDomainIntroduced => 17
  | .resume => 18
  | .setTarget => 19
  | .resetWatches => 21
  | .directoryPart => 22
  | .getFeature => 23
  | .setFeature => 24
  | .getQuota => 25
  | .setQuota => 26

/-- `struct buffered_data`. The bytes of an input buffer are those read so far. -/
structure BufferedData where
  used : Nat
  totalSize : Nat
  buffer : Bytes
  deriving DecidableEq, Repr

/-- A message handed to `process_message`. -/
structure Request where
  type : UInt32
  reqId : UInt32
  payload : Bytes
  deriving DecidableEq, Repr

/-- A message put on `out_list`. `tx_id` is never assigned: it is what the stack held. -/
structure Message where
  type : XsdSockmsgType
  reqId : UInt32
  txId : UInt32
  payload : Bytes
  deriving DecidableEq, Repr

def Message.bytes (m : Message) : Bytes :=
  XsdSockmsg.bytes ⟨m.type.code, m.reqId, m.txId, UInt32.ofNat m.payload.length⟩ ++ m.payload

structure Xenstore where
  domid : UInt32
  domint : XenstoreDomainInterface
  mapped : Bool
  /-- The field `in`. -/
  input : Option BufferedData
  outList : List BufferedData
  usedOutBufs : Int
  xsStackSlot : Nat
  thrdStop : Bool
  transaction : UInt32
  runningTransaction : UInt32
  stopTransactionId : UInt32
  pendingStopTransaction : Bool
  /-- What the stack holds where the n-th reply puts its header. -/
  stackWord : Nat → UInt32
  /-- How often the release steps of `stop_domain_stored` ran. -/
  releases : Nat
  requests : List Request
  queued : List Message
  written : Bytes

/-- A client as `start_domain_stored` and the head of its thread set it up. -/
def Xenstore.started (domid : UInt32) (domint : XenstoreDomainInterface) (slot : Nat)
    (stackWord : Nat → UInt32) : Xenstore where
  domid := domid
  domint := domint
  mapped := true
  input := none
  outList := []
  usedOutBufs := 0
  xsStackSlot := slot
  thrdStop := false
  transaction := 0
  runningTransaction := 0
  stopTransactionId := 0
  pendingStopTransaction := false
  stackWord := stackWord
  releases := 0
  requests := []
  queued := []
  written := []

def bitSet (used : UInt32) (idx : Nat) : Bool := used.toBitVec.getLsbD idx

/-- `find_lsb_set(~used_threads) - 1`, or nothing when all bits are set. -/
def lowestClear (used : UInt32) : Option Nat := (List.range 32).find? fun i => !bitSet used i

def getStackIdx : SrvM Nat := do
  let s ← get
  match lowestClear s.usedThreads with
  | none => throw .assertion
  | some ret =>
    modify fun s => { s with usedThreads := s.usedThreads ||| UInt32.ofNat (2 ^ ret) }
    pure ret

def freeStackIdx (idx : Nat) : SrvM Unit := do
  let s ← get
  if s.domuMax ≤ idx then throw .assertion
  else if !bitSet s.usedThreads idx then throw .assertion
  else modify fun s => { s with usedThreads := s.usedThreads &&& ~~~ UInt32.ofNat (2 ^ idx) }

def freeBufferedData (xenstore : Xenstore) : Xenstore :=
  { xenstore with
    outList := [], usedOutBufs := xenstore.usedOutBufs - xenstore.outList.length, input := none }

/-- What follows the join of the thread: free the stack slot, close the event channel, unmap
the ring, free the buffers, drop the nodes of the domain. -/
def releaseDomainStored (xenstore : Xenstore) : SrvM Xenstore := do
  freeStackIdx xenstore.xsStackSlot
  removeRefEntries xenstore.domid
  pure { freeBufferedData xenstore with mapped := false, releases := xenstore.releases + 1 }

/-- `stop_domain_stored` from the thread of the client, where the join returns at once. -/
def invalidateClient (xenstore : Xenstore) : SrvM Xenstore :=
  releaseDomainStored { xenstore with thrdStop := true }

def xsdErrors : List (Errno × CString) :=
  [(.einval, ascii ['E', 'I', 'N', 'V', 'A', 'L']),
   (.eacces, ascii ['E', 'A', 'C', 'C', 'E', 'S']),
   (.eexist, ascii ['E', 'E', 'X', 'I', 'S', 'T']),
   (.eisdir, ascii ['E', 'I', 'S', 'D', 'I', 'R']),
   (.enoent, ascii ['E', 'N', 'O', 'E', 'N', 'T']),
   (.enomem, ascii ['E', 'N', 'O', 'M', 'E', 'M']),
   (.enospc, ascii ['E', 'N', 'O', 'S', 'P', 'C']),
   (.eio, ascii ['E', 'I', 'O']),
   (.enotempty, ascii ['E', 'N', 'O', 'T', 'E', 'M', 'P', 'T', 'Y']),
   (.enosys, ascii ['E', 'N', 'O', 'S', 'Y', 'S']),
   (.erofs, ascii ['E', 'R', 'O', 'F', 'S']),
   (.ebusy, ascii ['E', 'B', 'U', 'S', 'Y']),
   (.eagain, ascii ['E', 'A', 'G', 'A', 'I', 'N']),
   (.eisconn, ascii ['E', 'I', 'S', 'C', 'O', 'N', 'N']),
   (.e2big, ascii ['E', '2', 'B', 'I', 'G']),
   (.eperm, ascii ['E', 'P', 'E', 'R', 'M'])]

/-- The text of an error; one that the table does not have is sent as EINVAL. -/
def errString (err : Errno) : CString :=
  match xsdErrors.find? fun e => e.1 = err with
  | some e => e.2
  | none => ascii ['E', 'I', 'N', 'V', 'A', 'L']

/-- Put a buffer with the message on `out_list`. -/
def Xenstore.push (xenstore : Xenstore) (m : Message) : Xenstore :=
  { xenstore with
    outList := xenstore.outList ++ [⟨0, m.payload.length + headerSize, m.bytes⟩]
    usedOutBufs := xenstore.usedOutBufs + 1
    queued := xenstore.queued ++ [m] }

/-- The end of `send_reply_sz`: a buffer of two allocations is filled and queued. -/
def queueReply (xenstore : Xenstore) (reqId : UInt32) (type : XsdSockmsgType) (data : Bytes) :
    SrvM Xenstore := do
  if !(← alloc kMalloc) then pure xenstore
  else if !(← alloc kMalloc) then pure xenstore
  else
    pure (xenstore.push ⟨type, reqId, xenstore.stackWord xenstore.queued.length, data⟩)

/-- `send_reply_sz`, given what it does with a payload that is too big. -/
def sendReplyOr (tooBig : SrvM Xenstore) (xenstore : Xenstore) (reqId : UInt32)
    (type : XsdSockmsgType) (data : Bytes) : SrvM Xenstore :=
  if xenstore.usedOutBufs > xenstoreMaxOutBufNum then invalidateClient xenstore
  else if data.length > xenstorePayloadMax then tooBig
  else queueReply xenstore reqId type data

/-- Error texts are short, so the call of `send_reply_sz` in `send_errno` never comes back here. -/
def sendErrno (xenstore : Xenstore) (id : UInt32) (err : Errno) : SrvM Xenstore :=
  sendReplyOr (pure xenstore) xenstore id .error (strBytes (errString err))

def sendReplySz (xenstore : Xenstore) (reqId : UInt32) (type : XsdSockmsgType) (data : Bytes) :
    SrvM Xenstore :=
  sendReplyOr (sendErrno xenstore reqId .e2big) xenstore reqId type data

def sendReply (xenstore : Xenstore) (id : UInt32) (msgType : XsdSockmsgType) (payload : CString) :
    SrvM Xenstore :=
  sendReplySz xenstore id msgType (strBytes payload)

/-- The payload is sent without its NUL. -/
def sendReplyRead (xenstore : Xenstore) (id : UInt32) (msgType : XsdSockmsgType)
    (payload : CString) : SrvM Xenstore :=
  sendReplySz xenstore id msgType (payload.map Subtype.val)

theorem errString_length (err : Errno) : (strBytes (errString err)).length ≤ 16 := by
  cases err <;> decide

def canWrite (xenstore : Xenstore) : Except Fault Bool :=
  if xenstore.outList = [] then .ok false
  else if !xenstore.mapped then .error .unmappedRing
  else .ok (xenstore.domint.rspProd - xenstore.domint.rspCons < 1024)

def canRead (xenstore : Xenstore) : Except Fault Bool :=
  if !xenstore.mapped then .error .unmappedRing
  else .ok (xenstore.domint.reqProd ≠ xenstore.domint.reqCons)

def handleOutput (xenstore : Xenstore) : SrvM Xenstore :=
  match xenstore.outList with
  | [] => pure xenstore
  | out :: rest =>
    if !xenstore.mapped then throw .unmappedRing
    else
      let data := (out.buffer.drop out.used).take (out.totalSize - out.used)
      match xenstoreRingWrite xenstore.domint data false with
      | .error _ => invalidateClient xenstore
      | .ok (ret, domint) =>
        let xenstore := { xenstore with
          domint := domint, written := xenstore.written ++ data.take ret }
        if out.used + ret < out.totalSize then
          pure { xenstore with outList := { out with used := out.used + ret } :: rest }
        else if out.used + ret ≠ out.totalSize then throw .assertion
        else pure { xenstore with outList := rest, usedOutBufs := xenstore.usedOutBufs - 1 }

/-- Allocate the buffer for a header. A client whose buffer cannot be had is invalidated, and
nothing more is read. -/
def allocInput (xenstore : Xenstore) : SrvM (Xenstore × Option BufferedData) := do
  match xenstore.input with
  | some inp => pure (xenstore, some inp)
  | none =>
    if !(← alloc kMalloc) then pure (← invalidateClient xenstore, none)
    else if !(← alloc kMalloc) then pure (← invalidateClient xenstore, none)
    else
      let inp : BufferedData := ⟨0, headerSize, []⟩
      pure ({ xenstore with input := some inp }, some inp)

/-- One `ring_read` into the input buffer, up to `limit` bytes in all. -/
def readInput (xenstore : Xenstore) (inp : BufferedData) (limit : Nat) :
    SrvM (Xenstore × Option BufferedData) :=
  if !xenstore.mapped then throw .unmappedRing
  else match xenstoreRingRead xenstore.domint (limit - inp.used) false with
    | .error _ => do pure (← invalidateClient xenstore, none)
    | .ok (bytes, domint) =>
      let inp := { inp with used := inp.used + bytes.length, buffer := inp.buffer ++ bytes }
      pure ({ xenstore with domint := domint, input := some inp }, some inp)

/-- The header step; true when the payload step follows. -/
def inputHeader (xenstore : Xenstore) : SrvM (Xenstore × Bool) := do
  match ← allocInput xenstore with
  | (xenstore, none) => pure (xenstore, false)
  | (xenstore, some inp) =>
    if headerSize ≤ inp.used then pure (xenstore, true)
    else match ← readInput xenstore inp headerSize with
      | (xenstore, none) => pure (xenstore, false)
      | (xenstore, some inp) =>
        if inp.used ≠ headerSize then pure (xenstore, false)
        else
          let header := XsdSockmsg.ofBytes inp.buffer
          if xenstorePayloadMax < header.len.toNat then
            pure ({ xenstore with input := none }, false)
          else if !(← alloc kMalloc) then
            let xenstore ← invalidateClient xenstore
            pure (xenstore, false)
          else
            let inp := { inp with totalSize := inp.totalSize + header.len.toNat }
            pure ({ xenstore with input := some inp }, true)

/-- The payload step; true when the message is complete. -/
def inputPayload (xenstore : Xenstore) : SrvM (Xenstore × Bool) := do
  match xenstore.input with
  | none => throw .nullInput
  | some inp =>
    match ← readInput xenstore inp inp.totalSize with
    | (xenstore, none) => pure (xenstore, false)
    | (xenstore, some inp) => pure (xenstore, inp.used = inp.totalSize)

end Xenlib
