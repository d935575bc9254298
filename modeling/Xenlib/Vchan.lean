import Xenlib.CString
import Xenlib.Lib.Stream

/-!
A vchan (`vch.c`, `io/libxenvchan.h`): one page with a header and two rings. The order of
a ring is both its size and its place: `2 ^ order` bytes from offset `2 ^ order` on. The
side that opened the channel is the server; it reads the left ring and writes the right one.
-/

set_option autoImplicit false

namespace Xenlib

open Cyclic

structure RingShared where
  cons : UInt32
  prod : UInt32
  deriving DecidableEq, Repr

def vchanNotifyWrite : UInt8 := 1

def vchanNotifyRead : UInt8 := 2

/-- The header's fields and the bytes of the page, by offset. -/
structure VchanInterface where
  left : RingShared
  right : RingShared
  leftOrder : Nat
  rightOrder : Nat
  cliLive : UInt8
  srvLive : UInt8
  cliNotify : UInt8
  srvNotify : UInt8
  page : Nat → UInt8

/-- Two pairs of indexes, two orders, and four bytes. -/
def vchanHeaderSize : Nat := 2 * (4 + 4) + 2 * 2 + 4

def xenPageSize : Nat := 4096

inductive RingSide where
  | left | right
  deriving DecidableEq, Repr

def VchanInterface.shared (ring : VchanInterface) : RingSide → RingShared
  | .left => ring.left
  | .right => ring.right

def VchanInterface.setShared (ring : VchanInterface) (side : RingSide) (shared : RingShared) :
    VchanInterface :=
  match side with
  | .left => { ring with left := shared }
  | .right => { ring with right := shared }

/-- `readCbuf` and `writeCbuf` are offsets in the page. -/
structure VchHandle where
  isServer : Bool
  readOrd : Nat
  writeOrd : Nat
  readCbuf : Nat
  writeCbuf : Nat
  read : RingSide
  write : RingSide
  deriving DecidableEq, Repr

inductive VchErr where
  | einval | enametoolong | enomem | efault | enodev | enobufs | enotconn
  | rc (code : Int)
  deriving DecidableEq, Repr

structure VchOpenCalls where
  semInit : Int
  alignedAlloc : Bool
  allocUnbound : Int
  bindEvtchn : Int
  grantAccess : Int
  writeRingRef : Int
  writeEventChannel : Int
  unmask : Int

def vchOrders (minRs minWs : Nat) : Option (Nat × Nat) :=
  if minRs ≤ 2 ^ 10 ∧ minWs ≤ 2 ^ 11 then some (10, 11)
  else if minRs ≤ 2 ^ 11 ∧ minWs ≤ 2 ^ 10 then some (11, 10)
  else none

/-- The first call that fails, with the code it leads to. -/
def VchOpenCalls.failed (calls : VchOpenCalls) : Option VchErr :=
  if calls.semInit ≠ 0 then some (.rc calls.semInit)
  else if !calls.alignedAlloc then some .enomem
  else if calls.allocUnbound < 0 then some (.rc calls.allocUnbound)
  else if calls.bindEvtchn ≠ 0 then some (.rc calls.bindEvtchn)
  else if calls.grantAccess < 0 then some (.rc calls.grantAccess)
  else if calls.writeRingRef ≠ 0 then some (.rc calls.writeRingRef)
  else if calls.writeEventChannel ≠ 0 then some (.rc calls.writeEventChannel)
  else if calls.unmask ≠ 0 then some (.rc calls.unmask)
  else none

/-- A call that fails gives everything back. -/
def vchOpen (pathMax : Nat) (calls : VchOpenCalls) (path : CString) (minRs minWs : Nat) :
    Except VchErr (VchHandle × VchanInterface) :=
  if pathMax ≤ path.length then .error .enametoolong
  else match vchOrders minRs minWs with
  | none => .error .einval
  | some (readOrd, writeOrd) =>
    match calls.failed with
    | some e => .error e
    | none => .ok
      (⟨true, readOrd, writeOrd, 2 ^ readOrd, 2 ^ writeOrd, .left, .right⟩,
        ⟨⟨0, 0⟩, ⟨0, 0⟩, readOrd, writeOrd, 2, 1, vchanNotifyWrite, 0, fun _ => 0⟩)

structure VchConnectCalls where
  semInit : Int
  readRingRef : Int
  ringGref : Nat
  readEventChannel : Int
  remotePort : Nat
  bindInterdomain : Int
  getPages : Bool
  mapRefs : Int
  unmask : Int
  notify : Int

/-- The first call that fails before the page is mapped, with the code it leads to. -/
def VchConnectCalls.failedBefore (calls : VchConnectCalls) : Option VchErr :=
  if calls.semInit ≠ 0 then some (.rc calls.semInit)
  else if calls.readRingRef ≠ 0 then some (.rc calls.readRingRef)
  else if calls.ringGref = 0 then some .efault
  else if calls.readEventChannel ≠ 0 then some (.rc calls.readEventChannel)
  else if calls.remotePort = 0 then some .enodev
  else if calls.bindInterdomain < 0 then some (.rc calls.bindInterdomain)
  else if !calls.getPages then some .enomem
  else if calls.mapRefs ≠ 0 then some (.rc calls.mapRefs)
  else none

def VchConnectCalls.failedAfter (calls : VchConnectCalls) : Option VchErr :=
  if calls.unmask ≠ 0 then some (.rc calls.unmask)
  else if calls.notify ≠ 0 then some (.rc calls.notify)
  else none

/-- The page is the one the grant reference stands for. The live and notify bytes are set
before the last two calls, and stay set when one of them fails. -/
def vchConnect (pathMax : Nat) (calls : VchConnectCalls) (path : CString)
    (ring : VchanInterface) : Except VchErr VchHandle × VchanInterface :=
  if pathMax ≤ path.length then (.error .enametoolong, ring)
  else match calls.failedBefore with
  | some e => (.error e, ring)
  | none =>
    let h : VchHandle := ⟨false, ring.rightOrder, ring.leftOrder, 2 ^ ring.rightOrder,
      2 ^ ring.leftOrder, .right, .left⟩
    let ring := { ring with cliLive := 1, srvNotify := vchanNotifyWrite }
    match calls.failedAfter with
    | some e => (.error e, ring)
    | none => (.ok h, ring)

def vchIsLive (h : VchHandle) (ring : VchanInterface) : Bool :=
  if h.isServer then ring.cliLive ≠ 0 else ring.srvLive ≠ 0

/-- The peer is told, and asked for by its own bit; `rc` is what `notify_evtchn` returns. -/
def vchNotify (h : VchHandle) (ring : VchanInterface) (rw : UInt8) (rc : Int) :
    Int × VchanInterface :=
  if h.isServer then
    (if ring.srvNotify &&& rw ≠ 0 then rc else 0,
      { ring with srvNotify := ring.srvNotify &&& ~~~rw })
  else
    (if ring.cliNotify &&& rw ≠ 0 then rc else 0,
      { ring with cliNotify := ring.cliNotify &&& ~~~rw })

def vchUnmaskNotify (h : VchHandle) (ring : VchanInterface) (bit : UInt8) : VchanInterface :=
  if h.isServer then { ring with cliNotify := ring.cliNotify ||| bit }
  else { ring with srvNotify := ring.srvNotify ||| bit }

def vchGetRdAvail (h : VchHandle) (ring : VchanInterface) : Nat :=
  ((ring.shared h.read).prod - (ring.shared h.read).cons).toNat

def vchGetWrAvail (h : VchHandle) (ring : VchanInterface) : Nat :=
  (UInt32.ofNat (2 ^ h.writeOrd) -
    ((ring.shared h.write).prod - (ring.shared h.write).cons)).toNat

/-- The place and the number of the bytes to read, or nothing to read. -/
def vchReadLoad (h : VchHandle) (ring : VchanInterface) (buf : Bool) (size : Nat) :
    Except VchErr (VchanInterface × Option (Nat × Nat)) :=
  if !vchIsLive h ring then .error .enotconn
  else
    let avail := vchGetRdAvail h ring
    if avail ≠ 0 then
      if !buf then .error .enobufs
      else
        let idx := (ring.shared h.read).cons.toNat &&& (2 ^ h.readOrd - 1)
        .ok (ring, some (idx, min size avail))
    else .ok (vchUnmaskNotify h ring vchanNotifyWrite, none)

def vchReadCopy (h : VchHandle) (ring : VchanInterface) (idx size : Nat) : Bytes :=
  let chunk := min (2 ^ h.readOrd - idx) size
  slice ring.page (h.readCbuf + idx) chunk ++ slice ring.page h.readCbuf (size - chunk)

def vchReadEnd (h : VchHandle) (ring : VchanInterface) (size : Nat) (rc : Int) :
    Except VchErr Nat × VchanInterface :=
  let shared := ring.shared h.read
  let ring := ring.setShared h.read { shared with cons := shared.cons + UInt32.ofNat size }
  let (ret, ring) := vchNotify h ring vchanNotifyRead rc
  (if ret ≠ 0 then .error .efault else .ok size, ring)

/-- What the call returns, what it left in the caller's buffer, and the page. -/
def vchRead (h : VchHandle) (ring : VchanInterface) (buf : Bool) (size : Nat) (rc : Int) :
    Except VchErr Nat × Bytes × VchanInterface :=
  match vchReadLoad h ring buf size with
  | .error e => (.error e, [], ring)
  | .ok (ring, none) => (.ok 0, [], ring)
  | .ok (ring, some (idx, size)) =>
    ((vchReadEnd h ring size rc).1, vchReadCopy h ring idx size, (vchReadEnd h ring size rc).2)

/-- The place and the bytes to write, or no room. -/
def vchWriteLoad (h : VchHandle) (ring : VchanInterface) (buf : Option Bytes) :
    Except VchErr (VchanInterface × Option (Nat × Bytes)) :=
  if !vchIsLive h ring then .error .enotconn
  else
    let avail := vchGetWrAvail h ring
    if avail ≠ 0 then
      match buf with
      | none => .error .enobufs
      | some data =>
        let idx := (ring.shared h.write).prod.toNat &&& (2 ^ h.writeOrd - 1)
        .ok (ring, some (idx, data.take (min data.length avail)))
    else .ok (vchUnmaskNotify h ring vchanNotifyRead, none)

def vchWriteCopy (h : VchHandle) (ring : VchanInterface) (idx : Nat) (data : Bytes) :
    VchanInterface :=
  let chunk := min (2 ^ h.writeOrd - idx) data.length
  let page := blit ring.page (h.writeCbuf + idx) (data.take chunk)
  { ring with page := blit page h.writeCbuf (data.drop chunk) }

def vchWriteEnd (h : VchHandle) (ring : VchanInterface) (size : Nat) (rc : Int) :
    Except VchErr Nat × VchanInterface :=
  let shared := ring.shared h.write
  let ring := ring.setShared h.write { shared with prod := shared.prod + UInt32.ofNat size }
  let (ret, ring) := vchNotify h ring vchanNotifyWrite rc
  (if ret ≠ 0 then .error .efault else .ok size, ring)

def vchWrite (h : VchHandle) (ring : VchanInterface) (buf : Option Bytes) (rc : Int) :
    Except VchErr Nat × VchanInterface :=
  match vchWriteLoad h ring buf with
  | .error e => (.error e, ring)
  | .ok (ring, none) => (.ok 0, ring)
  | .ok (ring, some (idx, data)) => vchWriteEnd h (vchWriteCopy h ring idx data) data.length rc

end Xenlib
