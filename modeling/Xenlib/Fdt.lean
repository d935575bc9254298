import Xenlib.Lib.BigEndian
import Xenlib.TreeCopy

/-!
The flattened device trees of libfdt as bytes: the header, and what walks over the structure
block. All the checks of the library are on.
-/

set_option autoImplicit false

namespace Xenlib.Libfdt

def fdtErrNospace : Int := 3

def fdtErrBadoffset : Int := 4

def fdtErrBadpath : Int := 5

def fdtErrBadstate : Int := 7

def fdtErrTruncated : Int := 8

def fdtErrBadmagic : Int := 9

def fdtErrBadversion : Int := 10

def fdtErrBadstructure : Int := 11

def fdtErrBadvalue : Int := 15

def fdtErrBadflags : Int := 18

def fdtErrAlignment : Int := 19

def intMax : Nat := 2 ^ 31 - 1

/-- The value in an `int`, which wraps. -/
def toInt (n : Int) : Int := (n + 2 ^ 31) % 2 ^ 32 - 2 ^ 31

/-- The value in an `unsigned int`. -/
def toUint (n : Int) : Nat := (n % 2 ^ 32).toNat

def cpuToFdt32 (v : Nat) : Bytes := BigEndian.bytes 4 v

def cpuToFdt64 (v : Nat) : Bytes := BigEndian.bytes 8 v

def fdtTagsize : Nat := 4

/-- `FDT_TAGALIGN`. -/
def fdtTagalign (n : Nat) : Nat := (n + 3) / 4 * 4

def fdtMagicValue : Nat := 0xd00dfeed

/-- `FDT_SW_MAGIC`. -/
def fdtSwMagic : Nat := 0xffffffff - fdtMagicValue

def fdtFirstSupportedVersion : Nat := 2

def fdtLastCompatibleVersion : Nat := 16

def fdtLastSupportedVersion : Nat := 17

def fdtBeginNodeTag : Nat := 1

def fdtEndNodeTag : Nat := 2

def fdtPropTag : Nat := 3

def fdtNopTag : Nat := 4

def fdtEndTag : Nat := 9

/-- `FDT_V1_SIZE`. -/
def fdtV1Size : Nat := 28

/-- `FDT_V2_SIZE`. -/
def fdtV2Size : Nat := fdtV1Size + 4

/-- `FDT_V3_SIZE`, and `FDT_V16_SIZE`. -/
def fdtV3Size : Nat := fdtV2Size + 4

/-- `FDT_V17_SIZE`. -/
def fdtV17Size : Nat := fdtV3Size + 4

/-- What a call may do that does not return. -/
inductive FdtStop where
  /-- An access outside the buffer. -/
  | wild
  /-- A NULL pointer is used. -/
  | null
  /-- A loop or a recursion that goes on for longer than the buffer is long. -/
  | endless
  deriving DecidableEq, Repr

/-- Memory with a tree in it, or the beginnings of one. There is room for a header. -/
structure FdtBuf where
  /-- The address of the first byte. -/
  addr : Nat
  mem : Bytes
  header : fdtV17Size ≤ mem.length

namespace FdtBuf
variable (fdt : FdtBuf)

def ld32 (p : Nat) : Except FdtStop Nat :=
  if p + 4 ≤ fdt.mem.length then .ok (be32At fdt.mem p) else .error .wild

def ld64 (p : Nat) : Except FdtStop Nat :=
  if p + 8 ≤ fdt.mem.length then .ok (BigEndian.value (Span.slice fdt.mem p 8)) else .error .wild

def byte (p : Nat) : Except FdtStop UInt8 :=
  match fdt.mem[p]? with
  | none => .error .wild
  | some b => .ok b

/-- The bytes of a span, as `memcpy` reads them. -/
def bytes (p len : Nat) : Except FdtStop Bytes :=
  if p + len ≤ fdt.mem.length then .ok (Span.slice fdt.mem p len) else .error .wild

def str (p : Nat) : Except FdtStop CString :=
  match readStr (fdt.mem.drop p) with
  | .error _ => .error .wild
  | .ok s => .ok s

/-- `memchr` for a NUL in the next `len` bytes: the string before it, if there is one. -/
def memchrNul (p len : Nat) : Except FdtStop (Option CString) :=
  match readStr (Span.slice fdt.mem p len) with
  | .ok s => .ok (some s)
  | .error _ => if p + len ≤ fdt.mem.length then .ok none else .error .wild

def magic : Nat := be32At fdt.mem 0

def totalsize : Nat := be32At fdt.mem 4

def offDtStruct : Nat := be32At fdt.mem 8

def offDtStrings : Nat := be32At fdt.mem 12

def offMemRsvmap : Nat := be32At fdt.mem 16

def version : Nat := be32At fdt.mem 20

def lastCompVersion : Nat := be32At fdt.mem 24

def sizeDtStrings : Nat := be32At fdt.mem 32

def sizeDtStruct : Nat := be32At fdt.mem 36

end FdtBuf

/-- The checks of `fdt_ro_probe_` before that of the size. -/
def roProbeHeader (fdt : FdtBuf) : Int :=
  if fdt.addr % 8 ≠ 0 then -fdtErrAlignment
  else if fdt.magic = fdtMagicValue then
    if fdt.version < fdtFirstSupportedVersion then -fdtErrBadversion
    else if fdtLastSupportedVersion < fdt.lastCompVersion then -fdtErrBadversion
    else 0
  else if fdt.magic = fdtSwMagic then
    if fdt.sizeDtStruct = 0 then -fdtErrBadstate else 0
  else -fdtErrBadmagic

/-- The size of the tree, or a negative code. -/
def fdtRoProbe (fdt : FdtBuf) : Int :=
  if roProbeHeader fdt ≠ 0 then roProbeHeader fdt
  else if fdt.totalsize < intMax then fdt.totalsize
  else -fdtErrTruncated

def checkOff (hdrsize totalsize off : Nat) : Bool := hdrsize ≤ off ∧ off ≤ totalsize

def checkBlock (hdrsize totalsize base size : Nat) : Bool :=
  checkOff hdrsize totalsize base ∧ base ≤ toUint (base + size) ∧
    checkOff hdrsize totalsize (toUint (base + size))

def fdtHeaderSize (version : Nat) : Nat :=
  if version ≤ 1 then fdtV1Size
  else if version ≤ 2 then fdtV2Size
  else if version ≤ 3 then fdtV3Size
  else if version ≤ 16 then fdtV3Size
  else fdtV17Size

/-- The check of the structure block, whose size old headers do not have. -/
def checkStruct (hdrsize : Nat) (fdt : FdtBuf) : Bool :=
  if fdt.version < 17 then checkOff hdrsize fdt.totalsize fdt.offDtStruct
  else checkBlock hdrsize fdt.totalsize fdt.offDtStruct fdt.sizeDtStruct

def fdtCheckHeader (fdt : FdtBuf) : Int :=
  let hdrsize := fdtHeaderSize fdt.version
  if fdt.addr % 8 ≠ 0 then -fdtErrAlignment
  else if fdt.magic ≠ fdtMagicValue then -fdtErrBadmagic
  else if fdt.version < fdtFirstSupportedVersion ∨
      fdtLastSupportedVersion < fdt.lastCompVersion then -fdtErrBadversion
  else if fdt.version < fdt.lastCompVersion then -fdtErrBadversion
  else if fdt.totalsize < hdrsize ∨ intMax < fdt.totalsize then -fdtErrTruncated
  else if ¬ checkOff hdrsize fdt.totalsize fdt.offMemRsvmap then -fdtErrTruncated
  else if ¬ checkStruct hdrsize fdt then -fdtErrTruncated
  else if ¬ checkBlock hdrsize fdt.totalsize fdt.offDtStrings fdt.sizeDtStrings then
    -fdtErrTruncated
  else 0

/-- The address in the buffer, or NULL. -/
def fdtOffsetPtr (fdt : FdtBuf) (offset : Int) (len : Nat) : Option Nat :=
  let uoffset := toUint offset
  let absoffset := toUint (offset + fdt.offDtStruct)
  if offset < 0 then none
  else if absoffset < uoffset ∨ toUint (absoffset + len) < absoffset ∨
      fdt.totalsize < toUint (absoffset + len) then none
  else if 0x11 ≤ fdt.version ∧ (toUint (uoffset + len) < uoffset ∨
      fdt.sizeDtStruct < toUint (offset + len)) then none
  else some (fdt.offDtStruct + offset.toNat)

/-- The loop of `fdt_next_tag` over a name: the offset after its NUL. -/
def skipName (fdt : FdtBuf) : (rounds : Nat) → Int → Except FdtStop (Option Int)
  | 0, _ => .error .endless
  | rounds + 1, offset =>
    match fdtOffsetPtr fdt offset 1 with
    | none => .ok none
    | some p => do
      let b ← fdt.byte p
      if b = 0 then return some (offset + 1)
      else skipName fdt rounds (offset + 1)

def skipProp (fdt : FdtBuf) (offset : Int) : Except FdtStop (Option Int) :=
  match fdtOffsetPtr fdt offset fdtTagsize with
  | none => .ok none
  | some lenp => do
    let len ← fdt.ld32 lenp
    let sum := toUint (len + offset)
    if intMax ≤ sum ∨ sum < toUint offset then return none
    else
      let offset := toInt (offset + 8 + len)
      if fdt.version < 0x10 ∧ 8 ≤ len ∧ toUint (offset - len) % 8 ≠ 0 then
        return some (toInt (offset + 4))
      else return some offset

/-- The `switch` of `fdt_next_tag`: the offset after what the tag starts. -/
def skipPiece (fdt : FdtBuf) (tag : Nat) (offset : Int) : Except FdtStop (Option Int) :=
  if tag = fdtBeginNodeTag then skipName fdt (fdt.mem.length + 1) offset
  else if tag = fdtPropTag then skipProp fdt offset
  else if tag = fdtEndTag ∨ tag = fdtEndNodeTag ∨ tag = fdtNopTag then .ok (some offset)
  else .ok none

/-- The last check of `fdt_next_tag`. -/
def closePiece (fdt : FdtBuf) (startoffset : Int) (tag : Nat) : Option Int → Nat × Int
  | none => (fdtEndTag, -fdtErrBadstructure)
  | some offset =>
    match fdtOffsetPtr fdt startoffset (toUint (offset - startoffset)) with
    | none => (fdtEndTag, -fdtErrBadstructure)
    | some _ => (tag, toInt (fdtTagalign (toUint offset)))

/-- The tag and the offset of the next one. -/
def fdtNextTag (fdt : FdtBuf) (startoffset : Int) : Except FdtStop (Nat × Int) :=
  match fdtOffsetPtr fdt startoffset fdtTagsize with
  | none => .ok (fdtEndTag, -fdtErrTruncated)
  | some tagp => do
    let tag ← fdt.ld32 tagp
    let skipped ← skipPiece fdt tag (startoffset + 4)
    return closePiece fdt startoffset tag skipped

/-- The offset after the piece, which has to be of this kind. -/
def checkOffset (tag : Nat) (fdt : FdtBuf) (offset : Int) : Except FdtStop Int :=
  if offset < 0 ∨ offset % fdtTagsize ≠ 0 then .ok (-fdtErrBadoffset)
  else do
    let (found, next) ← fdtNextTag fdt offset
    return if found ≠ tag then -fdtErrBadoffset else next

def fdtCheckNodeOffset (fdt : FdtBuf) (offset : Int) : Except FdtStop Int :=
  checkOffset fdtBeginNodeTag fdt offset

def fdtCheckPropOffset (fdt : FdtBuf) (offset : Int) : Except FdtStop Int :=
  checkOffset fdtPropTag fdt offset

/-- The loop of `fdt_next_node`; no depth is a NULL pointer. -/
def nextNodeLoop (fdt : FdtBuf) : (rounds : Nat) → Int → Option Int →
    Except FdtStop (Int × Option Int)
  | 0, _, _ => .error .endless
  | rounds + 1, offset, depth => do
    let (tag, nextoffset) ← fdtNextTag fdt offset
    if tag = fdtBeginNodeTag then return (offset, depth.map (· + 1))
    else if tag = fdtEndNodeTag then
      let depth := depth.map (· - 1)
      if depth.any (· < 0) then return (nextoffset, depth)
      else nextNodeLoop fdt rounds nextoffset depth
    else if tag = fdtEndTag then
      if 0 ≤ nextoffset ∨ (nextoffset = -fdtErrTruncated ∧ depth = none) then
        return (-fdtErrNotfound, depth)
      else return (nextoffset, depth)
    else nextNodeLoop fdt rounds nextoffset depth

/-- The offset of the next node, and the depth there. -/
def fdtNextNode (fdt : FdtBuf) (offset : Int) (depth : Option Int) :
    Except FdtStop (Int × Option Int) :=
  if 0 ≤ offset then do
    let nextoffset ← fdtCheckNodeOffset fdt offset
    if nextoffset < 0 then return (nextoffset, depth)
    else nextNodeLoop fdt (fdt.mem.length + 1) nextoffset depth
  else nextNodeLoop fdt (fdt.mem.length + 1) 0 depth

def fdtFirstSubnode (fdt : FdtBuf) (offset : Int) : Except FdtStop Int := do
  let (offset, depth) ← fdtNextNode fdt offset (some 0)
  return if offset < 0 ∨ depth ≠ some 1 then -fdtErrNotfound else offset

/-- The loop of `fdt_next_subnode`. -/
def nextSubnodeLoop (fdt : FdtBuf) : (rounds : Nat) → Int → Int → Except FdtStop Int
  | 0, _, _ => .error .endless
  | rounds + 1, offset, depth => do
    let (offset, depth') ← fdtNextNode fdt offset (some depth)
    let depth := depth'.getD 0
    if offset < 0 ∨ depth < 1 then return -fdtErrNotfound
    else if 1 < depth then nextSubnodeLoop fdt rounds offset depth
    else return offset

def fdtNextSubnode (fdt : FdtBuf) (offset : Int) : Except FdtStop Int :=
  nextSubnodeLoop fdt (fdt.mem.length + 1) offset 1

def fdtFindString (s : CString) : (strtab : Bytes) → Option Nat
  | [] => none
  | b :: strtab =>
    if (b :: strtab).length < s.length + 1 then none
    else if (b :: strtab).take (s.length + 1) = strBytes s then some 0
    else (fdtFindString s strtab).map (· + 1)

end Xenlib.Libfdt
