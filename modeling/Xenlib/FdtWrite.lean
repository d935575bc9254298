import Xenlib.Fdt

/-!
The sequential writer. The structure block grows from the front of the buffer and the strings from
its end; the header holds the state of the writer until `fdt_finish` puts the strings after the
structure block.
-/

set_option autoImplicit false

namespace Xenlib.Libfdt

open Span

namespace FdtBuf

def store (fdt : FdtBuf) (p : Nat) (data : Bytes) : Except FdtStop FdtBuf :=
  if h : p + data.length ≤ fdt.mem.length then
    .ok ⟨fdt.addr, patch fdt.mem p data, patch_length h ▸ fdt.header⟩
  else .error .wild

def setField (fdt : FdtBuf) (i : Fin 10) (v : Nat) : FdtBuf where
  addr := fdt.addr
  mem := patch fdt.mem (4 * i) (cpuToFdt32 v)
  header := by
    have hfit : 4 * i.val + (cpuToFdt32 v).length ≤ fdt.mem.length := by
      have hi := i.isLt
      have hlen := fdt.header
      simp only [fdtV17Size, fdtV3Size, fdtV2Size, fdtV1Size] at hlen
      rw [cpuToFdt32, BigEndian.bytes_length]
      omega
    rw [patch_length hfit]
    exact fdt.header

variable (fdt : FdtBuf) (v : Nat)

def setMagic : FdtBuf := fdt.setField 0 v

def setTotalsize : FdtBuf := fdt.setField 1 v

def setOffDtStruct : FdtBuf := fdt.setField 2 v

def setOffDtStrings : FdtBuf := fdt.setField 3 v

def setOffMemRsvmap : FdtBuf := fdt.setField 4 v

def setVersion : FdtBuf := fdt.setField 5 v

def setLastCompVersion : FdtBuf := fdt.setField 6 v

def setSizeDtStrings : FdtBuf := fdt.setField 8 v

def setSizeDtStruct : FdtBuf := fdt.setField 9 v

/-- The address `n` bytes before the end of the tree. -/
def fromEnd (n : Nat) : Except FdtStop Nat :=
  if n ≤ fdt.totalsize then .ok (fdt.totalsize - n) else .error .wild

end FdtBuf

/-- A call returns a code and leaves the buffer behind. -/
abbrev FdtCall := FdtBuf → Except FdtStop (Int × FdtBuf)

def fdtSwProbe (fdt : FdtBuf) : Int :=
  if fdt.magic = fdtMagicValue then -fdtErrBadstate
  else if fdt.magic ≠ fdtSwMagic then -fdtErrBadmagic
  else 0

def fdtSwProbeMemrsv (fdt : FdtBuf) : Int :=
  if fdtSwProbe fdt ≠ 0 then fdtSwProbe fdt
  else if fdt.offDtStrings ≠ 0 then -fdtErrBadstate
  else 0

def fdtSwProbeStruct (fdt : FdtBuf) : Int :=
  if fdtSwProbe fdt ≠ 0 then fdtSwProbe fdt
  else if fdt.offDtStrings ≠ fdt.totalsize then -fdtErrBadstate
  else 0

def swFlags (fdt : FdtBuf) : Nat := fdt.lastCompVersion

/-- The address of the new space, or NULL. -/
def fdtGrabSpace (fdt : FdtBuf) (len : Nat) : Option (Nat × FdtBuf) :=
  let offset := fdt.sizeDtStruct
  let spaceleft := toUint (fdt.totalsize - fdt.offDtStruct - fdt.sizeDtStrings)
  let sum := (offset + len) % 2 ^ 64
  if sum < offset ∨ spaceleft < sum then none
  else some (fdt.offDtStruct + offset, fdt.setSizeDtStruct sum)

def fdtCreateFlagNoNameDedup : Nat := 1

/-- The size of the header, aligned to a reservation entry. -/
def createHdrsize : Nat := 48

/-- `buf` is the whole of the buffer. -/
def fdtCreateWithFlags (addr : Nat) (buf : Bytes) (flags : Nat) : Except Int FdtBuf :=
  if h : buf.length < createHdrsize then .error (-fdtErrNospace)
  else if flags ≠ 0 ∧ flags ≠ fdtCreateFlagNoNameDedup then .error (-fdtErrBadflags)
  else
    have header : fdtV17Size ≤ (List.replicate buf.length (0 : UInt8)).length := by
      rw [List.length_replicate]
      exact Nat.le_trans (by decide) (Nat.le_of_not_lt h)
    let fdt : FdtBuf := ⟨addr, List.replicate buf.length 0, header⟩
    let fdt := fdt.setMagic fdtSwMagic
    let fdt := fdt.setVersion fdtLastSupportedVersion
    let fdt := fdt.setLastCompVersion flags
    let fdt := fdt.setTotalsize buf.length
    let fdt := fdt.setOffMemRsvmap createHdrsize
    let fdt := fdt.setOffDtStruct fdt.offMemRsvmap
    .ok (fdt.setOffDtStrings 0)

def fdtCreate (addr : Nat) (buf : Bytes) : Except Int FdtBuf := fdtCreateWithFlags addr buf 0

def fdtAddReservemapEntry (addr size : Nat) : FdtCall := fun fdt => do
  if fdtSwProbeMemrsv fdt ≠ 0 then return (fdtSwProbeMemrsv fdt, fdt)
  let offset := fdt.offDtStruct
  if fdt.totalsize < offset + 16 then return (-fdtErrNospace, fdt)
  let fdt ← fdt.store offset (cpuToFdt64 addr ++ cpuToFdt64 size)
  return (0, fdt.setOffDtStruct (offset + 16))

def fdtFinishReservemap : FdtCall := fun fdt => do
  let (err, fdt) ← fdtAddReservemapEntry 0 0 fdt
  if err ≠ 0 then return (err, fdt)
  return (0, fdt.setOffDtStrings fdt.totalsize)

def fdtBeginNode (name : CString) : FdtCall := fun fdt => do
  if fdtSwProbeStruct fdt ≠ 0 then return (fdtSwProbeStruct fdt, fdt)
  match fdtGrabSpace fdt (4 + fdtTagalign (name.length + 1)) with
  | none => return (-fdtErrNospace, fdt)
  | some (nh, fdt) =>
    let fdt ← fdt.store nh (cpuToFdt32 fdtBeginNodeTag)
    return (0, ← fdt.store (nh + 4) (strBytes name))

def fdtEndNode : FdtCall := fun fdt => do
  if fdtSwProbeStruct fdt ≠ 0 then return (fdtSwProbeStruct fdt, fdt)
  match fdtGrabSpace fdt fdtTagsize with
  | none => return (-fdtErrNospace, fdt)
  | some (en, fdt) => return (0, ← fdt.store en (cpuToFdt32 fdtEndNodeTag))

/-- The offset of the new string from the end of the table, or 0. -/
def fdtAddString (s : CString) : FdtCall := fun fdt => do
  let strtabsize := fdt.sizeDtStrings
  let len := toUint (s.length + 1)
  let offset := toUint (strtabsize + len)
  let structTop := toUint (fdt.offDtStruct + fdt.sizeDtStruct)
  if toUint (fdt.totalsize - offset) < structTop then return (0, fdt)
  let fdt ← fdt.store (← fdt.fromEnd offset) (strBytes s)
  return (toInt (-offset), fdt.setSizeDtStrings (strtabsize + len))

def fdtDelLastString (s : CString) (fdt : FdtBuf) : FdtBuf :=
  fdt.setSizeDtStrings (toUint (fdt.sizeDtStrings - (s.length + 1)))

/-- The offset of the string from the end of the table, and whether it is new. -/
def fdtFindAddString (s : CString) (fdt : FdtBuf) : Except FdtStop (Int × Bool × FdtBuf) := do
  let strtabsize := fdt.sizeDtStrings
  let strtab ← fdt.bytes (← fdt.fromEnd strtabsize) strtabsize
  match fdtFindString s strtab with
  | some p => return (p - strtabsize, false, fdt)
  | none =>
    let (nameoff, fdt) ← fdtAddString s fdt
    return (nameoff, true, fdt)

/-- The name of a property, which is looked for among the strings unless the flags say otherwise. -/
def propertyName (name : CString) (fdt : FdtBuf) : Except FdtStop (Int × Bool × FdtBuf) :=
  if swFlags fdt &&& fdtCreateFlagNoNameDedup ≠ 0 then do
    let (nameoff, fdt) ← fdtAddString name fdt
    return (nameoff, true, fdt)
  else fdtFindAddString name fdt

/-- The address of the data of the new property, or a code. -/
def fdtPropertyPlaceholder (name : CString) (len : Nat) (fdt : FdtBuf) :
    Except FdtStop (Except Int Nat × FdtBuf) := do
  if fdtSwProbeStruct fdt ≠ 0 then return (.error (fdtSwProbeStruct fdt), fdt)
  let (nameoff, allocated, fdt) ← propertyName name fdt
  if nameoff = 0 then return (.error (-fdtErrNospace), fdt)
  match fdtGrabSpace fdt (12 + fdtTagalign len) with
  | none => return (.error (-fdtErrNospace), if allocated then fdtDelLastString name fdt else fdt)
  | some (prop, fdt) =>
    let fdt ← fdt.store prop (cpuToFdt32 fdtPropTag)
    let fdt ← fdt.store (prop + 8) (cpuToFdt32 (toUint nameoff))
    let fdt ← fdt.store (prop + 4) (cpuToFdt32 len)
    return (.ok (prop + 12), fdt)

def fdtProperty (name : CString) (val : Bytes) : FdtCall := fun fdt => do
  match ← fdtPropertyPlaceholder name val.length fdt with
  | (.error ret, fdt) => return (ret, fdt)
  | (.ok ptr, fdt) => return (0, ← fdt.store ptr val)

def fdtPropertyString (name str : CString) : FdtCall := fdtProperty name (strBytes str)

def fdtPropertyU32 (name : CString) (val : Nat) : FdtCall := fdtProperty name (cpuToFdt32 val)

def fdtPropertyCell (name : CString) (val : Nat) : FdtCall := fdtPropertyU32 name val

/-- The loop of `fdt_finish` that corrects the offsets of the names; the last offset. -/
def finishLoop : (rounds : Nat) → Int → FdtCall
  | 0, _, _ => .error .endless
  | rounds + 1, offset, fdt => do
    let (tag, nextoffset) ← fdtNextTag fdt offset
    if tag = fdtEndTag then return (nextoffset, fdt)
    if tag = fdtPropTag then
      let prop := fdt.offDtStruct + offset.toNat
      let nameoff := toInt (toInt (← fdt.ld32 (prop + 8)) + fdt.sizeDtStrings)
      finishLoop rounds nextoffset (← fdt.store (prop + 8) (cpuToFdt32 (toUint nameoff)))
    else finishLoop rounds nextoffset fdt

/-- `fdt_finish` after the terminator: the strings, the offsets of the names, and the header. -/
def relocateStrings : FdtCall := fun fdt => do
  let newstroffset := fdt.offDtStruct + fdt.sizeDtStruct
  let strings ← fdt.bytes (← fdt.fromEnd fdt.sizeDtStrings) fdt.sizeDtStrings
  let fdt ← fdt.store newstroffset strings
  let fdt := fdt.setOffDtStrings newstroffset
  let (nextoffset, fdt) ← finishLoop (fdt.mem.length + 1) 0 fdt
  if nextoffset < 0 then return (nextoffset, fdt)
  let fdt := fdt.setTotalsize (newstroffset + fdt.sizeDtStrings)
  let fdt := fdt.setLastCompVersion fdtLastCompatibleVersion
  return (0, fdt.setMagic fdtMagicValue)

def fdtFinish : FdtCall := fun fdt => do
  if fdtSwProbeStruct fdt ≠ 0 then return (fdtSwProbeStruct fdt, fdt)
  match fdtGrabSpace fdt fdtTagsize with
  | none => return (-fdtErrNospace, fdt)
  | some (endp, fdt) => relocateStrings (← fdt.store endp (cpuToFdt32 fdtEndTag))

/-- The whole of `buf` is the new buffer. -/
def fdtResize (buf : FdtBuf) (fdt : FdtBuf) : Except FdtStop (Int × FdtBuf) := do
  if fdtSwProbe fdt ≠ 0 then return (fdtSwProbe fdt, buf)
  let headsize := fdt.offDtStruct + fdt.sizeDtStruct
  let tailsize := fdt.sizeDtStrings
  if fdt.totalsize < headsize + tailsize then return (-fdtErrInternal, buf)
  if buf.mem.length < headsize + tailsize then return (-fdtErrNospace, buf)
  let head ← fdt.bytes 0 headsize
  let tail ← fdt.bytes (fdt.totalsize - tailsize) tailsize
  let new ← buf.store 0 head
  let new ← new.store (buf.mem.length - tailsize) tail
  let new := new.setTotalsize buf.mem.length
  return (0, if new.offDtStrings ≠ 0 then new.setOffDtStrings buf.mem.length else new)

end Xenlib.Libfdt
