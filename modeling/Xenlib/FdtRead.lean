import Xenlib.Fdt

/-!
The functions that read a tree: names, strings, properties and paths, the memory reservations, and
the full check. A function that returns NULL with a code in `*lenp` gives that code.
-/

set_option autoImplicit false

namespace Xenlib.Libfdt

/-- Where the string starts and how many bytes are searched for its NUL, or a code. -/
def stringSpan (fdt : FdtBuf) (stroffset : Int) : Except Int (Nat × Nat) :=
  let totalsize := fdtRoProbe fdt
  let absoffset := toUint (stroffset + fdt.offDtStrings)
  let len := totalsize.toNat - absoffset
  if totalsize < 0 then .error totalsize
  else if totalsize.toNat ≤ absoffset then .error (-fdtErrBadoffset)
  else if fdt.magic = fdtMagicValue then
    if stroffset < 0 then .error (-fdtErrBadoffset)
    else if fdt.version < 17 then .ok (absoffset, len)
    else if fdt.sizeDtStrings ≤ toUint stroffset then .error (-fdtErrBadoffset)
    else .ok (absoffset, min len (fdt.sizeDtStrings - toUint stroffset))
  else if fdt.magic = fdtSwMagic then
    if 0 ≤ stroffset ∨ fdt.sizeDtStrings < toUint (-stroffset) then .error (-fdtErrBadoffset)
    else .ok (absoffset, min len (toUint (-stroffset)))
  else .error (-fdtErrInternal)

def fdtGetString (fdt : FdtBuf) (stroffset : Int) : Except FdtStop (Except Int CString) :=
  match stringSpan fdt stroffset with
  | .error err => .ok (.error err)
  | .ok (absoffset, len) => do
    match ← fdt.memchrNul absoffset len with
    | none => return .error (-fdtErrTruncated)
    | some s => return .ok s

def fdtStringEq (fdt : FdtBuf) (stroffset : Int) (s : CString) : Except FdtStop Bool := do
  match ← fdtGetString fdt stroffset with
  | .error _ => return false
  | .ok name => return name = s

def fdtGetName (fdt : FdtBuf) (nodeoffset : Int) : Except FdtStop (Except Int CString) :=
  if fdtRoProbe fdt < 0 then .ok (.error (fdtRoProbe fdt))
  else do
    let err ← fdtCheckNodeOffset fdt nodeoffset
    if err < 0 then return .error err
    else
      let name ← fdt.str (fdt.offDtStruct + nodeoffset.toNat + 4)
      if fdt.version < 0x10 then
        -- the last part of a full path
        match strrchr slash name with
        | none => return .error (-fdtErrBadstructure)
        | some leaf => return .ok (leaf.drop 1)
      else return .ok name

def atSign : CChar := ⟨64, by decide⟩

/-- Whether `s` is this name, or the part of it before its unit address. -/
def nodenameEq (name s : CString) : Bool :=
  s.isPrefixOf name && match (name.drop s.length).head? with
    | none => true
    | some c => c = atSign && !s.contains atSign

def fdtNodenameEq (fdt : FdtBuf) (offset : Int) (s : CString) : Except FdtStop Bool := do
  match ← fdtGetName fdt offset with
  | .error _ => return false
  | .ok name => return nodenameEq name s

/-- The loop of `nextprop_`. -/
def nextProp (fdt : FdtBuf) : (rounds : Nat) → Int → Except FdtStop Int
  | 0, _ => .error .endless
  | rounds + 1, offset => do
    let (tag, nextoffset) ← fdtNextTag fdt offset
    if tag = fdtEndTag then return if 0 ≤ nextoffset then -fdtErrBadstructure else nextoffset
    else if tag = fdtPropTag then return offset
    else if tag = fdtNopTag then nextProp fdt rounds nextoffset
    else return -fdtErrNotfound

def fdtFirstPropertyOffset (fdt : FdtBuf) (nodeoffset : Int) : Except FdtStop Int := do
  let offset ← fdtCheckNodeOffset fdt nodeoffset
  if offset < 0 then return offset else nextProp fdt (fdt.mem.length + 1) offset

def fdtNextPropertyOffset (fdt : FdtBuf) (offset : Int) : Except FdtStop Int := do
  let offset ← fdtCheckPropOffset fdt offset
  if offset < 0 then return offset else nextProp fdt (fdt.mem.length + 1) offset

/-- Where a `struct fdt_property` is, and its length as `*lenp`. -/
structure PropertyPtr where
  ptr : Nat
  len : Int
  deriving DecidableEq, Repr

/-- `fdt_get_property_by_offset_`. -/
def propertyByOffset (fdt : FdtBuf) (offset : Int) :
    Except FdtStop (Except Int PropertyPtr) := do
  let err ← fdtCheckPropOffset fdt offset
  if err < 0 then return .error err
  else
    let ptr := fdt.offDtStruct + offset.toNat
    return .ok ⟨ptr, toInt (← fdt.ld32 (ptr + 4))⟩

def fdtGetPropertyByOffset (fdt : FdtBuf) (offset : Int) :
    Except FdtStop (Except Int PropertyPtr) :=
  if fdt.version < 0x10 then .ok (.error (-fdtErrBadversion)) else propertyByOffset fdt offset

/-- The value of a property, with the realignment of old versions. -/
def propertyData (fdt : FdtBuf) (offset : Int) (prop : PropertyPtr) : Except FdtStop Nat := do
  let len ← fdt.ld32 (prop.ptr + 4)
  return if fdt.version < 0x10 ∧ (offset + 12) % 8 ≠ 0 ∧ 8 ≤ len then prop.ptr + 16
    else prop.ptr + 12

/-- The loop of `fdt_get_property_namelen_`: the property and its offset. -/
def propertyNamelen (fdt : FdtBuf) (name : CString) : (rounds : Nat) → Int →
    Except FdtStop (Except Int (Int × PropertyPtr))
  | 0, _ => .error .endless
  | rounds + 1, offset =>
    if offset < 0 then .ok (.error offset)
    else do
      match ← propertyByOffset fdt offset with
      | .error _ => return .error (-fdtErrInternal)
      | .ok prop =>
        if ← fdtStringEq fdt (toInt (← fdt.ld32 (prop.ptr + 8))) name then
          return .ok (offset, prop)
        else propertyNamelen fdt name rounds (← fdtNextPropertyOffset fdt offset)

/-- The address of the value and `*lenp`. -/
def fdtGetpropNamelen (fdt : FdtBuf) (nodeoffset : Int) (name : CString) :
    Except FdtStop (Except Int (Nat × Int)) := do
  let first ← fdtFirstPropertyOffset fdt nodeoffset
  match ← propertyNamelen fdt name (fdt.mem.length + 1) first with
  | .error err => return .error err
  | .ok (poffset, prop) => return .ok (← propertyData fdt poffset prop, prop.len)

/-- The name of the property, the address of its value and `*lenp`. -/
def fdtGetpropByOffset (fdt : FdtBuf) (offset : Int) :
    Except FdtStop (Except Int (CString × Nat × Int)) := do
  match ← propertyByOffset fdt offset with
  | .error err => return .error err
  | .ok prop =>
    match ← fdtGetString fdt (toInt (← fdt.ld32 (prop.ptr + 8))) with
    | .error namelen => return .error namelen
    | .ok name => return .ok (name, ← propertyData fdt offset prop, prop.len)

/-- The loop of `fdt_subnode_offset_namelen`. -/
def subnodeLoop (fdt : FdtBuf) (name : CString) : (rounds : Nat) → Int → Int → Except FdtStop Int
  | 0, _, _ => .error .endless
  | rounds + 1, offset, depth =>
    if 0 ≤ offset ∧ 0 ≤ depth then do
      if ← (if depth = 1 then fdtNodenameEq fdt offset name else pure false) then return offset
      else
        let (offset, depth') ← fdtNextNode fdt offset (some depth)
        subnodeLoop fdt name rounds offset (depth'.getD 0)
    else .ok (if depth < 0 then -fdtErrNotfound else offset)

def fdtSubnodeOffsetNamelen (fdt : FdtBuf) (offset : Int) (name : CString) : Except FdtStop Int :=
  if fdtRoProbe fdt < 0 then .ok (fdtRoProbe fdt)
  else subnodeLoop fdt name (fdt.mem.length + 2) offset 0

/-- The loop over the parts of a path, which are what is between its slashes. -/
def pathLoop (fdt : FdtBuf) : List CString → Int → Except FdtStop Int
  | [], offset => .ok offset
  | name :: names, offset => do
    let offset ← fdtSubnodeOffsetNamelen fdt offset name
    if offset < 0 then return offset else pathLoop fdt names offset

def fdtAbsolutePath (fdt : FdtBuf) (path : CString) : Except FdtStop Int :=
  if fdtRoProbe fdt < 0 then .ok (fdtRoProbe fdt) else pathLoop fdt (tokens path) 0

/-- The address of the value of an alias, or NULL. -/
def fdtGetAliasNamelen (fdt : FdtBuf) (name : CString) : Except FdtStop (Option Nat) := do
  let aliasoffset ← fdtAbsolutePath fdt (cstr "/aliases")
  if aliasoffset < 0 then return none
  else
    match ← fdtGetpropNamelen fdt aliasoffset name with
    | .error _ => return none
    | .ok (value, _) => return some value

/-- A path that does not start with a slash starts with an alias, whose value is a path again. -/
def pathOffset (fdt : FdtBuf) : (rounds : Nat) → CString → Except FdtStop Int
  | 0, _ => .error .endless
  | rounds + 1, path =>
    if xenstoreIsAbsPath path then fdtAbsolutePath fdt path
    else if fdtRoProbe fdt < 0 then .ok (fdtRoProbe fdt)
    else do
      match ← fdtGetAliasNamelen fdt (path.takeWhile (· ≠ slash)) with
      | none => return -fdtErrBadpath
      | some p =>
        let offset ← pathOffset fdt rounds (← fdt.str p)
        pathLoop fdt (tokens (path.dropWhile (· ≠ slash))) offset

def fdtPathOffset (fdt : FdtBuf) (path : CString) : Except FdtStop Int :=
  pathOffset fdt (fdt.mem.length + 1) path

/-- The address of an entry, or NULL. -/
def fdtMemRsv (fdt : FdtBuf) (n : Nat) : Option Nat :=
  let absoffset := toUint (fdt.offMemRsvmap + toUint (n * 16))
  if absoffset < fdt.offMemRsvmap then none
  else if (fdt.totalsize + 2 ^ 64 - 16) % 2 ^ 64 < absoffset then none
  else some (fdt.offMemRsvmap + n * 16)

/-- The address and the size of an entry. -/
def fdtGetMemRsv (fdt : FdtBuf) (n : Nat) : Except FdtStop (Except Int (Nat × Nat)) :=
  if fdtRoProbe fdt < 0 then .ok (.error (fdtRoProbe fdt))
  else
    match fdtMemRsv fdt n with
    | none => .ok (.error (-fdtErrBadoffset))
    | some re => do return .ok (← fdt.ld64 re, ← fdt.ld64 (re + 8))

/-- The loop of `fdt_num_mem_rsv`. -/
def memRsvLoop (fdt : FdtBuf) : (rounds : Nat) → Nat → Except FdtStop Int
  | 0, _ => .error .endless
  | rounds + 1, i =>
    match fdtMemRsv fdt i with
    | none => .ok (-fdtErrTruncated)
    | some re => do
      if (← fdt.ld64 (re + 8)) = 0 then return i else memRsvLoop fdt rounds (i + 1)

def fdtNumMemRsv (fdt : FdtBuf) : Except FdtStop Int := memRsvLoop fdt (fdt.mem.length + 1) 0

/-- The loop of `fdt_check_full`. -/
def checkFullLoop (fdt : FdtBuf) : (rounds : Nat) → (nextoffset : Int) → (depth : Nat) →
    (expectEnd : Bool) → Except FdtStop Int
  | 0, _, _, _ => .error .endless
  | rounds + 1, offset, depth, expectEnd => do
    let (tag, nextoffset) ← fdtNextTag fdt offset
    if nextoffset < 0 then return nextoffset
    else if expectEnd ∧ tag ≠ fdtEndTag then return -fdtErrBadstructure
    else if tag = fdtNopTag then checkFullLoop fdt rounds nextoffset depth expectEnd
    else if tag = fdtEndTag then return if depth ≠ 0 then -fdtErrBadstructure else 0
    else if tag = fdtBeginNodeTag then
      let depth := depth + 1
      if intMax < depth then return -fdtErrBadstructure
      else if depth = 1 then
        match ← fdtGetName fdt offset with
        | .error len => return len
        | .ok name =>
          if name ≠ [] then return -fdtErrBadstructure
          else checkFullLoop fdt rounds nextoffset depth expectEnd
      else checkFullLoop fdt rounds nextoffset depth expectEnd
    else if tag = fdtEndNodeTag then
      if depth = 0 then return -fdtErrBadstructure
      else
        checkFullLoop fdt rounds nextoffset (depth - 1)
          (if depth - 1 = 0 then true else expectEnd)
    else if tag = fdtPropTag then
      match ← fdtGetpropByOffset fdt offset with
      | .error err => return err
      | .ok _ => checkFullLoop fdt rounds nextoffset depth expectEnd
    else return -fdtErrInternal

def fdtCheckFull (fdt : FdtBuf) (bufsize : Nat) : Except FdtStop Int :=
  if bufsize < fdtV1Size then .ok (-fdtErrTruncated)
  else if bufsize < fdtHeaderSize fdt.version then .ok (-fdtErrTruncated)
  else if fdtCheckHeader fdt ≠ 0 then .ok (fdtCheckHeader fdt)
  else if bufsize < fdt.totalsize then .ok (-fdtErrTruncated)
  else do
    let numMemrsv ← fdtNumMemRsv fdt
    if numMemrsv < 0 then return numMemrsv
    else checkFullLoop fdt (fdt.mem.length + 1) 0 0 false

end Xenlib.Libfdt
