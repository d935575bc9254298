import Mathlib.Data.List.DropRight
import Xenlib.DomainStats

/-!
The device records of an xl configuration. `parse_one_record_and_fill_cfg` takes the quoted texts
of a record one after another, and stores the pairs of each in the first free entry of its kind.
-/

set_option autoImplicit false

namespace Xenlib

def initXenstoreBuffSize : Nat := 80

def maxPvNetDevices : Nat := 3

def maxPvBlockDevices : Nat := 3

/-- `char field[INIT_XENSTORE_BUFF_SIZE]`. -/
abbrev PropertyBuffer := { mem : Bytes // mem.length = initXenstoreBuffSize }

inductive VifField where
  | script | mac | bridge | type | ip
  deriving DecidableEq, Repr

inductive DiskField where
  | backendtype | format | script | target | vdev | access
  deriving DecidableEq, Repr

/-- The defined values of `enum BACKEND_TYPE`. -/
inductive BackendType where
  | vif | pvblock
  deriving DecidableEq, Repr

/-- The string fields of `struct pv_net_configuration` and `struct pv_block_configuration`. -/
def BackendType.Field : BackendType → Type
  | .vif => VifField
  | .pvblock => DiskField

instance BackendType.decidableEqField : (bt : BackendType) → DecidableEq bt.Field
  | .vif => inferInstanceAs (DecidableEq VifField)
  | .pvblock => inferInstanceAs (DecidableEq DiskField)

/-- A `struct pv_net_configuration` or `struct pv_block_configuration`. -/
@[ext]
structure DeviceEntry (Field : Type) where
  configured : Bool
  backendDomainId : Int
  field : Field → PropertyBuffer

/-- One of the two arrays of `struct backend_configuration`. -/
abbrev DeviceArray (Field : Type) (size : Nat) :=
  { entries : List (DeviceEntry Field) // entries.length = size }

structure BackendEntries where
  vifs : DeviceArray VifField maxPvNetDevices
  disks : DeviceArray DiskField maxPvBlockDevices

def BackendType.maxDevices : BackendType → Nat
  | .vif => maxPvNetDevices
  | .pvblock => maxPvBlockDevices

def BackendEntries.entries (cfg : BackendEntries) :
    (bt : BackendType) → DeviceArray bt.Field bt.maxDevices
  | .vif => cfg.vifs
  | .pvblock => cfg.disks

section Entries
variable {F : Type} {n : Nat}

def DeviceArray.modify (a : DeviceArray F n) (i : Nat) (f : DeviceEntry F → DeviceEntry F) :
    DeviceArray F n :=
  ⟨a.val.modify i f, by rw [List.length_modify, a.property]⟩

def BackendEntries.modify (cfg : BackendEntries) :
    (bt : BackendType) → Nat → (DeviceEntry bt.Field → DeviceEntry bt.Field) → BackendEntries
  | .vif, i, f => { cfg with vifs := cfg.vifs.modify i f }
  | .pvblock, i, f => { cfg with disks := cfg.disks.modify i f }

theorem strncpy_length {buf : Bytes} {v : CString} {len : Nat} (h : len ≤ buf.length) :
    (strncpy buf v len).length = buf.length := by
  refine memcpy_length ?_
  simp only [List.length_append, List.length_take, textBytes_length, List.length_replicate]
  omega

/-- `strncpy(field, value, INIT_XENSTORE_BUFF_SIZE)`. -/
def PropertyBuffer.copy (buf : PropertyBuffer) (value : CString) : PropertyBuffer :=
  ⟨strncpy buf.val value initXenstoreBuffSize,
    (strncpy_length (Nat.le_of_eq buf.property.symm)).trans buf.property⟩

def PropertyBuffer.zero : PropertyBuffer :=
  ⟨List.replicate initXenstoreBuffSize 0, List.length_replicate ..⟩

def DeviceEntry.zero : DeviceEntry F := ⟨false, 0, fun _ => .zero⟩

variable [DecidableEq F]

def DeviceEntry.store (e : DeviceEntry F) (f : F) (value : CString) : DeviceEntry F :=
  { e with field := fun g => if g = f then (e.field f).copy value else e.field g }

end Entries

def BackendEntries.zero : BackendEntries :=
  ⟨⟨List.replicate maxPvNetDevices .zero, List.length_replicate ..⟩,
    ⟨List.replicate maxPvBlockDevices .zero, List.length_replicate ..⟩⟩

/-- `(int)strtol(value, NULL, 10)`, which stops at the limits of a `long`. -/
def atoiText (value : CString) : Int :=
  let n : Int := digitsValue ((atoiNumber value).takeWhile isDigit)
  let negative := (value.dropWhile isSpace).head?.any fun c => c.val = 45
  (BitVec.ofInt 32 (if negative then max (-n) (-2 ^ 63) else min n (2 ^ 63 - 1))).toInt

/-- The keys of a kind in the order of the comparisons, each with the field it is stored in, none
for `backend_domain_id`, and the fields a device cannot do without. -/
structure DeviceKeys (F : Type) where
  keys : List (CString × Option F)
  required : List F

section Keys
variable {F : Type} [DecidableEq F]

/-- The comparisons of a key, of which only the length of the known one counts. -/
def storeValue (g : DeviceKeys F) (key value : CString) (cfg : DeviceEntry F) : DeviceEntry F :=
  match g.keys.find? fun k => k.1.isPrefixOf key with
  | some (_, none) => { cfg with backendDomainId := atoiText value }
  | some (_, some f) => cfg.store f value
  | none => cfg

/-- "Validate required parameters". -/
def validateRequired (g : DeviceKeys F) (cfg : DeviceEntry F) : DeviceEntry F :=
  if g.required.all fun f => (cfg.field f).val.head? ≠ some 0 then { cfg with configured := true }
  else cfg

/-- What `process_disk_key_value` and `process_vif_key_value` have in common. -/
def processKeyValue (g : DeviceKeys F) (key value : CString) (cfg : DeviceEntry F) :
    DeviceEntry F :=
  validateRequired g (storeValue g key value cfg)

end Keys

def keyBackend : CString := cstr "backend"
def keyScript : CString := cstr "script"
def keyMac : CString := cstr "mac"
def keyBridge : CString := cstr "bridge"
def keyIp : CString := cstr "ip"
def keyVdev : CString := cstr "vdev"
def keyAccess : CString := cstr "access"
def keyTarget : CString := cstr "target"

def diskKeys : DeviceKeys DiskField where
  keys := [(keyBackend, none), (keyVdev, some .vdev), (keyAccess, some .access),
    (keyTarget, some .target), (keyScript, some .script)]
  required := [.vdev, .access, .target]

def vifKeys : DeviceKeys VifField where
  keys := [(keyBackend, none), (keyScript, some .script), (keyMac, some .mac),
    (keyBridge, some .bridge), (keyIp, some .ip)]
  required := [.bridge, .mac]

def processDiskKeyValue : CString → CString → DeviceEntry DiskField → DeviceEntry DiskField :=
  processKeyValue diskKeys

def processVifKeyValue : CString → CString → DeviceEntry VifField → DeviceEntry VifField :=
  processKeyValue vifKeys

def processFunctionsTable :
    (bt : BackendType) → CString → CString → DeviceEntry bt.Field → DeviceEntry bt.Field
  | .vif => processVifKeyValue
  | .pvblock => processDiskKeyValue

def detectBackendType (str : CString) : Option BackendType :=
  if (cstr "vif").isPrefixOf str then some .vif
  else if (cstr "disk").isPrefixOf str then some .pvblock
  else none

def BackendType.defaults : (bt : BackendType) → List (bt.Field × CString)
  | .vif => [(VifField.script, cstr "/etc/xen/scripts/vif-bridge"), (VifField.type, cstr "vif")]
  | .pvblock => [(DiskField.backendtype, cstr "phy"), (DiskField.format, cstr "raw"),
      (DiskField.script, cstr "/etc/xen/scripts/block")]

def setDefaults (bt : BackendType) (e : DeviceEntry bt.Field) : DeviceEntry bt.Field :=
  { bt.defaults.foldl (fun e d => e.store d.1 d.2) e with backendDomainId := 0 }

/-- The index of the first entry that is not configured, with its defaults set. -/
def findEntryAndSetDefaults (bt : BackendType) (cfg : BackendEntries) :
    Option (Nat × BackendEntries) :=
  match (cfg.entries bt).val.findIdx? fun e => !e.configured with
  | some i => some (i, cfg.modify bt i (setDefaults bt))
  | none => none

def comma : CChar := ⟨44, by decide⟩
def quote : CChar := ⟨39, by decide⟩
def equalSign : CChar := ⟨61, by decide⟩
def space : CChar := ⟨32, by decide⟩
def tab : CChar := ⟨9, by decide⟩

def strchr (c : CChar) : CString → Option CString
  | [] => none
  | x :: s => if x = c then some (x :: s) else strchr c s

/-- `strtok_r` with the one separator, the token and what is kept for the next call. -/
def strtokOn (delim : CChar) (s : CString) : Option (CString × CString) :=
  match s.dropWhile (· = delim) with
  | [] => none
  | c :: cs => some ((c :: cs).takeWhile (· ≠ delim), ((c :: cs).dropWhile (· ≠ delim)).drop 1)

def isBlank (c : CChar) : Bool := c = space || c = tab

/-- The loop that takes blanks off the end of a value leaves its first character. -/
def trimValue : CString → CString
  | [] => []
  | c :: cs => c :: cs.rdropWhile isBlank

/-- The key and the value of a token. -/
def splitToken (token : CString) : Option (CString × CString) :=
  match strchr equalSign token with
  | some equal =>
    some ((token.take (token.length - equal.length)).dropWhile isBlank, trimValue (equal.drop 1))
  | none => none

theorem strtokOn_length {delim : CChar} {s token rest : CString}
    (h : strtokOn delim s = some (token, rest)) : rest.length < s.length := by
  unfold strtokOn at h
  split at h
  · cases h
  · rename_i c cs hdrop
    cases h
    have hs := (List.dropWhile_suffix (· = delim) (l := s)).length_le
    have ht := (List.dropWhile_suffix (· ≠ delim) (l := c :: cs)).length_le
    rw [hdrop] at hs
    simp only [List.length_drop, List.length_cons] at hs ht ⊢
    omega

/-- The body of the loop over the tokens. -/
def processToken {F : Type} (kvFunc : CString → CString → DeviceEntry F → DeviceEntry F)
    (token : CString) (cfg : DeviceEntry F) : DeviceEntry F :=
  match splitToken token with
  | some (key, value) => kvFunc key value cfg
  | none => cfg

def parseKeyValue {F : Type} (kvFunc : CString → CString → DeviceEntry F → DeviceEntry F)
    (input : CString) (cfg : DeviceEntry F) : DeviceEntry F :=
  match _h : strtokOn comma input with
  | none => cfg
  | some (token, rest) => parseKeyValue kvFunc rest (processToken kvFunc token cfg)
termination_by input.length
decreasing_by exact strtokOn_length _h

def maxPropertyStringSize : Nat := 256

/-- The text between two quotes, as it stands in `entry`. -/
def entryText (lq rq : CString) : CString :=
  strHead (strncpy (List.replicate maxPropertyStringSize 0) (lq.drop 1)
    (lq.length - rq.length - 1))

/-- The rest of `find_and_parse_next_device`, which returns NULL when no entry is free. -/
def storeDevice (bt : BackendType) (entry : CString) (cfg : BackendEntries) :
    Option BackendEntries :=
  match findEntryAndSetDefaults bt cfg with
  | none => none
  | some (i, cfg) => some (cfg.modify bt i (parseKeyValue (processFunctionsTable bt) entry))

def findAndParseNextDevice (str : CString) (bt : BackendType) (cfg : BackendEntries) :
    Option (CString × BackendEntries) :=
  let strLen := min str.length maxPropertyStringSize
  if strLen = maxPropertyStringSize ∧ str.drop strLen ≠ [] then none
  else match strchr quote str with
    | none => none
    | some lq =>
      match strchr quote (lq.drop 1) with
      | none => none
      | some rq =>
        match storeDevice bt (entryText lq rq) cfg with
        | none => none
        | some cfg => some (rq.drop 1, cfg)

theorem strchr_length {c : CChar} {s t : CString} (h : strchr c s = some t) :
    t.length ≤ s.length := by
  induction s with
  | nil => cases h
  | cons x s ih =>
    rw [strchr] at h
    split at h
    · cases h
      exact le_rfl
    · exact (ih h).trans (Nat.le_succ _)

theorem strchr_ne_nil {c : CChar} {s t : CString} (h : strchr c s = some t) : t ≠ [] := by
  induction s with
  | nil => cases h
  | cons x s ih =>
    rw [strchr] at h
    split at h
    · cases h
      exact List.cons_ne_nil _ _
    · exact ih h

theorem strchr_twice_length {c : CChar} {s lq rq : CString} (hlq : strchr c s = some lq)
    (hrq : strchr c (lq.drop 1) = some rq) : (rq.drop 1).length < s.length := by
  have hl := strchr_length hlq
  have hr := strchr_length hrq
  have hne := List.length_pos_iff.mpr (strchr_ne_nil hrq)
  simp only [List.length_drop] at hr ⊢
  omega

theorem findAndParseNextDevice_length {str rest : CString} {bt : BackendType}
    {cfg cfg' : BackendEntries} (h : findAndParseNextDevice str bt cfg = some (rest, cfg')) :
    rest.length < str.length := by
  simp only [findAndParseNextDevice] at h
  split at h
  · cases h
  · split at h
    · cases h
    · rename_i lq hlq
      split at h
      · cases h
      · rename_i rq hrq
        split at h
        · cases h
        · cases h
          exact strchr_twice_length hlq hrq

def parseDevices (dstr : CString) (bt : BackendType) (cfg : BackendEntries) :
    Option Errno × BackendEntries :=
  match _h : findAndParseNextDevice dstr bt cfg with
  | none => (none, cfg)
  | some (rest, cfg') =>
    match _hr : strchr comma rest with
    | none => (none, cfg')
    | some next => parseDevices next bt cfg'
termination_by dstr.length
decreasing_by exact (strchr_length _hr).trans_lt (findAndParseNextDevice_length _h)

def parseOneRecordAndFillCfg (str : Option CString) (cfg : Option BackendEntries) :
    Option Errno × Option BackendEntries :=
  match str, cfg with
  | some str, some cfg =>
    match detectBackendType str with
    | none => (some .einval, some cfg)
    | some bt =>
      let (rc, cfg) := parseDevices str bt cfg
      (rc, some cfg)
  | _, cfg => (some .einval, cfg)

end Xenlib
