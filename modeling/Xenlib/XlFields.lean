import Xenlib.Backends
import Xenlib.XlRecords

/-!
The string fields of the entries, which are read as C strings when the nodes of a device are
written. A value of 80 bytes or more fills its field and leaves no NUL in it.
-/

set_option autoImplicit false

namespace Xenlib

open Assignments

/-- A string that ends inside its field: a C function that gets the field reads nothing of what
lies behind. -/
structure PropertyBuffer.Terminated (buf : PropertyBuffer) : Prop where
  nul : (0 : UInt8) ∈ buf.val
  read : ∀ behind, readStr (buf.val ++ behind) = .ok (strHead buf.val)

theorem PropertyBuffer.holding_short {v : CString} (h : v.length < initXenstoreBuffSize) :
    (PropertyBuffer.holding v).Terminated := by
  have hlen := PropertyBuffer.zero.property
  obtain ⟨tail, htail⟩ := @strncpy_short PropertyBuffer.zero.val v (by rwa [hlen])
  rw [hlen] at htail
  have hval : (PropertyBuffer.holding v).val = strBytes v ++ tail := htail
  constructor
  · rw [hval]
    simp [strBytes]
  · intro behind
    rw [strHead_holding, List.take_of_length_le h.le, hval, List.append_assoc, readStr_strBytes]

/-- A value that fills the field is not terminated in it. -/
theorem PropertyBuffer.holding_terminated_iff (v : CString) :
    (PropertyBuffer.holding v).Terminated ↔ v.length < initXenstoreBuffSize := by
  constructor
  · intro h
    by_contra hlong
    have hlen := PropertyBuffer.zero.property
    have hfull := @strncpy_full PropertyBuffer.zero.val v (by
      rw [hlen]
      exact not_lt.mp hlong)
    rw [hlen] at hfull
    have hmem := h.nul
    rw [show (PropertyBuffer.holding v).val = _ from hfull] at hmem
    exact zero_not_mem_textBytes _ hmem
  · exact PropertyBuffer.holding_short

def FieldsTerminated (cfg : BackendEntries) : Prop :=
  ∀ bt, ∀ e ∈ (cfg.entries bt).val, ∀ f, (e.field f).Terminated

section Strings
variable {F : Type} [DecidableEq F]

/-- What is read of a field that lies before others in its struct. -/
def DeviceEntry.cString (e : DeviceEntry F) (order : List F) (f : F) : Except Fault CString :=
  readStr ((order.dropWhile (· ≠ f)).flatMap fun g => (e.field g).val)

theorem DeviceEntry.cString_terminated {e : DeviceEntry F} {f : F} (h : (e.field f).Terminated)
    {order : List F} (hf : f ∈ order) : e.cString order f = .ok (strHead (e.field f).val) := by
  obtain ⟨before, after, rfl, hbefore⟩ := List.eq_append_cons_of_mem hf
  have hdrop : (before ++ f :: after).dropWhile (· ≠ f) = f :: after := by
    rw [List.dropWhile_append_of_pos]
    · simp
    · intro g hg
      simp only [decide_not, Bool.not_eq_true', decide_eq_false_iff_not]
      rintro rfl
      exact hbefore hg
  rw [cString, hdrop, List.flatMap_cons]
  exact h.read _

end Strings

def vifOrder : List VifField := [.script, .mac, .bridge, .type, .ip]

def diskOrder : List DiskField := [.backendtype, .format, .script, .target, .vdev, .access]

/-- What `xs_add_pvnet_xenstore` reads of an entry. -/
def DeviceEntry.netConfiguration (e : DeviceEntry VifField) : Except Fault PvNetConfiguration := do
  let script ← e.cString vifOrder .script
  let mac ← e.cString vifOrder .mac
  let bridge ← e.cString vifOrder .bridge
  let type ← e.cString vifOrder .type
  let ip ← e.cString vifOrder .ip
  pure ⟨e.configured, ⟨BitVec.ofInt 32 e.backendDomainId⟩, script, mac, bridge, type, ip⟩

/-- What `xs_add_pvblock_xenstore` reads of an entry. -/
def DeviceEntry.blockConfiguration (e : DeviceEntry DiskField) :
    Except Fault PvBlockConfiguration := do
  let backendtype ← e.cString diskOrder .backendtype
  let script ← e.cString diskOrder .script
  let target ← e.cString diskOrder .target
  let vdev ← e.cString diskOrder .vdev
  let access ← e.cString diskOrder .access
  pure ⟨e.configured, ⟨BitVec.ofInt 32 e.backendDomainId⟩, backendtype, script, target, vdev,
    access⟩

theorem DeviceEntry.netConfiguration_terminated {e : DeviceEntry VifField}
    (h : ∀ f, (e.field f).Terminated) :
    e.netConfiguration = .ok ⟨e.configured, ⟨BitVec.ofInt 32 e.backendDomainId⟩,
      strHead (e.field .script).val, strHead (e.field .mac).val, strHead (e.field .bridge).val,
      strHead (e.field .type).val, strHead (e.field .ip).val⟩ := by
  have hread : ∀ f, f ∈ vifOrder → e.cString vifOrder f = .ok (strHead (e.field f).val) :=
    fun f hf => DeviceEntry.cString_terminated (h f) hf
  rw [netConfiguration, hread .script (by decide), hread .mac (by decide),
    hread .bridge (by decide), hread .type (by decide), hread .ip (by decide)]
  rfl

theorem DeviceEntry.blockConfiguration_terminated {e : DeviceEntry DiskField}
    (h : ∀ f, (e.field f).Terminated) :
    e.blockConfiguration = .ok ⟨e.configured, ⟨BitVec.ofInt 32 e.backendDomainId⟩,
      strHead (e.field .backendtype).val, strHead (e.field .script).val,
      strHead (e.field .target).val, strHead (e.field .vdev).val,
      strHead (e.field .access).val⟩ := by
  have hread : ∀ f, f ∈ diskOrder → e.cString diskOrder f = .ok (strHead (e.field f).val) :=
    fun f hf => DeviceEntry.cString_terminated (h f) hf
  rw [blockConfiguration, hread .backendtype (by decide), hread .script (by decide),
    hread .target (by decide), hread .vdev (by decide), hread .access (by decide)]
  rfl

/-- What a text assigns to the string fields of its entry, the defaults first. -/
def textAssigns (bt : BackendType) (text : CString) : List (bt.Field × CString) :=
  bt.defaults ++ ((textPairs text).flatMap bt.keys.assigns).filterMap fun w =>
    w.1.map fun f => (f, w.2)

/-- What the texts of a record assign to the entry at `i`, text by text. -/
def assignedTo (bt : BackendType) (i : Nat) :
    List CString → List (DeviceEntry bt.Field) → List (bt.Field × CString)
  | [], _ => []
  | text :: texts, entries =>
    (if (entries.findIdx? fun e => !e.configured) = some i then textAssigns bt text else []) ++
      assignedTo bt i texts (storeIn (parseText bt) entries text)

section Slots
variable {bt : BackendType} {e : DeviceEntry bt.Field} {entries : List (DeviceEntry bt.Field)}

theorem assignedTo_configured (he : e.configured = true) (i : Nat) (texts : List CString) :
    assignedTo bt 0 texts (e :: entries) = [] ∧
      assignedTo bt (i + 1) texts (e :: entries) = assignedTo bt i texts entries := by
  induction texts generalizing entries with
  | nil => exact ⟨rfl, rfl⟩
  | cons text texts ih =>
    have hfree : ((e :: entries).findIdx? fun e => !e.configured) =
        (entries.findIdx? fun e => !e.configured).map (· + 1) := by
      rw [List.findIdx?_cons, he]
      rfl
    obtain ⟨hhead, hbehind⟩ := @ih (storeIn (parseText bt) entries text)
    constructor
    · rw [assignedTo, storeIn_configured _ he, hhead, hfree]
      simp
    · rw [assignedTo, assignedTo, storeIn_configured _ he, hbehind, hfree]
      simp

/-- A text goes to the first free entry, and the next one goes there too unless it completes the
entry. -/
theorem assignedTo_free (he : e.configured = false) (text : CString) (texts : List CString) :
    (bt.keys.Completes (textPairs text) e →
      assignedTo bt 0 (text :: texts) (e :: entries) = textAssigns bt text ∧
      ∀ i, assignedTo bt (i + 1) (text :: texts) (e :: entries) =
        assignedTo bt i texts entries) ∧
    (¬ bt.keys.Completes (textPairs text) e →
      (parseText bt text e).configured = false ∧
      assignedTo bt 0 (text :: texts) (e :: entries) =
        textAssigns bt text ++ assignedTo bt 0 texts (parseText bt text e :: entries) ∧
      ∀ i, assignedTo bt (i + 1) (text :: texts) (e :: entries) =
        assignedTo bt (i + 1) texts (parseText bt text e :: entries)) := by
  have hfree : ((e :: entries).findIdx? fun e => !e.configured) = some 0 := by
    rw [List.findIdx?_cons, he]
    rfl
  have hfirst : assignedTo bt 0 (text :: texts) (e :: entries) =
      textAssigns bt text ++ assignedTo bt 0 texts (parseText bt text e :: entries) := by
    rw [assignedTo, storeIn_free _ he, hfree, if_pos rfl]
  have hbehind : ∀ i, assignedTo bt (i + 1) (text :: texts) (e :: entries) =
      assignedTo bt (i + 1) texts (parseText bt text e :: entries) := by
    intro i
    rw [assignedTo, storeIn_free _ he, hfree, if_neg (by simp), List.nil_append]
  have hconf := parseText_configured bt text e
  rw [he] at hconf
  refine ⟨fun hc => ?_, fun hc => ⟨?_, hfirst, hbehind⟩⟩
  · have hdone : (parseText bt text e).configured = true := hconf.mpr (.inr hc)
    refine ⟨?_, fun i => ?_⟩
    · rw [hfirst, (assignedTo_configured hdone 0 texts).1, List.append_nil]
    · rw [hbehind, (assignedTo_configured hdone i texts).2]
  · rw [← Bool.not_eq_true, hconf]
    simpa using hc

end Slots

theorem last_fields {bt : BackendType} (f : bt.Field) (ws : List (Option bt.Field × CString)) :
    last f (ws.filterMap fun w => w.1.map fun f => (f, w.2)) = last (some f) ws := by
  induction ws with
  | nil => rfl
  | cons w ws ih =>
    obtain ⟨t, v⟩ := w
    cases t with
    | none => simp [last, ih]
    | some g => simp [last, ih]

theorem parseText_assigns (bt : BackendType) (text : CString) (e : DeviceEntry bt.Field)
    (f : bt.Field) :
    (parseText bt text e).field f =
      ((last f (textAssigns bt text)).map PropertyBuffer.holding).getD (e.field f) := by
  rw [parseText_field, textAssigns, last_append, last_fields, DeviceKeys.given]
  cases last (some f) ((textPairs text).flatMap bt.keys.assigns) with
  | some v => rfl
  | none => rfl

theorem storeAll_field {bt : BackendType} {i : Nat} (texts : List CString)
    {entries : List (DeviceEntry bt.Field)} {e : DeviceEntry bt.Field}
    (he : entries[i]? = some e) (f : bt.Field) :
    ∃ e', (storeAll (parseText bt) texts entries)[i]? = some e' ∧
      e'.field f =
        ((last f (assignedTo bt i texts entries)).map PropertyBuffer.holding).getD (e.field f) := by
  induction texts generalizing entries e with
  | nil => exact ⟨e, he, rfl⟩
  | cons text texts ih =>
    have hstep : ∃ e₁, (storeIn (parseText bt) entries text)[i]? = some e₁ ∧ e₁.field f =
        ((last f (if (entries.findIdx? fun e => !e.configured) = some i then textAssigns bt text
          else [])).map PropertyBuffer.holding).getD (e.field f) := by
      rw [storeIn]
      cases hfree : entries.findIdx? fun e => !e.configured with
      | none => exact ⟨e, he, rfl⟩
      | some j =>
        by_cases hj : j = i
        · subst hj
          refine ⟨parseText bt text e, ?_, ?_⟩
          · simp [he]
          · rw [if_pos rfl]
            exact parseText_assigns bt text e f
        · refine ⟨e, ?_, ?_⟩
          · simp [he, hj]
          · rw [if_neg (by simpa using hj)]
            rfl
    obtain ⟨e₁, he₁, hfield⟩ := hstep
    obtain ⟨e', he', hrest⟩ := ih he₁
    refine ⟨e', he', ?_⟩
    rw [hrest, hfield, assignedTo, last_append]
    cases last f (assignedTo bt i texts (storeIn (parseText bt) entries text)) with
    | some v => rfl
    | none => rfl

theorem entries_get {bt : BackendType} (cfg : BackendEntries) {i : Nat} (h : i < bt.maxDevices) :
    ∃ e, (cfg.entries bt).val[i]? = some e ∧ e ∈ (cfg.entries bt).val := by
  rw [← (cfg.entries bt).property] at h
  exact ⟨_, List.getElem?_eq_getElem h, List.getElem_mem h⟩

theorem storeTexts_terminated_iff {cfg : BackendEntries} (h : FieldsTerminated cfg)
    (bt : BackendType) (texts : List CString) :
    FieldsTerminated (storeTexts bt texts cfg) ↔
      ∀ i < bt.maxDevices, ∀ f v,
        last f (assignedTo bt i texts (cfg.entries bt).val) = some v →
          v.length < initXenstoreBuffSize := by
  constructor
  · intro hall i hi f v hv
    obtain ⟨e, he, -⟩ := entries_get cfg hi
    obtain ⟨e', he', hfield⟩ := storeAll_field texts he f
    rw [← entries_storeTexts] at he'
    have hterm := hall bt e' (List.mem_of_getElem? he') f
    rw [hfield, hv] at hterm
    exact (PropertyBuffer.holding_terminated_iff v).mp hterm
  · intro hshort bt' e' he' f
    by_cases hbt : bt' = bt
    · subst hbt
      obtain ⟨i, hi, rfl⟩ := List.mem_iff_getElem.mp he'
      rw [((storeTexts bt' texts cfg).entries bt').property] at hi
      obtain ⟨e, he, hmem⟩ := entries_get cfg hi
      obtain ⟨e', he', hfield⟩ := storeAll_field texts he f
      rw [← entries_storeTexts, List.getElem?_eq_some_iff] at he'
      obtain ⟨_, rfl⟩ := he'
      rw [hfield]
      cases hv : last f (assignedTo bt' i texts (cfg.entries bt').val) with
      | none => exact h bt' e hmem f
      | some v => exact (PropertyBuffer.holding_terminated_iff v).mpr (hshort i hi f v hv)
    · rw [entries_storeTexts_other hbt] at he'
      exact h bt' e' he' f

/-- After a record the fields are terminated exactly when the last value it assigns to each is
shorter than the field. -/
theorem parseRecord_terminated_iff {str : CString} {cfg cfg' : BackendEntries}
    {rc : Option Errno} (hcfg : FieldsTerminated cfg)
    (h : parseOneRecordAndFillCfg (some str) (some cfg) = (rc, some cfg')) :
    FieldsTerminated cfg' ↔
      ∀ bt, detectBackendType str = some bt → ∀ i < bt.maxDevices, ∀ f v,
        last f (assignedTo bt i (deviceTexts str) (cfg.entries bt).val) = some v →
          v.length < initXenstoreBuffSize := by
  rw [parseRecord_eq] at h
  cases hbt : detectBackendType str with
  | none =>
    rw [hbt] at h
    cases h
    constructor
    · intro _ bt hsome
      cases hsome
    · exact fun _ => hcfg
  | some bt =>
    rw [hbt] at h
    cases h
    rw [storeTexts_terminated_iff hcfg]
    constructor
    · intro hall bt' hsome
      cases hsome
      exact hall
    · exact fun hall => hall bt rfl

theorem fieldsTerminated_zero : FieldsTerminated .zero := by
  intro bt e he f
  have hzero : e = .zero := by
    cases bt with
    | vif => exact List.eq_of_mem_replicate he
    | pvblock => exact List.eq_of_mem_replicate he
  rw [hzero]
  show PropertyBuffer.zero.Terminated
  rw [← PropertyBuffer.holding_nil]
  exact PropertyBuffer.holding_short (by decide)

/-- Two interfaces, of which the second has no bridge. -/
def secondIncomplete : CString := cstr "vif=['bridge=b,mac=m','mac=n']"

theorem secondIncomplete_parsed : parseOneRecordAndFillCfg (some secondIncomplete) (some .zero) =
    (none, some (storeTexts .vif (deviceTexts secondIncomplete) .zero)) := by
  have hvif : detectBackendType secondIncomplete = some .vif := by decide +kernel
  rw [parseRecord_eq, hvif]

theorem parseRecord_terminated_two :
    FieldsTerminated (storeTexts .vif (deviceTexts secondIncomplete) .zero) := by
  refine (parseRecord_terminated_iff fieldsTerminated_zero secondIncomplete_parsed).mpr
    fun bt hbt i hi f v hv => ?_
  have hvif : detectBackendType secondIncomplete = some .vif := by decide +kernel
  cases hvif.symm.trans hbt
  have hshort : ∀ f : VifField, ∀ i ∈ List.range 3, ∀ v ∈ last f (assignedTo .vif i
      (deviceTexts secondIncomplete) (BackendEntries.zero.entries .vif).val),
      v.length < initXenstoreBuffSize := by
    intro f
    cases f with
    | script => decide +kernel
    | mac => decide +kernel
    | bridge => decide +kernel
    | type => decide +kernel
    | ip => decide +kernel
  exact hshort f i (List.mem_range.mpr hi) v hv

/-- An address of 80 characters. -/
def longMac : CString :=
  cstr "vif=['bridge=b,mac=" ++ (List.replicate 80 (cstr "x")).flatten ++ cstr "']"

/-- A value that fills its field leaves it without a NUL. -/
theorem longMac_unterminated :
    ¬ ∀ (str : CString) (cfg cfg' : BackendEntries) (rc : Option Errno), FieldsTerminated cfg →
      parseOneRecordAndFillCfg (some str) (some cfg) = (rc, some cfg') →
      FieldsTerminated cfg' := by
  intro hall
  have hvif : detectBackendType longMac = some .vif := by decide +kernel
  have hterm := hall longMac .zero _ _ fieldsTerminated_zero (by rw [parseRecord_eq, hvif])
  have hnul : ∀ e ∈ (storeTexts .vif (deviceTexts longMac) .zero).vifs.val,
      (0 : UInt8) ∈ (e.field .mac).val := fun e he => (hterm .vif e he .mac).nul
  exact absurd hnul (by decide +kernel)

end Xenlib
