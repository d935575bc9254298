import Xenlib.XlEntries

/-!
An entry that a text did not complete is free for the next one. What the first text left in it
stays there, below the values of the second and the defaults.
-/

set_option autoImplicit false

namespace Xenlib

open Assignments

/-- The configurations that the devices of any records lead to. -/
inductive ReachedEntries : BackendEntries → Prop where
  | zero : ReachedEntries .zero
  | device {cfg cfg' : BackendEntries} {str rest : CString} {bt : BackendType} :
      ReachedEntries cfg → findAndParseNextDevice str bt cfg = some (rest, cfg') →
        ReachedEntries cfg'

theorem ReachedEntries.devices {bt : BackendType} {cfg : BackendEntries} (h : ReachedEntries cfg)
    (dstr : CString) : ReachedEntries (parseDevices dstr bt cfg).2 := by
  fun_induction parseDevices dstr bt cfg with
  | case1 => exact h
  | case2 dstr cfg rest cfg' hfind => exact h.device hfind
  | case3 dstr cfg rest cfg' hfind next hnext ih => exact ih (h.device hfind)

theorem ReachedEntries.record {cfg cfg' : BackendEntries} (h : ReachedEntries cfg)
    {str : Option CString} {rc : Option Errno}
    (hrun : parseOneRecordAndFillCfg str (some cfg) = (rc, some cfg')) : ReachedEntries cfg' := by
  unfold parseOneRecordAndFillCfg at hrun
  split at hrun
  · rename_i str cfg₀ hcfg
    cases hcfg
    split at hrun
    · cases hrun
      exact h
    · cases hrun
      exact h.devices str
  · cases hrun
    exact h

structure EntryInv (bt : BackendType) (e : DeviceEntry bt.Field) : Prop where
  fields : ∀ f, ∃ v, e.field f = .holding v
  waiting : e.configured = false → ¬ bt.keys.Complete e

def EntriesInv (cfg : BackendEntries) : Prop :=
  ∀ bt, ∀ e ∈ (cfg.entries bt).val, EntryInv bt e

theorem complete_setDefaults (bt : BackendType) (e : DeviceEntry bt.Field) :
    bt.keys.Complete (setDefaults bt e) ↔ bt.keys.Complete e := by
  refine forall₂_congr fun f hf => ?_
  rw [setDefaults_field, required_no_default bt f hf]
  rfl

theorem EntryInv.zero (bt : BackendType) : EntryInv bt .zero where
  fields _ := ⟨[], PropertyBuffer.holding_nil.symm⟩
  waiting _ h := by
    cases bt with
    | vif => exact h VifField.bridge List.mem_cons_self rfl
    | pvblock => exact h DiskField.vdev List.mem_cons_self rfl

theorem EntryInv.parseText {bt : BackendType} {e : DeviceEntry bt.Field} (h : EntryInv bt e)
    (text : CString) : EntryInv bt (parseText bt text e) where
  fields f := by
    rw [parseText_field]
    cases bt.keys.given (textPairs text) (some f) with
    | some v => exact ⟨v, rfl⟩
    | none =>
      cases last f bt.defaults with
      | some v => exact ⟨v, rfl⟩
      | none => exact h.fields f
  waiting hfree := by
    have hnot := mt (parseText_configured bt text e).mpr (by simp [hfree])
    rw [not_or] at hnot
    intro hcomplete
    by_cases hpairs : textPairs text = []
    · rw [parseText_eq, hpairs] at hcomplete
      exact h.waiting (by simpa using hnot.1) ((complete_setDefaults bt e).mp hcomplete)
    · refine hnot.2 ((completes_setDefaults bt _ e).mp ⟨_, hpairs, List.prefix_rfl, ?_⟩)
      rw [← DeviceKeys.complete_run, ← parseText_eq]
      exact hcomplete

theorem storeDevice_some {bt : BackendType} {text : CString} {cfg cfg' : BackendEntries}
    (h : storeDevice bt text cfg = some cfg') :
    ∃ i, freeIndex bt cfg = some i ∧ cfg' = cfg.modify bt i (parseText bt text) := by
  rw [storeDevice_eq, Option.map_eq_some_iff] at h
  obtain ⟨i, hi, rfl⟩ := h
  exact ⟨i, hi, rfl⟩

theorem EntriesInv.modify {bt : BackendType} {cfg : BackendEntries} (h : EntriesInv cfg) (i : Nat)
    (text : CString) : EntriesInv (cfg.modify bt i (parseText bt text)) := by
  intro bt' e he
  by_cases hbt : bt' = bt
  · subst hbt
    rw [entries_modify] at he
    obtain ⟨j, hj, rfl⟩ := List.mem_iff_getElem.mp he
    rw [List.length_modify] at hj
    rw [List.getElem_modify]
    split
    · exact (h bt' _ (List.getElem_mem hj)).parseText text
    · exact h bt' _ (List.getElem_mem hj)
  · rw [entries_modify_other hbt] at he
    exact h bt' e he

theorem ReachedEntries.inv {cfg : BackendEntries} (h : ReachedEntries cfg) : EntriesInv cfg := by
  induction h with
  | zero =>
    intro bt e he
    cases bt with
    | vif =>
      rw [List.eq_of_mem_replicate he]
      exact EntryInv.zero .vif
    | pvblock =>
      rw [List.eq_of_mem_replicate he]
      exact EntryInv.zero .pvblock
  | device _ hfind ih =>
    obtain ⟨text, -, hstore⟩ := find_some hfind
    obtain ⟨i, -, rfl⟩ := storeDevice_some hstore
    exact ih.modify i text

/-- At one point of the text every required key has been given a value. -/
def GivesRequired (bt : BackendType) (text : CString) : Prop :=
  ∃ done, done ≠ [] ∧ done <+: textPairs text ∧
    ∀ f ∈ bt.keys.required, ∃ v, bt.keys.given done (some f) = some v ∧ v ≠ []

/-- The free entry ends as a zeroed one would, configured exactly for a text with all that is
required. -/
def OwnText (bt : BackendType) (cfg cfg' : BackendEntries) (text : CString) : Prop :=
  ∀ i e, freeIndex bt cfg = some i → (cfg'.entries bt).val[i]? = some e →
    e.field = (parseText bt text .zero).field ∧
    e.backendDomainId = (parseText bt text .zero).backendDomainId ∧
    (e.configured = true ↔ GivesRequired bt text)

structure NothingLeft (bt : BackendType) (e : DeviceEntry bt.Field) (text : CString) : Prop where
  fields : ∀ f, last f bt.defaults = none → bt.keys.given (textPairs text) (some f) = none →
    strHead (e.field f).val = []
  required : bt.keys.Completes (textPairs text) e → GivesRequired bt text

theorem completes_of_gives {bt : BackendType} {text : CString} (h : GivesRequired bt text)
    (e : DeviceEntry bt.Field) : bt.keys.Completes (textPairs text) e := by
  obtain ⟨done, hne, hpre, hall⟩ := h
  refine ⟨done, hne, hpre, fun f hf => ?_⟩
  obtain ⟨v, hv, hvne⟩ := hall f hf
  rw [DeviceKeys.HasValue, hv]
  exact hvne

theorem parseText_zero_configured (bt : BackendType) (text : CString) :
    (parseText bt text .zero).configured = true ↔ GivesRequired bt text := by
  rw [parseText_configured]
  constructor
  · rintro (h | ⟨done, hne, hpre, hall⟩)
    · cases h
    · refine ⟨done, hne, hpre, fun f hf => ?_⟩
      have hvalue := hall f hf
      unfold DeviceKeys.HasValue at hvalue
      split at hvalue
      · rename_i v hv
        exact ⟨v, hv, hvalue⟩
      · exact absurd rfl hvalue
  · exact fun h => Or.inr (completes_of_gives h _)

theorem field_left_iff {bt : BackendType} {e : DeviceEntry bt.Field} (h : EntryInv bt e)
    (f : bt.Field) : e.field f = .zero ↔ strHead (e.field f).val = [] := by
  obtain ⟨v, hv⟩ := h.fields f
  rw [hv, strHead_holding]
  constructor
  · intro heq
    have hhead := mt (PropertyBuffer.holding_head v).mpr (by rw [heq]; exact fun hne => hne rfl)
    rw [not_not.mp hhead, List.take_nil]
  · intro htake
    rcases List.take_eq_nil_iff.mp htake with hz | rfl
    · cases hz
    · exact PropertyBuffer.holding_nil

theorem parseText_own_iff {bt : BackendType} {e : DeviceEntry bt.Field} (h : EntryInv bt e)
    (hfree : e.configured = false) (text : CString) :
    ((parseText bt text e).field = (parseText bt text .zero).field ∧
      (parseText bt text e).backendDomainId = (parseText bt text .zero).backendDomainId ∧
      ((parseText bt text e).configured = true ↔ GivesRequired bt text)) ↔
    NothingLeft bt e text := by
  have hconf : (parseText bt text e).configured = true ↔ bt.keys.Completes (textPairs text) e := by
    rw [parseText_configured, hfree]
    simp
  constructor
  · rintro ⟨hfields, -, hall⟩
    refine ⟨fun f hdef hgiven => ?_, fun hc => hall.mp (hconf.mpr hc)⟩
    have hf := congrFun hfields f
    rw [parseText_field, parseText_field, hgiven, hdef] at hf
    exact (field_left_iff h f).mp hf
  · rintro ⟨hfields, hrequired⟩
    refine ⟨funext fun f => ?_, ?_, hconf.trans ⟨hrequired, fun hg => completes_of_gives hg e⟩⟩
    · rw [parseText_field, parseText_field]
      cases hgiven : bt.keys.given (textPairs text) (some f) with
      | some v => rfl
      | none =>
        cases hdef : last f bt.defaults with
        | some v => rfl
        | none => exact (field_left_iff h f).mpr (hfields f hdef hgiven)
    · rw [parseText_backend, parseText_backend]

theorem freeIndex_entry {bt : BackendType} {cfg : BackendEntries} {i : Nat}
    (h : freeIndex bt cfg = some i) :
    ∃ e, (cfg.entries bt).val[i]? = some e ∧ e ∈ (cfg.entries bt).val ∧ e.configured = false := by
  obtain ⟨hlt, hfree, -⟩ := List.findIdx?_eq_some_iff_getElem.mp h
  exact ⟨_, List.getElem?_eq_getElem hlt, List.getElem_mem hlt, by simpa using hfree⟩

theorem find_quoted_some {opening text closing rest : CString} {bt : BackendType}
    {cfg cfg' : BackendEntries} (ho : quote ∉ opening) (ht : quote ∉ text)
    (h : findAndParseNextDevice (opening ++ quote :: (text ++ quote :: closing)) bt cfg =
      some (rest, cfg')) :
    ∃ i, freeIndex bt cfg = some i ∧ cfg' = cfg.modify bt i (parseText bt text) := by
  have hlen : (opening ++ quote :: (text ++ quote :: closing)).length ≤ maxPropertyStringSize := by
    by_contra hlong
    rw [find_eq, nextText_long (not_le.mp hlong)] at h
    cases h
  rw [find_quoted ho ht hlen, Option.map_eq_some_iff] at h
  obtain ⟨stored, hstore, heq⟩ := h
  cases heq
  exact storeDevice_some hstore

theorem find_own_iff {cfg cfg' : BackendEntries} (hreach : ReachedEntries cfg) {bt : BackendType}
    {opening text closing rest : CString} (ho : quote ∉ opening) (ht : quote ∉ text)
    (h : findAndParseNextDevice (opening ++ quote :: (text ++ quote :: closing)) bt cfg =
      some (rest, cfg')) :
    OwnText bt cfg cfg' text ↔
      ∀ i e, freeIndex bt cfg = some i → (cfg.entries bt).val[i]? = some e →
        NothingLeft bt e text := by
  obtain ⟨i, hi, rfl⟩ := find_quoted_some ho ht h
  obtain ⟨e, he, hmem, hfree⟩ := freeIndex_entry hi
  have hstored : ((cfg.modify bt i (parseText bt text)).entries bt).val[i]? =
      some (parseText bt text e) := by
    rw [entries_modify, List.getElem?_modify_eq, he]
    rfl
  have hown := parseText_own_iff (hreach.inv bt e hmem) hfree text
  constructor
  · intro hall j e' hj he'
    cases hi.symm.trans hj
    cases he.symm.trans he'
    exact hown.mp (hall i _ hi hstored)
  · intro hall j e' hj he'
    cases hi.symm.trans hj
    cases hstored.symm.trans he'
    exact hown.mpr (hall i e hi he)

/-- The configuration after `vif=['mac=m']`, a record without the bridge. -/
def macOnly : BackendEntries := (parseDevices (cstr "vif=['mac=m']") .vif .zero).2

theorem macOnly_free : freeIndex .vif macOnly = some 0 := by decide +kernel

theorem find_macOnly {text : CString} (ht : quote ∉ text) (hlen : text.length ≤ 200) :
    findAndParseNextDevice (cstr "vif=[" ++ quote :: (text ++ quote :: cstr "]")) .vif macOnly =
      some (cstr "]", macOnly.modify .vif 0 (parseText .vif text)) := by
  have hrec : (cstr "vif=[" ++ quote :: (text ++ quote :: cstr "]")).length =
      text.length + 8 := by
    have hopen : (cstr "vif=[").length = 5 := by decide
    have hclose : (cstr "]").length = 1 := by decide
    simp only [List.length_append, List.length_cons, hopen, hclose]
    omega
  have hmax : maxPropertyStringSize = 256 := rfl
  rw [find_quoted (by decide) ht (by omega), storeDevice_eq, macOnly_free]
  rfl

/-- A text that gives both keys is not touched by what the record before it left. -/
theorem find_own_both :
    OwnText .vif macOnly (macOnly.modify .vif 0 (parseText .vif (cstr "bridge=b,mac=n")))
      (cstr "bridge=b,mac=n") := by
  refine (find_own_iff (ReachedEntries.zero.devices _) (by decide) (by decide)
    (find_macOnly (by decide) (by decide))).mpr fun i e hi he => ?_
  cases macOnly_free.symm.trans hi
  have hip : (macOnly.vifs.val[0]?.map fun e => strHead (e.field .ip).val) = some [] := by
    decide +kernel
  refine ⟨fun f hdef hgiven => ?_, fun _ => (parseText_zero_configured .vif _).mp (by
    decide +kernel)⟩
  have hothers : ∀ g : VifField, g ≠ .ip → last g BackendType.vif.defaults ≠ none ∨
      vifKeys.given (textPairs (cstr "bridge=b,mac=n")) (some g) ≠ none := by
    intro g hg
    cases g with
    | script => exact Or.inl (by decide +kernel)
    | mac => exact Or.inr (by decide +kernel)
    | bridge => exact Or.inr (by decide +kernel)
    | type => exact Or.inl (by decide +kernel)
    | ip => exact absurd rfl hg
  by_cases hf : f = VifField.ip
  · subst hf
    have hleft := congrArg (Option.map fun e : DeviceEntry VifField => strHead (e.field .ip).val) he
    exact Option.some.inj (hleft.symm.trans hip)
  · rcases hothers f hf with h | h
    · exact absurd hdef h
    · exact absurd hgiven h

/-- A text with nothing but the bridge is configured with the address of the record before it. -/
theorem bridge_with_left_mac :
    ¬ ∀ (cfg cfg' : BackendEntries) (bt : BackendType) (opening text closing rest : CString),
      ReachedEntries cfg → quote ∉ opening → quote ∉ text →
      findAndParseNextDevice (opening ++ quote :: (text ++ quote :: closing)) bt cfg =
        some (rest, cfg') → OwnText bt cfg cfg' text := by
  intro hall
  have hown := hall macOnly _ .vif _ (cstr "bridge=b") _ _ (ReachedEntries.zero.devices _)
    (by decide) (by decide) (find_macOnly (by decide) (by decide))
  have hconf : (((macOnly.modify .vif 0 (parseText .vif (cstr "bridge=b"))).entries
      .vif).val[0]?.map DeviceEntry.configured) = some true := by decide +kernel
  obtain ⟨e', he', htrue⟩ := Option.map_eq_some_iff.mp hconf
  have hgives := (hown 0 e' macOnly_free he').2.2.mp htrue
  have halone := (parseText_zero_configured .vif _).mpr hgives
  exact absurd halone (by decide +kernel)

end Xenlib
