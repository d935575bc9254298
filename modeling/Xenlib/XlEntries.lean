import Xenlib.Lib.Assignments
import Xenlib.Lib.Tokens
import Xenlib.XlParser

/-!
What the text of a device leaves in the entry it is stored in: the last value of each field, the
defaults below it, and what was in the entry before below them.
-/

set_option autoImplicit false

namespace Xenlib

open Assignments Tokens

theorem strncpy_whole {buf : Bytes} {len : Nat} (h : buf.length = len) (v : CString) :
    strncpy buf v len = (textBytes v).take len ++ List.replicate (len - v.length) 0 := by
  rw [strncpy, memcpy_start, List.drop_of_length_le, List.append_nil]
  simp only [List.length_append, List.length_take, textBytes_length, List.length_replicate]
  omega

def PropertyBuffer.holding (v : CString) : PropertyBuffer := PropertyBuffer.zero.copy v

theorem PropertyBuffer.copy_eq (buf : PropertyBuffer) (v : CString) : buf.copy v = .holding v :=
  Subtype.ext ((strncpy_whole buf.property v).trans
    (strncpy_whole PropertyBuffer.zero.property v).symm)

theorem PropertyBuffer.holding_nil : PropertyBuffer.holding [] = .zero := by decide +kernel

theorem PropertyBuffer.holding_head (v : CString) :
    (PropertyBuffer.holding v).val.head? ≠ some 0 ↔ v ≠ [] := by
  cases v with
  | nil => decide +kernel
  | cons c v =>
    have hval := strncpy_whole PropertyBuffer.zero.property (c :: v)
    have hhead : (PropertyBuffer.holding (c :: v)).val.head? = some c.val := by
      show (strncpy _ _ _).head? = _
      rw [hval]
      rfl
    rw [hhead]
    simpa using c.property

theorem strHead_holding (v : CString) :
    strHead (PropertyBuffer.holding v).val = v.take initXenstoreBuffSize := by
  have hlen := PropertyBuffer.zero.property
  have hhead := @strHead_strncpy PropertyBuffer.zero.val v
  rw [hlen] at hhead
  exact hhead

section Store
variable {F : Type} [DecidableEq F]

theorem DeviceEntry.store_field (e : DeviceEntry F) (f g : F) (v : CString) :
    (e.store f v).field g = if g = f then .holding v else e.field g := by
  simp only [store, PropertyBuffer.copy_eq]

def DeviceKeys.dispatch (g : DeviceKeys F) (key : CString) : Option (Option F) :=
  (g.keys.find? fun k => k.1.isPrefixOf key).map Prod.snd

/-- What a pair assigns, none standing for `backend_domain_id`. -/
def DeviceKeys.assigns (g : DeviceKeys F) (p : CString × CString) : List (Option F × CString) :=
  ((g.dispatch p.1).map fun t => (t, p.2)).toList

def DeviceKeys.given (g : DeviceKeys F) (pairs : List (CString × CString)) (t : Option F) :
    Option CString :=
  last t (pairs.flatMap g.assigns)

def DeviceKeys.Complete (g : DeviceKeys F) (e : DeviceEntry F) : Prop :=
  ∀ f ∈ g.required, (e.field f).val.head? ≠ some 0

def DeviceKeys.step (g : DeviceKeys F) (e : DeviceEntry F) (p : CString × CString) :
    DeviceEntry F :=
  processKeyValue g p.1 p.2 e

def DeviceKeys.run (g : DeviceKeys F) (pairs : List (CString × CString)) (e : DeviceEntry F) :
    DeviceEntry F :=
  pairs.foldl g.step e

variable (g : DeviceKeys F)

theorem last_assigns (t : Option F) (p : CString × CString) :
    last t (g.assigns p) = if g.dispatch p.1 = some t then some p.2 else none := by
  unfold DeviceKeys.assigns
  cases g.dispatch p.1 with
  | none => simp
  | some u => simp [last]

omit [DecidableEq F] in
theorem validateRequired_field (e : DeviceEntry F) (f : F) :
    (validateRequired g e).field f = e.field f := by
  unfold validateRequired
  split <;> rfl

omit [DecidableEq F] in
theorem validateRequired_backend (e : DeviceEntry F) :
    (validateRequired g e).backendDomainId = e.backendDomainId := by
  unfold validateRequired
  split <;> rfl

omit [DecidableEq F] in
theorem validateRequired_configured (e : DeviceEntry F) :
    (validateRequired g e).configured = true ↔ e.configured = true ∨ g.Complete e := by
  have hcheck : (g.required.all fun f => (e.field f).val.head? ≠ some 0) = true ↔
      g.Complete e := by simp [DeviceKeys.Complete]
  unfold validateRequired
  split
  · rename_i hall
    exact ⟨fun _ => Or.inr (hcheck.mp hall), fun _ => rfl⟩
  · rename_i hall
    exact ⟨Or.inl, fun h => h.resolve_right (mt hcheck.mpr hall)⟩

theorem storeValue_configured (key value : CString) (e : DeviceEntry F) :
    (storeValue g key value e).configured = e.configured := by
  unfold storeValue
  split <;> rfl

theorem processKeyValue_field (key value : CString) (e : DeviceEntry F) (f : F) :
    (processKeyValue g key value e).field f =
      ((last (some f) (g.assigns (key, value))).map PropertyBuffer.holding).getD (e.field f) := by
  rw [last_assigns, processKeyValue, validateRequired_field, storeValue, DeviceKeys.dispatch]
  cases g.keys.find? fun k => k.1.isPrefixOf key with
  | none => rfl
  | some k =>
    obtain ⟨name, t⟩ := k
    cases t with
    | none => rfl
    | some h =>
      show (e.store h value).field f = _
      rw [DeviceEntry.store_field]
      by_cases hf : f = h
      · simp [hf]
      · simp [hf, Ne.symm hf]

theorem processKeyValue_backend (key value : CString) (e : DeviceEntry F) :
    (processKeyValue g key value e).backendDomainId =
      ((last none (g.assigns (key, value))).map atoiText).getD e.backendDomainId := by
  rw [last_assigns, processKeyValue, validateRequired_backend, storeValue, DeviceKeys.dispatch]
  cases g.keys.find? fun k => k.1.isPrefixOf key with
  | none => rfl
  | some k =>
    obtain ⟨name, t⟩ := k
    cases t with
    | none => rfl
    | some h => rfl

theorem processKeyValue_configured (key value : CString) (e : DeviceEntry F) :
    (processKeyValue g key value e).configured = true ↔
      e.configured = true ∨ g.Complete (processKeyValue g key value e) := by
  have hfields : g.Complete (processKeyValue g key value e) ↔
      g.Complete (storeValue g key value e) := by
    refine forall₂_congr fun f _ => ?_
    rw [processKeyValue, validateRequired_field]
  rw [hfields, processKeyValue, validateRequired_configured, storeValue_configured]

theorem DeviceKeys.run_field (pairs : List (CString × CString)) (e : DeviceEntry F) (f : F) :
    (g.run pairs e).field f =
      ((g.given pairs (some f)).map PropertyBuffer.holding).getD (e.field f) :=
  read_foldl (fun e => e.field f) g.step g.assigns
    (fun e p => processKeyValue_field g p.1 p.2 e f) pairs e

theorem DeviceKeys.run_backend (pairs : List (CString × CString)) (e : DeviceEntry F) :
    (g.run pairs e).backendDomainId = ((g.given pairs none).map atoiText).getD e.backendDomainId :=
  read_foldl DeviceEntry.backendDomainId g.step g.assigns
    (fun e p => processKeyValue_backend g p.1 p.2 e) pairs e

def DeviceKeys.HasValue (g : DeviceKeys F) (pairs : List (CString × CString)) (e : DeviceEntry F)
    (f : F) : Prop :=
  match g.given pairs (some f) with
  | some v => v ≠ []
  | none => (e.field f).val.head? ≠ some 0

def DeviceKeys.Completes (g : DeviceKeys F) (pairs : List (CString × CString))
    (e : DeviceEntry F) : Prop :=
  ∃ done, done ≠ [] ∧ done <+: pairs ∧ ∀ f ∈ g.required, g.HasValue done e f

theorem DeviceKeys.complete_run (pairs : List (CString × CString)) (e : DeviceEntry F) :
    g.Complete (g.run pairs e) ↔ ∀ f ∈ g.required, g.HasValue pairs e f := by
  refine forall₂_congr fun f _ => ?_
  rw [g.run_field, DeviceKeys.HasValue]
  cases g.given pairs (some f) with
  | none => rfl
  | some v => exact PropertyBuffer.holding_head v

theorem DeviceKeys.run_configured (pairs : List (CString × CString)) (e : DeviceEntry F) :
    (g.run pairs e).configured = true ↔ e.configured = true ∨ g.Completes pairs e := by
  have hrun : (g.run pairs e).configured = true ↔ e.configured = true ∨
      ∃ done, done ≠ [] ∧ done <+: pairs ∧ g.Complete (g.run done e) :=
    latched_foldl g.step (fun e => e.configured = true) g.Complete
      (fun e p => processKeyValue_configured g p.1 p.2 e) pairs e
  simpa only [g.complete_run, DeviceKeys.Completes] using hrun

end Store

def BackendType.keys : (bt : BackendType) → DeviceKeys bt.Field
  | .vif => vifKeys
  | .pvblock => diskKeys

theorem processFunctionsTable_eq (bt : BackendType) :
    processFunctionsTable bt = processKeyValue bt.keys := by
  cases bt with
  | vif => rfl
  | pvblock => rfl

def textPairs (text : CString) : List (CString × CString) :=
  (delimited comma text).filterMap splitToken

theorem textPairs_intercalate {pieces : List CString} (h : ∀ p ∈ pieces, comma ∉ p) :
    textPairs ([comma].intercalate pieces) = pieces.filterMap splitToken := by
  rw [textPairs, delimited_intercalate h, List.filterMap_filter]
  refine List.filterMap_congr fun p _ => ?_
  by_cases hp : p = []
  · subst hp
    rfl
  · simp [hp]

theorem delimited_strtok (s : CString) :
    delimited comma s = match strtokOn comma s with
      | none => []
      | some (token, rest) => token :: delimited comma rest := by
  rw [delimited_first, strtokOn]
  cases s.dropWhile (· = comma) with
  | nil => rfl
  | cons c cs => rfl

theorem parseKeyValue_pairs {F : Type}
    (kvFunc : CString → CString → DeviceEntry F → DeviceEntry F) (text : CString)
    (e : DeviceEntry F) :
    parseKeyValue kvFunc text e = (textPairs text).foldl (fun e p => kvFunc p.1 p.2 e) e := by
  fun_induction parseKeyValue kvFunc text e with
  | case1 text e h =>
    rw [textPairs, delimited_strtok, h]
    rfl
  | case2 text e token rest h ih =>
    rw [ih, textPairs, textPairs, delimited_strtok text, h, List.filterMap_cons, processToken]
    cases splitToken token with
    | none => rfl
    | some p => rfl

theorem strchr_first {c : CChar} {before : CString} (h : c ∉ before) (after : CString) :
    strchr c (before ++ c :: after) = some (c :: after) := by
  induction before with
  | nil => exact if_pos rfl
  | cons x before ih =>
    rw [List.mem_cons, not_or] at h
    rw [List.cons_append, strchr, if_neg (Ne.symm h.1), ih h.2]

theorem strchr_none {c : CChar} {s : CString} (h : c ∉ s) : strchr c s = none := by
  induction s with
  | nil => rfl
  | cons x s ih =>
    rw [List.mem_cons, not_or] at h
    rw [strchr, if_neg (Ne.symm h.1), ih h.2]

theorem splitToken_pair {key : CString} (h : equalSign ∉ key) (value : CString) :
    splitToken (key ++ equalSign :: value) = some (key.dropWhile isBlank, trimValue value) := by
  rw [splitToken, strchr_first h]
  simp

theorem setDefaults_field (bt : BackendType) (e : DeviceEntry bt.Field) (f : bt.Field) :
    (setDefaults bt e).field f =
      ((last f bt.defaults).map PropertyBuffer.holding).getD (e.field f) := by
  have hstep : ∀ (e : DeviceEntry bt.Field) (d : bt.Field × CString),
      (e.store d.1 d.2).field f = ((last f [d]).map PropertyBuffer.holding).getD (e.field f) := by
    intro e d
    rw [DeviceEntry.store_field]
    by_cases hf : f = d.1
    · simp [last, hf]
    · simp [last, hf, Ne.symm hf]
  have hrun := read_foldl (fun e : DeviceEntry bt.Field => e.field f)
    (fun e d => e.store d.1 d.2) (fun d => [d]) hstep bt.defaults e
  rw [List.flatMap_singleton'] at hrun
  exact hrun

theorem setDefaults_backend (bt : BackendType) (e : DeviceEntry bt.Field) :
    (setDefaults bt e).backendDomainId = 0 := rfl

theorem setDefaults_configured (bt : BackendType) (e : DeviceEntry bt.Field) :
    (setDefaults bt e).configured = e.configured := by
  cases bt with
  | vif => rfl
  | pvblock => rfl

theorem required_no_default (bt : BackendType) :
    ∀ f ∈ bt.keys.required, last f bt.defaults = none := by
  cases bt with
  | vif => decide
  | pvblock => decide

def parseText (bt : BackendType) (text : CString) (e : DeviceEntry bt.Field) :
    DeviceEntry bt.Field :=
  parseKeyValue (processFunctionsTable bt) text (setDefaults bt e)

theorem parseText_eq (bt : BackendType) (text : CString) (e : DeviceEntry bt.Field) :
    parseText bt text e = bt.keys.run (textPairs text) (setDefaults bt e) := by
  rw [parseText, parseKeyValue_pairs, processFunctionsTable_eq]
  rfl

theorem parseText_field (bt : BackendType) (text : CString) (e : DeviceEntry bt.Field)
    (f : bt.Field) :
    (parseText bt text e).field f =
      ((bt.keys.given (textPairs text) (some f)).map PropertyBuffer.holding).getD
        (((last f bt.defaults).map PropertyBuffer.holding).getD (e.field f)) := by
  rw [parseText_eq, DeviceKeys.run_field, setDefaults_field]

theorem parseText_backend (bt : BackendType) (text : CString) (e : DeviceEntry bt.Field) :
    (parseText bt text e).backendDomainId =
      ((bt.keys.given (textPairs text) none).map atoiText).getD 0 := by
  rw [parseText_eq, DeviceKeys.run_backend, setDefaults_backend]

theorem completes_setDefaults (bt : BackendType) (pairs : List (CString × CString))
    (e : DeviceEntry bt.Field) :
    bt.keys.Completes pairs (setDefaults bt e) ↔ bt.keys.Completes pairs e := by
  refine exists_congr fun done => and_congr_right fun _ => and_congr_right fun _ =>
    forall₂_congr fun f hf => ?_
  rw [DeviceKeys.HasValue, DeviceKeys.HasValue, setDefaults_field, required_no_default bt f hf]
  rfl

theorem parseText_configured (bt : BackendType) (text : CString) (e : DeviceEntry bt.Field) :
    (parseText bt text e).configured = true ↔
      e.configured = true ∨ bt.keys.Completes (textPairs text) e := by
  rw [parseText_eq, DeviceKeys.run_configured, setDefaults_configured, completes_setDefaults]

def freeIndex (bt : BackendType) (cfg : BackendEntries) : Option Nat :=
  (cfg.entries bt).val.findIdx? fun e => !e.configured

theorem entries_modify (bt : BackendType) (cfg : BackendEntries) (i : Nat)
    (f : DeviceEntry bt.Field → DeviceEntry bt.Field) :
    ((cfg.modify bt i f).entries bt).val = (cfg.entries bt).val.modify i f := by
  cases bt with
  | vif => rfl
  | pvblock => rfl

theorem entries_modify_other {bt bt' : BackendType} (h : bt' ≠ bt) (cfg : BackendEntries) (i : Nat)
    (f : DeviceEntry bt.Field → DeviceEntry bt.Field) :
    (cfg.modify bt i f).entries bt' = cfg.entries bt' := by
  cases bt with
  | vif => cases bt' with
    | vif => exact absurd rfl h
    | pvblock => rfl
  | pvblock => cases bt' with
    | vif => rfl
    | pvblock => exact absurd rfl h

theorem BackendEntries.ext_entries {cfg cfg' : BackendEntries}
    (h : ∀ bt, (cfg.entries bt).val = (cfg'.entries bt).val) : cfg = cfg' := by
  obtain ⟨vifs, disks⟩ := cfg
  obtain ⟨vifs', disks'⟩ := cfg'
  have hv : vifs = vifs' := Subtype.ext (h .vif)
  have hd : disks = disks' := Subtype.ext (h .pvblock)
  rw [hv, hd]

theorem storeDevice_eq (bt : BackendType) (text : CString) (cfg : BackendEntries) :
    storeDevice bt text cfg =
      (freeIndex bt cfg).map fun i => cfg.modify bt i (parseText bt text) := by
  rw [storeDevice, findEntryAndSetDefaults, freeIndex]
  cases (cfg.entries bt).val.findIdx? fun e => !e.configured with
  | none => rfl
  | some i =>
    refine congrArg some (BackendEntries.ext_entries fun bt' => ?_)
    by_cases h : bt' = bt
    · subst h
      rw [entries_modify, entries_modify, entries_modify, List.modify_modify_eq]
      rfl
    · rw [entries_modify_other h, entries_modify_other h, entries_modify_other h]

theorem entryText_between {text : CString} (h : text.length < maxPropertyStringSize)
    (closing : CString) :
    entryText (quote :: (text ++ quote :: closing)) (quote :: closing) = text := by
  have hlen : (quote :: (text ++ quote :: closing)).length - (quote :: closing).length - 1 =
      text.length := by
    simp only [List.length_cons, List.length_append]
    omega
  have hzero : List.replicate (maxPropertyStringSize - text.length) (0 : UInt8) =
      0 :: List.replicate (maxPropertyStringSize - text.length - 1) 0 := by
    rw [← List.replicate_succ]
    congr 1
    omega
  have htake : (textBytes (text ++ quote :: closing)).take text.length = textBytes text := by
    rw [textBytes_take, List.take_left]
  have hpad : List.replicate (text.length - (text ++ quote :: closing).length) (0 : UInt8) =
      [] := by
    rw [List.length_append, Nat.sub_eq_zero_of_le (Nat.le_add_right _ _), List.replicate_zero]
  rw [entryText, hlen, List.drop_one, List.tail_cons, strncpy, memcpy_start, htake, hpad,
    List.append_nil, textBytes_length, List.drop_replicate, hzero]
  have hhead := strHead_strBytes text
    (List.replicate (maxPropertyStringSize - text.length - 1) 0)
  rwa [strBytes, List.append_assoc] at hhead

/-- The first device text of a string, and the string behind it. -/
def nextText (str : CString) : Option (CString × CString) :=
  if maxPropertyStringSize < str.length then none
  else match strchr quote str with
    | none => none
    | some lq =>
      match strchr quote (lq.drop 1) with
      | none => none
      | some rq => some (entryText lq rq, rq.drop 1)

theorem find_short {str : CString} (h : str.length ≤ maxPropertyStringSize) :
    ¬ (min str.length maxPropertyStringSize = maxPropertyStringSize ∧
      str.drop (min str.length maxPropertyStringSize) ≠ []) := by
  rw [Nat.min_eq_left h, List.drop_length]
  exact fun hne => hne.2 rfl

theorem find_long {str : CString} (h : maxPropertyStringSize < str.length) :
    min str.length maxPropertyStringSize = maxPropertyStringSize ∧
      str.drop (min str.length maxPropertyStringSize) ≠ [] := by
  rw [Nat.min_eq_right h.le, ne_eq, List.drop_eq_nil_iff]
  exact ⟨rfl, not_le.mpr h⟩

theorem find_eq (str : CString) (bt : BackendType) (cfg : BackendEntries) :
    findAndParseNextDevice str bt cfg =
      (nextText str).bind fun next =>
        (storeDevice bt next.1 cfg).map fun cfg' => (next.2, cfg') := by
  by_cases hlong : maxPropertyStringSize < str.length
  · rw [findAndParseNextDevice, nextText, if_pos (find_long hlong), if_pos hlong]
    rfl
  · rw [findAndParseNextDevice, nextText, if_neg (find_short (not_lt.mp hlong)), if_neg hlong]
    cases strchr quote str with
    | none => rfl
    | some lq =>
      dsimp only
      cases strchr quote (lq.drop 1) with
      | none => rfl
      | some rq =>
        cases hstore : storeDevice bt (entryText lq rq) cfg with
        | none => simp [hstore]
        | some cfg' => simp [hstore]

theorem find_some {str rest : CString} {bt : BackendType} {cfg cfg' : BackendEntries}
    (h : findAndParseNextDevice str bt cfg = some (rest, cfg')) :
    ∃ text, nextText str = some (text, rest) ∧ storeDevice bt text cfg = some cfg' := by
  rw [find_eq, Option.bind_eq_some_iff] at h
  obtain ⟨⟨text, rest'⟩, hnext, hmap⟩ := h
  obtain ⟨stored, hstore, heq⟩ := Option.map_eq_some_iff.mp hmap
  cases heq
  exact ⟨text, hnext, hstore⟩

theorem nextText_length {str text rest : CString} (h : nextText str = some (text, rest)) :
    rest.length < str.length := by
  unfold nextText at h
  split at h
  · cases h
  · split at h
    · cases h
    · rename_i lq hlq
      split at h
      · cases h
      · rename_i rq hrq
        cases h
        exact strchr_twice_length hlq hrq

section Quotes
variable {opening text rest : CString}

theorem nextText_unopened {str : CString} (h : quote ∉ str) : nextText str = none := by
  rw [nextText, strchr_none h]
  exact ite_self _

theorem nextText_unclosed (ho : quote ∉ opening) (ht : quote ∉ text) :
    nextText (opening ++ quote :: text) = none := by
  rw [nextText, strchr_first ho]
  show (if _ then none else match strchr quote text with
    | none => none
    | some rq => _) = none
  rw [strchr_none ht]
  exact ite_self _

theorem nextText_long {str : CString} (h : maxPropertyStringSize < str.length) :
    nextText str = none := if_pos h

theorem nextText_quoted (ho : quote ∉ opening) (ht : quote ∉ text)
    (hlen : (opening ++ quote :: (text ++ quote :: rest)).length ≤ maxPropertyStringSize) :
    nextText (opening ++ quote :: (text ++ quote :: rest)) = some (text, rest) := by
  have htext : text.length < maxPropertyStringSize := by
    simp only [List.length_append, List.length_cons] at hlen
    omega
  rw [nextText, if_neg (not_lt.mpr hlen), strchr_first ho]
  dsimp only
  rw [List.drop_one, List.tail_cons, strchr_first ht]
  dsimp only
  rw [entryText_between htext, List.drop_one, List.tail_cons]

end Quotes

theorem find_quoted {opening text closing : CString} (ho : quote ∉ opening) (ht : quote ∉ text)
    (hlen : (opening ++ quote :: (text ++ quote :: closing)).length ≤ maxPropertyStringSize)
    (bt : BackendType) (cfg : BackendEntries) :
    findAndParseNextDevice (opening ++ quote :: (text ++ quote :: closing)) bt cfg =
      (storeDevice bt text cfg).map fun cfg' => (closing, cfg') := by
  rw [find_eq, nextText_quoted ho ht hlen, Option.bind_some]

end Xenlib
