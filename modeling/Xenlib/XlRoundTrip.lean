import Xenlib.XlOutcome

/-!
Records written down from devices, and what the parser makes of them.
-/

set_option autoImplicit false

namespace Xenlib

open Assignments Tokens

structure PlainValue (v : CString) : Prop where
  ne_nil : v ≠ []
  short : v.length < initXenstoreBuffSize
  plain : ∀ c ∈ v, c ≠ comma ∧ c ≠ quote
  first : ∀ c ∈ v.head?, isBlank c = false
  last : ∀ c ∈ v.getLast?, isBlank c = false

instance PlainValue.decidable (v : CString) : Decidable (PlainValue v) :=
  decidable_of_iff (v ≠ [] ∧ v.length < initXenstoreBuffSize ∧
    v.all (fun c => c != comma && c != quote) = true ∧
    v.head?.toList.all (fun c => !isBlank c) = true ∧
    v.getLast?.toList.all (fun c => !isBlank c) = true)
    ⟨fun ⟨h₁, h₂, h₃, h₄, h₅⟩ =>
        ⟨h₁, h₂, by simpa using h₃, by simpa using h₄, by simpa using h₅⟩,
      fun ⟨h₁, h₂, h₃, h₄, h₅⟩ =>
        ⟨h₁, h₂, by simpa using h₃, by simpa using h₄, by simpa using h₅⟩⟩

def signedValue (sign digits : CString) : Int :=
  if sign = [minusSign] then -(digitsValue digits : Int) else digitsValue digits

/-- A decimal number in the range of an `int`. -/
structure DecimalInt (v : CString) (n : Int) : Prop where
  numeral : ∃ sign digits, Numeral v [] sign digits ∧ n = signedValue sign digits
  lower : -2 ^ 31 ≤ n
  upper : n < 2 ^ 31

/-- A device of a kind: documented keys, each at most once and the required ones among them, with
the value it is to have for each. -/
structure Device (bt : BackendType) where
  pairs : List (CString × CString)
  backendDomainId : Int
  documented : ∀ p ∈ pairs, p.1 ∈ bt.keys.keys.map Prod.fst
  nodup : (pairs.map Prod.fst).Nodup
  required : ∀ k ∈ bt.keys.keys, ∀ f ∈ bt.keys.required, k.2 = some f → k.1 ∈ pairs.map Prod.fst
  values : ∀ p ∈ pairs, PlainValue p.2
  backend : ∀ p ∈ pairs, p.1 = keyBackend → DecimalInt p.2 backendDomainId
  noBackend : keyBackend ∉ pairs.map Prod.fst → backendDomainId = 0

section Device
variable {bt : BackendType} (d : Device bt)

def Device.valueOf (t : Option bt.Field) : Option CString :=
  (d.pairs.find? fun p => (p.1, t) ∈ bt.keys.keys).map Prod.snd

/-- The entry of the device. A field without a value has its default, or is empty. -/
def Device.entry : DeviceEntry bt.Field where
  configured := true
  backendDomainId := d.backendDomainId
  field f := .holding ((d.valueOf (some f)).getD ((last f bt.defaults).getD []))

def Device.text : CString := [comma].intercalate (d.pairs.map fun p => p.1 ++ equalSign :: p.2)

end Device

def BackendType.kindName : BackendType → CString
  | .vif => cstr "vif"
  | .pvblock => cstr "disk"

def quoted (text : CString) : CString := quote :: (text ++ [quote])

/-- `kind=['k=v,k=v','...']`. -/
def printRecord {bt : BackendType} (ds : List (Device bt)) : CString :=
  bt.kindName ++ cstr "=[" ++ [comma].intercalate (ds.map fun d => quoted d.text) ++ cstr "]"

/-- The first free entries replaced by the new ones in their order. -/
def putFree {F : Type} : List (DeviceEntry F) → List (DeviceEntry F) → List (DeviceEntry F)
  | [], entries => entries
  | _, [] => []
  | d :: ds, e :: entries =>
    if e.configured then e :: putFree (d :: ds) entries else d :: putFree ds entries

theorem ofInt_toInt {n : Int} (hlower : -2 ^ 31 ≤ n) (hupper : n < 2 ^ 31) :
    (BitVec.ofInt 32 n).toInt = n := by
  rw [BitVec.toInt_ofInt]
  exact Int.bmod_eq_of_le (by omega) (by omega)

/-- The number and the sign as `atoi` finds them. -/
theorem atoiText_of_parts (negative : Bool) {v digits : CString}
    (hnumber : atoiNumber v = digits) (hdigits : ∀ c ∈ digits, isDigit c = true)
    (hsign : ((v.dropWhile isSpace).head?.any fun c => c.val = 45) = negative) {n : Int}
    (hn : n = if negative then -(digitsValue digits : Int) else digitsValue digits)
    (hlower : -2 ^ 31 ≤ n) (hupper : n < 2 ^ 31) : atoiText v = n := by
  have htake : digits.takeWhile isDigit = digits := List.takeWhile_eq_self_iff.mpr hdigits
  rw [atoiText, hnumber, htake, hsign]
  cases negative with
  | true =>
    rw [if_pos rfl] at hn ⊢
    rw [max_eq_left (by omega), ← hn, ofInt_toInt hlower hupper]
  | false =>
    rw [if_neg Bool.false_ne_true] at hn ⊢
    rw [min_eq_left (by omega), ← hn, ofInt_toInt hlower hupper]

theorem atoiText_decimal {v : CString} {n : Int} (h : DecimalInt v n) : atoiText v = n := by
  obtain ⟨⟨sign, digits, ⟨rfl, -, hsign, hne, hdigits⟩, hn⟩, hlower, hupper⟩ := h
  obtain ⟨d, ds, rfl⟩ := List.exists_cons_of_ne_nil hne
  have hd := hdigits d List.mem_cons_self
  rw [List.nil_append]
  rcases hsign with rfl | rfl | rfl
  · refine atoiText_of_parts false (atoiNumber_digits (by simp) hdigits) hdigits ?_ hn
      hlower hupper
    rw [List.nil_append, List.dropWhile_cons_of_neg (by simp [isDigit_not_space hd])]
    simpa using (isDigit_not_sign hd).1
  · exact atoiText_of_parts false
      (atoiNumber_sign (Or.inl rfl) [] (d :: ds) (by simp)) hdigits rfl hn hlower hupper
  · exact atoiText_of_parts true
      (atoiNumber_sign (Or.inr rfl) [] (d :: ds) (by simp)) hdigits rfl hn hlower hupper

theorem trimValue_plain {v : CString} (h : PlainValue v) : trimValue v = v := by
  obtain ⟨c, cs, rfl⟩ := List.exists_cons_of_ne_nil h.ne_nil
  refine congrArg (c :: ·) (List.rdropWhile_eq_self_iff.mpr fun hne => ?_)
  have hlast := h.last (cs.getLast hne) (by
    rw [List.getLast?_cons, List.getLast?_eq_some_getLast hne]
    rfl)
  simp [hlast]

theorem dispatch_documented (bt : BackendType) :
    ∀ k ∈ bt.keys.keys, bt.keys.dispatch k.1 = some k.2 := by
  cases bt with
  | vif => decide +kernel
  | pvblock => decide +kernel

theorem key_plain (bt : BackendType) :
    ∀ k ∈ bt.keys.keys, equalSign ∉ k.1 ∧ comma ∉ k.1 ∧ quote ∉ k.1 ∧
      k.1.dropWhile isBlank = k.1 := by
  cases bt with
  | vif => decide +kernel
  | pvblock => decide +kernel

theorem key_of_target (bt : BackendType) :
    ∀ k ∈ bt.keys.keys, ∀ k' ∈ bt.keys.keys, k.2 = k'.2 → k.1 = k'.1 := by
  cases bt with
  | vif => decide +kernel
  | pvblock => decide +kernel

theorem key_backend (bt : BackendType) :
    ∀ k ∈ bt.keys.keys, k.2 = none ↔ k.1 = keyBackend := by
  cases bt with
  | vif => decide +kernel
  | pvblock => decide +kernel

theorem required_key (bt : BackendType) :
    ∀ f ∈ bt.keys.required, ∃ k ∈ bt.keys.keys, k.2 = some f := by
  cases bt with
  | vif => decide +kernel
  | pvblock => decide +kernel

section Device
variable {bt : BackendType} (d : Device bt)

theorem Device.key {p : CString × CString} (hp : p ∈ d.pairs) :
    ∃ t, (p.1, t) ∈ bt.keys.keys ∧ bt.keys.dispatch p.1 = some t := by
  obtain ⟨k, hk, hname⟩ := List.mem_map.mp (d.documented p hp)
  have hdispatch := dispatch_documented bt k hk
  rw [hname] at hdispatch
  exact ⟨k.2, hname ▸ hk, hdispatch⟩

theorem Device.key_dispatch {p : CString × CString} {t : Option bt.Field} (hp : p ∈ d.pairs) :
    bt.keys.dispatch p.1 = some t ↔ (p.1, t) ∈ bt.keys.keys := by
  constructor
  · intro h
    obtain ⟨u, hu, hdispatch⟩ := d.key hp
    cases hdispatch.symm.trans h
    exact hu
  · exact dispatch_documented bt (p.1, t)

theorem Device.pair_unique {p q : CString × CString} (hp : p ∈ d.pairs) (hq : q ∈ d.pairs)
    (h : p.1 = q.1) : p = q :=
  List.inj_on_of_nodup_map d.nodup hp hq h

theorem Device.pieces_plain {piece : CString}
    (h : piece ∈ d.pairs.map fun p => p.1 ++ equalSign :: p.2) : comma ∉ piece ∧ quote ∉ piece := by
  obtain ⟨p, hp, rfl⟩ := List.mem_map.mp h
  obtain ⟨t, ht, -⟩ := d.key hp
  obtain ⟨-, hcomma, hquote, -⟩ := key_plain bt _ ht
  have hvalue := (d.values p hp).plain
  constructor
  · rw [List.mem_append, List.mem_cons]
    rintro (h | h | h)
    · exact hcomma h
    · exact absurd h (by decide)
    · exact (hvalue _ h).1 rfl
  · rw [List.mem_append, List.mem_cons]
    rintro (h | h | h)
    · exact hquote h
    · exact absurd h (by decide)
    · exact (hvalue _ h).2 rfl

theorem Device.quote_not_mem : quote ∉ d.text := by
  intro hmem
  rcases mem_intercalate hmem with h | ⟨p, hp, hq⟩
  · exact absurd h (by decide)
  · exact (d.pieces_plain hp).2 hq

theorem Device.textPairs : textPairs d.text = d.pairs := by
  rw [text, textPairs_intercalate fun p hp => (d.pieces_plain hp).1, List.filterMap_map]
  have hsplit : ∀ p ∈ d.pairs, (splitToken ∘ fun p => p.1 ++ equalSign :: p.2) p = some p := by
    intro p hp
    obtain ⟨t, ht, -⟩ := d.key hp
    obtain ⟨hequal, -, -, hblank⟩ := key_plain bt _ ht
    show splitToken (p.1 ++ equalSign :: p.2) = some p
    rw [splitToken_pair hequal, hblank, trimValue_plain (d.values p hp)]
  rw [List.filterMap_congr hsplit, List.filterMap_some]

theorem mem_flatMap_assigns {pairs : List (CString × CString)} {t : Option bt.Field} {v : CString} :
    (t, v) ∈ pairs.flatMap bt.keys.assigns ↔
      ∃ p ∈ pairs, bt.keys.dispatch p.1 = some t ∧ p.2 = v := by
  rw [List.mem_flatMap]
  refine exists_congr fun p => and_congr_right fun _ => ?_
  rw [DeviceKeys.assigns]
  cases bt.keys.dispatch p.1 with
  | none => simp
  | some u => simp [eq_comm]

theorem Device.given (t : Option bt.Field) : bt.keys.given d.pairs t = d.valueOf t := by
  rw [valueOf]
  cases hfind : d.pairs.find? fun p => (p.1, t) ∈ bt.keys.keys with
  | none =>
    rw [List.find?_eq_none] at hfind
    refine last_eq_none_iff.mpr fun hmem => ?_
    obtain ⟨⟨u, v⟩, hw, rfl⟩ := List.mem_map.mp hmem
    obtain ⟨p, hp, hdispatch, -⟩ := mem_flatMap_assigns.mp hw
    exact hfind p hp (by simpa using (d.key_dispatch hp).mp hdispatch)
  | some p =>
    have hp := List.mem_of_find?_eq_some hfind
    have hkey : (p.1, t) ∈ bt.keys.keys := by simpa using List.find?_some hfind
    have hassign := mem_flatMap_assigns.mpr ⟨p, hp, (d.key_dispatch hp).mpr hkey, rfl⟩
    cases hlast : bt.keys.given d.pairs t with
    | none => exact absurd (List.mem_map_of_mem hassign) (last_eq_none_iff.mp hlast)
    | some v =>
      obtain ⟨q, hq, hdispatch, rfl⟩ := mem_flatMap_assigns.mp (mem_of_last hlast)
      have hsame := key_of_target bt _ ((d.key_dispatch hq).mp hdispatch) _ hkey rfl
      rw [d.pair_unique hq hp hsame]
      rfl

theorem Device.valueOf_some {t : Option bt.Field} {v : CString} (h : d.valueOf t = some v) :
    ∃ p ∈ d.pairs, (p.1, t) ∈ bt.keys.keys ∧ p.2 = v := by
  obtain ⟨p, hfind, rfl⟩ := Option.map_eq_some_iff.mp h
  exact ⟨p, List.mem_of_find?_eq_some hfind, by simpa using List.find?_some hfind, rfl⟩

theorem Device.valueOf_none {t : Option bt.Field} (h : d.valueOf t = none) {k : CString}
    (hk : (k, t) ∈ bt.keys.keys) : k ∉ d.pairs.map Prod.fst := by
  intro hmem
  obtain ⟨p, hp, rfl⟩ := List.mem_map.mp hmem
  have hnone := List.find?_eq_none.mp (Option.map_eq_none_iff.mp h) p hp
  exact hnone (by simpa using hk)

theorem Device.required_value {f : bt.Field} (hf : f ∈ bt.keys.required) :
    ∃ v, d.valueOf (some f) = some v ∧ v ≠ [] := by
  obtain ⟨k, hk, htarget⟩ := required_key bt f hf
  have hmem := d.required k hk f hf htarget
  cases hv : d.valueOf (some f) with
  | none => exact absurd hmem (d.valueOf_none hv (htarget ▸ hk))
  | some v =>
    obtain ⟨p, hp, -, rfl⟩ := d.valueOf_some hv
    exact ⟨p.2, rfl, (d.values p hp).ne_nil⟩

theorem Device.completes (e : DeviceEntry bt.Field) : bt.keys.Completes d.pairs e := by
  refine ⟨d.pairs, ?_, List.prefix_rfl, fun f hf => ?_⟩
  · intro hnil
    have hrequired : ∃ f, f ∈ bt.keys.required := by
      cases bt with
      | vif => exact ⟨_, List.mem_cons_self⟩
      | pvblock => exact ⟨_, List.mem_cons_self⟩
    obtain ⟨f, hf⟩ := hrequired
    obtain ⟨v, hv, -⟩ := d.required_value hf
    obtain ⟨p, hp, -⟩ := d.valueOf_some hv
    rw [hnil] at hp
    cases hp
  · obtain ⟨v, hv, hne⟩ := d.required_value hf
    rw [DeviceKeys.HasValue, d.given, hv]
    exact hne

theorem Device.parse : parseText bt d.text .zero = d.entry := by
  have hconf : (parseText bt d.text .zero).configured = true := by
    rw [parseText_configured, d.textPairs]
    exact Or.inr (d.completes _)
  have hbackend : (parseText bt d.text .zero).backendDomainId = d.backendDomainId := by
    rw [parseText_backend, d.textPairs, d.given]
    cases hv : d.valueOf none with
    | none =>
      have hkey : (keyBackend, none) ∈ bt.keys.keys := by
        cases bt with
        | vif => exact List.mem_cons_self
        | pvblock => exact List.mem_cons_self
      exact (d.noBackend (d.valueOf_none hv hkey)).symm
    | some v =>
      obtain ⟨p, hp, hkey, rfl⟩ := d.valueOf_some hv
      exact atoiText_decimal (d.backend p hp ((key_backend bt _ hkey).mp rfl))
  refine DeviceEntry.ext hconf hbackend (funext fun f => ?_)
  show _ = PropertyBuffer.holding ((d.valueOf (some f)).getD ((last f bt.defaults).getD []))
  rw [parseText_field, d.textPairs, d.given]
  cases d.valueOf (some f) with
  | some v => rfl
  | none =>
    cases last f bt.defaults with
    | some v => rfl
    | none => exact PropertyBuffer.holding_nil.symm

end Device

def recordBody (texts : List CString) : CString :=
  [comma].intercalate (texts.map quoted) ++ cstr "]"

theorem recordBody_cons (text : CString) (texts : List CString) :
    recordBody (text :: texts) = quote :: (text ++ quote :: if texts = [] then cstr "]"
      else comma :: recordBody texts) := by
  cases texts with
  | nil => simp [recordBody, quoted, List.intercalate_singleton]
  | cons t texts => simp [recordBody, quoted, List.intercalate_cons_cons]

theorem deviceTexts_recordBody {opening : CString} {texts : List CString} (ho : quote ∉ opening)
    (ht : ∀ t ∈ texts, quote ∉ t)
    (hlen : (opening ++ recordBody texts).length ≤ maxPropertyStringSize) :
    deviceTexts (opening ++ recordBody texts) = texts := by
  induction texts generalizing opening with
  | nil =>
    refine deviceTexts_none (nextText_unopened ?_)
    rw [List.mem_append]
    rintro (h | h)
    · exact ho h
    · exact absurd h (by decide)
  | cons text texts ih =>
    rw [recordBody_cons] at hlen ⊢
    have hnext := nextText_quoted ho (ht text List.mem_cons_self) hlen
    by_cases hlast : texts = []
    · subst hlast
      exact deviceTexts_last hnext (by decide)
    · rw [if_neg hlast] at hlen hnext ⊢
      have hrest : deviceTexts ([comma] ++ recordBody texts) = texts := ih (by decide)
        (fun t h => ht t (List.mem_cons_of_mem _ h)) (quoted_length hlen)
      rw [deviceTexts_cons hnext (@strchr_first comma [] (by simp) (recordBody texts))]
      exact congrArg (text :: ·) hrest

theorem detectBackendType_kindName (bt : BackendType) (rest : CString) :
    detectBackendType (bt.kindName ++ rest) = some bt := by
  have hstarts : ∀ name : CString, name.isPrefixOf (name ++ rest) = true := fun name =>
    List.isPrefixOf_iff_prefix.mpr (List.prefix_append name rest)
  cases bt with
  | vif => exact if_pos (hstarts (cstr "vif"))
  | pvblock =>
    have hvif : ¬ (cstr "vif").isPrefixOf (cstr "disk" ++ rest) = true := by
      rw [List.isPrefixOf_iff_prefix]
      intro h
      have htake := List.prefix_iff_eq_take.mp h
      rw [List.take_append_of_le_length (by decide)] at htake
      exact absurd htake (by decide)
    show detectBackendType (cstr "disk" ++ rest) = some .pvblock
    rw [detectBackendType, if_neg hvif, if_pos (hstarts (cstr "disk"))]

theorem printRecord_eq {bt : BackendType} (ds : List (Device bt)) :
    printRecord ds = bt.kindName ++ cstr "=[" ++ recordBody (ds.map Device.text) := by
  simp [printRecord, recordBody, List.map_map, Function.comp_def]

theorem fillFree_devices {bt : BackendType} (ds : List (Device bt))
    {entries : List (DeviceEntry bt.Field)}
    (hzero : ∀ e ∈ entries, e.configured = false → e = .zero) :
    fillFree (parseText bt) (ds.map Device.text) entries =
      putFree (ds.map Device.entry) entries := by
  induction entries generalizing ds with
  | nil => cases ds <;> rfl
  | cons e entries ih =>
    have htail : ∀ e ∈ entries, e.configured = false → e = .zero := fun e he =>
      hzero e (List.mem_cons_of_mem _ he)
    cases ds with
    | nil => rfl
    | cons d ds =>
      rw [List.map_cons, List.map_cons, fillFree, putFree]
      cases he : e.configured with
      | true =>
        rw [if_pos rfl, if_pos rfl]
        exact congrArg (e :: ·) (ih (d :: ds) htail)
      | false =>
        rw [if_neg Bool.false_ne_true, if_neg Bool.false_ne_true,
          hzero e List.mem_cons_self he, d.parse, ih ds htail]

theorem devices_fit {bt : BackendType} {ds : List (Device bt)}
    {entries : List (DeviceEntry bt.Field)} (hroom : ds.length ≤ (freeEntries entries).length) :
    Fits (parseText bt) (ds.map Device.text) entries where
  room := by
    rw [List.length_map]
    exact hroom
  completes p hp := by
    obtain ⟨d, -, htext⟩ := List.mem_map.mp (List.of_mem_zip hp).2
    rw [completes_fits hp, ← htext, d.textPairs]
    exact d.completes p.1

/-- A record of devices puts them in the first free entries, and changes no other. -/
theorem parseRecord_printRecord {bt : BackendType} {cfg : BackendEntries} (ds : List (Device bt))
    (hzero : ∀ e ∈ (cfg.entries bt).val, e.configured = false → e = .zero)
    (hroom : ds.length ≤ (freeEntries (cfg.entries bt).val).length)
    (hlen : (printRecord ds).length ≤ maxPropertyStringSize) :
    ∃ cfg', parseOneRecordAndFillCfg (some (printRecord ds)) (some cfg) = (none, some cfg') ∧
      (cfg'.entries bt).val = putFree (ds.map Device.entry) (cfg.entries bt).val ∧
      ∀ bt', bt' ≠ bt → cfg'.entries bt' = cfg.entries bt' := by
  have htexts : deviceTexts (printRecord ds) = ds.map Device.text := by
    rw [printRecord_eq] at hlen ⊢
    refine deviceTexts_recordBody ?_ (fun t ht => ?_) hlen
    · cases bt with
      | vif => decide
      | pvblock => decide
    · obtain ⟨d, -, rfl⟩ := List.mem_map.mp ht
      exact d.quote_not_mem
  have hkind : detectBackendType (printRecord ds) = some bt := by
    rw [printRecord_eq, List.append_assoc, detectBackendType_kindName]
  refine ⟨storeTexts bt (ds.map Device.text) cfg, ?_, ?_, fun bt' h => ?_⟩
  · rw [parseRecord_eq, hkind, htexts]
  · rw [entries_storeTexts, storeAll_fits _ (devices_fit hroom), fillFree_devices ds hzero]
  · exact entries_storeTexts_other h _ cfg

def servedVif : Device .vif where
  pairs := [(keyMac, cstr "08:00:27:ff:cb:ce"), (keyBackend, cstr "+12"), (keyBridge, cstr "b=0")]
  backendDomainId := 12
  documented := by decide +kernel
  nodup := by decide +kernel
  required := by decide +kernel
  values := by decide +kernel
  backend p hp hkey := by
    have hvalue : p.2 = cstr "+12" := by
      revert p
      decide +kernel
    refine ⟨⟨[plusSign], cstr "12", ⟨?_, ?_, ?_, ?_, ?_⟩, ?_⟩, by omega, by omega⟩
    · rw [hvalue]
      decide
    · simp
    · decide
    · decide
    · exact List.all_eq_true.mp (by decide)
    · decide
  noBackend h := absurd h (by decide +kernel)

def plainVif : Device .vif where
  pairs := [(keyBridge, cstr "xenbr0"), (keyMac, cstr "m")]
  backendDomainId := 0
  documented := by decide +kernel
  nodup := by decide +kernel
  required := by decide +kernel
  values := by decide +kernel
  backend p hp hkey := by
    have hkeys : ∀ p ∈ [(keyBridge, cstr "xenbr0"), (keyMac, cstr "m")], p.1 ≠ keyBackend := by
      decide +kernel
    exact absurd hkey (hkeys p hp)
  noBackend _ := rfl

theorem parseRecord_printRecord_two :
    ∃ cfg', parseOneRecordAndFillCfg (some (printRecord [servedVif, plainVif])) (some .zero) =
        (none, some cfg') ∧
      cfg'.vifs.val = [servedVif.entry, plainVif.entry, .zero] ∧
      cfg'.disks = BackendEntries.zero.disks := by
  obtain ⟨cfg', hrun, hvifs, hdisks⟩ := @parseRecord_printRecord .vif .zero
    [servedVif, plainVif] (fun e he _ => List.eq_of_mem_replicate he) (by decide +kernel)
    (by decide +kernel)
  exact ⟨cfg', hrun, hvifs, hdisks .pvblock (by decide)⟩

end Xenlib
