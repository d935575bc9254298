import Xenlib.XlReuse

/-!
A whole record: the texts the parser takes from it, and the entries they are stored in.
-/

set_option autoImplicit false

namespace Xenlib

/-- The texts the parser comes to while there are free entries. -/
def deviceTexts (str : CString) : List CString :=
  match _h : nextText str with
  | none => []
  | some (text, rest) =>
    match _hr : strchr comma rest with
    | none => [text]
    | some next => text :: deviceTexts next
termination_by str.length
decreasing_by exact (strchr_length _hr).trans_lt (nextText_length _h)

section Texts
variable {str text rest next : CString}

theorem deviceTexts_none (h : nextText str = none) : deviceTexts str = [] := by
  rw [deviceTexts]
  split
  · rfl
  · rename_i hsome
    cases h.symm.trans hsome

theorem deviceTexts_last (h : nextText str = some (text, rest)) (hlast : strchr comma rest = none) :
    deviceTexts str = [text] := by
  rw [deviceTexts]
  split
  · rename_i hnone
    cases h.symm.trans hnone
  · rename_i hsome
    cases h.symm.trans hsome
    split
    · rfl
    · rename_i hcomma
      cases hlast.symm.trans hcomma

theorem deviceTexts_cons (h : nextText str = some (text, rest))
    (hcomma : strchr comma rest = some next) :
    deviceTexts str = text :: deviceTexts next := by
  rw [deviceTexts]
  split
  · rename_i hnone
    cases h.symm.trans hnone
  · rename_i hsome
    cases h.symm.trans hsome
    split
    · rename_i hnone
      cases hcomma.symm.trans hnone
    · rename_i hsome'
      cases hcomma.symm.trans hsome'
      rfl

end Texts

section Entries
variable {F : Type} (parse : CString → DeviceEntry F → DeviceEntry F)

/-- A text goes to the first free entry, and nowhere when there is none. -/
def storeIn (entries : List (DeviceEntry F)) (text : CString) : List (DeviceEntry F) :=
  match entries.findIdx? fun e => !e.configured with
  | some i => entries.modify i (parse text)
  | none => entries

def storeAll (texts : List CString) (entries : List (DeviceEntry F)) : List (DeviceEntry F) :=
  texts.foldl (storeIn parse) entries

theorem storeIn_configured {e : DeviceEntry F} (h : e.configured = true)
    (entries : List (DeviceEntry F)) (text : CString) :
    storeIn parse (e :: entries) text = e :: storeIn parse entries text := by
  rw [storeIn, storeIn, List.findIdx?_cons]
  simp only [h, Bool.not_true, Bool.false_eq_true, if_false]
  cases entries.findIdx? fun e => !e.configured with
  | none => rfl
  | some i => rfl

theorem storeIn_free {e : DeviceEntry F} (h : e.configured = false)
    (entries : List (DeviceEntry F)) (text : CString) :
    storeIn parse (e :: entries) text = parse text e :: entries := by
  rw [storeIn, List.findIdx?_cons]
  simp [h]

theorem storeAll_nil (texts : List CString) : storeAll parse texts [] = [] := by
  induction texts with
  | nil => rfl
  | cons t texts ih => exact ih

theorem storeAll_configured {e : DeviceEntry F} (h : e.configured = true) (texts : List CString)
    (entries : List (DeviceEntry F)) :
    storeAll parse texts (e :: entries) = e :: storeAll parse texts entries := by
  induction texts generalizing entries with
  | nil => rfl
  | cons t texts ih =>
    show storeAll parse texts (storeIn parse (e :: entries) t) = _
    rw [storeIn_configured parse h, ih]
    rfl

theorem storeAll_free {e : DeviceEntry F} (h : e.configured = false) (text : CString)
    (texts : List CString) (entries : List (DeviceEntry F)) :
    storeAll parse (text :: texts) (e :: entries) =
      storeAll parse texts (parse text e :: entries) := by
  show storeAll parse texts (storeIn parse (e :: entries) text) = _
  rw [storeIn_free parse h]

/-- One text for each free entry, as far as they go. -/
def fillFree : List CString → List (DeviceEntry F) → List (DeviceEntry F)
  | [], entries => entries
  | _, [] => []
  | text :: texts, e :: entries =>
    if e.configured then e :: fillFree (text :: texts) entries
    else parse text e :: fillFree texts entries

def freeEntries (entries : List (DeviceEntry F)) : List (DeviceEntry F) :=
  entries.filter fun e => !e.configured

theorem freeEntries_configured {e : DeviceEntry F} (h : e.configured = true)
    (entries : List (DeviceEntry F)) : freeEntries (e :: entries) = freeEntries entries := by
  simp [freeEntries, h]

theorem freeEntries_free {e : DeviceEntry F} (h : e.configured = false)
    (entries : List (DeviceEntry F)) : freeEntries (e :: entries) = e :: freeEntries entries := by
  simp [freeEntries, h]

structure Fits (texts : List CString) (entries : List (DeviceEntry F)) : Prop where
  room : texts.length ≤ (freeEntries entries).length
  completes : ∀ p ∈ (freeEntries entries).zip texts, (parse p.2 p.1).configured = true

theorem Fits.tail {e : DeviceEntry F} (he : e.configured = false) {text : CString}
    {texts : List CString} {entries : List (DeviceEntry F)}
    (h : Fits parse (text :: texts) (e :: entries)) :
    (parse text e).configured = true ∧ Fits parse texts entries := by
  obtain ⟨hroom, hcomplete⟩ := h
  rw [freeEntries_free he] at hroom hcomplete
  refine ⟨hcomplete (e, text) List.mem_cons_self, Nat.le_of_succ_le_succ hroom, fun p hp => ?_⟩
  exact hcomplete p (List.mem_cons_of_mem _ hp)

theorem Fits.skip {e : DeviceEntry F} (he : e.configured = true) {texts : List CString}
    {entries : List (DeviceEntry F)} :
    Fits parse texts (e :: entries) ↔ Fits parse texts entries := by
  constructor
  · rintro ⟨hroom, hcomplete⟩
    rw [freeEntries_configured he] at hroom hcomplete
    exact ⟨hroom, hcomplete⟩
  · rintro ⟨hroom, hcomplete⟩
    rw [← freeEntries_configured he] at hroom hcomplete
    exact ⟨hroom, hcomplete⟩

theorem storeAll_fits {texts : List CString} {entries : List (DeviceEntry F)}
    (h : Fits parse texts entries) :
    storeAll parse texts entries = fillFree parse texts entries := by
  induction entries generalizing texts with
  | nil =>
    rw [storeAll_nil]
    cases texts <;> rfl
  | cons e entries ih =>
    cases texts with
    | nil => rfl
    | cons text texts =>
      cases he : e.configured with
      | true =>
        rw [storeAll_configured parse he, ih ((Fits.skip parse he).mp h), fillFree, if_pos he]
      | false =>
        obtain ⟨hcomplete, htail⟩ := h.tail parse he
        rw [storeAll_free parse he, storeAll_configured parse hcomplete, ih htail, fillFree,
          if_neg (by simp [he])]

end Entries

def storeTexts (bt : BackendType) (texts : List CString) (cfg : BackendEntries) : BackendEntries :=
  texts.foldl (fun cfg text => (storeDevice bt text cfg).getD cfg) cfg

theorem entries_storeDevice (bt : BackendType) (text : CString) (cfg : BackendEntries) :
    (((storeDevice bt text cfg).getD cfg).entries bt).val =
      storeIn (parseText bt) (cfg.entries bt).val text := by
  rw [storeDevice_eq, storeIn, freeIndex]
  cases (cfg.entries bt).val.findIdx? fun e => !e.configured with
  | none => rfl
  | some i => exact entries_modify bt cfg i _

theorem entries_storeDevice_other {bt bt' : BackendType} (h : bt' ≠ bt) (text : CString)
    (cfg : BackendEntries) :
    ((storeDevice bt text cfg).getD cfg).entries bt' = cfg.entries bt' := by
  rw [storeDevice_eq]
  cases freeIndex bt cfg with
  | none => rfl
  | some i => exact entries_modify_other h cfg i _

theorem entries_storeTexts (bt : BackendType) (texts : List CString) (cfg : BackendEntries) :
    ((storeTexts bt texts cfg).entries bt).val =
      storeAll (parseText bt) texts (cfg.entries bt).val := by
  induction texts generalizing cfg with
  | nil => rfl
  | cons t texts ih =>
    show ((storeTexts bt texts ((storeDevice bt t cfg).getD cfg)).entries bt).val = _
    rw [ih, entries_storeDevice]
    rfl

theorem entries_storeTexts_other {bt bt' : BackendType} (h : bt' ≠ bt) (texts : List CString)
    (cfg : BackendEntries) : (storeTexts bt texts cfg).entries bt' = cfg.entries bt' := by
  induction texts generalizing cfg with
  | nil => rfl
  | cons t texts ih =>
    show (storeTexts bt texts ((storeDevice bt t cfg).getD cfg)).entries bt' = _
    rw [ih, entries_storeDevice_other h]

theorem storeTexts_full {bt : BackendType} {cfg : BackendEntries} (h : freeIndex bt cfg = none)
    (texts : List CString) : storeTexts bt texts cfg = cfg := by
  induction texts with
  | nil => rfl
  | cons t texts ih =>
    show storeTexts bt texts ((storeDevice bt t cfg).getD cfg) = cfg
    rw [storeDevice_eq, h]
    exact ih

theorem parseDevices_eq (dstr : CString) (bt : BackendType) (cfg : BackendEntries) :
    parseDevices dstr bt cfg = (none, storeTexts bt (deviceTexts dstr) cfg) := by
  fun_induction parseDevices dstr bt cfg with
  | case1 dstr cfg hfind =>
    rw [find_eq, Option.bind_eq_none_iff] at hfind
    cases hnext : nextText dstr with
    | none =>
      rw [deviceTexts_none hnext]
      rfl
    | some next =>
      have hstore := hfind next hnext
      rw [Option.map_eq_none_iff, storeDevice_eq, Option.map_eq_none_iff] at hstore
      rw [storeTexts_full hstore]
  | case2 dstr cfg rest cfg' hfind hlast =>
    obtain ⟨text, hnext, hstore⟩ := find_some hfind
    rw [deviceTexts_last hnext hlast]
    simp [storeTexts, hstore]
  | case3 dstr cfg rest cfg' hfind next hcomma ih =>
    obtain ⟨text, hnext, hstore⟩ := find_some hfind
    rw [ih, deviceTexts_cons hnext hcomma]
    simp [storeTexts, hstore]

theorem parseRecord_eq (str : CString) (cfg : BackendEntries) :
    parseOneRecordAndFillCfg (some str) (some cfg) =
      match detectBackendType str with
      | none => (some .einval, some cfg)
      | some bt => (none, some (storeTexts bt (deviceTexts str) cfg)) := by
  rw [parseOneRecordAndFillCfg]
  cases detectBackendType str with
  | none => rfl
  | some bt => simp [parseDevices_eq]

end Xenlib
