import Xenlib.XlReuse

/-!
A pair more in the text of a device. Only the start of its key is compared, so a longer key counts
as the known one it starts with.
-/

set_option autoImplicit false

namespace Xenlib

open Assignments Tokens

section Runs
variable {F : Type} [DecidableEq F] (g : DeviceKeys F)

theorem DeviceKeys.given_append (first second : List (CString × CString)) (t : Option F) :
    g.given (first ++ second) t = (g.given second t).or (g.given first t) := by
  rw [given, List.flatMap_append, last_append]
  rfl

theorem DeviceKeys.given_cons (p : CString × CString) (pairs : List (CString × CString))
    (t : Option F) :
    g.given (p :: pairs) t =
      (g.given pairs t).or (if g.dispatch p.1 = some t then some p.2 else none) := by
  rw [given, List.flatMap_cons, last_append, last_assigns]
  rfl

theorem DeviceKeys.run_append (first second : List (CString × CString)) (e : DeviceEntry F) :
    g.run (first ++ second) e = g.run second (g.run first e) :=
  List.foldl_append

def DeviceKeys.Settled (g : DeviceKeys F) (e : DeviceEntry F) : Prop :=
  g.Complete e → e.configured = true

theorem DeviceKeys.settled_run {e : DeviceEntry F} (h : g.Settled e)
    (pairs : List (CString × CString)) : g.Settled (g.run pairs e) := by
  induction pairs generalizing e with
  | nil => exact h
  | cons p pairs ih =>
    refine ih fun hc => ?_
    exact (processKeyValue_configured g p.1 p.2 e).mpr (Or.inr hc)

theorem DeviceKeys.step_unknown {e : DeviceEntry F} (h : g.Settled e) {p : CString × CString}
    (hp : g.dispatch p.1 = none) : g.step e p = e := by
  have hstore : storeValue g p.1 p.2 e = e := by
    rw [dispatch, Option.map_eq_none_iff] at hp
    rw [storeValue, hp]
  rw [step, processKeyValue, hstore, validateRequired]
  split
  · rename_i hall
    have hconf : e.configured = true := h (by simpa [Complete] using hall)
    rw [← hconf]
  · rfl

end Runs

def heldField (bt : BackendType) (pairs : List (CString × CString)) (e : DeviceEntry bt.Field)
    (f : bt.Field) : PropertyBuffer :=
  ((bt.keys.given pairs (some f)).map PropertyBuffer.holding).getD
    (((last f bt.defaults).map PropertyBuffer.holding).getD (e.field f))

def heldBackend (bt : BackendType) (pairs : List (CString × CString)) : Int :=
  ((bt.keys.given pairs none).map atoiText).getD 0

def SameValue (bt : BackendType) (pairs : List (CString × CString)) (e : DeviceEntry bt.Field)
    (value : CString) : Option bt.Field → Prop
  | none => atoiText value = heldBackend bt pairs
  | some f => PropertyBuffer.holding value = heldField bt pairs e f

/-- A pair between others that makes no difference: its key starts with no known one, or its value
is there already or is replaced later, and the device is complete with it when it is without. -/
def Ignored (bt : BackendType) (before after : List (CString × CString))
    (p : CString × CString) (e : DeviceEntry bt.Field) : Prop :=
  ∀ t, bt.keys.dispatch p.1 = some t →
    (bt.keys.given after t ≠ none ∨ SameValue bt before e p.2 t) ∧
    (bt.keys.Completes (before ++ p :: after) e ↔ bt.keys.Completes (before ++ after) e)

section Insert
variable {bt : BackendType} {e : DeviceEntry bt.Field} (before after : List (CString × CString))
  {p : CString × CString} {t u : Option bt.Field}

theorem given_insert (hp : bt.keys.dispatch p.1 = some t) :
    bt.keys.given (before ++ p :: after) u =
      ((bt.keys.given after u).or (if t = u then some p.2 else none)).or
        (bt.keys.given before u) := by
  rw [DeviceKeys.given_append, DeviceKeys.given_cons, hp]
  simp only [Option.some.injEq]

theorem given_insert_ne (hp : bt.keys.dispatch p.1 = some t) (hu : t ≠ u) :
    bt.keys.given (before ++ p :: after) u = bt.keys.given (before ++ after) u := by
  rw [given_insert before after hp, if_neg hu, Option.or_none, DeviceKeys.given_append]

variable {after} in
theorem given_insert_later (hp : bt.keys.dispatch p.1 = some t)
    (h : bt.keys.given after u ≠ none) :
    bt.keys.given (before ++ p :: after) u = bt.keys.given (before ++ after) u := by
  obtain ⟨v, hv⟩ := Option.ne_none_iff_exists'.mp h
  rw [given_insert before after hp, DeviceKeys.given_append, hv]
  rfl

variable {after} in
theorem given_insert_self (hp : bt.keys.dispatch p.1 = some t)
    (h : bt.keys.given after t = none) :
    bt.keys.given (before ++ p :: after) t = some p.2 ∧
      bt.keys.given (before ++ after) t = bt.keys.given before t := by
  rw [given_insert before after hp, DeviceKeys.given_append, h, if_pos rfl]
  exact ⟨rfl, rfl⟩

theorem run_field_held (pairs : List (CString × CString)) (f : bt.Field) :
    (bt.keys.run pairs (setDefaults bt e)).field f = heldField bt pairs e f := by
  rw [DeviceKeys.run_field, setDefaults_field]
  rfl

theorem run_backend_held (pairs : List (CString × CString)) :
    (bt.keys.run pairs (setDefaults bt e)).backendDomainId = heldBackend bt pairs := by
  rw [DeviceKeys.run_backend, setDefaults_backend]
  rfl

theorem run_configured_iff (hfree : e.configured = false) (pairs : List (CString × CString)) :
    (bt.keys.run pairs (setDefaults bt e)).configured = true ↔ bt.keys.Completes pairs e := by
  rw [DeviceKeys.run_configured, setDefaults_configured, completes_setDefaults, hfree]
  simp

theorem values_insert_iff (hp : bt.keys.dispatch p.1 = some t) :
    (heldBackend bt (before ++ p :: after) = heldBackend bt (before ++ after) ∧
      ∀ f, heldField bt (before ++ p :: after) e f = heldField bt (before ++ after) e f) ↔
    (bt.keys.given after t ≠ none ∨ SameValue bt before e p.2 t) := by
  constructor
  · rintro ⟨hbackend, hfields⟩
    by_contra hnot
    rw [not_or, not_not] at hnot
    obtain ⟨hafter, hdiffers⟩ := hnot
    obtain ⟨hwith, hwithout⟩ := given_insert_self before hp hafter
    cases t with
    | none =>
      rw [heldBackend, heldBackend, hwith, hwithout] at hbackend
      exact hdiffers hbackend
    | some f =>
      have hf := hfields f
      rw [heldField, heldField, hwith, hwithout] at hf
      exact hdiffers hf
  · intro h
    have hgiven : ∀ u, u ≠ t ∨ bt.keys.given after t ≠ none →
        bt.keys.given (before ++ p :: after) u = bt.keys.given (before ++ after) u := by
      rintro u hu
      by_cases htu : t = u
      · subst htu
        exact given_insert_later before hp (hu.resolve_left fun hne => hne rfl)
      · exact given_insert_ne before after hp htu
    constructor
    · rcases Decidable.em (none = t ∧ bt.keys.given after t = none) with ⟨rfl, hafter⟩ | hother
      · obtain ⟨hwith, hwithout⟩ := given_insert_self before hp hafter
        have hsame := h.resolve_left (not_not.mpr hafter)
        rw [heldBackend, heldBackend, hwith, hwithout]
        exact hsame
      · rw [heldBackend, heldBackend, hgiven none (not_and_or.mp hother)]
    · intro f
      rcases Decidable.em (some f = t ∧ bt.keys.given after t = none) with ⟨rfl, hafter⟩ | hother
      · obtain ⟨hwith, hwithout⟩ := given_insert_self before hp hafter
        have hsame := h.resolve_left (not_not.mpr hafter)
        rw [heldField, heldField, hwith, hwithout]
        exact hsame
      · rw [heldField, heldField, hgiven (some f) (not_and_or.mp hother)]

theorem run_insert_iff (h : EntryInv bt e) (hfree : e.configured = false) :
    bt.keys.run (before ++ p :: after) (setDefaults bt e) =
      bt.keys.run (before ++ after) (setDefaults bt e) ↔ Ignored bt before after p e := by
  cases hp : bt.keys.dispatch p.1 with
  | none =>
    have hsettled : bt.keys.Settled (setDefaults bt e) := fun hc =>
      absurd ((complete_setDefaults bt e).mp hc) (h.waiting hfree)
    have hrun : bt.keys.run (before ++ p :: after) (setDefaults bt e) =
        bt.keys.run (before ++ after) (setDefaults bt e) := by
      rw [DeviceKeys.run_append, DeviceKeys.run_append]
      show bt.keys.run after (bt.keys.step _ p) = _
      rw [bt.keys.step_unknown (bt.keys.settled_run hsettled before) hp]
    exact ⟨fun _ t ht => (Option.some_ne_none t (ht.symm.trans hp)).elim, fun _ => hrun⟩
  | some t =>
    have hconf : ((bt.keys.run (before ++ p :: after) (setDefaults bt e)).configured =
        (bt.keys.run (before ++ after) (setDefaults bt e)).configured) ↔
        (bt.keys.Completes (before ++ p :: after) e ↔ bt.keys.Completes (before ++ after) e) := by
      rw [Bool.eq_iff_iff, run_configured_iff hfree, run_configured_iff hfree]
    have hvalues := values_insert_iff (e := e) before after hp
    rw [DeviceEntry.ext_iff, hconf, funext_iff]
    simp only [run_field_held, run_backend_held]
    constructor
    · rintro ⟨hc, hv⟩ t' ht'
      cases hp.symm.trans ht'
      exact ⟨hvalues.mp hv, hc⟩
    · intro hall
      obtain ⟨hv, hc⟩ := hall t hp
      exact ⟨hc, hvalues.mpr hv⟩

end Insert

/-- What the parser is given, with the text of its first device in pieces. -/
def deviceRecord (opening : CString) (pieces : List CString) (closing : CString) : CString :=
  opening ++ quote :: ([comma].intercalate pieces ++ quote :: closing)

theorem find_pieces {opening closing : CString} {pieces : List CString} (ho : quote ∉ opening)
    (hpieces : ∀ p ∈ pieces, comma ∉ p ∧ quote ∉ p)
    (hlen : (deviceRecord opening pieces closing).length ≤ maxPropertyStringSize)
    (bt : BackendType) (cfg : BackendEntries) :
    findAndParseNextDevice (deviceRecord opening pieces closing) bt cfg =
      (freeIndex bt cfg).map fun i => (closing, cfg.modify bt i fun e =>
        bt.keys.run (pieces.filterMap splitToken) (setDefaults bt e)) := by
  have hquote : quote ∉ [comma].intercalate pieces := by
    intro hmem
    rcases mem_intercalate hmem with h | ⟨p, hp, hq⟩
    · exact absurd h (by decide)
    · exact (hpieces p hp).2 hq
  have hparse : parseText bt ([comma].intercalate pieces) = fun e =>
      bt.keys.run (pieces.filterMap splitToken) (setDefaults bt e) := by
    funext e
    rw [parseText_eq, textPairs_intercalate fun p hp => (hpieces p hp).1]
  rw [deviceRecord, find_quoted ho hquote hlen, storeDevice_eq, Option.map_map, hparse]
  rfl

theorem modify_eq_iff {bt : BackendType} {cfg : BackendEntries} {i : Nat}
    {e : DeviceEntry bt.Field} (he : (cfg.entries bt).val[i]? = some e)
    (f g : DeviceEntry bt.Field → DeviceEntry bt.Field) :
    cfg.modify bt i f = cfg.modify bt i g ↔ f e = g e := by
  constructor
  · intro h
    have hval := congrArg (fun cfg : BackendEntries => (cfg.entries bt).val[i]?) h
    simp only [entries_modify, List.getElem?_modify_eq, he] at hval
    exact Option.some.inj hval
  · intro h
    refine BackendEntries.ext_entries fun bt' => ?_
    by_cases hbt : bt' = bt
    · subst hbt
      rw [entries_modify, entries_modify]
      refine List.ext_getElem? fun j => ?_
      by_cases hj : i = j
      · subst hj
        rw [List.getElem?_modify_eq, List.getElem?_modify_eq, he]
        exact congrArg some h
      · rw [List.getElem?_modify_ne _ _ hj, List.getElem?_modify_ne _ _ hj]
    · rw [entries_modify_other hbt, entries_modify_other hbt]

theorem deviceRecord_insert_length (opening closing piece : CString)
    (before after : List CString) :
    (deviceRecord opening (before ++ after) closing).length ≤
      (deviceRecord opening (before ++ piece :: after) closing).length := by
  simp only [deviceRecord, List.length_append, List.length_cons, length_intercalate,
    List.map_append, List.map_cons, List.sum_append, List.sum_cons]
  omega

theorem find_insert_iff {cfg : BackendEntries} (hreach : ReachedEntries cfg) {bt : BackendType}
    {opening closing key value : CString} {before after : List CString} (ho : quote ∉ opening)
    (hkey : equalSign ∉ key)
    (hpieces : ∀ p ∈ before ++ (key ++ equalSign :: value) :: after, comma ∉ p ∧ quote ∉ p)
    (hlen : (deviceRecord opening (before ++ (key ++ equalSign :: value) :: after)
      closing).length ≤ maxPropertyStringSize) :
    findAndParseNextDevice
        (deviceRecord opening (before ++ (key ++ equalSign :: value) :: after) closing) bt cfg =
      findAndParseNextDevice (deviceRecord opening (before ++ after) closing) bt cfg ↔
    ∀ i e, freeIndex bt cfg = some i → (cfg.entries bt).val[i]? = some e →
      Ignored bt (before.filterMap splitToken) (after.filterMap splitToken)
        (key.dropWhile isBlank, trimValue value) e := by
  have hshorter : ∀ p ∈ before ++ after, comma ∉ p ∧ quote ∉ p := fun p hp =>
    hpieces p (by
      rw [List.mem_append] at hp ⊢
      exact hp.imp_right (List.mem_cons_of_mem _))
  rw [find_pieces ho hpieces hlen, find_pieces ho hshorter
    ((deviceRecord_insert_length _ _ _ _ _).trans hlen)]
  cases hi : freeIndex bt cfg with
  | none => simp
  | some i =>
    obtain ⟨e, he, hmem, hfree⟩ := freeIndex_entry hi
    have hrun := run_insert_iff (before.filterMap splitToken) (after.filterMap splitToken)
      (p := (key.dropWhile isBlank, trimValue value)) (hreach.inv bt e hmem) hfree
    simp only [Option.map_some, Option.some.injEq, Prod.mk.injEq, true_and, modify_eq_iff he,
      List.filterMap_append, List.filterMap_cons, splitToken_pair hkey, hrun]
    constructor
    · rintro h j e' rfl he'
      cases he.symm.trans he'
      exact h
    · exact fun h => h i e rfl he

/-- A key that starts with none of the known ones is ignored wherever it stands. -/
theorem ignored_of_unknown {bt : BackendType} {p : CString × CString}
    (h : ∀ k ∈ bt.keys.keys, ¬ k.1 <+: p.1) (before after : List (CString × CString))
    (e : DeviceEntry bt.Field) : Ignored bt before after p e := by
  intro t ht
  obtain ⟨k, hk, -⟩ := Option.map_eq_some_iff.mp ht
  have hpre := List.find?_some (p := fun k : CString × Option bt.Field => k.1.isPrefixOf p.1) hk
  exact absurd (List.isPrefixOf_iff_prefix.mp hpre) (h k (List.mem_of_find?_eq_some hk))

theorem find_insert_model :
    findAndParseNextDevice (deviceRecord (cstr "vif=[")
        ([cstr "bridge=b"] ++ (cstr "model" ++ equalSign :: cstr "e1000") :: []) (cstr "]"))
      .vif .zero =
    findAndParseNextDevice (deviceRecord (cstr "vif=[") ([cstr "bridge=b"] ++ []) (cstr "]"))
      .vif .zero :=
  (find_insert_iff .zero (by decide) (by decide) (by decide) (by decide)).mpr
    fun _ e _ _ => ignored_of_unknown (by decide) _ _ e

/-- `ipv6` is taken for `ip`. -/
theorem ipv6_counts_as_ip :
    ¬ ∀ (cfg : BackendEntries) (bt : BackendType) (opening closing key value : CString)
      (before after : List CString), ReachedEntries cfg → quote ∉ opening → equalSign ∉ key →
      (∀ k ∈ bt.keys.keys, (key.dropWhile isBlank).rdropWhile isBlank ≠ k.1) →
      (∀ p ∈ before ++ (key ++ equalSign :: value) :: after, comma ∉ p ∧ quote ∉ p) →
      (deviceRecord opening (before ++ (key ++ equalSign :: value) :: after) closing).length ≤
        maxPropertyStringSize →
      findAndParseNextDevice
          (deviceRecord opening (before ++ (key ++ equalSign :: value) :: after) closing) bt cfg =
        findAndParseNextDevice (deviceRecord opening (before ++ after) closing) bt cfg := by
  intro hall
  have heq := hall .zero .vif (cstr "vif=[") (cstr "]") (cstr "ipv6") (cstr "::1")
    [cstr "bridge=b"] [] .zero (by decide) (by decide) (by decide +kernel) (by decide) (by decide)
  have hip := congrArg (Option.map fun r : CString × BackendEntries =>
    r.2.vifs.val.map fun e => strHead (e.field .ip).val) heq
  exact absurd hip (by decide +kernel)

end Xenlib
