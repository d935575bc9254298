import Xenlib.WatchUnique
import Xenlib.WatchErasure
import Xenlib.Payloads

/-!
Watches by path and token. `key_to_watcher` takes an empty token for any token, and both the calls
that register watches and those that take them back go through it: a client that gives an empty
token meets the watches it has on the path with other tokens.
-/

set_option autoImplicit false

namespace Xenlib

open Wp

/-- `xs_watch_timeout` from `alloc_local_watch_entry` on. -/
def linkLocalWatch (path watchPath token : CString) (fireInitialEvent : Bool)
    (deadline : Deadline) : SrvM (Option Errno) := do
  if !(← alloc kMalloc) then pure (some .enomem)
  else if !(← alloc kMalloc) then pure (some .enomem)
  else match ← xssMutexLockDeadline deadline with
    | some e => pure (some e)
    | none =>
      match ← xssMutexLockDeadline deadline with
      | some e => pure (some e)
      | none =>
        let s ← get
        match ← Wp.lift (keyToWatcher watchPath (strBytes token) none (linkedWatches s)) with
        | some _ => pure (some .eexist)
        | none =>
          let s ← get
          let wentry := newLocalWatch s watchPath token (!xenstoreIsAbsPath path)
          modify fun s => { s with watches := s.watches ++ [wentry] }
          if fireInitialEvent then
            let (_, localEvents) ← queueLocalWatchEventLocked [] wentry path
            dispatchLocalWatchEventsLocked localEvents
            pure none
          else pure none

def xsWatchTimeout (path token : CString) (deadline : Deadline) : SrvM (Option Errno) := do
  match ← alloc (constructPath path 0) with
  | .error e => pure (some e)
  | .ok watchPath =>
    match ← xssMutexLockDeadline deadline with
    | some e => pure (some e)
    | none =>
      let s ← get
      let entry ← alloc (keyToEntryCheckPerm s.root watchPath 0 .read)
      match ← xssMutexLockDeadline deadline with
      | some e => pure (some e)
      | none =>
        let s ← get
        match ← Wp.lift (keyToWatcher watchPath (strBytes token) none (linkedWatches s)) with
        | some _ => pure (some .eexist)
        | none => linkLocalWatch path watchPath token entry.isSome deadline

def xsUnwatchTimeout (path token : CString) (deadline : Deadline) : SrvM (Option Errno) := do
  match ← alloc (constructPath path 0) with
  | .error e => pure (some e)
  | .ok watchPath =>
    match ← xssMutexLockDeadline deadline with
    | some e => pure (some e)
    | none =>
      let s ← get
      match ← Wp.lift (keyToWatcher watchPath (strBytes token) none (linkedWatches s)) with
      | some entry =>
        unlinkWatch entry.id
        pure none
      | none => pure none

theorem erases_removeLocal (path token : CString) (deadline : Deadline) :
    Erases (removeLocal path token deadline) (xsUnwatchTimeout path token deadline) := by
  unfold removeLocal xsUnwatchTimeout removeWatchEntry
  refine (erases_unref _).bind_eq fun key => ?_
  cases key with
  | error e => exact .pure rfl
  | ok key =>
    refine (erases_unref _).bind_eq fun rc => ?_
    cases rc with
    | some e => exact .pure rfl
    | none =>
      refine Agree.get.bind fun r s hr => ?_
      subst hr
      refine (erases_unref _).bind_eq fun found => ?_
      cases found with
      | none => exact .pure rfl
      | some entry =>
        simp only [bind_assoc]
        exact (erases_unref _).bind_eq fun _ => erases_count (fun _ => ⟨_, rfl, rfl⟩) (.pure rfl)

theorem erases_createLocal (path key token : CString) (fire : Bool) (deadline : Deadline) :
    Erases (do
        match ← createLocal path key token (!xenstoreIsAbsPath path) fire deadline with
        | .error e => pure (some e)
        | .ok (_, localEvents) =>
          dispatchRef localEvents
          pure none)
      (linkLocalWatch path key token fire deadline) := by
  unfold createLocal linkLocalWatch lookLocalDeadline lookLocal insertLocal addWatch
  simp only [bind_assoc]
  refine (erases_unref _).bind_eq fun _ => ?_
  split
  · exact .pure rfl
  · simp only [bind_assoc]
    refine (erases_unref _).bind_eq fun _ => ?_
    split
    · exact .pure rfl
    · simp only [bind_assoc]
      refine (erases_unref _).bind_eq fun rc => ?_
      cases rc with
      | some e => exact .pure rfl
      | none =>
        simp only [bind_assoc]
        refine (erases_unref _).bind_eq fun rc => ?_
        cases rc with
        | some e => exact .pure rfl
        | none =>
          simp only [bind_assoc]
          refine Agree.get.bind fun r s hr => ?_
          subst hr
          refine (erases_unref _).bind_eq fun found => ?_
          cases found with
          | some w => exact .pure rfl
          | none =>
            simp only [pure_bind, bind_assoc]
            refine Agree.get.bind fun r s hr => ?_
            subst hr
            refine erases_count (fun _ => ⟨_, rfl, rfl⟩) ?_
            refine (erases_unref _).bind_eq fun _ => ?_
            split
            · simp only [bind_assoc, pure_bind]
              refine (erases_queueLocal _ _ _).bind_eq fun a => ?_
              exact (erases_dispatch a.2).bind_eq fun _ => .pure rfl
            · exact .pure rfl

theorem erases_watchLocal (path token : CString) (deadline : Deadline) :
    Erases (do
        match ← WatchServer.checkPath path deadline with
        | .error e => pure (some e)
        | .ok (key, fire) =>
          match ← lookLocalDeadline key token deadline with
          | some e => pure (some e)
          | none =>
            match ← createLocal path key token (!xenstoreIsAbsPath path) fire deadline with
            | .error e => pure (some e)
            | .ok (_, localEvents) =>
              dispatchRef localEvents
              pure none)
      (xsWatchTimeout path token deadline) := by
  unfold WatchServer.checkPath checkLocal xsWatchTimeout
  simp only [bind_assoc]
  refine (erases_unref _).bind_eq fun key => ?_
  cases key with
  | error e => exact .pure rfl
  | ok key =>
    simp only [bind_assoc]
    refine (erases_unref _).bind_eq fun rc => ?_
    cases rc with
    | some e => exact .pure rfl
    | none =>
      simp only [bind_assoc]
      refine Agree.get.bind fun r s hr => ?_
      subst hr
      refine (erases_unref _).bind_eq fun entry => ?_
      unfold lookLocalDeadline lookLocal
      simp only [pure_bind, bind_assoc]
      refine (erases_unref _).bind_eq fun rc => ?_
      cases rc with
      | some e => exact .pure rfl
      | none =>
        simp only [bind_assoc]
        refine Agree.get.bind fun r s hr => ?_
        subst hr
        refine (erases_unref _).bind_eq fun found => ?_
        cases found with
        | some w => exact .pure rfl
        | none =>
          simp only [pure_bind]
          exact erases_createLocal path key token entry.isSome deadline

/-- The domain, the path and the token of every watch on the list. -/
def Shared.pairs (s : Shared) : List (Option UInt32 × CString × CString) :=
  (linkedWatches s).map WatchEntry.ident

/-- What `key_to_watcher` looks for. -/
def WatchEntry.fits (domain : Option UInt32) (key token : CString) (w : WatchEntry) : Bool :=
  w.domain = domain && w.key = key && (token = [] || strHead w.token = token)

section Registry
variable {domain : Option UInt32} {key token : CString} {tail : Bytes} {ws : List WatchEntry}

theorem tokenMatches_terminated {block : Bytes} (h : ∃ t, readStr block = .ok t) :
    tokenMatches (strBytes token ++ tail) block =
      .ok (token = [] || strHead block = token) := by
  obtain ⟨t, ht⟩ := h
  unfold tokenMatches
  rw [readStr_strBytes]
  cases token with
  | nil => simp
  | cons c cs => simp [ht, strHead_of_readStr ht]

theorem keyToWatcher_find (hws : ∀ w ∈ ws, ∃ t, readStr w.token = .ok t) :
    keyToWatcher key (strBytes token ++ tail) domain ws =
      .ok (ws.find? (WatchEntry.fits domain key token)) := by
  induction ws with
  | nil => rfl
  | cons iter rest ih =>
    have hrest := ih fun w hw => hws w (List.mem_cons_of_mem _ hw)
    unfold keyToWatcher
    have hfits : iter.fits domain key token =
        (decide (iter.domain = domain) && decide (iter.key = key) &&
          (decide (token = []) || decide (strHead iter.token = token))) := rfl
    rw [tokenMatches_terminated (hws iter List.mem_cons_self), List.find?_cons, hfits]
    cases hfit : decide (iter.domain = domain) && decide (iter.key = key) with
    | false => simpa using hrest
    | true =>
      cases hmatch : decide (token = []) || decide (strHead iter.token = token) with
      | false => simpa using hrest
      | true => simp

/-- A watch is on the list once, and one with an empty token is the first on its path. -/
def Apart (i j : Option UInt32 × CString × CString) : Prop :=
  i ≠ j ∧ (i.1 = j.1 → i.2.1 = j.2.1 → j.2.2 ≠ [])

/-- The token is empty and would be taken for another one. -/
def Confused (domain : Option UInt32) (key token : CString) (s : Shared) : Prop :=
  token = [] ∧ (∃ i ∈ s.pairs, i.1 = domain ∧ i.2.1 = key) ∧ (domain, key, []) ∉ s.pairs

structure PairsOk (s : Shared) : Prop where
  ids : s.watches.map WatchEntry.id = List.range s.watches.length
  tokens : ∀ w ∈ s.watches, ∃ t, readStr w.token = .ok t
  pairs : s.pairs.Pairwise Apart

variable {s : Shared} {w : WatchEntry}

theorem PairsOk.tokens_linked (h : PairsOk s) : ∀ w ∈ linkedWatches s,
    ∃ t, readStr w.token = .ok t :=
  fun w hw => h.tokens w (List.mem_of_mem_filter hw)

theorem fits_iff : w.fits domain key token = true ↔
    w.domain = domain ∧ w.key = key ∧ (token = [] ∨ strHead w.token = token) := by
  simp [WatchEntry.fits, and_assoc]

theorem find_none (h : (linkedWatches s).find? (WatchEntry.fits domain key token) = none) :
    (domain, key, token) ∉ s.pairs := by
  intro hmem
  obtain ⟨w, hw, hident⟩ := List.mem_map.mp hmem
  simp only [WatchEntry.ident, Prod.mk.injEq] at hident
  obtain ⟨hdomain, hkey, htoken⟩ := hident
  exact List.find?_eq_none.mp h w hw (fits_iff.mpr ⟨hdomain, hkey, Or.inr htoken⟩)

theorem find_meant (hs : PairsOk s) (hclear : ¬ Confused domain key token s)
    (h : (linkedWatches s).find? (WatchEntry.fits domain key token) = some w) :
    w.ident = (domain, key, token) := by
  obtain ⟨hfits, before, after, hlist, hbefore⟩ := List.find?_eq_some_iff_append.mp h
  obtain ⟨hdomain, hkey, htoken⟩ := fits_iff.mp hfits
  rcases htoken with rfl | htoken
  · have hw : w.ident ∈ s.pairs := List.mem_map_of_mem (List.mem_of_find?_eq_some h)
    have hempty : (domain, key, []) ∈ s.pairs := by
      by_contra hno
      exact hclear ⟨rfl, ⟨w.ident, hw, hdomain, hkey⟩, hno⟩
    obtain ⟨v, hv, hident⟩ := List.mem_map.mp hempty
    have hvfits : v.fits domain key [] = true := by
      simp only [WatchEntry.ident, Prod.mk.injEq] at hident
      exact fits_iff.mpr ⟨hident.1, hident.2.1, Or.inl rfl⟩
    have hpairs := hs.pairs
    unfold Shared.pairs at hpairs
    rw [hlist, List.map_append, List.map_cons] at hpairs
    rw [hlist] at hv
    rcases List.mem_append.mp hv with hv | hv
    · have hnot := hbefore v hv
      rw [hvfits] at hnot
      cases hnot
    · rcases List.mem_cons.mp hv with rfl | hv
      · exact hident
      · -- the watch with the empty token would come after another one on its path
        have hlater := (List.pairwise_cons.mp (List.pairwise_append.mp hpairs).2.1).1 v.ident
          (List.mem_map_of_mem hv)
        rw [hident] at hlater
        exact absurd rfl (hlater.2 hdomain hkey)
  · simp [WatchEntry.ident, hdomain, hkey, htoken]

theorem find_isSome_iff (hs : PairsOk s) (hclear : ¬ Confused domain key token s) :
    ((linkedWatches s).find? (WatchEntry.fits domain key token)).isSome = true ↔
      (domain, key, token) ∈ s.pairs := by
  cases hfind : (linkedWatches s).find? (WatchEntry.fits domain key token) with
  | none => simpa using find_none hfind
  | some w =>
    have hmem : w.ident ∈ s.pairs := List.mem_map_of_mem (List.mem_of_find?_eq_some hfind)
    rw [find_meant hs hclear hfind] at hmem
    simpa using hmem

theorem find_confused (hconf : Confused domain key token s) :
    ∃ w, (linkedWatches s).find? (WatchEntry.fits domain key token) = some w ∧
      (domain, key, token) ∉ s.pairs := by
  obtain ⟨rfl, ⟨i, hi, hdomain, hkey⟩, hno⟩ := hconf
  obtain ⟨v, hv, rfl⟩ := List.mem_map.mp hi
  have hsome : ((linkedWatches s).find? (WatchEntry.fits domain key [])).isSome :=
    List.find?_isSome.mpr ⟨v, hv, fits_iff.mpr ⟨hdomain, hkey, Or.inl rfl⟩⟩
  obtain ⟨w, hw⟩ := Option.isSome_iff_exists.mp hsome
  exact ⟨w, hw, hno⟩

theorem apart_of_find_none
    (h : (linkedWatches s).find? (WatchEntry.fits domain key token) = none) :
    ∀ i ∈ s.pairs, Apart i (domain, key, token) := by
  intro i hi
  refine ⟨fun heq => find_none h (heq ▸ hi), fun hdomain hkey hempty => ?_⟩
  obtain ⟨v, hv, rfl⟩ := List.mem_map.mp hi
  exact List.find?_eq_none.mp h v hv (fits_iff.mpr ⟨hdomain, hkey, Or.inl hempty⟩)

variable {s' : Shared}

theorem pairs_bare (s : Shared) : s.pairs =
    ((s.watches.map WatchEntry.bare).filter (·.linked)).map WatchEntry.ident := by
  unfold Shared.pairs linkedWatches
  rw [List.filter_map, List.map_map]
  rfl

theorem PairsOk.kept (h : PairsOk s)
    (hb : s'.watches.map WatchEntry.bare = s.watches.map WatchEntry.bare) :
    PairsOk s' ∧ s'.pairs = s.pairs := by
  have hpairs : s'.pairs = s.pairs := by rw [pairs_bare, pairs_bare, hb]
  have hlen : s'.watches.length = s.watches.length := by simpa using congrArg List.length hb
  refine ⟨⟨?_, fun w hw => ?_, by rw [hpairs]; exact h.pairs⟩, hpairs⟩
  · rw [hlen, ← h.ids, WatchRegistry.map_id_bare, hb, ← WatchRegistry.map_id_bare]
  · have hmem : w.bare ∈ s.watches.map WatchEntry.bare := hb ▸ List.mem_map_of_mem hw
    obtain ⟨v, hv, hbare⟩ := List.mem_map.mp hmem
    simp only [WatchEntry.bare, WatchEntry.mk.injEq] at hbare
    rw [← hbare.2.2.1]
    exact h.tokens v hv

theorem PairsOk.link (h : PairsOk s) (hid : w.id = s.watches.length) (hl : w.linked = true)
    (ht : ∃ t, readStr w.token = .ok t) (hnew : ∀ i ∈ s.pairs, Apart i w.ident) :
    PairsOk { s with watches := s.watches ++ [w] } ∧
      Shared.pairs { s with watches := s.watches ++ [w] } = s.pairs ++ [w.ident] := by
  have hpairs : Shared.pairs { s with watches := s.watches ++ [w] } = s.pairs ++ [w.ident] := by
    simp [Shared.pairs, linkedWatches, List.filter_append, hl]
  refine ⟨⟨?_, fun v hv => ?_, ?_⟩, hpairs⟩
  · simp [h.ids, hid, List.range_succ]
  · rcases List.mem_append.mp hv with hv | hv
    · exact h.tokens v hv
    · cases List.mem_singleton.mp hv
      exact ht
  · rw [hpairs]
    refine List.pairwise_append.mpr ⟨h.pairs, List.pairwise_singleton _ _, fun i hi j hj => ?_⟩
    rw [List.mem_singleton.mp hj]
    exact hnew i hi

theorem PairsOk.ident_iff (h : PairsOk s) {v : WatchEntry} (hv : v ∈ linkedWatches s)
    (hw : w ∈ linkedWatches s) : v.id = w.id ↔ v.ident = w.ident := by
  constructor
  · intro hid
    rw [eq_of_ids h.ids (List.mem_of_mem_filter hv) (List.mem_of_mem_filter hw) hid]
  · intro hident
    have hnodup : s.pairs.Nodup := h.pairs.imp fun hij => hij.1
    rw [List.inj_on_of_nodup_map hnodup hv hw hident]

theorem linkedWatches_unlinked (s : Shared) (id : Nat) :
    linkedWatches { s with
      watches := s.watches.map fun w => if w.id = id then { w with linked := false } else w } =
      (linkedWatches s).filter fun w => w.id ≠ id := by
  simp only [linkedWatches]
  induction s.watches with
  | nil => rfl
  | cons v vs ih =>
    by_cases hid : v.id = id
    · rw [List.map_cons, if_pos hid, List.filter_cons_of_neg (by simp), ih, List.filter_cons]
      split
      · rw [List.filter_cons_of_neg (by simp [hid])]
      · rfl
    · rw [List.map_cons, if_neg hid, List.filter_cons, List.filter_cons, ih]
      split
      · rw [List.filter_cons_of_pos (by simp [hid])]
      · rfl

theorem PairsOk.unlink (h : PairsOk s) (hw : w ∈ linkedWatches s)
    (hs' : s' = { s with
      watches := s.watches.map fun v => if v.id = w.id then { v with linked := false } else v }) :
    PairsOk s' ∧ s'.pairs = s.pairs.filter fun i => i ≠ w.ident := by
  have hpairs : s'.pairs = s.pairs.filter fun i => i ≠ w.ident := by
    unfold Shared.pairs
    rw [hs', linkedWatches_unlinked, List.filter_map]
    congr 1
    apply List.filter_congr
    intro v hv
    simp [h.ident_iff hv hw]
  have hids : s'.watches.map WatchEntry.id = s.watches.map WatchEntry.id := by
    rw [hs', List.map_map]
    apply List.map_congr_left
    intro v _
    simp only [Function.comp]
    split <;> rfl
  refine ⟨⟨?_, fun v hv => ?_, ?_⟩, hpairs⟩
  · rw [hids, h.ids, hs', List.length_map]
  · rw [hs'] at hv
    obtain ⟨u, hu, rfl⟩ := List.mem_map.mp hv
    have htoken := h.tokens u hu
    split <;> exact htoken
  · rw [hpairs]
    exact h.pairs.sublist List.filter_sublist

end Registry

/-- A call that registers a watch, unless `key_to_watcher` finds one. -/
structure Registers (domain : Option UInt32) (key token : CString) (s s' : Shared) : Prop where
  found : ∀ w, (linkedWatches s).find? (WatchEntry.fits domain key token) = some w →
    s'.watches.map WatchEntry.bare = s.watches.map WatchEntry.bare
  absent : (linkedWatches s).find? (WatchEntry.fits domain key token) = none →
    ∃ w : WatchEntry, w.ident = (domain, key, token) ∧ w.id = s.watches.length ∧
      w.linked = true ∧ (∃ t, readStr w.token = .ok t) ∧
      s'.watches.map WatchEntry.bare = (s.watches ++ [w]).map WatchEntry.bare

/-- A call that takes back the watch `key_to_watcher` finds. -/
structure Withdraws (domain : Option UInt32) (key token : CString) (s s' : Shared) : Prop where
  found : ∀ w, (linkedWatches s).find? (WatchEntry.fits domain key token) = some w →
    s'.watches.map WatchEntry.bare = (s.watches.map fun v =>
      if v.id = w.id then { v with linked := false } else v).map WatchEntry.bare
  absent : (linkedWatches s).find? (WatchEntry.fits domain key token) = none →
    s'.watches.map WatchEntry.bare = s.watches.map WatchEntry.bare

section Effects
variable {domain : Option UInt32} {key token : CString} {s s₁ s' : Shared}

theorem Registers.kept (h : Registers domain key token s s₁)
    (hb : s'.watches.map WatchEntry.bare = s₁.watches.map WatchEntry.bare) :
    Registers domain key token s s' := by
  refine ⟨fun w hw => hb.trans (h.found w hw), fun hnone => ?_⟩
  obtain ⟨w, hident, hid, hlinked, htoken, hw⟩ := h.absent hnone
  exact ⟨w, hident, hid, hlinked, htoken, hb.trans hw⟩

theorem Withdraws.kept (h : Withdraws domain key token s s₁)
    (hb : s'.watches.map WatchEntry.bare = s₁.watches.map WatchEntry.bare) :
    Withdraws domain key token s s' :=
  ⟨fun w hw => hb.trans (h.found w hw), fun hnone => hb.trans (h.absent hnone)⟩

theorem Registers.pairs (h : Registers domain key token s s') (hs : PairsOk s) :
    PairsOk s' ∧ s'.pairs =
      if ((linkedWatches s).find? (WatchEntry.fits domain key token)).isSome then s.pairs
      else s.pairs ++ [(domain, key, token)] := by
  cases hfind : (linkedWatches s).find? (WatchEntry.fits domain key token) with
  | some w => exact hs.kept (h.found w hfind)
  | none =>
    obtain ⟨w, hident, hid, hlinked, htoken, hw⟩ := h.absent hfind
    have hnew := apart_of_find_none hfind
    rw [← hident] at hnew
    obtain ⟨hok, hpairs⟩ := hs.link hid hlinked htoken hnew
    obtain ⟨hok', hpairs'⟩ := hok.kept hw
    exact ⟨hok', by rw [hpairs', hpairs, hident]; rfl⟩

theorem Withdraws.pairs (h : Withdraws domain key token s s') (hs : PairsOk s) :
    PairsOk s' ∧ ∀ found, (linkedWatches s).find? (WatchEntry.fits domain key token) = found →
      s'.pairs = s.pairs.filter fun i => some i ≠ found.map WatchEntry.ident := by
  cases hfind : (linkedWatches s).find? (WatchEntry.fits domain key token) with
  | some w =>
    obtain ⟨hok, hpairs⟩ := hs.unlink (List.mem_of_find?_eq_some hfind) rfl
    obtain ⟨hok', hpairs'⟩ := hok.kept (h.found w hfind)
    refine ⟨hok', ?_⟩
    rintro _ rfl
    rw [hpairs', hpairs]
    simp
  | none =>
    obtain ⟨hok', hpairs'⟩ := hs.kept (h.absent hfind)
    refine ⟨hok', ?_⟩
    rintro _ rfl
    rw [hpairs']
    simp

theorem Registers.exact_iff (h : Registers domain key token s s') (hs : PairsOk s) :
    s'.pairs = (if (domain, key, token) ∈ s.pairs then s.pairs
      else s.pairs ++ [(domain, key, token)]) ↔ ¬ Confused domain key token s := by
  obtain ⟨-, hpairs⟩ := h.pairs hs
  rw [hpairs]
  constructor
  · intro heq hconf
    obtain ⟨w, hw, hnot⟩ := find_confused hconf
    rw [hw, if_neg hnot] at heq
    simp at heq
  · intro hclear
    rw [if_congr (find_isSome_iff hs hclear) rfl rfl]

theorem Withdraws.exact_iff (h : Withdraws domain key token s s') (hs : PairsOk s) :
    s'.pairs = (s.pairs.filter fun i => i ≠ (domain, key, token)) ↔
      ¬ Confused domain key token s := by
  obtain ⟨-, hpairs⟩ := h.pairs hs
  constructor
  · intro heq hconf
    obtain ⟨w, hw, hnot⟩ := find_confused hconf
    have hmem : w.ident ∈ s.pairs := List.mem_map_of_mem (List.mem_of_find?_eq_some hw)
    have hkept : w.ident ∈ s'.pairs := by
      rw [heq, List.mem_filter]
      refine ⟨hmem, ?_⟩
      simp only [ne_eq, decide_not, Bool.not_eq_true', decide_eq_false_iff_not]
      exact fun hident => hnot (hident ▸ hmem)
    rw [hpairs _ hw] at hkept
    simp at hkept
  · intro hclear
    cases hfind : (linkedWatches s).find? (WatchEntry.fits domain key token) with
    | some w =>
      rw [hpairs _ hfind, Option.map_some, find_meant hs hclear hfind]
      simp
    | none =>
      have hnot := find_none hfind
      rw [hpairs _ hfind]
      simp only [Option.map_none, ne_eq, reduceCtorEq, not_false_eq_true, decide_true,
        List.filter_true]
      symm
      rw [List.filter_eq_self]
      intro i hi
      simp only [decide_not, Bool.not_eq_true', decide_eq_false_iff_not]
      exact fun heq => hnot (heq ▸ hi)

end Effects

section Calls
variable {path token key : CString} {deadline : Deadline} {s : Shared}

theorem keyToWatcher_linked (hs : PairsOk s) (domain : Option UInt32) (tail : Bytes) :
    keyToWatcher key (strBytes token ++ tail) domain (linkedWatches s) =
      .ok ((linkedWatches s).find? (WatchEntry.fits domain key token)) :=
  keyToWatcher_find hs.tokens_linked

theorem keyToWatcher_local (hs : PairsOk s) :
    keyToWatcher key (strBytes token) none (linkedWatches s) =
      .ok ((linkedWatches s).find? (WatchEntry.fits none key token)) := by
  have hfind := @keyToWatcher_linked token key s hs none []
  rwa [List.append_nil] at hfind

theorem wp_xsUnwatchTimeout (hs : PairsOk s) (hallocs : s.allocs = []) (hlocks : s.locks = [])
    (hkey : resolvePath path 0 = .ok key) :
    wp (xsUnwatchTimeout path token deadline)
      (fun rc s' => rc = none ∧ Withdraws none key token s s') (fun _ => False) s := by
  unfold xsUnwatchTimeout unlinkWatch
  rw [wp_bind]
  refine wp_of_ok (alloc_nil hallocs (constructPath_nil path 0)) ?_
  simp only [hkey, wp_bind]
  refine wp_of_ok (lock_nil (Or.inr hlocks)) ?_
  simp only [wp_bind, wp_get, keyToWatcher_local hs, wp_lift_ok]
  cases hfind : (linkedWatches s).find? (WatchEntry.fits none key token) with
  | none =>
    refine ⟨rfl, ⟨fun w hw => ?_, fun _ => rfl⟩⟩
    rw [hfind] at hw
    cases hw
  | some w =>
    simp only [wp_bind, wp_modify, wp_pure]
    refine ⟨trivial, ⟨fun v hv => ?_, fun hnone => ?_⟩⟩
    · rw [hfind] at hv
      cases hv
      rfl
    · rw [hfind] at hnone
      cases hnone

theorem Registers.link {domain : Option UInt32} {w : WatchEntry}
    (hfind : (linkedWatches s).find? (WatchEntry.fits domain key token) = none)
    (hident : w.ident = (domain, key, token)) (hid : w.id = s.watches.length)
    (hlinked : w.linked = true) (htoken : ∃ t, readStr w.token = .ok t) :
    Registers domain key token s { s with watches := s.watches ++ [w] } := by
  refine ⟨fun v hv => ?_, fun _ => ⟨w, hident, hid, hlinked, htoken, rfl⟩⟩
  rw [hfind] at hv
  cases hv

theorem Registers.keep {domain : Option UInt32} {w : WatchEntry} {s' : Shared}
    (hfind : (linkedWatches s).find? (WatchEntry.fits domain key token) = some w)
    (hb : s'.watches.map WatchEntry.bare = s.watches.map WatchEntry.bare) :
    Registers domain key token s s' := by
  refine ⟨fun _ _ => hb, fun hnone => ?_⟩
  rw [hfind] at hnone
  cases hnone

theorem wp_firstEvent {w : WatchEntry} (hallocs : s.allocs = []) (hlocal : w.domain = none)
    (hfresh : w.pendingPath = none) :
    wp (queueLocalWatchEventLocked [] w path >>= fun r =>
        dispatchLocalWatchEventsLocked r.2 >>= fun _ => pure (none : Option Errno))
      (fun rc s' => rc = none ∧ s'.watches.map WatchEntry.bare = s.watches.map WatchEntry.bare)
      (fun _ => False) s := by
  unfold queueLocalWatchEventLocked
  simp only [hlocal, hfresh, Option.isSome_none, Bool.false_eq_true, if_false, wp_bind]
  refine wp_of_ok (alloc_nil hallocs kMalloc_nil) ?_
  simp only [Bool.not_true, Bool.false_eq_true, if_false, wp_bind, wp_modify, wp_pure,
    List.nil_append, dispatchLocalWatchEventsLocked, dispatchLocalWatchEvent]
  refine ⟨trivial, ?_⟩
  exact (bare_of_still (still_setPendingPath _ _ _)).trans
    (bare_of_still (still_setPendingPath _ _ _))

theorem newLocalWatch_ident (isRelative : Bool) :
    (newLocalWatch s key token isRelative).ident = (none, key, token) := by
  simp [WatchEntry.ident, newLocalWatch, strHead_of_readStr (readStr_terminated token)]

theorem wp_linkLocalWatch {fire : Bool} (hs : PairsOk s) (hallocs : s.allocs = [])
    (hlocks : s.locks = [])
    (hfind : (linkedWatches s).find? (WatchEntry.fits none key token) = none) :
    wp (linkLocalWatch path key token fire deadline)
      (fun rc s' => rc = none ∧ Registers none key token s s') (fun _ => False) s := by
  have hlink : Registers none key token s { s with watches := s.watches ++
      [newLocalWatch s key token (!xenstoreIsAbsPath path)] } :=
    .link hfind (newLocalWatch_ident _) rfl rfl ⟨token, readStr_terminated token⟩
  unfold linkLocalWatch
  rw [wp_bind]
  refine wp_of_ok (alloc_nil hallocs kMalloc_nil) ?_
  simp only [Bool.not_true, Bool.false_eq_true, if_false, wp_bind]
  refine wp_of_ok (alloc_nil hallocs kMalloc_nil) ?_
  simp only [Bool.not_true, Bool.false_eq_true, if_false, wp_bind]
  refine wp_of_ok (lock_nil (Or.inr hlocks)) ?_
  rw [wp_bind]
  refine wp_of_ok (lock_nil (Or.inr hlocks)) ?_
  simp only [wp_bind, wp_get, keyToWatcher_local hs, hfind, wp_lift_ok]
  refine wp_ite (fun _ => ?_) fun _ => ⟨rfl, hlink⟩
  exact wp_conseq (wp_firstEvent hallocs rfl rfl) fun rc s' h => ⟨h.1, hlink.kept h.2⟩

theorem wp_xsWatchTimeout (hs : PairsOk s) (hallocs : s.allocs = []) (hlocks : s.locks = [])
    (hkey : resolvePath path 0 = .ok key) :
    wp (xsWatchTimeout path token deadline)
      (fun rc s' => Registers none key token s s' ∧
        rc = if ((linkedWatches s).find? (WatchEntry.fits none key token)).isSome
          then some .eexist else none)
      (fun _ => ¬ PermsOk s.root) s := by
  unfold xsWatchTimeout
  rw [wp_bind]
  refine wp_of_ok (alloc_nil hallocs (constructPath_nil path 0)) ?_
  simp only [hkey, wp_bind]
  refine wp_of_ok (lock_nil (Or.inr hlocks)) ?_
  rw [wp_bind, wp_get, wp_bind, wp_alloc]
  -- whether the node is there decides about the first event only
  have hlook : ∀ entry : Option EntryRef, wp (do
      match ← xssMutexLockDeadline deadline with
      | some e => pure (some e)
      | none =>
        let s ← get
        match ← Wp.lift (keyToWatcher key (strBytes token) none (linkedWatches s)) with
        | some _ => pure (some .eexist)
        | none => linkLocalWatch path key token entry.isSome deadline)
      (fun rc s' => Registers none key token s s' ∧
        rc = if ((linkedWatches s).find? (WatchEntry.fits none key token)).isSome
          then some .eexist else none)
      (fun _ => ¬ PermsOk s.root) s := by
    intro entry
    rw [wp_bind]
    refine wp_of_ok (lock_nil (Or.inr hlocks)) ?_
    simp only [wp_bind, wp_get, keyToWatcher_local hs, wp_lift_ok]
    cases hfind : (linkedWatches s).find? (WatchEntry.fits none key token) with
    | some w => exact ⟨.keep hfind rfl, rfl⟩
    | none =>
      refine wp_mono (wp_linkLocalWatch hs hallocs hlocks hfind) (fun rc s' h => ?_)
        fun _ hf => hf.elim
      exact ⟨h.2, h.1⟩
  have hsame : ∀ rest, rest <:+ s.allocs → ({ s with allocs := rest } : Shared) = s := by
    intro rest hrest
    rw [hallocs, List.suffix_nil] at hrest
    rw [hrest, ← hallocs]
  refine wp_keyToEntryCheckPerm (fun entry rest hrest _ _ => ?_) (fun rest hrest _ => ?_) fun h => h
  · rw [hsame rest hrest]
    exact hlook _
  · rw [hsame rest hrest]
    exact hlook _

variable {x : Xenstore} {id : UInt32} {text : CString} {tail : Bytes}

theorem token_drop (text : CString) (rest : Bytes) :
    (strBytes text ++ rest).drop (strnlen (strBytes text ++ rest) + 1) = rest := by
  rw [strnlen_strBytes, ← strBytes_length, List.drop_left]

theorem not_tooLong {domid : UInt32} (h : resolvePath text domid = .ok key) (rest : Bytes) :
    ¬ WatchTooLong (strBytes text ++ rest) := by
  have hvalid := (resolvePath_ok h).1
  unfold WatchTooLong
  rw [strnlen_strBytes]
  cases text with
  | nil => cases hvalid
  | cons c cs =>
    have hhead : (strBytes (c :: cs) ++ rest).head? ≠ some slash.val ↔
        ¬ xenstoreIsAbsPath (c :: cs) = true := by
      simp [strBytes_cons, xenstoreIsAbsPath, Subtype.ext_iff]
    rw [if_congr hhead rfl rfl, ite_not]
    change ¬ maxPathLen (c :: cs) < _
    unfold xenstorePathValidate at hvalid
    rw [if_neg (List.cons_ne_nil c cs)] at hvalid
    split at hvalid
    · rename_i hroot
      rw [(xenstoreIsRootPath_iff _).mp hroot]
      decide
    · split at hvalid
      · cases hvalid
      · split at hvalid
        · cases hvalid
        · split at hvalid
          · cases hvalid
          · assumption

theorem wp_sendReply_kept {type : XsdSockmsgType} {data : Bytes} :
    wp (sendReplySz x id type data)
      (fun x' s' => x'.domid = x.domid ∧
        s'.watches.map WatchEntry.bare = s.watches.map WatchEntry.bare ∧
        (BelowLimit x → s'.root = s.root))
      (fun _ => ¬ BelowLimit x) s := by
  by_cases hlim : BelowLimit x
  · refine wp_sendReplySz hlim (fun m rest _ _ => ⟨rfl, rfl, fun _ => rfl⟩) fun rest _ _ => ?_
    exact ⟨rfl, rfl, fun _ => rfl⟩
  · refine wp_mono (calm_sendReplySz x id type data s s ⟨rfl, rfl⟩) (fun x' s' h => ?_)
      fun _ _ => hlim
    exact ⟨h.1, bare_of_still h.2.watches, fun hl => absurd hl hlim⟩

theorem wp_findOrAddWatch_pairs {isRelative : Bool} (hs : PairsOk s) (hallocs : s.allocs = []) :
    wp (findOrAddWatch x key (strBytes token ++ tail) isRelative)
      (fun r s' => r ≠ none ∧ Registers (some x.domid) key token s s' ∧ s'.root = s.root)
      (fun _ => False) s := by
  unfold findOrAddWatch
  simp only [wp_bind, wp_get, keyToWatcher_linked hs, wp_lift_ok]
  cases hfind : (linkedWatches s).find? (WatchEntry.fits (some x.domid) key token) with
  | some w =>
    simp only [wp_bind, wp_modify, wp_pure]
    refine ⟨Option.some_ne_none _, .keep hfind ?_, trivial⟩
    exact WatchRegistry.bare_setRelative w.id isRelative s.watches
  | none =>
    simp only [wp_bind]
    refine wp_of_ok (alloc_nil hallocs kMalloc_nil) ?_
    simp only [Bool.not_true, Bool.false_eq_true, if_false, wp_bind]
    refine wp_of_ok (alloc_nil hallocs kMalloc_nil) ?_
    simp only [Bool.not_true, Bool.false_eq_true, if_false, wp_bind]
    refine wp_of_ok (alloc_nil hallocs kMalloc_nil) ?_
    have htoken : readStr (strBytes token ++ tail) = .ok token := readStr_strBytes token tail
    refine ⟨Option.some_ne_none _, .link hfind ?_ rfl rfl ⟨token, htoken⟩, rfl⟩
    simp [WatchEntry.ident, newWatch, strHead_of_readStr htoken]

theorem wp_handleWatch_pairs (hs : PairsOk s) (hallocs : s.allocs = [])
    (hkey : resolvePath text x.domid = .ok key) :
    wp (handleWatch x id (strBytes text ++ (strBytes token ++ tail)))
      (fun _ s' => Registers (some x.domid) key token s s')
      (fun _ => ¬ (BelowLimit x ∧ PermsOk s.root)) s := by
  refine wp_ite (fun hlong => absurd (watchTooLong_iff.mp hlong) (not_tooLong hkey _)) fun _ => ?_
  refine wp_withPath_nil hallocs (readStr_strBytes text _) (fun e he => ?_) fun full hfull => ?_
  · rw [hkey] at he
    cases he
  · cases hkey.symm.trans hfull
    rw [wp_bind, token_drop]
    refine wp_mono (wp_findOrAddWatch_pairs hs hallocs) (fun r s₁ h₁ => ?_) fun _ hf => hf.elim
    obtain ⟨hr, hreg, hroot⟩ := h₁
    cases r with
    | none => exact absurd rfl hr
    | some wentry =>
      rw [wp_bind]
      refine wp_mono wp_sendReply_kept (fun x' s₂ h₂ => ?_) fun _ hlim hboth => hlim hboth.1
      obtain ⟨-, hb₂, hroot₂⟩ := h₂
      rw [wp_bind, wp_get, wp_bind, wp_alloc]
      have hkept := hreg.kept hb₂
      refine wp_keyToEntryCheckPerm (fun entry rest _ _ _ => ?_) (fun rest _ _ => ?_) ?_
      · rw [wp_bind]
        refine wp_queuePendingWatchEvent fun rc s₃ _ _ hw _ => ?_
        exact hkept.kept (congrArg (List.map WatchEntry.bare) hw)
      · exact hkept.kept rfl
      · intro hperms hboth
        rw [hroot₂ hboth.1, hroot] at hperms
        exact hperms hboth.2

theorem wp_handleUnwatch_pairs (hs : PairsOk s) (hallocs : s.allocs = [])
    (hkey : resolvePath text x.domid = .ok key) :
    wp (handleUnwatch x id (strBytes text ++ (strBytes token ++ tail)))
      (fun _ s' => Withdraws (some x.domid) key token s s')
      (fun _ => ¬ BelowLimit x) s := by
  refine wp_withPath_nil hallocs (readStr_strBytes text _) (fun e he => ?_) fun full hfull => ?_
  · rw [hkey] at he
    cases he
  · cases hkey.symm.trans hfull
    simp only [wp_bind, wp_get, token_drop, keyToWatcher_linked hs, wp_lift_ok]
    cases hfind : (linkedWatches s).find? (WatchEntry.fits (some x.domid) key token) with
    | none =>
      refine wp_conseq wp_sendReply_kept fun x' s' h => ⟨fun w hw => ?_, fun _ => h.2.1⟩
      rw [hfind] at hw
      cases hw
    | some w =>
      rw [wp_bind, wp_modify]
      refine wp_conseq wp_sendReply_kept fun x' s' h => ⟨fun v hv => ?_, fun hnone => ?_⟩
      · rw [hfind] at hv
        cases hv
        exact h.2.1
      · rw [hfind] at hnone
        cases hnone

end Calls

/-- A call of a client in the control domain, or a request of a guest; what follows the token in
the payload is not looked at. -/
inductive WatchCall where
  | xsWatch (path token : CString) (deadline : Deadline)
  | xsUnwatch (path token : CString) (deadline : Deadline)
  | watch (domid : UInt32) (path token : CString) (tail : Bytes)
  | unwatch (domid : UInt32) (path token : CString) (tail : Bytes)

namespace WatchCall

def domain : WatchCall → Option UInt32
  | .xsWatch _ _ _ | .xsUnwatch _ _ _ => none
  | .watch domid _ _ _ | .unwatch domid _ _ _ => some domid

def path : WatchCall → CString
  | .xsWatch path _ _ | .xsUnwatch path _ _ | .watch _ path _ _ | .unwatch _ path _ _ => path

def token : WatchCall → CString
  | .xsWatch _ token _ | .xsUnwatch _ token _ | .watch _ _ token _ | .unwatch _ _ token _ => token

/-- The path is valid, and this is what it resolves to. -/
def Resolves (c : WatchCall) (key : CString) : Prop :=
  resolvePath c.path (c.domain.getD 0) = .ok key

end WatchCall

/-- Every lock and every allocation from here on succeeds. -/
def Shared.granted (s : Shared) : Shared := { s with allocs := [], locks := [] }

def watchPayload (path token : CString) (tail : Bytes) : Bytes :=
  strBytes path ++ (strBytes token ++ tail)

namespace WatchCall

/-- The call returns; a guest may be in any state. -/
def Gives : WatchCall → Shared → Shared → Prop
  | .xsWatch path token deadline, s, s' =>
    ∃ rc, xsWatchTimeout path token deadline s.granted = .ok (rc, s')
  | .xsUnwatch path token deadline, s, s' =>
    ∃ rc, xsUnwatchTimeout path token deadline s.granted = .ok (rc, s')
  | .watch domid path token tail, s, s' => ∃ (x : Xenstore) (id : UInt32) (x' : Xenstore),
    x.domid = domid ∧ handleWatch x id (watchPayload path token tail) s.granted = .ok (x', s')
  | .unwatch domid path token tail, s, s' => ∃ (x : Xenstore) (id : UInt32) (x' : Xenstore),
    x.domid = domid ∧ handleUnwatch x id (watchPayload path token tail) s.granted = .ok (x', s')

/-- The call does what it should for its pair: a registration fails with EEXIST, or for a guest
keeps the watch, exactly when the pair is registered, and adds it otherwise; its end takes this
pair away if it is there, and no other. -/
def AsMeant (key : CString) (s : Shared) : WatchCall → Prop
  | .xsWatch path token deadline => ∃ rc s',
    xsWatchTimeout path token deadline s.granted = .ok (rc, s') ∧
    (rc = some .eexist ↔ (none, key, token) ∈ s.pairs) ∧
    ((none, key, token) ∈ s.pairs → s'.pairs = s.pairs) ∧
    ((none, key, token) ∉ s.pairs → rc = none ∧ s'.pairs = s.pairs ++ [(none, key, token)])
  | .xsUnwatch path token deadline => ∃ s',
    xsUnwatchTimeout path token deadline s.granted = .ok (none, s') ∧
    s'.pairs = s.pairs.filter fun i => i ≠ (none, key, token)
  | .watch domid path token tail => ∀ (x : Xenstore) (id : UInt32), x.domid = domid →
    (BelowLimit x → ∃ r, handleWatch x id (watchPayload path token tail) s.granted = .ok r) ∧
    ∀ x' s', handleWatch x id (watchPayload path token tail) s.granted = .ok (x', s') →
      s'.pairs = if (some domid, key, token) ∈ s.pairs then s.pairs
        else s.pairs ++ [(some domid, key, token)]
  | .unwatch domid path token tail => ∀ (x : Xenstore) (id : UInt32), x.domid = domid →
    (BelowLimit x → ∃ r, handleUnwatch x id (watchPayload path token tail) s.granted = .ok r) ∧
    ∀ x' s', handleUnwatch x id (watchPayload path token tail) s.granted = .ok (x', s') →
      s'.pairs = s.pairs.filter fun i => i ≠ (some domid, key, token)

end WatchCall

def WatchCalls : Shared → Shared → Prop :=
  Relation.ReflTransGen fun s s' => ∃ (c : WatchCall) (key : CString), c.Resolves key ∧ c.Gives s s'

section Runs
variable {s s' : Shared} {c : WatchCall} {key : CString}

theorem PairsOk.granted (h : PairsOk s) : PairsOk s.granted := ⟨h.ids, h.tokens, h.pairs⟩

theorem pairsOk_gives (hs : PairsOk s) (hc : c.Resolves key) (h : c.Gives s s') : PairsOk s' := by
  cases c with
  | xsWatch path token deadline =>
    obtain ⟨rc, hrun⟩ := h
    have hreg := wp_ok (wp_xsWatchTimeout hs.granted rfl rfl hc) hrun
    exact (hreg.1.pairs hs.granted).1
  | xsUnwatch path token deadline =>
    obtain ⟨rc, hrun⟩ := h
    have hreg := wp_ok (wp_xsUnwatchTimeout hs.granted rfl rfl hc) hrun
    exact (hreg.2.pairs hs.granted).1
  | watch domid path token tail =>
    obtain ⟨x, id, x', rfl, hrun⟩ := h
    have hreg := wp_ok (wp_handleWatch_pairs hs.granted rfl hc) hrun
    exact (hreg.pairs hs.granted).1
  | unwatch domid path token tail =>
    obtain ⟨x, id, x', rfl, hrun⟩ := h
    have hreg := wp_ok (wp_handleUnwatch_pairs hs.granted rfl hc) hrun
    exact (hreg.pairs hs.granted).1

theorem pairsOk_run (hno : s.watches = []) (h : WatchCalls s s') : PairsOk s' := by
  induction h with
  | refl =>
    refine ⟨by simp [hno], by simp [hno], ?_⟩
    simp [Shared.pairs, linkedWatches, hno]
  | tail _ hlast ih =>
    obtain ⟨c, key, hc, hgives⟩ := hlast
    exact pairsOk_gives ih hc hgives

theorem asMeant_xsWatch {path token : CString} {deadline : Deadline} (hs : PairsOk s)
    (hwf : WellFormed s.root) (hc : resolvePath path 0 = .ok key) :
    (WatchCall.xsWatch path token deadline).AsMeant key s ↔ ¬ Confused none key token s := by
  have hspec := @wp_xsWatchTimeout path token key deadline s.granted hs.granted rfl rfl hc
  obtain ⟨rc, s', hrun, hreg, hrc⟩ :=
    wp_total (wp_mono hspec (fun _ _ h => h) fun _ hf => hf hwf.permsOk)
  have hiff := hreg.exact_iff hs.granted
  constructor
  · rintro ⟨rc₁, s₁, hrun₁, -, hkeep, hadd⟩
    cases hrun.symm.trans hrun₁
    refine hiff.mp ?_
    by_cases hmem : (none, key, token) ∈ s.pairs
    · exact (hkeep hmem).trans (if_pos hmem).symm
    · exact (hadd hmem).2.trans (if_neg hmem).symm
  · intro hclear
    have hpairs := hiff.mpr hclear
    have hfound := find_isSome_iff hs.granted hclear
    refine ⟨rc, s', hrun, ?_, fun hmem => hpairs.trans (if_pos hmem), fun hmem => ⟨?_, ?_⟩⟩
    · rw [hrc]
      refine ⟨fun h => hfound.mp ?_, fun hmem => if_pos (hfound.mpr hmem)⟩
      by_contra hno
      rw [if_neg hno] at h
      cases h
    · rw [hrc, if_neg fun h => hmem (hfound.mp h)]
    · exact hpairs.trans (if_neg hmem)

theorem asMeant_xsUnwatch {path token : CString} {deadline : Deadline} (hs : PairsOk s)
    (hc : resolvePath path 0 = .ok key) :
    (WatchCall.xsUnwatch path token deadline).AsMeant key s ↔ ¬ Confused none key token s := by
  obtain ⟨rc, s', hrun, rfl, hreg⟩ :=
    wp_total (@wp_xsUnwatchTimeout path token key deadline s.granted hs.granted rfl rfl hc)
  have hiff := hreg.exact_iff hs.granted
  constructor
  · rintro ⟨s₁, hrun₁, hpairs⟩
    cases hrun.symm.trans hrun₁
    exact hiff.mp hpairs
  · intro hclear
    exact ⟨s', hrun, hiff.mpr hclear⟩

theorem idleClient_belowLimit (domid : UInt32) : BelowLimit (idleClient domid) := by
  change (0 : Int) ≤ xenstoreMaxOutBufNum
  decide

/-- A request does what is meant for all clients or, where it returns, for none. -/
theorem request_iff {domid : UInt32} {payload : Bytes} {handler : Handler}
    {effect good : Shared → Prop} {clear : Prop}
    (hspec : ∀ (x : Xenstore) (id : UInt32), x.domid = domid →
      wp (handler x id payload) (fun _ s' => effect s') (fun _ => ¬ BelowLimit x) s)
    (hiff : ∀ s', effect s' → (good s' ↔ clear)) :
    (∀ (x : Xenstore) (id : UInt32), x.domid = domid →
      (BelowLimit x → ∃ r, handler x id payload s = .ok r) ∧
      ∀ x' s', handler x id payload s = .ok (x', s') → good s') ↔ clear := by
  have htotal : ∀ (x : Xenstore) (id : UInt32), x.domid = domid → BelowLimit x →
      ∃ x' s', handler x id payload s = .ok (x', s') ∧ effect s' := fun x id hx hlim =>
    wp_total (wp_mono (hspec x id hx) (fun _ _ h => h) fun _ hf => hf hlim)
  constructor
  · intro h
    obtain ⟨x', s', hrun, heff⟩ := htotal (idleClient domid) 0 rfl (idleClient_belowLimit domid)
    exact (hiff s' heff).mp ((h (idleClient domid) 0 rfl).2 x' s' hrun)
  · intro hclear x id hx
    refine ⟨fun hlim => ?_, fun x' s' hrun => ?_⟩
    · obtain ⟨x', s', hrun, -⟩ := htotal x id hx hlim
      exact ⟨(x', s'), hrun⟩
    · have heff := wp_ok (hspec x id hx) hrun
      exact (hiff s' heff).mpr hclear

theorem asMeant_watch {domid : UInt32} {path token : CString} {tail : Bytes} (hs : PairsOk s)
    (hwf : WellFormed s.root) (hc : resolvePath path domid = .ok key) :
    (WatchCall.watch domid path token tail).AsMeant key s ↔
      ¬ Confused (some domid) key token s := by
  have hiff := fun s' (hreg : Registers (some domid) key token s.granted s') =>
    hreg.exact_iff hs.granted
  refine request_iff ?_ hiff
  rintro x id rfl
  exact wp_mono (wp_handleWatch_pairs hs.granted rfl hc) (fun _ _ h => h)
    fun _ hf hlim => hf ⟨hlim, hwf.permsOk⟩

theorem asMeant_unwatch {domid : UInt32} {path token : CString} {tail : Bytes} (hs : PairsOk s)
    (hc : resolvePath path domid = .ok key) :
    (WatchCall.unwatch domid path token tail).AsMeant key s ↔
      ¬ Confused (some domid) key token s := by
  have hiff := fun s' (hreg : Withdraws (some domid) key token s.granted s') =>
    hreg.exact_iff hs.granted
  refine request_iff ?_ hiff
  rintro x id rfl
  exact wp_handleUnwatch_pairs hs.granted rfl hc

end Runs

/-- After every run of calls the next one goes by its pair, except that an empty token is taken
for one of the tokens its client has on the path, where it has only others. -/
theorem watch_pairs_iff {s s' : Shared} (hno : s.watches = []) (hrun : WatchCalls s s')
    (hwf : WellFormed s'.root) (c : WatchCall) (key : CString) (hc : c.Resolves key) :
    c.AsMeant key s' ↔ ¬ Confused c.domain key c.token s' := by
  have hs := pairsOk_run hno hrun
  cases c with
  | xsWatch path token deadline => exact asMeant_xsWatch hs hwf hc
  | xsUnwatch path token deadline => exact asMeant_xsUnwatch hs hc
  | watch domid path token tail => exact asMeant_watch hs hwf hc
  | unwatch domid path token tail => exact asMeant_unwatch hs hc

theorem resolves_a (domid : UInt32) :
    resolvePath (ascii ['/', 'a']) domid = .ok (ascii ['/', 'a']) := rfl

theorem watchedOnce : ∃ s, WatchCalls ownedByOne s ∧ WellFormed s.root ∧
    s.pairs = [(none, ascii ['/', 'a'], ascii ['t'])] := by
  have hvals : (xsWatchTimeout (ascii ['/', 'a']) (ascii ['t']) .forever ownedByOne.granted).map
      (fun r => (r.2.root, r.2.pairs)) =
      .ok (ownedByOne.root, [(none, ascii ['/', 'a'], ascii ['t'])]) := by rfl
  cases hrun : xsWatchTimeout (ascii ['/', 'a']) (ascii ['t']) .forever ownedByOne.granted with
  | error e =>
    rw [hrun] at hvals
    cases hvals
  | ok r =>
    rw [hrun] at hvals
    obtain ⟨hroot, hpairs⟩ := Prod.mk.inj (Except.ok.inj hvals)
    refine ⟨r.2, .single ⟨.xsWatch (ascii ['/', 'a']) (ascii ['t']) .forever, ascii ['/', 'a'],
      resolves_a 0, r.1, hrun⟩, ?_, hpairs⟩
    rw [hroot]
    exact ownedByOne_wellFormed

theorem watch_pairs_taken_back : ∃ s, WatchCalls ownedByOne s ∧
    s.pairs = [(none, ascii ['/', 'a'], ascii ['t'])] ∧
    (WatchCall.xsUnwatch (ascii ['/', 'a']) (ascii ['t']) .forever).AsMeant
      (ascii ['/', 'a']) s ∧
    (WatchCall.watch 1 (ascii ['/', 'a']) [] []).AsMeant (ascii ['/', 'a']) s := by
  obtain ⟨s, hrun, hwf, hpairs⟩ := watchedOnce
  have hunwatch := watch_pairs_iff rfl hrun hwf
    (.xsUnwatch (ascii ['/', 'a']) (ascii ['t']) .forever) _ (resolves_a 0)
  have hwatch := watch_pairs_iff rfl hrun hwf (.watch 1 (ascii ['/', 'a']) [] []) _ (resolves_a 1)
  refine ⟨s, hrun, hpairs, hunwatch.mpr ?_, hwatch.mpr ?_⟩
  · exact fun hconf => absurd hconf.1 (by decide)
  · rintro ⟨-, ⟨i, hi, hdomain, -⟩, -⟩
    rw [hpairs, List.mem_singleton] at hi
    subst hi
    cases hdomain

/-- With the token "t" registered, the empty token is refused with EEXIST. -/
theorem empty_token_refused :
    ¬ ∀ (s s' : Shared) (c : WatchCall) (key : CString), s.watches = [] → WatchCalls s s' →
      WellFormed s'.root → c.Resolves key → c.AsMeant key s' := by
  intro h
  obtain ⟨s, hrun, hwf, hpairs⟩ := watchedOnce
  have hmeant := h ownedByOne s (.xsWatch (ascii ['/', 'a']) [] .forever) _ rfl hrun hwf
    (resolves_a 0)
  refine (asMeant_xsWatch (pairsOk_run rfl hrun) hwf (resolves_a 0)).mp hmeant ⟨rfl, ?_, ?_⟩
  · exact ⟨_, by rw [hpairs]; exact List.mem_singleton_self _, rfl, rfl⟩
  · rw [hpairs]
    decide

end Xenlib
