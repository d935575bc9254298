import Xenlib.Server
import Xenlib.EntrySpec

/-!
What the functions on the shared state do. `Frame` is what watch notification leaves alone;
`Notified` says everything one notification does.
-/

set_option autoImplicit false

namespace Xenlib

open Wp

@[simp] theorem wp_alloc {α : Type} (x : AllocM α) (Q : α → Shared → Prop) (E : Fault → Prop)
    (s : Shared) :
    wp (alloc x) Q E s = wp x (fun a rest => Q a { s with allocs := rest }) E s.allocs := by
  unfold wp alloc
  cases x s.allocs <;> rfl

theorem alloc_nil {α : Type} {x : AllocM α} {s : Shared} {a : α} (hs : s.allocs = [])
    (hx : x [] = .ok (a, [])) : alloc x s = .ok (a, s) := by
  obtain ⟨_, _, _, _, _, _, _, _⟩ := s
  cases hs
  simp [alloc, hx]

theorem allocs_same {s : Shared} (hs : s.allocs = []) {rest : List Bool} (h : rest <:+ s.allocs) :
    { s with allocs := rest } = s := by
  rw [hs] at h
  rw [List.suffix_nil.mp h, ← hs]

theorem wp_lock {deadline : Deadline} {Q : Option Errno → Shared → Prop} {E : Fault → Prop}
    {s : Shared}
    (h : ∀ rc locks, rc = none ∨ (deadline = .timed ∧ rc = some .etimedout) →
      Q rc { s with locks := locks }) :
    wp (xssMutexLockDeadline deadline) Q E s := by
  unfold wp xssMutexLockDeadline
  cases deadline with
  | forever => cases hl : s.locks <;> exact h none s.locks (Or.inl rfl)
  | timed =>
    cases hl : s.locks with
    | nil => exact h none s.locks (Or.inl rfl)
    | cons b rest =>
      cases b with
      | true => exact h none rest (Or.inl rfl)
      | false => exact h (some .etimedout) rest (Or.inr ⟨rfl, rfl⟩)

theorem wp_kMalloc (Q : Bool → List Bool → Prop) (E : Fault → Prop) (allocs : List Bool) :
    wp kMalloc Q E allocs = Q (allocs.getD 0 true) (allocs.drop 1) := by
  cases allocs <;> rfl

/-- The first `n` outcomes are successes. -/
def Supplied (n : Nat) (outcomes : List Bool) : Prop := ∀ i < n, outcomes.getD i true = true

theorem supplied_add {m n : Nat} {l : List Bool} :
    Supplied (m + n) l ↔ Supplied m l ∧ Supplied n (l.drop m) := by
  have hdrop : ∀ i, (l.drop m).getD i true = l.getD (m + i) true := fun i => by
    simp [List.getD_eq_getElem?_getD]
  constructor
  · intro h
    refine ⟨fun i hi => h i (by omega), fun i hi => ?_⟩
    rw [hdrop]
    exact h (m + i) (by omega)
  · rintro ⟨hm, hn⟩ i hi
    by_cases him : i < m
    · exact hm i him
    · have hget := hn (i - m) (by omega)
      rwa [hdrop, Nat.add_sub_cancel' (by omega)] at hget

theorem supplied_one {l : List Bool} : Supplied 1 l ↔ l.getD 0 true = true := by
  constructor
  · intro h
    exact h 0 (by omega)
  · intro h i hi
    rwa [show i = 0 by omega]

theorem supplied_of_notMem {n : Nat} {l : List Bool} (h : false ∉ l) : Supplied n l := by
  intro i _
  rw [List.getD_eq_getElem?_getD]
  cases hi : l[i]? with
  | none => rfl
  | some b =>
    cases b with
    | true => rfl
    | false => exact absurd (List.mem_of_getElem? hi) h

theorem wp_kMallocs {Q : Bool → List Bool → Prop} {E : Fault → Prop} {n : Nat}
    {allocs : List Bool} (hok : Supplied n allocs → Q true (allocs.drop n))
    (hfail : ¬ Supplied n allocs → ∀ rest, Q false rest) : wp (kMallocs n) Q E allocs := by
  induction n generalizing allocs with
  | zero => exact hok fun i hi => absurd hi (Nat.not_lt_zero i)
  | succ n ih =>
    rw [Nat.add_comm n 1] at hok hfail
    rw [supplied_add, supplied_one] at hok hfail
    unfold kMallocs
    rw [wp_bind, wp_kMalloc]
    cases hb : allocs.getD 0 true with
    | false => exact hfail (fun h => by rw [h.1] at hb; cases hb) _
    | true =>
      refine ih (fun h => ?_) (fun h => hfail fun h' => h h'.2)
      have hq := hok ⟨hb, h⟩
      rwa [← List.drop_drop] at hq

/-- One of the next `n` acquisitions times out. -/
def TimesOut (deadline : Deadline) (n : Nat) (locks : List Bool) : Prop :=
  deadline = .timed ∧ ¬ Supplied n locks

/-- The outcomes that are left after `n` acquisitions. -/
def locksAfter (deadline : Deadline) (n : Nat) (locks : List Bool) : List Bool :=
  if deadline = .timed then locks.drop n else locks

theorem timesOut_add {deadline : Deadline} {m n : Nat} {locks : List Bool} :
    TimesOut deadline (m + n) locks ↔
      TimesOut deadline m locks ∨ TimesOut deadline n (locksAfter deadline m locks) := by
  unfold TimesOut locksAfter
  rw [supplied_add]
  by_cases ht : deadline = .timed
  · rw [if_pos ht]
    tauto
  · simp [ht]

theorem locksAfter_add (deadline : Deadline) (m n : Nat) (locks : List Bool) :
    locksAfter deadline n (locksAfter deadline m locks) = locksAfter deadline (m + n) locks := by
  unfold locksAfter
  split
  · rw [List.drop_drop]
  · rfl

theorem wp_lock_cases {deadline : Deadline} {Q : Option Errno → Shared → Prop}
    {E : Fault → Prop} {s : Shared}
    (hout : TimesOut deadline 1 s.locks →
      Q (some .etimedout) { s with locks := locksAfter deadline 1 s.locks })
    (hin : ¬ TimesOut deadline 1 s.locks →
      Q none { s with locks := locksAfter deadline 1 s.locks }) :
    wp (xssMutexLockDeadline deadline) Q E s := by
  unfold wp xssMutexLockDeadline
  unfold TimesOut locksAfter at hout hin
  rw [supplied_one] at hout hin
  cases deadline with
  | forever => cases hl : s.locks <;> simpa using hin
  | timed =>
    cases hl : s.locks with
    | nil =>
      have hs : { s with locks := [] } = s := by rw [← hl]
      simpa [hl, hs] using hin
    | cons b rest =>
      cases b with
      | true => simpa [hl] using hin
      | false => simpa [hl] using hout

theorem id_lt_of_ids {watches : List WatchEntry}
    (h : watches.map WatchEntry.id = List.range watches.length) {w : WatchEntry}
    (hw : w ∈ watches) : w.id < watches.length := by
  have hmem : w.id ∈ watches.map WatchEntry.id := List.mem_map_of_mem hw
  rw [h] at hmem
  exact List.mem_range.mp hmem

theorem eq_of_ids {watches : List WatchEntry}
    (h : watches.map WatchEntry.id = List.range watches.length) {v w : WatchEntry}
    (hv : v ∈ watches) (hw : w ∈ watches) (hid : v.id = w.id) : v = w := by
  have hn : (watches.map WatchEntry.id).Nodup := by
    rw [h]
    exact List.nodup_range
  exact List.inj_on_of_nodup_map hn hv hw hid

/-- The part of the shared state that only writes, removals and stops change. -/
structure Frame (s s' : Shared) : Prop where
  root : s'.root = s.root
  usedThreads : s'.usedThreads = s.usedThreads
  domuMax : s'.domuMax = s.domuMax
  allocs : s.allocs = [] → s'.allocs = []

theorem Frame.refl (s : Shared) : Frame s s := ⟨rfl, rfl, rfl, id⟩

theorem Frame.trans {a b c : Shared} (h₁ : Frame a b) (h₂ : Frame b c) : Frame a c :=
  ⟨h₂.root.trans h₁.root, h₂.usedThreads.trans h₁.usedThreads,
    h₂.domuMax.trans h₁.domuMax, fun h => h₂.allocs (h₁.allocs h)⟩

theorem Frame.drawn {s : Shared} {rest : List Bool} (h : s.allocs = [] → rest = []) :
    Frame s { s with allocs := rest } := ⟨rfl, rfl, rfl, h⟩

theorem length_of_xenstorePathContains {parent child : CString}
    (h : xenstorePathContains parent child = true) : parent.length ≤ child.length := by
  by_cases hr : parent = [slash]
  · subst hr
    by_cases he : [slash] = child
    · rw [he]
    · have hne : child ≠ [] := by
        rintro rfl
        exact absurd h (by decide)
      exact List.length_pos_iff.mpr hne
  · exact (prefix_of_xenstorePathContains h hr).length_le

theorem watchEventPath_length {w : WatchEntry} {path eventPath : CString} {recursiveRemove : Bool}
    (h : watchEventPath w path recursiveRemove = some eventPath) :
    w.key.length ≤ eventPath.length := by
  unfold watchEventPath at h
  split at h
  · rename_i hc
    cases h
    exact length_of_xenstorePathContains hc
  · split at h
    · cases h
      exact Nat.le_refl _
    · cases h

/-- The watch is told about the change: its key is concerned, and the node can be found. -/
def Concerned (root : XsEntry) (path : CString) (recursiveRemove : Bool) (w : WatchEntry) : Prop :=
  ∃ eventPath, watchEventPath w path recursiveRemove = some eventPath ∧
    (foundEntry root eventPath).isSome

def localEventPath (w : WatchEntry) (eventPath : CString) : CString :=
  if w.isRelative then eventPath.drop (localDomainPath 0).length else eventPath

def markPending (evs : List (Nat × CString)) (watches : List WatchEntry) : List WatchEntry :=
  evs.foldl (fun ws e => ws.map fun w =>
    if w.id = e.1 then { w with pendingPath := some e.2 } else w) watches

/-- What the queue loop over `iters` does, with the local events `evs` it queues. -/
structure Notified (path : CString) (recursiveRemove : Bool) (iters : List WatchEntry)
    (s s' : Shared) (evs : List (Nat × CString)) : Prop where
  frame : Frame s s'
  calls : s'.calls = s.calls
  watches : s'.watches = markPending evs s.watches
  sublist : (evs.map Prod.fst).Sublist (iters.map WatchEntry.id)
  queued : ∀ e ∈ evs, ∃ w ∈ iters, w.id = e.1 ∧ w.domain = none ∧ w.pendingPath = none ∧
    Concerned s.root path recursiveRemove w ∧
    ∃ eventPath, watchEventPath w path recursiveRemove = some eventPath ∧
      e.2 = localEventPath w eventPath
  events : ∀ e ∈ s'.pendingWatchEventList, e ∈ s.pendingWatchEventList ∨
    ∃ w ∈ iters, e.watch = w.id ∧ w.domain = some e.domain ∧
      watchEventPath w path recursiveRemove = some e.eventPath

def NotifyFault (path : CString) (recursiveRemove : Bool) (iters : List WatchEntry) (s : Shared) :
    Fault → Prop
  | .emptyPerms => ¬ PermsOk s.root
  | .assertion => ∃ w ∈ iters, w.domain = none ∧ w.pendingPath.isSome ∧
      Concerned s.root path recursiveRemove w
  | .outOfBounds => ∃ w ∈ iters, w.domain = none ∧ w.isRelative = true ∧
      ∃ eventPath, watchEventPath w path recursiveRemove = some eventPath ∧
        eventPath.length < (localDomainPath 0).length
  | _ => False

theorem NotifyFault.ne {path : CString} {recursiveRemove : Bool} {iters : List WatchEntry}
    {s : Shared} {e : Fault} (hok : PermsOk s.root)
    (h : NotifyFault path recursiveRemove iters s e) :
    e ≠ .emptyPerms ∧ e ≠ .unlinkedNode := by
  constructor
  · rintro rfl
    exact h hok
  · rintro rfl
    exact h

section Queue
variable {path : CString} {recursiveRemove : Bool}

theorem Notified.nil (s : Shared) (iters : List WatchEntry) :
    Notified path recursiveRemove iters s s [] :=
  ⟨Frame.refl s, rfl, rfl, List.nil_sublist _, nofun, fun _ he => Or.inl he⟩

theorem Notified.cons_guest {w : WatchEntry} {iters : List WatchEntry} {s s₁ s' : Shared}
    {evs : List (Nat × CString)} (hf : Frame s s₁) (hc : s₁.calls = s.calls)
    (hw : s₁.watches = s.watches)
    (he : ∀ e ∈ s₁.pendingWatchEventList, e ∈ s.pendingWatchEventList ∨
      (e.watch = w.id ∧ w.domain = some e.domain ∧
        watchEventPath w path recursiveRemove = some e.eventPath))
    (h : Notified path recursiveRemove iters s₁ s' evs) :
    Notified path recursiveRemove (w :: iters) s s' evs := by
  refine ⟨hf.trans h.frame, h.calls.trans hc, by rw [h.watches, hw],
    h.sublist.cons _, fun e hm => ?_, fun e hm => ?_⟩
  · obtain ⟨w', hw', hq⟩ := h.queued e hm
    rw [hf.root] at hq
    exact ⟨w', List.mem_cons_of_mem _ hw', hq⟩
  · rcases h.events e hm with hm | ⟨w', hw', hq⟩
    · rcases he e hm with hm | hq
      · exact Or.inl hm
      · exact Or.inr ⟨w, List.mem_cons_self, hq⟩
    · exact Or.inr ⟨w', List.mem_cons_of_mem _ hw', hq⟩

theorem Notified.cons_skip {w : WatchEntry} {iters : List WatchEntry} {s s₁ s' : Shared}
    {evs : List (Nat × CString)} (hf : Frame s s₁) (hc : s₁.calls = s.calls)
    (hw : s₁.watches = s.watches) (he : s₁.pendingWatchEventList = s.pendingWatchEventList)
    (h : Notified path recursiveRemove iters s₁ s' evs) :
    Notified path recursiveRemove (w :: iters) s s' evs :=
  Notified.cons_guest hf hc hw (fun _ hm => Or.inl (he ▸ hm)) h

theorem Notified.cons_local {w : WatchEntry} {iters : List WatchEntry} {s s₁ s' : Shared}
    {evs : List (Nat × CString)} {eventPath : CString} (hf : Frame s s₁)
    (hc : s₁.calls = s.calls)
    (hw : s₁.watches = markPending [(w.id, localEventPath w eventPath)] s.watches)
    (he : s₁.pendingWatchEventList = s.pendingWatchEventList)
    (hd : w.domain = none) (hp : w.pendingPath = none)
    (hq : watchEventPath w path recursiveRemove = some eventPath)
    (hfound : (foundEntry s.root eventPath).isSome)
    (h : Notified path recursiveRemove iters s₁ s' evs) :
    Notified path recursiveRemove (w :: iters) s s'
      ((w.id, localEventPath w eventPath) :: evs) := by
  refine ⟨hf.trans h.frame, h.calls.trans hc, ?_, ?_, fun e hm => ?_, fun e hm => ?_⟩
  · rw [h.watches, hw]
    rfl
  · simpa using h.sublist.cons_cons w.id
  · rcases List.mem_cons.mp hm with rfl | hm
    · exact ⟨w, List.mem_cons_self, rfl, hd, hp, ⟨eventPath, hq, hfound⟩, eventPath, hq, rfl⟩
    · obtain ⟨w', hw', hq'⟩ := h.queued e hm
      rw [hf.root] at hq'
      exact ⟨w', List.mem_cons_of_mem _ hw', hq'⟩
  · rcases h.events e hm with hm | ⟨w', hw', hq'⟩
    · exact Or.inl (he ▸ hm)
    · exact Or.inr ⟨w', List.mem_cons_of_mem _ hw', hq'⟩

theorem NotifyFault.cons {w : WatchEntry} {iters : List WatchEntry} {s s₁ : Shared} {e : Fault}
    (hf : s₁.root = s.root) (h : NotifyFault path recursiveRemove iters s₁ e) :
    NotifyFault path recursiveRemove (w :: iters) s e := by
  cases e with
  | emptyPerms => simpa only [NotifyFault, hf] using h
  | assertion =>
    obtain ⟨w', hw', hr⟩ := h
    rw [hf] at hr
    exact ⟨w', List.mem_cons_of_mem _ hw', hr⟩
  | outOfBounds =>
    obtain ⟨w', hw', hr⟩ := h
    exact ⟨w', List.mem_cons_of_mem _ hw', hr⟩
  | nullEntry => exact h
  | nullInput => exact h
  | unmappedRing => exact h
  | unlinkedNode => exact h

theorem wp_queuePendingWatchEvent {watch : WatchEntry} {domid : UInt32} {eventPath : CString}
    {deadline : Deadline} {Q : Option Errno → Shared → Prop} {E : Fault → Prop} {s : Shared}
    (h : ∀ rc s', Frame s s' → s'.calls = s.calls → s'.watches = s.watches →
      (s'.pendingWatchEventList = s.pendingWatchEventList ∨
        s'.pendingWatchEventList = s.pendingWatchEventList ++ [⟨eventPath, watch.id, domid⟩]) →
      Q rc s') :
    wp (queuePendingWatchEvent watch domid eventPath deadline) Q E s := by
  unfold queuePendingWatchEvent
  simp only [wp_bind, wp_alloc]
  refine wp_kMalloc_drawn fun b rest₁ hd₁ => ?_
  have hf₁ : Frame s { s with allocs := rest₁ } :=
    Frame.drawn fun hs => by simpa [hs] using hd₁.suffix
  cases b with
  | false => exact h _ _ hf₁ rfl rfl (Or.inl rfl)
  | true =>
    simp only [Bool.not_true, Bool.false_eq_true, if_false, wp_bind, wp_alloc]
    refine wp_kMalloc_drawn fun b rest₂ hd₂ => ?_
    have hf₂ : Frame s { s with allocs := rest₂ } :=
      Frame.drawn fun hs => by simpa [hs] using hd₂.suffix.trans hd₁.suffix
    cases b with
    | false => exact h _ _ hf₂ rfl rfl (Or.inl rfl)
    | true =>
      simp only [Bool.not_true, Bool.false_eq_true, if_false, wp_bind]
      refine wp_lock fun rc locks _ => ?_
      cases rc with
      | some e => exact h _ _ ⟨rfl, rfl, rfl, hf₂.allocs⟩ rfl rfl (Or.inl rfl)
      | none => exact h _ _ ⟨rfl, rfl, rfl, hf₂.allocs⟩ rfl rfl (Or.inr rfl)

/-- A local event is queued, or its memory could not be had, or the watch still has one. -/
theorem wp_queueLocalWatchEventLocked {localEvents : List Nat} {w : WatchEntry} {text : CString}
    {Q : Option Errno × List Nat → Shared → Prop} {E : Fault → Prop} {s : Shared}
    (hd : w.domain = none)
    (hmem : ∀ rc s', Frame s s' → s'.calls = s.calls → s'.watches = s.watches →
      s'.pendingWatchEventList = s.pendingWatchEventList → Q (rc, localEvents) s')
    (hqueue : ∀ s', Frame s s' → s'.calls = s.calls →
      s'.watches = markPending [(w.id, text)] s.watches →
      s'.pendingWatchEventList = s.pendingWatchEventList → w.pendingPath = none →
      Q (none, localEvents ++ [w.id]) s')
    (hassert : w.pendingPath.isSome → E .assertion) :
    wp (queueLocalWatchEventLocked localEvents w text) Q E s := by
  unfold queueLocalWatchEventLocked
  simp only [hd, Option.isSome_none, Bool.false_eq_true, if_false, wp_bind, wp_alloc]
  refine wp_kMalloc_drawn fun b rest hs => ?_
  have hf : Frame s { s with allocs := rest } := Frame.drawn fun h => by simpa [h] using hs.suffix
  cases b with
  | false => exact hmem _ _ hf rfl rfl rfl
  | true =>
    simp only [Bool.not_true, Bool.false_eq_true, if_false]
    refine wp_ite (fun hp => hassert hp) (fun hp => ?_)
    rw [wp_bind, wp_modify, wp_pure]
    exact hqueue _ ⟨rfl, rfl, rfl, hf.allocs⟩ rfl rfl rfl (by simpa using hp)

/-- The queue loop: nothing but watches and events changes. -/
theorem wp_queueWatchLoop {deadline : Deadline} (iters : List WatchEntry) (localEvents : List Nat)
    (s : Shared) :
    wp (queueWatchLoop path recursiveRemove deadline iters localEvents)
      (fun r s' => ∃ evs, r.2 = localEvents ++ evs.map Prod.fst ∧
        Notified path recursiveRemove iters s s' evs)
      (NotifyFault path recursiveRemove iters s) s := by
  induction iters generalizing localEvents s with
  | nil => exact ⟨[], by simp, Notified.nil s []⟩
  | cons iter rest ih =>
    unfold queueWatchLoop
    cases hq : watchEventPath iter path recursiveRemove with
    | none =>
      refine wp_mono (ih localEvents s) (fun r s' ⟨evs, hr, hn⟩ => ⟨evs, hr, ?_⟩)
        (fun e he => he.cons rfl)
      exact hn.cons_skip (Frame.refl s) rfl rfl rfl
    | some eventPath =>
      simp only [wp_bind, wp_get, wp_alloc]
      refine wp_keyToEntryCheckPerm (fun e rest' hs hfound _ => ?_) (fun rest' hs _ => ?_) id
      · have hfound' : (foundEntry s.root eventPath).isSome := by rw [hfound]; rfl
        have hf : Frame s { s with allocs := rest' } := Frame.drawn fun h => by simpa [h] using hs
        cases hd : iter.domain with
        | none =>
          refine wp_ite (fun hlen => ?_) (fun hlen => ?_)
          · simp only [Bool.and_eq_true, decide_eq_true_eq] at hlen
            exact ⟨iter, List.mem_cons_self, hd, hlen.1, eventPath, hq, hlen.2⟩
          · rw [wp_bind]
            refine wp_queueLocalWatchEventLocked hd (fun rc s₁ hf₁ hc₁ hw₁ he₁ => ?_)
              (fun s₁ hf₁ hc₁ hw₁ he₁ hp => ?_) (fun hp => ?_)
            · refine wp_mono (ih localEvents s₁) (fun r s' ⟨evs, hr, hn⟩ => ⟨evs, hr, ?_⟩)
                (fun e he => he.cons hf₁.root)
              exact hn.cons_skip (hf.trans hf₁) hc₁ hw₁ he₁
            · refine wp_mono (ih (localEvents ++ [iter.id]) s₁)
                (fun r s' ⟨evs, hr, hn⟩ =>
                  ⟨(iter.id, localEventPath iter eventPath) :: evs, ?_, ?_⟩)
                (fun e he => he.cons hf₁.root)
              · rw [hr, List.append_assoc]
                rfl
              · exact hn.cons_local (hf.trans hf₁) hc₁ hw₁ he₁ hd hp hq hfound'
            · exact ⟨iter, List.mem_cons_self, hd, hp, eventPath, hq, hfound'⟩
        | some domid =>
          rw [wp_bind]
          refine wp_queuePendingWatchEvent fun rc s₁ hf₁ hc₁ hw₁ he₁ => ?_
          have hev : ∀ e ∈ s₁.pendingWatchEventList, e ∈ s.pendingWatchEventList ∨
              (e.watch = iter.id ∧ iter.domain = some e.domain ∧
                watchEventPath iter path recursiveRemove = some e.eventPath) := by
            intro e he
            rcases he₁ with h | h
            · exact Or.inl (h ▸ he)
            · rw [h, List.mem_append, List.mem_singleton] at he
              rcases he with he | rfl
              · exact Or.inl he
              · exact Or.inr ⟨rfl, hd, hq⟩
          have hstop : Notified path recursiveRemove (iter :: rest) s s₁ [] :=
            (Notified.nil s₁ rest).cons_guest (hf.trans hf₁) hc₁ hw₁ hev
          cases rc with
          | none =>
            refine wp_mono (ih localEvents s₁) (fun r s' ⟨evs, hr, hn⟩ => ⟨evs, hr, ?_⟩)
              (fun e he => he.cons hf₁.root)
            exact hn.cons_guest (hf.trans hf₁) hc₁ hw₁ hev
          | some rc => cases rc <;> exact ⟨[], by simp, hstop⟩
      · have hf : Frame s { s with allocs := rest' } := Frame.drawn fun h => by simpa [h] using hs
        refine wp_mono (ih localEvents _) (fun r s' ⟨evs, hr, hn⟩ => ⟨evs, hr, ?_⟩)
          (fun e he => he.cons rfl)
        exact hn.cons_skip hf rfl rfl rfl

theorem Notified.relock {iters : List WatchEntry} {s s' : Shared} {locks : List Bool}
    {evs : List (Nat × CString)}
    (h : Notified path recursiveRemove iters { s with locks := locks } s' evs) :
    Notified path recursiveRemove iters s s' evs :=
  ⟨⟨h.frame.root, h.frame.usedThreads, h.frame.domuMax, h.frame.allocs⟩,
    h.calls, h.watches, h.sublist, h.queued, h.events⟩

/-- What queueing the notifications of one change does, the lock included. -/
theorem wp_queueWatchNotificationsXselLocked {deadline : Deadline} (s : Shared) :
    wp (queueWatchNotificationsXselLocked path recursiveRemove deadline)
      (fun r s' => ∃ evs, r.2 = evs.map Prod.fst ∧
        Notified path recursiveRemove (linkedWatches s) s s' evs)
      (NotifyFault path recursiveRemove (linkedWatches s) s) s := by
  unfold queueWatchNotificationsXselLocked
  rw [wp_bind]
  refine wp_lock fun rc locks _ => ?_
  cases rc with
  | some e => exact ⟨[], rfl, (Notified.nil _ _).relock⟩
  | none =>
    rw [wp_bind, wp_get]
    exact wp_conseq (wp_queueWatchLoop (linkedWatches s) [] { s with locks := locks })
      (fun r s' ⟨evs, hr, hn⟩ => ⟨evs, hr, hn.relock⟩)

end Queue

theorem wp_notifyWatchersLocked {path : CString} {deadline : Deadline} (s : Shared) :
    wp (notifyWatchersLocked path deadline)
      (fun r s' => ∃ evs, r.2 = evs.map Prod.fst ∧
        Notified path false (linkedWatches s) s s' evs)
      (NotifyFault path false (linkedWatches s) s) s := by
  unfold notifyWatchersLocked
  rw [wp_bind]
  refine wp_lock fun rc locks _ => ?_
  cases rc with
  | some e => exact ⟨[], rfl, (Notified.nil _ _).relock⟩
  | none =>
    rw [wp_bind]
    refine wp_lock fun rc locks' _ => ?_
    cases rc with
    | some e => exact ⟨[], rfl, (Notified.nil _ _).relock⟩
    | none =>
      exact wp_conseq (wp_queueWatchNotificationsXselLocked { s with locks := locks' })
        (fun r s' ⟨evs, hr, hn⟩ => ⟨evs, hr, hn.relock⟩)

def clearPending (ids : List Nat) (watches : List WatchEntry) : List WatchEntry :=
  ids.foldl (fun ws id => ws.map fun w => if w.id = id then { w with pendingPath := none } else w)
    watches

/-- Dispatching always comes to its end, and touches the pending paths only. -/
theorem wp_dispatchLocalWatchEventsLocked {Q : Unit → Shared → Prop} {E : Fault → Prop}
    (ids : List Nat) (s : Shared)
    (h : ∀ s', Frame s s' → s'.watches = clearPending ids s.watches →
      s'.pendingWatchEventList = s.pendingWatchEventList → Q () s') :
    wp (dispatchLocalWatchEventsLocked ids) Q E s := by
  induction ids generalizing s with
  | nil => exact h s (Frame.refl s) rfl rfl
  | cons id ids ih =>
    unfold dispatchLocalWatchEventsLocked dispatchLocalWatchEvent
    rw [wp_bind, wp_modify]
    refine ih _ fun s' hf hw he =>
      h s' ⟨hf.root, hf.usedThreads, hf.domuMax, hf.allocs⟩ ?_ ?_
    · rw [hw]
      rfl
    · rw [he]
      rfl

/-- A notification with its dispatch leaves the store and the stack slots alone. -/
theorem wp_notifyWatchers {path : CString} {Q : Unit → Shared → Prop} {E : Fault → Prop}
    {s : Shared}
    (h : ∀ s₁ s' evs, Notified path false (linkedWatches s) s s₁ evs → Frame s₁ s' →
      s'.watches = clearPending (evs.map Prod.fst) s₁.watches →
      s'.pendingWatchEventList = s₁.pendingWatchEventList → Q () s')
    (hE : ∀ e, NotifyFault path false (linkedWatches s) s e → E e) :
    wp (notifyWatchers path) Q E s := by
  unfold notifyWatchers notifyWatchersDeadline
  simp only [wp_bind, wp_pure]
  refine wp_mono (wp_notifyWatchersLocked s) (fun r s₁ ⟨evs, hr, hn⟩ => ?_) hE
  rw [hr]
  exact wp_dispatchLocalWatchEventsLocked _ s₁ fun s' hf hw he => h s₁ s' evs hn hf hw he

/-- A path without components writes nothing; otherwise the outcome is one of `WriteOutcome`. -/
def Wrote (path : CString) (data : Option CString) (domid : UInt32) (perms : List XsPermEntry)
    (s : Shared) (rc : Option Errno) (root : XsEntry) : Prop :=
  (tokens path = [] ∧ rc = none ∧ root = s.root) ∨
    WriteOutcome data domid perms s.allocs false (tokens path) s.root rc root

theorem wp_xssDoWriteDeadline {path : CString} {data : Option CString} {domid : UInt32}
    {perms : List XsPermEntry} {deadline : Deadline} {Q : Option Errno → Shared → Prop}
    {E : Fault → Prop} {s : Shared}
    (h : ∀ rc root rest locks, rest <:+ s.allocs → Wrote path data domid perms s rc root →
      Q rc { s with root := root, allocs := rest, locks := locks })
    (hE : ¬ PermsOk s.root → E .emptyPerms) :
    wp (xssDoWriteDeadline path data domid perms deadline) Q E s := by
  unfold xssDoWriteDeadline
  simp only [wp_bind, wp_alloc]
  refine wp_kMalloc_drawn fun b rest₁ hd₁ => ?_
  cases b with
  | false =>
    exact h _ s.root rest₁ s.locks hd₁.suffix (Or.inr (.refused .enomem fun _ => hd₁.fail rfl))
  | true =>
    simp only [Bool.not_true, Bool.false_eq_true, if_false, wp_bind]
    refine wp_lock fun rc locks hrc => ?_
    cases rc with
    | some e =>
      have he : e ≠ .enomem := by
        rintro rfl
        simp at hrc
      exact h _ s.root rest₁ locks hd₁.suffix (Or.inr (.refused e fun h => absurd h he))
    | none =>
      simp only [wp_bind, wp_get, wp_alloc, wp_modify, wp_pure]
      refine wp_mono wp_writeTree (fun r rest₂ ⟨hs₂, hr⟩ => ?_) (fun e he => ?_)
      · refine h r.1 r.2 rest₂ locks (hs₂.trans hd₁.suffix) ?_
        rcases hr with ⟨ht, rfl⟩ | hr
        · exact Or.inl ⟨ht, rfl, rfl⟩
        · exact Or.inr (hr.mono hd₁.suffix)
      · rw [he.1]
        exact hE he.2

/-- What `xss_do_rm_deadline` does up to the dispatch, with the local events it queues. -/
inductive Removed (key : CString) (callerId : UInt32) (s s' : Shared)
    (evs : List (Nat × CString)) : Option Errno → Prop where
  | refused (e : Errno) (hn : Notified key true (linkedWatches s) s s' evs) :
      Removed key callerId s s' evs (some e)
  | freed (s₁ : Shared) (entry : EntryRef) (hn : Notified key true (linkedWatches s) s s₁ evs)
      (hfound : foundEntry s.root key = some entry) (hg : Grants entry.entry.label callerId)
      (hs : freeEntry entry s₁ = .ok ((), s')) : Removed key callerId s s' evs none

theorem freeEntry_below {entry : EntryRef} {s : Shared} (hp : entry.path ≠ []) :
    freeEntry entry s = .ok ((), { s with root := freeNode s.root entry }) := by
  rw [freeEntry, if_neg hp]
  rfl

theorem freeEntry_ok {entry : EntryRef} {s s' : Shared} (h : freeEntry entry s = .ok ((), s')) :
    entry.path ≠ [] ∧ s' = { s with root := freeNode s.root entry } := by
  by_cases hp : entry.path = []
  · rw [freeEntry, if_pos hp] at h
    cases h
  · rw [freeEntry_below hp] at h
    cases h
    exact ⟨hp, rfl⟩

theorem freeEntry_root {entry : EntryRef} {s s' : Shared} (h : freeEntry entry s = .ok ((), s')) :
    s'.root = freeNode s.root entry := by
  rw [(freeEntry_ok h).2]

/-- The caller asks for the removal of "/", and may write the root. -/
def RemovesRoot (root : XsEntry) (key : CString) (callerId : UInt32) : Prop :=
  key = [slash] ∧ Grants root.label callerId

theorem wp_xssDoRmLocked {key : CString} {callerId : UInt32} {deadline : Deadline} (s : Shared) :
    wp (xssDoRmLocked key callerId deadline)
      (fun r s' => ∃ evs, r.2 = evs.map Prod.fst ∧ Removed key callerId s s' evs r.1)
      (fun e => (e = .emptyPerms ∧ ¬ PermsOk s.root) ∨
        NotifyFault key true (linkedWatches s) s e ∨
        (e = .unlinkedNode ∧ RemovesRoot s.root key callerId)) s := by
  unfold xssDoRmLocked
  rw [wp_bind]
  refine wp_lock fun rc locks _ => ?_
  cases rc with
  | some e => exact ⟨[], rfl, .refused e (Notified.nil _ _).relock⟩
  | none =>
    rw [wp_bind]
    refine wp_lock fun rc locks' _ => ?_
    cases rc with
    | some e => exact ⟨[], rfl, .refused e (Notified.nil _ _).relock⟩
    | none =>
      simp only [wp_bind, wp_get, wp_alloc]
      refine wp_keyToEntryCheckPerm (fun entry rest hs hfound hg => ?_) (fun rest hs _ => ?_)
        (fun hp => Or.inl ⟨rfl, hp⟩)
      · have hf : Frame s { s with allocs := rest, locks := locks' } :=
          ⟨rfl, rfl, rfl, fun h => by simpa [h] using hs⟩
        rw [wp_bind]
        refine wp_mono (wp_queueWatchNotificationsXselLocked _) (fun r s₁ ⟨evs, hr, hn⟩ => ?_)
          (fun e he => Or.inr (Or.inl he))
        have hn' : Notified key true (linkedWatches s) s s₁ evs :=
          ⟨hf.trans hn.frame, hn.calls, hn.watches, hn.sublist, hn.queued, hn.events⟩
        obtain ⟨rc, localEvents⟩ := r
        cases rc with
        | some e => exact ⟨evs, hr, .refused e hn'⟩
        | none =>
          by_cases hp : entry.path = []
          · have hroot : RemovesRoot s.root key callerId := by
              obtain rfl := (foundEntry_path_nil hfound).mp hp
              cases hfound
              exact ⟨rfl, hg⟩
            simp only [freeEntry, if_pos hp]
            exact Or.inr (Or.inr ⟨rfl, hroot⟩)
          · have hfree := @freeEntry_below entry s₁ hp
            simp only [wp_bind]
            refine wp_of_ok hfree ?_
            exact ⟨evs, hr, .freed s₁ entry hn' hfound hg hfree⟩
      · have hf : Frame s { s with allocs := rest, locks := locks' } :=
          ⟨rfl, rfl, rfl, fun h => by simpa [h] using hs⟩
        exact ⟨[], rfl, .refused .einval ⟨hf, rfl, rfl, List.nil_sublist _, nofun,
          fun _ he => Or.inl he⟩⟩

/-- A small store: domain 1 owns "/a". -/
def ownedByOne : Shared :=
  { Shared.boot 4 with
    root := ⟨⟨none, [⟨0, .none⟩]⟩, .cons (ascii ['a']) ⟨none, [⟨1, .none⟩]⟩ .nil .nil⟩ }

theorem ownedByOne_wellFormed : WellFormed ownedByOne.root :=
  ⟨by decide, by decide, by decide⟩

end Xenlib
