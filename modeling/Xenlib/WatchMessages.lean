import Xenlib.Answers
import Xenlib.PathGrammar

/-!
The messages of watch events. `fire_watcher` does not learn what becomes of its message: one that
is over the payload limit leaves an error in its place, and one for whose buffer there is no
memory leaves nothing; the event is taken off the list in either case.
-/

set_option autoImplicit false

namespace Xenlib

open Wp

/-- A watch as XS_WATCH registers it for a terminated path and token. The form is that of the
last request for it. -/
structure WatchedBy (domid : UInt32) (w : WatchEntry) : Prop where
  domain : w.domain = some domid
  token : ∃ token, readStr w.token = .ok token
  form : ∃ text, resolvePath text domid = .ok w.key ∧
    w.isRelative = decide (text.head? ≠ some slash)

/-- The path of an event for the watch: that of a change below its key, or the key. -/
def PathFor (w : WatchEntry) (path : CString) : Prop :=
  path = w.key ∨ xenstorePathContains w.key path = true

def shownPath (w : WatchEntry) (domid : UInt32) (path : CString) : CString :=
  if w.isRelative then path.drop (localDomainPath domid).length else path

/-- A request in either form registers a watch of this kind, or changes the form of one. -/
theorem wp_findOrAddWatch_watchedBy {x : Xenstore} {text path : CString} {token : Bytes}
    {s : Shared} (hids : ∀ v ∈ s.watches, ∀ w ∈ s.watches, v.id = w.id → v = w)
    (hs : ∀ w ∈ s.watches, w.domain = some x.domid → WatchedBy x.domid w)
    (hpath : resolvePath text x.domid = .ok path) (htoken : ∃ t, readStr token = .ok t) :
    wp (findOrAddWatch x path token (decide (text.head? ≠ some slash)))
      (fun _ s' => ∀ w ∈ s'.watches, w.domain = some x.domid → WatchedBy x.domid w)
      (fun _ => False) s := by
  have hlinked : ∀ w ∈ linkedWatches s, w ∈ s.watches := fun w hw => List.mem_of_mem_filter hw
  obtain ⟨found, hfound, hown⟩ := @keyToWatcher_own path token x.domid (linkedWatches s)
    (fun _ _ _ _ => htoken) fun w hw hd => (hs w (hlinked w hw) hd).token
  unfold findOrAddWatch
  simp only [wp_bind, wp_get, hfound, wp_lift_ok]
  cases found with
  | some entry =>
    obtain ⟨hmem, -, hkey⟩ := hown entry rfl
    simp only [wp_bind, wp_modify, wp_pure]
    intro w hw hd
    obtain ⟨v, hv, rfl⟩ := List.mem_map.mp hw
    by_cases hid : v.id = entry.id
    · obtain rfl := hids v hv entry (hlinked entry hmem) hid
      rw [if_pos rfl] at hd ⊢
      exact ⟨hd, (hs v hv hd).token, text, by rw [hpath, ← hkey], rfl⟩
    · rw [if_neg hid] at hd ⊢
      exact hs v hv hd
  | none =>
    have hnew : ∀ s' : Shared, s'.watches = s.watches → ∀ w ∈ s'.watches,
        w.domain = some x.domid → WatchedBy x.domid w := fun s' h w hw hd => hs w (h ▸ hw) hd
    simp only [wp_bind, wp_alloc]
    refine wp_kMalloc_drawn fun b rest _ => ?_
    cases b with
    | false => exact hnew _ rfl
    | true =>
      simp only [Bool.not_true, Bool.false_eq_true, if_false, wp_bind, wp_alloc]
      refine wp_kMalloc_drawn fun b rest _ => ?_
      cases b with
      | false => exact hnew _ rfl
      | true =>
        simp only [Bool.not_true, Bool.false_eq_true, if_false, wp_bind, wp_alloc]
        refine wp_kMalloc_drawn fun b rest _ => ?_
        cases b with
        | false => exact hnew _ rfl
        | true =>
          intro w hw hd
          rcases List.mem_append.mp hw with hw | hw
          · exact hs w hw hd
          · cases List.mem_singleton.mp hw
            exact ⟨rfl, htoken, text, hpath, rfl⟩

section Shown
variable {domid : UInt32} {w : WatchEntry} {path : CString}

theorem PathFor.below (hkey : localDomainPath domid <+: w.key) (hp : PathFor w path) :
    localDomainPath domid <+: path := by
  have hlong : 2 ≤ (localDomainPath domid).length := by
    rw [localDomainPath, List.length_append, List.length_append]
    simp [ascii]
    omega
  have hroot : w.key ≠ [slash] := by
    intro hr
    have hlen := hkey.length_le
    rw [hr, List.length_singleton] at hlen
    omega
  rcases hp with rfl | hp
  · exact hkey
  · exact hkey.trans (prefix_of_xenstorePathContains hp hroot)

theorem WatchedBy.relative (hd : domid.toNat ≤ 32767) (h : WatchedBy domid w)
    (hp : PathFor w path) (hrel : w.isRelative = true) : localDomainPath domid <+: path := by
  obtain ⟨text, hres, hform⟩ := h.form
  rw [hrel] at hform
  have habs : text.head? ≠ some slash := by simpa using hform
  have hkey := resolvePath_below hd habs hres
  exact PathFor.below (hkey ▸ List.prefix_append _ _) hp

theorem payload_relative {token reported : CString} (hrel : w.isRelative = true)
    (ht : readStr w.token = .ok token) :
    watchEventPayload w (localDomainPath domid ++ reported) domid =
      .ok (strBytes reported ++ strBytes token) := by
  have hlen : ¬ (strBytes (localDomainPath domid ++ reported)).length <
      (localDomainPath domid).length := by
    rw [strBytes_length, List.length_append]
    omega
  unfold watchEventPayload
  rw [ht, hrel]
  simp only [if_true, if_neg hlen]
  congr 2
  simp [strBytes]

theorem WatchedBy.payload (hd : domid.toNat ≤ 32767) (h : WatchedBy domid w) (hp : PathFor w path)
    {token : CString} (ht : readStr w.token = .ok token) :
    watchEventPayload w path domid =
      .ok (strBytes (shownPath w domid path) ++ strBytes token) := by
  cases hrel : w.isRelative with
  | false =>
    unfold watchEventPayload shownPath
    rw [ht, hrel]
    rfl
  | true =>
    obtain ⟨rest, rfl⟩ := h.relative hd hp hrel
    rw [payload_relative hrel ht, shownPath, hrel, if_pos rfl, List.drop_left]

end Shown

theorem wp_queueReply_cases {x : Xenstore} {id : UInt32} {type : XsdSockmsgType} {data : Bytes}
    {Q : Xenstore → Shared → Prop} {E : Fault → Prop} {s : Shared}
    (hsent : Supplied 2 s.allocs → ∀ txId,
      Q (x.push ⟨type, id, txId, data⟩) { s with allocs := s.allocs.drop 2 })
    (hlost : ¬ Supplied 2 s.allocs → ∀ rest, Q x { s with allocs := rest }) :
    wp (queueReply x id type data) Q E s := by
  have hiff : Supplied 2 s.allocs ↔
      s.allocs.getD 0 true = true ∧ (s.allocs.drop 1).getD 0 true = true := by
    rw [show 2 = 1 + 1 from rfl, supplied_add, supplied_one, supplied_one]
  rw [hiff] at hsent hlost
  unfold queueReply
  simp only [wp_bind, wp_alloc, wp_kMalloc]
  cases h₁ : s.allocs.getD 0 true with
  | false => exact hlost (fun h => by rw [h.1] at h₁; cases h₁) _
  | true =>
    simp only [Bool.not_true, Bool.false_eq_true, if_false, wp_bind, wp_alloc, wp_kMalloc]
    cases h₂ : (s.allocs.drop 1).getD 0 true with
    | false => exact hlost (fun h => by rw [h.2] at h₂; cases h₂) _
    | true =>
      simp only [Bool.not_true, Bool.false_eq_true, if_false, wp_pure, List.drop_drop]
      exact hsent ⟨h₁, h₂⟩ _

/-- `fire_watcher` for a watch that is registered: the event stays, or its message is queued, or
an error is, or nothing is. -/
theorem wp_fireWatcher_cases {x : Xenstore} {e : PendingWatchEvent} {w : WatchEntry} {data : Bytes}
    {Q : Xenstore × Option Errno → Shared → Prop} {E : Fault → Prop} {s : Shared}
    (hdir : (localDomainPath x.domid).length < xenstoreMaxLocalpathLen)
    (hw : s.watches.find? (fun w => w.id = e.watch) = some w) (hl : w.linked = true)
    (hdata : watchEventPayload w e.eventPath x.domid = .ok data)
    (hkept : x.usedOutBufs > xenstoreMaxOutBufNum - 1 ∨ s.allocs.getD 0 true = false →
      ∀ rest, Q (x, some .enomem) { s with allocs := rest })
    (hsent : ¬ (x.usedOutBufs > xenstoreMaxOutBufNum - 1 ∨ s.allocs.getD 0 true = false) →
      data.length ≤ xenstorePayloadMax → Supplied 2 (s.allocs.drop 1) → ∀ txId,
      Q (x.push ⟨.watchEvent, 0, txId, data⟩, none) { s with allocs := s.allocs.drop 3 })
    (hbad : ¬ (x.usedOutBufs > xenstoreMaxOutBufNum - 1 ∨ s.allocs.getD 0 true = false) →
      ¬ (data.length ≤ xenstorePayloadMax ∧ Supplied 2 (s.allocs.drop 1)) →
      ∀ x' rest, (x' = x ∨ ∃ m, m.type = .error ∧ x' = x.push m) →
      Q (x', none) { s with allocs := rest }) :
    wp (fireWatcher x e) Q E s := by
  unfold fireWatcher
  simp only [wp_bind, wp_get, hw, hl, Bool.not_true, Bool.false_eq_true, if_false]
  rw [if_neg (Nat.not_le.mpr hdir)]
  refine wp_ite (fun hfull => hkept (Or.inl hfull) s.allocs) (fun hroom => ?_)
  simp only [wp_bind, hdata, wp_lift_ok, wp_alloc, wp_kMalloc]
  cases hfirst : s.allocs.getD 0 true with
  | false => exact hkept (Or.inr hfirst) _
  | true =>
    have hgo : ¬ (x.usedOutBufs > xenstoreMaxOutBufNum - 1 ∨ s.allocs.getD 0 true = false) := by
      rw [hfirst]
      simpa using hroom
    simp only [Bool.not_true, Bool.false_eq_true, if_false, wp_bind, wp_pure]
    unfold sendReplySz sendReplyOr
    rw [if_neg (by omega)]
    refine wp_ite (fun hbig => ?_) (fun hfits => ?_)
    · refine wp_sendErrno (by omega) (fun txId rest _ => ?_) (fun rest _ _ => ?_)
      · exact hbad hgo (fun h => by omega) _ rest (Or.inr ⟨_, rfl, rfl⟩)
      · exact hbad hgo (fun h => by omega) _ rest (Or.inl rfl)
    · refine wp_queueReply_cases (fun hmem txId => ?_) (fun hmem rest => ?_)
      · have hq := hsent hgo (by omega) hmem txId
        simpa only [List.drop_drop] using hq
      · exact hbad hgo (fun h => hmem h.2) x rest (Or.inl rfl)

section Pass
variable (watches : List WatchEntry) (domid : UInt32)

def eventLinked (e : PendingWatchEvent) : Bool :=
  (watches.find? fun w => w.id = e.watch).any fun w => w.linked

/-- The events of the domain that are in `events` and not in what a pass has kept of them. A pass
takes the events of the domain in order, and stops for good. -/
def takenEvents (events kept : List PendingWatchEvent) : List PendingWatchEvent :=
  (events.filter fun e => e.domain = domid).take (events.length - kept.length)

/-- Those of the events that are for registered watches. -/
def removedEvents (events kept : List PendingWatchEvent) : List PendingWatchEvent :=
  (takenEvents domid events kept).filter (eventLinked watches)

/-- The message is the one for the event: the path in the form of the watch, and the token. -/
def IsEvent (m : Message) (e : PendingWatchEvent) : Prop :=
  ∃ w token, watches.find? (fun w => w.id = e.watch) = some w ∧ readStr w.token = .ok token ∧
    m.type = .watchEvent ∧ m.payload = strBytes (shownPath w domid e.eventPath) ++ strBytes token

def eventSize (w : WatchEntry) (path : CString) : Nat :=
  (shownPath w domid path).length + 1 + (((readStr w.token).toOption.getD []).length + 1)

/-- The events that the pass comes to and fires have payloads within the limit and get the two
allocations for their message. The pass ends at an event for which there is no room in the
output or no memory for the payload. -/
def PassFits : List PendingWatchEvent → Int → List Bool → Prop
  | [], _, _ => True
  | e :: rest, used, allocs =>
    if e.domain ≠ domid then PassFits rest used allocs
    else match watches.find? fun w => w.id = e.watch with
      | none => PassFits rest used allocs
      | some w =>
        if w.linked = false then PassFits rest used allocs
        else if used > xenstoreMaxOutBufNum - 1 ∨ allocs.getD 0 true = false then True
        else (eventSize domid w e.eventPath ≤ xenstorePayloadMax ∧ Supplied 2 (allocs.drop 1)) ∧
          PassFits rest (used + 1) (allocs.drop 3)

/-- The pending events are for watches of XS_WATCH, with paths that were queued for them. -/
def EventsFor (events : List PendingWatchEvent) : Prop :=
  ∀ e ∈ events, e.domain = domid → ∀ w, watches.find? (fun w => w.id = e.watch) = some w →
    w.linked = true → WatchedBy domid w ∧ PathFor w e.eventPath

variable {watches domid} {e : PendingWatchEvent} {events rest kept : List PendingWatchEvent}

theorem takenEvents_other (h : e.domain ≠ domid) :
    takenEvents domid (e :: rest) (e :: kept) = takenEvents domid rest kept := by
  simp [takenEvents, h]

theorem takenEvents_own (h : e.domain = domid) (hlen : kept.length ≤ rest.length) :
    takenEvents domid (e :: rest) kept = e :: takenEvents domid rest kept := by
  have hsub : (e :: rest).length - kept.length = (rest.length - kept.length) + 1 := by
    rw [List.length_cons]
    omega
  unfold takenEvents
  rw [hsub, List.filter_cons_of_pos (by simp [h]), List.take_succ_cons]

@[simp] theorem takenEvents_self (events : List PendingWatchEvent) :
    takenEvents domid events events = [] := by
  simp [takenEvents]

theorem removedEvents_other (h : e.domain ≠ domid) :
    removedEvents watches domid (e :: rest) (e :: kept) =
      removedEvents watches domid rest kept := by
  unfold removedEvents
  rw [takenEvents_other h]

theorem removedEvents_own (h : e.domain = domid) (hlen : kept.length ≤ rest.length) :
    removedEvents watches domid (e :: rest) kept =
      if eventLinked watches e then e :: removedEvents watches domid rest kept
      else removedEvents watches domid rest kept := by
  unfold removedEvents
  rw [takenEvents_own h hlen, List.filter_cons]

@[simp] theorem removedEvents_self (events : List PendingWatchEvent) :
    removedEvents watches domid events events = [] := by
  simp [removedEvents]

/-- What is taken and what is kept of the events. -/
structure TakenFrom (domid : UInt32) (events kept : List PendingWatchEvent) : Prop where
  short : kept.length ≤ events.length
  own : takenEvents domid events kept ++ kept.filter (fun e => e.domain = domid) =
    events.filter fun e => e.domain = domid
  others : kept.filter (fun e => ¬ e.domain = domid) = events.filter fun e => ¬ e.domain = domid

theorem TakenFrom.refl (events : List PendingWatchEvent) : TakenFrom domid events events :=
  ⟨Nat.le_refl _, by simp, rfl⟩

theorem TakenFrom.other (hd : e.domain ≠ domid) (h : TakenFrom domid rest kept) :
    TakenFrom domid (e :: rest) (e :: kept) := by
  refine ⟨Nat.succ_le_succ h.short, ?_, ?_⟩
  · rw [takenEvents_other hd, List.filter_cons_of_neg (by simpa using hd),
      List.filter_cons_of_neg (by simpa using hd), h.own]
  · rw [List.filter_cons_of_pos (by simpa using hd), List.filter_cons_of_pos (by simpa using hd),
      h.others]

theorem TakenFrom.taken (hd : e.domain = domid) (h : TakenFrom domid rest kept) :
    TakenFrom domid (e :: rest) kept := by
  refine ⟨Nat.le_succ_of_le h.short, ?_, ?_⟩
  · rw [takenEvents_own hd h.short, List.filter_cons_of_pos (by simpa using hd), List.cons_append,
      h.own]
  · rw [List.filter_cons_of_neg (by simpa using hd), h.others]

/-- No event is lost and none comes twice. -/
theorem TakenFrom.perm (h : TakenFrom domid events kept) :
    (takenEvents domid events kept ++ kept).Perm events := by
  have hkept := List.filter_append_perm (fun e => decide (e.domain = domid)) kept
  have hall := List.filter_append_perm (fun e => decide (e.domain = domid)) events
  have hothers := h.others
  simp only [decide_not] at hothers
  rw [hothers] at hkept
  refine (hkept.symm.append_left _).trans ?_
  rw [← List.append_assoc, h.own]
  exact hall

/-- What a pass queues and keeps. -/
structure Passed (s : Shared) (events : List PendingWatchEvent) (x x' : Xenstore)
    (kept : List PendingWatchEvent) : Prop where
  taken : TakenFrom x.domid events kept
  sent : ∃ new, x'.queued = x.queued ++ new ∧
    new.length ≤ (removedEvents s.watches x.domid events kept).length ∧
    (List.Forall₂ (IsEvent s.watches x.domid) new (removedEvents s.watches x.domid events kept) ↔
      PassFits s.watches x.domid events x.usedOutBufs s.allocs)

section Steps
variable {s s₁ : Shared} {x x₁ x' : Xenstore} {w : WatchEntry}

theorem Passed.other (hd : e.domain ≠ x.domid) (h : Passed s rest x x' kept) :
    Passed s (e :: rest) x x' (e :: kept) := by
  obtain ⟨htaken, new, hq, hlen, hiff⟩ := h
  refine ⟨htaken.other hd, new, hq, ?_, ?_⟩
  · rwa [removedEvents_other hd]
  · rw [removedEvents_other hd, hiff, PassFits, if_pos hd]

theorem Passed.dropped (hd : e.domain = x.domid) (hl : eventLinked s.watches e = false)
    (h : Passed s rest x x' kept) : Passed s (e :: rest) x x' kept := by
  obtain ⟨htaken, new, hq, hlen, hiff⟩ := h
  refine ⟨htaken.taken hd, new, hq, ?_, ?_⟩
  · rwa [removedEvents_own hd htaken.short, hl]
  · rw [removedEvents_own hd htaken.short, hl, if_neg Bool.false_ne_true, hiff]
    unfold eventLinked at hl
    rw [PassFits, if_neg (not_not.mpr hd)]
    cases hw : s.watches.find? fun w => w.id = e.watch with
    | none => simp
    | some w =>
      rw [hw, Option.any_some] at hl
      simp [hl]

theorem Passed.stopped (hd : e.domain = x.domid)
    (hw : s.watches.find? (fun w => w.id = e.watch) = some w) (hl : w.linked = true)
    (hstop : x.usedOutBufs > xenstoreMaxOutBufNum - 1 ∨ s.allocs.getD 0 true = false) :
    Passed s (e :: rest) x x (e :: rest) := by
  refine ⟨.refl _, [], by simp, by simp, ?_⟩
  rw [removedEvents_self, PassFits, if_neg (not_not.mpr hd), hw]
  simp only [hl, Bool.true_eq_false, if_false, if_pos hstop, List.forall₂_nil_left_iff]

theorem Passed.fired (hd : e.domain = x.domid)
    (hw : s.watches.find? (fun w => w.id = e.watch) = some w) (hl : w.linked = true)
    (hgo : ¬ (x.usedOutBufs > xenstoreMaxOutBufNum - 1 ∨ s.allocs.getD 0 true = false))
    (hfits : eventSize x.domid w e.eventPath ≤ xenstorePayloadMax)
    (hmem : Supplied 2 (s.allocs.drop 1)) {m : Message} (hm : IsEvent s.watches x.domid m e)
    (h : Passed { s with allocs := s.allocs.drop 3 } rest (x.push m) x' kept) :
    Passed s (e :: rest) x x' kept := by
  obtain ⟨htaken, new, hq, hlen, hiff⟩ := h
  have hlinked : eventLinked s.watches e = true := by simp [eventLinked, hw, hl]
  refine ⟨htaken.taken hd, m :: new, ?_, ?_, ?_⟩
  · rw [hq]
    simp [Xenstore.push]
  · rw [removedEvents_own hd htaken.short, if_pos hlinked, List.length_cons, List.length_cons]
    exact Nat.succ_le_succ hlen
  · rw [removedEvents_own hd htaken.short, if_pos hlinked, List.forall₂_cons, PassFits,
      if_neg (not_not.mpr hd), hw]
    simp only [hl, Bool.true_eq_false, if_false, if_neg hgo, hfits, hmem, and_self, true_and, hm]
    exact hiff

theorem Passed.failed (hd : e.domain = x.domid)
    (hw : s.watches.find? (fun w => w.id = e.watch) = some w) (hl : w.linked = true)
    (hgo : ¬ (x.usedOutBufs > xenstoreMaxOutBufNum - 1 ∨ s.allocs.getD 0 true = false))
    (hbad : ¬ (eventSize x.domid w e.eventPath ≤ xenstorePayloadMax ∧
      Supplied 2 (s.allocs.drop 1)))
    (hx : x₁ = x ∨ ∃ m, m.type = .error ∧ x₁ = x.push m) {allocs : List Bool}
    (h : Passed { s with allocs := allocs } rest x₁ x' kept) :
    Passed s (e :: rest) x x' kept := by
  obtain ⟨htaken, new, hq, hlen, -⟩ := h
  have hlinked : eventLinked s.watches e = true := by simp [eventLinked, hw, hl]
  have hnot : ¬ PassFits s.watches x.domid (e :: rest) x.usedOutBufs s.allocs := by
    rw [PassFits, if_neg (not_not.mpr hd), hw]
    simp only [hl, Bool.true_eq_false, if_false, if_neg hgo]
    exact fun h => hbad h.1
  have hdomid : x₁.domid = x.domid := by
    rcases hx with rfl | ⟨m, -, rfl⟩ <;> rfl
  rw [hdomid] at htaken
  refine ⟨htaken.taken hd, ?_⟩
  rw [removedEvents_own hd htaken.short, if_pos hlinked]
  rcases hx with rfl | ⟨m, hm, rfl⟩
  · -- no message: there are fewer of them than events
    refine ⟨new, hq, by rw [List.length_cons]; exact Nat.le_succ_of_le hlen, ?_⟩
    refine iff_of_false (fun hall => ?_) hnot
    have heq := hall.length_eq
    rw [List.length_cons] at heq
    have hlen' : new.length ≤ (removedEvents s.watches x₁.domid rest kept).length := hlen
    omega
  · refine ⟨m :: new, by rw [hq]; simp [Xenstore.push], ?_, ?_⟩
    · rw [List.length_cons, List.length_cons]
      exact Nat.succ_le_succ hlen
    · refine iff_of_false (fun hall => ?_) hnot
      rw [List.forall₂_cons] at hall
      obtain ⟨w', token, -, -, htype, -⟩ := hall.1
      rw [hm] at htype
      cases htype

end Steps
end Pass

theorem wp_pendingWatchLoop_passed {s₀ : Shared} (events : List PendingWatchEvent) (x : Xenstore)
    (s : Shared) (hd : x.domid.toNat ≤ 32767) (hw : s.watches = s₀.watches)
    (hev : EventsFor s₀.watches x.domid events) :
    wp (pendingWatchLoop events x)
      (fun r s' => Passed s events x r.1 r.2 ∧ s'.watches = s₀.watches) (fun _ => False) s := by
  induction events generalizing x s with
  | nil => exact ⟨⟨.refl _, [], by simp, by simp, by simp [PassFits]⟩, hw⟩
  | cons e rest ih =>
    have hrest : EventsFor s₀.watches x.domid rest :=
      fun e' he' => hev e' (List.mem_cons_of_mem _ he')
    unfold pendingWatchLoop
    refine wp_ite (fun hother => ?_) (fun hown => ?_)
    · rw [wp_bind]
      refine wp_conseq (ih x s hd hw hrest) fun r s' h => ?_
      exact ⟨h.1.other hother, h.2⟩
    have hown : e.domain = x.domid := not_not.mp hown
    rw [wp_bind]
    cases hfind : s.watches.find? fun w => w.id = e.watch with
    | none =>
      have hl : eventLinked s.watches e = false := by simp [eventLinked, hfind]
      unfold fireWatcher
      simp only [wp_bind, wp_get, hfind, wp_pure]
      exact wp_conseq (ih x s hd hw hrest) fun r s' h => ⟨h.1.dropped hown hl, h.2⟩
    | some w =>
      cases hlink : w.linked with
      | false =>
        have hl : eventLinked s.watches e = false := by simp [eventLinked, hfind, hlink]
        unfold fireWatcher
        simp only [wp_bind, wp_get, hfind, hlink, Bool.not_false, if_true, wp_pure]
        exact wp_conseq (ih x s hd hw hrest) fun r s' h => ⟨h.1.dropped hown hl, h.2⟩
      | true =>
        obtain ⟨hby, hpath⟩ := hev e List.mem_cons_self hown w (by rw [← hw]; exact hfind) hlink
        obtain ⟨token, htoken⟩ := hby.token
        have hdata := hby.payload hd hpath htoken
        have hsize : (strBytes (shownPath w x.domid e.eventPath) ++ strBytes token).length =
            eventSize x.domid w e.eventPath := by
          rw [eventSize, htoken, List.length_append, strBytes_length, strBytes_length]
          rfl
        have hdir : (localDomainPath x.domid).length < xenstoreMaxLocalpathLen :=
          Nat.lt_of_le_of_lt (localDomainPath_length hd) (by decide)
        refine wp_fireWatcher_cases hdir hfind hlink hdata (fun hstop rest' => ?_)
          (fun hgo hfits hmem txId => ?_) (fun hgo hbad x₁ rest' hx => ?_)
        · exact ⟨Passed.stopped hown hfind hlink hstop, hw⟩
        · rw [hsize] at hfits
          refine wp_conseq (ih _ _ hd hw hrest) fun r s' h => ⟨?_, h.2⟩
          exact h.1.fired hown hfind hlink hgo hfits hmem ⟨w, token, hfind, htoken, rfl, rfl⟩
        · rw [hsize] at hbad
          have hdom : x₁.domid = x.domid := by
            rcases hx with rfl | ⟨m, -, rfl⟩ <;> rfl
          refine wp_conseq (ih x₁ _ (hdom ▸ hd) hw (hdom ▸ hrest)) fun r s' h => ⟨?_, h.2⟩
          exact h.1.failed hown hfind hlink hgo hbad hx

/-- The pass ends, and the messages it has queued are those of the events it has taken off the
list for registered watches, one for one. -/
def WellFired (x : Xenstore) (s : Shared) : Prop :=
  ∃ x' s' new, processPendingWatchEvents x s = .ok (x', s') ∧ x'.queued = x.queued ++ new ∧
    List.Forall₂ (IsEvent s.watches x.domid) new
      (removedEvents s.watches x.domid s.pendingWatchEventList s'.pendingWatchEventList)

theorem processPending_passed (x : Xenstore) (s : Shared) (hd : x.domid.toNat ≤ 32767)
    (hev : EventsFor s.watches x.domid s.pendingWatchEventList) :
    ∃ x' s', processPendingWatchEvents x s = .ok (x', s') ∧
      Passed s s.pendingWatchEventList x x' s'.pendingWatchEventList := by
  refine wp_total ?_
  unfold processPendingWatchEvents
  simp only [wp_bind, wp_get, wp_modify, wp_pure]
  exact wp_conseq (wp_pendingWatchLoop_passed s.pendingWatchEventList x s hd rfl hev)
    fun r s' h => h.1

/-- What a pass takes off the list and what it leaves there are the events of the list. It takes
the first ones of its domain, and leaves those of the other domains as they are. -/
theorem processPending_taken (x : Xenstore) (s : Shared) (hd : x.domid.toNat ≤ 32767)
    (hev : EventsFor s.watches x.domid s.pendingWatchEventList) :
    ∃ x' s', processPendingWatchEvents x s = .ok (x', s') ∧
      TakenFrom x.domid s.pendingWatchEventList s'.pendingWatchEventList ∧
      (takenEvents x.domid s.pendingWatchEventList s'.pendingWatchEventList ++
        s'.pendingWatchEventList).Perm s.pendingWatchEventList := by
  obtain ⟨x', s', hrun, hpassed⟩ := processPending_passed x s hd hev
  exact ⟨x', s', hrun, hpassed.taken, hpassed.taken.perm⟩

theorem WellFired.passFits {x : Xenstore} {s : Shared} (hd : x.domid.toNat ≤ 32767)
    (hev : EventsFor s.watches x.domid s.pendingWatchEventList) (h : WellFired x s) :
    PassFits s.watches x.domid s.pendingWatchEventList x.usedOutBufs s.allocs := by
  obtain ⟨x', s', new, hrun, hq, hall⟩ := h
  obtain ⟨x'', s'', hrun', -, new', hq', -, hiff⟩ := processPending_passed x s hd hev
  cases hrun.symm.trans hrun'
  rw [hq] at hq'
  cases List.append_cancel_left hq'
  exact hiff.mp hall

/-- A pass queues one watch event for each event it removes exactly when the payloads of these
are within the limit and their messages get their memory. -/
theorem wellFired_iff (x : Xenstore) (s : Shared) (hd : x.domid.toNat ≤ 32767)
    (hev : EventsFor s.watches x.domid s.pendingWatchEventList) :
    WellFired x s ↔
      PassFits s.watches x.domid s.pendingWatchEventList x.usedOutBufs s.allocs := by
  constructor
  · exact WellFired.passFits hd hev
  · intro hfits
    obtain ⟨x', s', hrun, -, new, hq, -, hiff⟩ := processPending_passed x s hd hev
    exact ⟨x', s', new, hrun, hq, hiff.mpr hfits⟩

/-- Domain 1 watches "/a" with the token, and "/a/bbbbbb" was written. -/
def eventWaiting (token : CString) : Shared :=
  { ownedByOne with
    watches := [⟨0, ascii ['/', 'a'], strBytes token, some 1, false, true, none⟩]
    pendingWatchEventList :=
      [⟨ascii ['/', 'a', '/', 'b', 'b', 'b', 'b', 'b', 'b'], 0, 1⟩] }

theorem eventWaiting_events (token : CString) : EventsFor (eventWaiting token).watches
    (idleClient 1).domid (eventWaiting token).pendingWatchEventList := by
  have hkey : resolvePath (ascii ['/', 'a']) 1 = .ok (ascii ['/', 'a']) := by decide
  have hbelow : xenstorePathContains (ascii ['/', 'a'])
      (ascii ['/', 'a', '/', 'b', 'b', 'b', 'b', 'b', 'b']) = true := by decide
  intro e he _ w hw _
  cases List.mem_singleton.mp he
  cases hw
  exact ⟨⟨rfl, ⟨token, readStr_terminated token⟩, ascii ['/', 'a'], hkey, rfl⟩, Or.inr hbelow⟩

/-- The event takes ten bytes besides the token and its NUL. -/
theorem eventWaiting_fits (token : CString) :
    PassFits (eventWaiting token).watches (idleClient 1).domid
      (eventWaiting token).pendingWatchEventList (idleClient 1).usedOutBufs
      (eventWaiting token).allocs ↔ token.length ≤ 4085 := by
  have hsize : eventSize 1 ⟨0, ascii ['/', 'a'], strBytes token, some 1, false, true, none⟩
      (ascii ['/', 'a', '/', 'b', 'b', 'b', 'b', 'b', 'b']) = 10 + (token.length + 1) := by
    rw [eventSize, readStr_terminated]
    rfl
  have hgo : ¬ ((0 : Int) > xenstoreMaxOutBufNum - 1 ∨ ([] : List Bool).getD 0 true = false) := by
    decide
  have hfits : PassFits (eventWaiting token).watches 1 (eventWaiting token).pendingWatchEventList 0
      [] ↔ (10 + (token.length + 1) ≤ xenstorePayloadMax ∧ Supplied 2 []) ∧ True := by
    rw [← hsize]
    simp only [eventWaiting, PassFits, ne_eq, not_true, if_false, List.find?_cons, decide_true,
      Bool.true_eq_false, if_neg hgo, List.drop_nil]
  have hmem : Supplied 2 ([] : List Bool) := supplied_of_notMem (by simp)
  refine hfits.trans ?_
  simp only [hmem, and_true, xenstorePayloadMax]
  omega

/-- A token of 4086 bytes was accepted by XS_WATCH; with the path of this event it is over the
limit, and the client is sent an error. -/
theorem long_token_not_fired :
    ¬ ∀ (x : Xenstore) (s : Shared), x.domid.toNat ≤ 32767 →
      EventsFor s.watches x.domid s.pendingWatchEventList → WellFired x s := by
  intro h
  have hfired := h (idleClient 1) (eventWaiting (List.replicate 4086 slash)) (by decide)
    (eventWaiting_events _)
  have hfits := (eventWaiting_fits _).mp (hfired.passFits (by decide) (eventWaiting_events _))
  rw [List.length_replicate] at hfits
  omega

theorem short_token_fired : WellFired (idleClient 1) (eventWaiting (ascii ['t'])) :=
  (wellFired_iff (idleClient 1) (eventWaiting (ascii ['t'])) (by decide)
    (eventWaiting_events _)).mpr ((eventWaiting_fits _).mpr (by decide))

end Xenlib
