import Xenlib.WatchRegistration
import Xenlib.WatchMessages

/-!
The forms of watches. A watch that was asked for by a relative path is told what comes after the
directory of its domain, by cutting off as many characters as that directory has. Its key and the
paths of its events begin with the directory, whatever other requests for the same path have made
of its form in between.
-/

set_option autoImplicit false

namespace Xenlib

open Wp Machine

def WatchEntry.Rooted (w : WatchEntry) : Prop :=
  w.isRelative = true → localDomainPath (w.domain.getD 0) <+: w.key

theorem pathFor_watchEventPath {w : WatchEntry} {path eventPath : CString} {recursiveRemove : Bool}
    (h : watchEventPath w path recursiveRemove = some eventPath) : PathFor w eventPath := by
  unfold watchEventPath at h
  split at h
  · rename_i hc
    cases h
    exact Or.inr hc
  · split at h
    · cases h
      exact Or.inl rfl
    · cases h

namespace WatchRegistry

def KeyedAs (r : WatchRegistry) (id : Nat) (key : CString) : Prop :=
  ∃ w ∈ r.shared.watches, w.id = id ∧ w.key = key

def Rooted (r : WatchRegistry) : Prop := ∀ w ∈ r.shared.watches, w.Rooted

def EventFor (r : WatchRegistry) (e : PendingWatchEvent) : Prop :=
  ∃ w ∈ r.shared.watches, w.id = e.watch ∧ w.domain = some e.domain ∧ PathFor w e.eventPath

def Reported (r : WatchRegistry) : Prop :=
  ∀ e ∈ r.shared.pendingWatchEventList, r.EventFor e

end WatchRegistry

section Changes
variable {r r' : WatchRegistry} {c : Change} {w : WatchEntry}

theorem WatchRegistry.Same.survives (h : r.Same r') (hw : w ∈ r.shared.watches) :
    ∃ w' ∈ r'.shared.watches, w'.id = w.id ∧ w'.domain = w.domain ∧ w'.key = w.key := by
  have hmem : w.bare ∈ r'.shared.watches.map WatchEntry.bare := by
    rw [h.watches]
    exact List.mem_map_of_mem hw
  obtain ⟨w', hw', hbare⟩ := List.mem_map.mp hmem
  simp only [WatchEntry.bare, WatchEntry.mk.injEq] at hbare
  exact ⟨w', hw', hbare.1, hbare.2.2.2.1, hbare.2.1⟩

theorem Makes.survives (h : Makes c r r') (hw : w ∈ r.shared.watches) :
    ∃ w' ∈ r'.shared.watches, w'.id = w.id ∧ w'.domain = w.domain ∧ w'.key = w.key := by
  cases h with
  | quiet h => exact h.same.survives hw
  | reform _ => exact (WatchRegistry.same_reformed _ _ _).survives hw
  | insert _ _ => exact ⟨w, List.mem_append_left _ hw, rfl, rfl, rfl⟩
  | unlink _ =>
    refine ⟨_, List.mem_map_of_mem hw, ?_⟩
    split <;> exact ⟨rfl, rfl, rfl⟩
  | queue _ | bounce _ | take _ _ | hold _ | drop _ => exact ⟨w, hw, rfl, rfl, rfl⟩

theorem Makes.keyed {id : Nat} {key : CString} (h : Makes c r r') (hr : r.KeyedAs id key) :
    r'.KeyedAs id key := by
  obtain ⟨w, hw, rfl, rfl⟩ := hr
  obtain ⟨w', hw', hid, -, hkey⟩ := h.survives hw
  exact ⟨w', hw', hid, hkey⟩

theorem Makes.eventFor {e : PendingWatchEvent} (h : Makes c r r') (hr : r.EventFor e) :
    r'.EventFor e := by
  obtain ⟨w, hw, hid, hdomain, hpath⟩ := hr
  obtain ⟨w', hw', hid', hdomain', hkey⟩ := h.survives hw
  refine ⟨w', hw', hid'.trans hid, hdomain'.trans hdomain, ?_⟩
  unfold PathFor at hpath ⊢
  rw [hkey]
  exact hpath

theorem Makes.rooted (h : Makes c r r') (hr : r.Ordered) (hroot : r.Rooted)
    (hinsert : ∀ w, c = .insert w → w.Rooted)
    (hreform : ∀ w form, c = .reform w form → { w with isRelative := form }.Rooted) :
    r'.Rooted := by
  cases h with
  | quiet h =>
    intro w' hw'
    have hmem : w'.still ∈ r.shared.watches.map WatchEntry.still := by
      rw [← h.forms]
      exact List.mem_map_of_mem hw'
    obtain ⟨w, hw, hstill⟩ := List.mem_map.mp hmem
    have hrooted : w.still.Rooted := hroot w hw
    rw [hstill] at hrooted
    exact hrooted
  | @reform _ w form hw =>
    intro w' hw'
    obtain ⟨v, hv, rfl⟩ := List.mem_map.mp hw'
    by_cases hid : v.id = w.id
    · obtain rfl := hr.unique hv (List.mem_of_mem_filter hw) hid
      simp only [if_true]
      exact hreform v form rfl
    · simp only [if_neg hid]
      exact hroot v hv
  | @insert _ w _ _ =>
    intro w' hw'
    rcases List.mem_append.mp hw' with hw' | hw'
    · exact hroot w' hw'
    · cases List.mem_singleton.mp hw'
      exact hinsert w rfl
  | unlink _ =>
    intro w' hw'
    obtain ⟨v, hv, rfl⟩ := WatchRegistry.mem_unlinked hw'
    have hrooted := hroot v hv
    split <;> exact hrooted
  | queue _ | bounce _ | take _ _ | hold _ | drop _ => exact hroot

theorem Makes.reported (h : Makes c r r') (hr : r.Reported)
    (hqueue : ∀ e, c = .queue e → r.EventFor e) : r'.Reported := by
  have hold : ∀ e ∈ r.shared.pendingWatchEventList, r'.EventFor e :=
    fun e he => h.eventFor (hr e he)
  intro e he
  cases hc : h with
  | quiet hs =>
    rw [hs.same.pending] at he
    exact hold e he
  | @queue _ e' _ =>
    rcases List.mem_append.mp he with he | he
    · exact hold e he
    · cases List.mem_singleton.mp he
      exact h.eventFor (hqueue e rfl)
  | @take _ e' before after hp _ =>
    refine hold e ?_
    rw [hp]
    rcases List.mem_append.mp he with he | he
    · exact List.mem_append_left _ he
    · exact List.mem_append_right _ (List.mem_cons_of_mem _ he)
  | reform _ | insert _ _ | bounce _ | unlink _ | hold _ | drop _ => exact hold e he

theorem Does.formed {P : Change → Prop} (h : Does P r r') (hr : r.Ordered) (hroot : r.Rooted)
    (hrep : r.Reported) (hinsert : ∀ w, P (.insert w) → w.Rooted)
    (hreform : ∀ w form, P (.reform w form) → { w with isRelative := form }.Rooted)
    (hqueue : ∀ e, P (.queue e) → r.EventFor e) : r'.Rooted ∧ r'.Reported := by
  have hall := h.keeps (I := fun r' => r'.Ordered ∧ r'.Rooted ∧ r'.Reported ∧
    ∀ e, P (.queue e) → r'.EventFor e) ?_ ⟨hr, hroot, hrep, hqueue⟩
  · exact ⟨hall.2.1, hall.2.2.1⟩
  · rintro c r₁ r₂ hc hm ⟨ho, hroot₁, hrep₁, hqueue₁⟩
    refine ⟨hm.ordered ho, hm.rooted ho hroot₁ (fun w hw => hinsert w (hw ▸ hc))
      (fun w form hw => hreform w form (hw ▸ hc)), hm.reported hrep₁ fun e he => ?_, ?_⟩
    · exact hqueue₁ e (he ▸ hc)
    · exact fun e he => hm.eventFor (hqueue₁ e he)

theorem Does.keyed {P : Change → Prop} {id : Nat} {key : CString} (h : Does P r r')
    (hr : r.KeyedAs id key) : r'.KeyedAs id key :=
  h.keeps (fun _ _ _ _ hm => hm.keyed) hr

end Changes

/-- The changes that neither link nor form a watch nor queue an event. -/
def Change.Mild : Change → Prop
  | .insert _ | .reform _ _ | .queue _ => False
  | _ => True

def WatchAction.Mild : WatchAction → Prop
  | .round | .look _ _ _ _ | .insert _ | .initial _ | .localInsert _ => False
  | _ => True

theorem WatchAction.Mild.allows {a : WatchAction} {c : Change} (h : a.Mild) (hc : a.Allows c) :
    c.Mild := by
  cases c with
  | insert w | reform w form | queue e =>
    cases a <;> simp_all [WatchAction.Mild, WatchAction.Allows]
  | quiet | bounce _ | unlink _ | take _ | hold _ | drop _ => trivial

def Change.Links (domain : Option UInt32) (key : CString) (isRelative : Bool) : Change → Prop
  | .insert w => w.domain = domain ∧ w.key = key ∧ w.isRelative = isRelative
  | .reform _ _ | .queue _ => False
  | _ => True

theorem resolvePath_local {path key : CString} (h : resolvePath path 0 = .ok key)
    (hrel : xenstoreIsAbsPath path = false) : key = localDomainPath 0 ++ path := by
  refine resolvePath_below (by decide) (fun hhead => ?_) h
  rw [(isAbsPath_iff path).mpr hhead] at hrel
  cases hrel

/-- What `handle_watch` looks for: the path that `construct_path` makes of the text of a payload,
with the rest of the payload for a token and the form of the text. Xen numbers its domains below
32768. -/
def WatchAction.Requested : WatchAction → Prop
  | .look domid path token isRelative => domid.toNat ≤ 32767 ∧
      ∃ payload text, readStr payload = .ok text ∧ resolvePath text domid = .ok path ∧
        token = payload.drop (strnlen payload + 1) ∧
        isRelative = decide (payload.head? ≠ some slash.val)
  | _ => True

theorem WatchAction.Requested.below {domid : UInt32} {path : CString} {token : Bytes}
    (h : (WatchAction.look domid path token true).Requested) : localDomainPath domid <+: path := by
  obtain ⟨hd, payload, text, htext, hpath, -, hform⟩ := h
  have habs := isAbsPath_of_head htext (by simpa using hform)
  have hhead : text.head? ≠ some slash := fun hhead => by
    rw [(isAbsPath_iff text).mpr hhead] at habs
    cases habs
  rw [resolvePath_below hd hhead hpath]
  exact List.prefix_append _ _

namespace WatchServer

/-- What the thread of a guest knows of the path it was asked to watch. -/
def GuestFormed (r : WatchRegistry) (domid : UInt32) : GuestPc → Prop
  | .looked path _ isRelative _ => isRelative = true → localDomainPath domid <+: path
  | .inserted watch path _ => r.KeyedAs watch.id path
  | .idle | .registered _ _ _ | .cleaning => True

def LocalFormed : LocalPc → Prop
  | .checked call | .looked call => resolvePath call.path 0 = .ok call.key
  | .idle | .registered _ _ _ => True

structure Formed (s : WatchServer) : Prop where
  inv : s.Inv
  rooted : s.registry.Rooted
  reported : s.registry.Reported
  rest : ∀ scan ∈ s.scan, ∀ iter ∈ scan.rest,
    iter.Rooted ∧ s.registry.KeyedAs iter.id iter.key
  guest : ∀ domid, GuestFormed s.registry domid (s.guest domid)
  localThread : ∀ thread, LocalFormed (s.localThread thread)

theorem Start.formed {s : WatchServer} (h : s.Start) : s.Formed where
  inv := h.inv
  rooted := by
    unfold WatchRegistry.Rooted
    rw [h.watches]
    exact fun _ hmem => (List.not_mem_nil hmem).elim
  reported := by
    unfold WatchRegistry.Reported
    rw [h.pending]
    exact fun _ hmem => (List.not_mem_nil hmem).elim
  rest := by
    rw [h.scan]
    exact fun _ hmem => by cases hmem
  guest := fun domid => by
    rw [h.guest domid]
    trivial
  localThread := fun thread => by
    rw [h.localThread thread]
    trivial

section Steps
variable {s s' : WatchServer} {a : WatchAction} {P : Change → Prop}

theorem GuestFormed.does {r r' : WatchRegistry} {domid : UInt32} {pc : GuestPc}
    (h : GuestFormed r domid pc) (hd : Does P r r') : GuestFormed r' domid pc := by
  cases pc with
  | looked path token isRelative began => exact h
  | inserted watch path began => exact hd.keyed h
  | idle | registered _ _ _ | cleaning => trivial

theorem Formed.next (h : s.Formed) (hs : s.step a = some s')
    (hd : Does P s.registry s'.registry) (hinsert : ∀ w, P (.insert w) → w.Rooted)
    (hreform : ∀ w form, P (.reform w form) → { w with isRelative := form }.Rooted)
    (hqueue : ∀ e, P (.queue e) → s.registry.EventFor e)
    (hrest : ∀ scan' ∈ s'.scan, ∀ iter ∈ scan'.rest,
      iter ∈ linkedWatches s'.registry.shared ∨ ∃ scan ∈ s.scan, iter ∈ scan.rest)
    (hguest : ∀ domid, s'.guest domid = s.guest domid ∨
      GuestFormed s'.registry domid (s'.guest domid))
    (hlocal : ∀ thread, s'.localThread thread = s.localThread thread ∨
      LocalFormed (s'.localThread thread)) : s'.Formed := by
  obtain ⟨hrooted, hreported⟩ :=
    hd.formed h.inv.ordered h.rooted h.reported hinsert hreform hqueue
  refine ⟨step_inv h.inv hs, hrooted, hreported, fun scan' hscan' iter hiter => ?_,
    fun domid => ?_, fun thread => ?_⟩
  · rcases hrest scan' hscan' iter hiter with hmem | ⟨scan, hscan, hmem⟩
    · have hmem := List.mem_of_mem_filter hmem
      exact ⟨hrooted iter hmem, iter, hmem, rfl, rfl⟩
    · obtain ⟨hroot, hkeyed⟩ := h.rest scan hscan iter hmem
      exact ⟨hroot, hd.keyed hkeyed⟩
  · rcases hguest domid with hsame | hnew
    · rw [hsame]
      exact (h.guest domid).does hd
    · exact hnew
  · rcases hlocal thread with hsame | hnew
    · rw [hsame]
      exact h.localThread thread
    · exact hnew

theorem guest_update {r : WatchRegistry} {domid : UInt32} {pc : GuestPc}
    (hpc : GuestFormed r domid pc) (domid' : UInt32) :
    Function.update s.guest domid pc domid' = s.guest domid' ∨
      GuestFormed r domid' (Function.update s.guest domid pc domid') := by
  by_cases hd : domid' = domid
  · subst hd
    rw [Function.update_self]
    exact Or.inr hpc
  · exact Or.inl (Function.update_of_ne hd _ _)

theorem local_update {thread : Nat} {pc : LocalPc} (hpc : LocalFormed pc) (thread' : Nat) :
    Function.update s.localThread thread pc thread' = s.localThread thread' ∨
      LocalFormed (Function.update s.localThread thread pc thread') := by
  by_cases ht : thread' = thread
  · subst ht
    rw [Function.update_self]
    exact Or.inr hpc
  · exact Or.inl (Function.update_of_ne ht _ _)

theorem Formed.mild (h : s.Formed) (hs : s.step a = some s') (hmild : a.Mild)
    (hrest : ∀ scan' ∈ s'.scan, ∀ iter ∈ scan'.rest,
      iter ∈ linkedWatches s'.registry.shared ∨ ∃ scan ∈ s.scan, iter ∈ scan.rest)
    (hguest : ∀ domid, s'.guest domid = s.guest domid ∨
      GuestFormed s'.registry domid (s'.guest domid))
    (hlocal : ∀ thread, s'.localThread thread = s.localThread thread ∨
      LocalFormed (s'.localThread thread)) : s'.Formed :=
  h.next hs (steps h.inv hs).does (fun _ hw => (hmild.allows hw).elim)
    (fun _ _ hw => (hmild.allows hw).elim) (fun _ he => (hmild.allows he).elim) hrest hguest hlocal

theorem Formed.still (h : s.Formed) (hs : s.step a = some s') (hmild : a.Mild)
    (hscan : s'.scan = s.scan) (hguest : s'.guest = s.guest)
    (hlocal : s'.localThread = s.localThread) : s'.Formed := by
  refine h.mild hs hmild (fun scan' hmem iter hiter => ?_) (fun domid => ?_) fun thread => ?_
  · rw [hscan] at hmem
    exact Or.inr ⟨scan', hmem, hiter⟩
  · exact Or.inl (by rw [hguest])
  · exact Or.inl (by rw [hlocal])

theorem formed_begin {x : RefM (Option Scan)} (h : s.Formed) (hs : s.step a = some s')
    (hmild : a.Mild)
    (hx : Ran a.Allows s.registry x fun b r =>
      ∀ scan ∈ b, scan.localEvents = [] ∧ scan.rest = linkedWatches r.shared)
    (hrun : s.enterLocked x (fun scan => { s with scan := scan }) = some s') : s'.Formed := by
  obtain ⟨-, b, r, -, hb, rfl⟩ := enterLocked_ran hx hrun
  refine h.mild hs hmild (fun scan hmem iter hiter => Or.inl ?_) (fun _ => Or.inl rfl)
    fun _ => Or.inl rfl
  rw [(hb scan hmem).2] at hiter
  exact hiter

theorem formed_idle {α : Type} {x : RefM α} {k : α → WatchServer} {domid : UInt32} {pc : GuestPc}
    (h : s.Formed) (hs : s.step a = some s') (hmild : a.Mild)
    (hrun : s.enter x k = some s') (hk : ∀ b, k b = s.setGuest domid pc)
    (hpc : ∀ r, GuestFormed r domid pc) : s'.Formed := by
  obtain ⟨b, r, -, rfl⟩ := enter_wp (wp_trivial x s.registry) hrun
  refine h.mild hs hmild (fun scan hmem iter hiter => Or.inr ⟨scan, ?_, hiter⟩) ?_ ?_
  · rw [hk b] at hmem
    exact hmem
  · rw [hk b]
    exact guest_update (hpc r)
  · rw [hk b]
    exact fun _ => Or.inl rfl

theorem enter_of_enterLocked {α : Type} {x : RefM α} {k : α → WatchServer}
    (h : s.enterLocked x k = some s') : s.enter x k = some s' := by
  unfold enterLocked at h
  split at h
  · cases h
  · exact h

theorem formed_look {domid : UInt32} {path : CString} {token : Bytes} {isRelative : Bool}
    (h : s.Formed) (hreq : (WatchAction.look domid path token isRelative).Requested)
    (hs : s.step (.look domid path token isRelative) = some s') : s'.Formed := by
  have hbelow : isRelative = true → localDomainPath domid <+: path := by
    rintro rfl
    exact hreq.below
  have hrun := hs
  simp only [step, stepLook] at hrun
  split at hrun
  · cases hrun
  · obtain ⟨hscan, found, r, hdoes, hfound, rfl⟩ := enterLocked_ran
      (P := (WatchAction.look domid path token isRelative).Allows)
      (ran_lookWatch fun _ hd hk => ⟨hd, hk, rfl⟩) hrun
    refine h.next hs (steps h.inv hs).does (fun _ hw => hw.elim) ?_ (fun _ he => he.elim) ?_ ?_ ?_
    · rintro w form ⟨hdomain, hkey, hf⟩ hrel
      rw [hdomain, hkey]
      exact hbelow (hf ▸ hrel)
    · intro scan hmem iter hiter
      cases found <;> exact Or.inr ⟨scan, hmem, hiter⟩
    · cases found with
      | none => exact guest_update hbelow
      | some w =>
        obtain ⟨-, hw, hkey⟩ := hfound w rfl
        have hkeyed := hdoes.keyed ⟨w, List.mem_of_mem_filter hw, rfl, hkey⟩
        exact guest_update hkeyed
    · cases found <;> exact fun _ => Or.inl rfl

theorem formed_insert {domid : UInt32} (h : s.Formed) (hs : s.step (.insert domid) = some s') :
    s'.Formed := by
  have hrun := hs
  simp only [step, stepInsert] at hrun
  split at hrun
  · rename_i path token isRelative began hpc
    have hbelow := h.guest domid
    rw [hpc] at hbelow
    have hx := @ran_createWatch (Change.Links (some domid) path isRelative) s.registry domid path
      token isRelative trivial fun _ hd hk hf => ⟨hd, hk, hf⟩
    obtain ⟨-, made, r, hdoes, hmade, rfl⟩ := enterLocked_ran hx hrun
    refine h.next hs hdoes ?_ (fun _ _ hw => hw.elim) (fun _ he => he.elim) ?_ ?_ ?_
    · rintro w ⟨hdomain, hkey, hform⟩ hrel
      rw [hdomain, hkey]
      exact hbelow (hform ▸ hrel)
    · intro scan hmem iter hiter
      cases made <;> exact Or.inr ⟨scan, hmem, hiter⟩
    · cases made with
      | none => exact @guest_update s r domid .idle trivial
      | some w =>
        obtain ⟨-, hw, hkey⟩ := hmade w rfl
        exact guest_update ⟨w, hw, rfl, hkey⟩
    · cases made <;> exact fun _ => Or.inl rfl
  · cases hrun

theorem formed_initial {domid : UInt32} (h : s.Formed) (hs : s.step (.initial domid) = some s') :
    s'.Formed := by
  have hrun := hs
  simp only [step, stepInitial] at hrun
  split at hrun
  · rename_i wentry path began hpc
    have hkeyed := h.guest domid
    have hlinked := h.inv.guest domid
    rw [hpc] at hkeyed hlinked
    have hx := @ran_initialEvent (fun c => c = .quiet ∨ c = .queue ⟨path, wentry.id, domid⟩ ∨
      c = .bounce wentry.id) s.registry wentry domid path (Or.inl rfl) (Or.inr (Or.inl rfl))
      (Or.inr (Or.inr rfl)) hlinked.1
    obtain ⟨-, _, r, hdoes, -, rfl⟩ := enterLocked_ran hx hrun
    refine h.next hs hdoes ?_ ?_ ?_ (fun scan hmem iter hiter => Or.inr ⟨scan, hmem, hiter⟩)
      (@guest_update s r domid (.registered wentry.id path began) trivial) fun _ => Or.inl rfl
    · rintro w (hw | hw | hw) <;> cases hw
    · rintro w form (hw | hw | hw) <;> cases hw
    · rintro e (he | he | he)
      · cases he
      · cases he
        obtain ⟨w, hw, hid, hkey⟩ := hkeyed
        obtain ⟨v, hv, hvid, hdomain, -⟩ := hlinked.1
        obtain rfl := h.inv.ordered.unique hw hv (hid.trans hvid.symm)
        exact ⟨w, hw, hid, hdomain, Or.inl hkey.symm⟩
      · cases he
  · cases hrun

theorem formed_round {scan : Scan} (h : s.Formed) (hscan : s.scan = some scan)
    (hs : s.step .round = some s') (hrun : s.stepScan scan = some s') : s'.Formed := by
  have hx := @ran_scanRound (fun c => c.Mild ∨ ∃ iter ∈ scan.rest, ∃ eventPath domid,
      watchEventPath iter scan.path scan.entry.isSome = some eventPath ∧ iter.domain = some domid ∧
      c = .queue ⟨eventPath, iter.id, domid⟩) s.registry scan (Or.inl trivial)
      (fun iter hiter eventPath domid hpath hdomain =>
        Or.inr ⟨iter, hiter, eventPath, domid, hpath, hdomain, rfl⟩)
      (fun _ => Or.inl trivial) (fun _ => Or.inl trivial) (h.inv.rest scan hscan)
      (h.inv.localEvents scan hscan)
  obtain ⟨b, r, hdoes, ⟨-, hnext⟩, rfl⟩ := enter_ran hx hrun
  refine h.next hs hdoes ?_ ?_ ?_ (fun scan' hmem iter hiter => Or.inr ⟨scan, hscan, ?_⟩)
    (fun _ => Or.inl rfl) fun _ => Or.inl rfl
  · rintro w (hw | ⟨_, _, _, _, _, _, hw⟩)
    · exact hw.elim
    · cases hw
  · rintro w form (hw | ⟨_, _, _, _, _, _, hw⟩)
    · exact hw.elim
    · cases hw
  · rintro e (he | ⟨iter, hiter, eventPath, domid, hpath, hdomain, he⟩)
    · exact he.elim
    · cases he
      obtain ⟨-, w, hw, hid, hkey⟩ := h.rest scan hscan iter hiter
      obtain ⟨v, hv, hvid, hvdomain, -⟩ := h.inv.rest scan hscan iter hiter
      obtain rfl := h.inv.ordered.unique hw hv (hid.trans hvid.symm)
      refine ⟨w, hw, hid, hvdomain.trans hdomain, ?_⟩
      have hfor := pathFor_watchEventPath hpath
      unfold PathFor at hfor ⊢
      rw [hkey]
      exact hfor
  · exact (hnext scan' hmem).2 iter hiter

theorem formed_localCheck {thread : Nat} {path token : CString} {deadline : Deadline}
    (h : s.Formed) (hs : s.step (.localCheck thread path token deadline) = some s') :
    s'.Formed := by
  have hrun := hs
  simp only [step, stepLocalCheck] at hrun
  split at hrun
  · cases hrun
  · obtain ⟨-, b, r, -, hb, rfl⟩ := enterLocked_ran
      (P := (WatchAction.localCheck thread path token deadline).Allows) (ran_checkPath trivial) hrun
    refine h.mild hs trivial ?_ ?_ ?_
    · intro scan hmem iter hiter
      cases b <;> exact Or.inr ⟨scan, hmem, hiter⟩
    · cases b <;> exact fun _ => Or.inl rfl
    · cases b with
      | error e => exact @local_update s thread .idle trivial
      | ok b => exact @local_update s thread (.checked _) (hb b rfl)

theorem formed_localLook {thread : Nat} (h : s.Formed)
    (hs : s.step (.localLook thread) = some s') : s'.Formed := by
  have hrun := hs
  simp only [step, stepLocalLook] at hrun
  split at hrun
  · rename_i call hpc
    have hkey := h.localThread thread
    rw [hpc] at hkey
    obtain ⟨-, rc, r, -, rfl⟩ := enterLocked_wp (wp_trivial _ s.registry) hrun
    refine h.mild hs trivial ?_ ?_ ?_
    · intro scan hmem iter hiter
      cases rc <;> exact Or.inr ⟨scan, hmem, hiter⟩
    · cases rc <;> exact fun _ => Or.inl rfl
    · cases rc with
      | some e => exact @local_update s thread .idle trivial
      | none => exact @local_update s thread (.looked call) hkey
  · cases hrun

theorem formed_localInsert {thread : Nat} (h : s.Formed)
    (hs : s.step (.localInsert thread) = some s') : s'.Formed := by
  have hrun := hs
  simp only [step, stepLocalInsert] at hrun
  split at hrun
  · rename_i call hpc
    have hkey := h.localThread thread
    rw [hpc] at hkey
    have hx := @ran_createLocal (Change.Links none call.key (!xenstoreIsAbsPath call.path))
      s.registry call.path call.key call.token (!xenstoreIsAbsPath call.path)
      call.fireInitialEvent call.deadline trivial (fun _ hd hk hf => ⟨hd, hk, hf⟩) fun _ => trivial
    obtain ⟨-, made, r, hdoes, -, rfl⟩ := enterLocked_ran hx hrun
    refine h.next hs hdoes ?_ (fun _ _ hw => hw.elim) (fun _ he => he.elim) ?_ ?_ ?_
    · rintro w ⟨hdomain, hkey', hform⟩ hrel
      rw [hdomain, hkey']
      rw [resolvePath_local hkey (by simpa [hrel] using hform)]
      exact List.prefix_append _ _
    · intro scan hmem iter hiter
      cases made <;> exact Or.inr ⟨scan, hmem, hiter⟩
    · cases made <;> exact fun _ => Or.inl rfl
    · cases made with
      | error e => exact @local_update s thread .idle trivial
      | ok made => exact @local_update s thread (.registered _ _ _) trivial
  · cases hrun

theorem formed_step (h : s.Formed) (hreq : a.Requested) (hs : s.step a = some s') :
    s'.Formed := by
  cases a with
  | notify path deadline => exact formed_begin h hs trivial (ran_beginNotify trivial) hs
  | remove key callerId deadline => exact formed_begin h hs trivial (ran_beginRemove trivial) hs
  | round =>
    have hrun := hs
    simp only [step] at hrun
    split at hrun
    · exact formed_round h ‹_› hs hrun
    · cases hrun
  | look domid path token isRelative => exact formed_look h hreq hs
  | insert domid => exact formed_insert h hs
  | initial domid => exact formed_initial h hs
  | unwatch domid path token =>
    have hrun := hs
    simp only [step] at hrun
    split at hrun
    · cases hrun
    · exact formed_idle h hs trivial (enter_of_enterLocked hrun) (fun _ => rfl) fun _ => trivial
  | cleanupWatches domid =>
    have hrun := hs
    simp only [step] at hrun
    split at hrun
    · cases hrun
    · exact formed_idle h hs trivial (enter_of_enterLocked hrun) (fun _ => rfl) fun _ => trivial
  | cleanupEvents domid =>
    have hrun := hs
    simp only [step, stepCleanupEvents] at hrun
    split at hrun
    · exact formed_idle h hs trivial hrun (fun _ => rfl) fun _ => trivial
    · cases hrun
  | callback =>
    have hrun := hs
    simp only [step] at hrun
    split at hrun
    · obtain ⟨-, _, r, -, rfl⟩ := enterLocked_wp (wp_trivial _ s.registry) hrun
      exact h.still hs trivial rfl rfl rfl
    · cases hrun
  | callbackReturned =>
    have hrun := hs
    simp only [step] at hrun
    split at hrun
    · obtain ⟨-, _, r, -, rfl⟩ := enterLocked_wp (wp_trivial _ s.registry) hrun
      exact h.still hs trivial rfl rfl rfl
    · cases hrun
  | process domid =>
    have hrun := hs
    simp only [step] at hrun
    split at hrun
    · cases hrun
    · obtain ⟨-, _, r, -, rfl⟩ := enterLocked_wp (wp_trivial _ s.registry) hrun
      exact h.still hs trivial rfl rfl rfl
  | client domid x =>
    have hrun := hs
    simp only [step] at hrun
    split at hrun
    · cases hrun
      exact h.still hs trivial rfl rfl rfl
    · cases hrun
  | write _ _ _ _ _ | store _ | localUnwatch _ _ _ =>
    obtain ⟨-, _, r, -, rfl⟩ := enterLocked_wp (wp_trivial _ s.registry) hs
    exact h.still hs trivial rfl rfl rfl
  | localCheck thread path token deadline => exact formed_localCheck h hs
  | localLook thread => exact formed_localLook h hs
  | localInsert thread => exact formed_localInsert h hs

theorem run_formed {as : List WatchAction} (hs : s.Start)
    (hreq : Along step (fun _ a => a.Requested) s as) (h : run step s as = some s') : s'.Formed :=
  run_invariant (fun _ _ _ hf hc hstep => formed_step hf hc hstep) hs.formed hreq h

end Steps

/-- The path of every event of a relative watch begins with the directory of its domain, and what
is reported is the rest of it: for the events that are pending for guests, for those that a scan
has still to queue for clients of Dom0, and for the first event of a watch of theirs. -/
theorem relative_events {s s' : WatchServer} {as : List WatchAction} (hs : s.Start)
    (hreq : Along step (fun _ a => a.Requested) s as) (h : run step s as = some s') :
    (∀ e ∈ s'.registry.shared.pendingWatchEventList, ∀ w ∈ s'.registry.shared.watches,
      w.id = e.watch → w.isRelative = true →
      w.domain = some e.domain ∧ ∃ reported, localDomainPath e.domain ++ reported = e.eventPath ∧
        ∀ token, readStr w.token = .ok token →
          watchEventPayload w e.eventPath e.domain =
            .ok (strBytes reported ++ strBytes token)) ∧
    (∀ scan ∈ s'.scan, ∀ iter ∈ scan.rest, iter.domain = none → iter.isRelative = true →
      ∀ eventPath, watchEventPath iter scan.path scan.entry.isSome = some eventPath →
        localDomainPath 0 ++ eventPath.drop (localDomainPath 0).length = eventPath) ∧
    ∀ thread call, s'.localThread thread = .looked call → xenstoreIsAbsPath call.path = false →
      localDomainPath 0 ++ call.path = call.key := by
  have hf := run_formed hs hreq h
  refine ⟨fun e he w hw hid hrel => ?_, ?_, fun thread call hpc hrel => ?_⟩
  · obtain ⟨v, hv, hvid, hdomain, hfor⟩ := hf.reported e he
    obtain rfl := hf.inv.ordered.unique hw hv (hid.trans hvid.symm)
    have hroot := hf.rooted w hw hrel
    rw [hdomain, Option.getD_some] at hroot
    obtain ⟨reported, hreported⟩ := hfor.below hroot
    refine ⟨hdomain, reported, hreported, fun token htoken => ?_⟩
    rw [← hreported]
    exact payload_relative hrel htoken
  · intro scan hscan iter hiter hdomain hrel eventPath hpath
    have hroot := (hf.rest scan hscan iter hiter).1 hrel
    rw [hdomain, Option.getD_none] at hroot
    obtain ⟨reported, rfl⟩ := (pathFor_watchEventPath hpath).below hroot
    rw [List.drop_left]
  · have hkey := hf.localThread thread
    rw [hpc] at hkey
    exact (resolvePath_local hkey hrel).symm

/-- "a" in the directory of domain 1. -/
def ownNode : CString := localDomainPath 1 ++ ascii ['a']

/-- Domain 1 watches its node by the absolute path and is told about a change below it; with both
events pending it asks for the same watch by the relative path. -/
def watchBothForms : List WatchAction :=
  [.write (ownNode ++ ascii ['/', 'b']) none 0 [⟨1, .none⟩] .forever,
   .look 1 ownNode [116, 0] false, .insert 1, .initial 1,
   .notify (ownNode ++ ascii ['/', 'b']) .forever, .round, .round,
   .look 1 ownNode [116, 0] true]

theorem relative_events_flipped : ∃ s w,
    run step (fresh ownedByOne) watchBothForms = some s ∧
    s.registry.shared.pendingWatchEventList =
      [⟨ownNode, 0, 1⟩, ⟨ownNode ++ ascii ['/', 'b'], 0, 1⟩] ∧
    w ∈ s.registry.shared.watches ∧ w.id = 0 ∧ w.isRelative = true ∧
    ∃ reported, localDomainPath 1 ++ reported = ownNode ++ ascii ['/', 'b'] ∧
      watchEventPayload w (ownNode ++ ascii ['/', 'b']) 1 =
        .ok (strBytes reported ++ strBytes (ascii ['t'])) := by
  have hvals : (run step (fresh ownedByOne) watchBothForms).map (fun s =>
      (s.registry.shared.pendingWatchEventList, s.registry.shared.watches)) =
      some ([⟨ownNode, 0, 1⟩, ⟨ownNode ++ ascii ['/', 'b'], 0, 1⟩],
        [⟨0, ownNode, [116, 0], some 1, true, true, none⟩]) := by
    decide +kernel
  obtain ⟨s, hrun, hs⟩ := Option.map_eq_some_iff.mp hvals
  obtain ⟨hpending, hwatches⟩ := Prod.mk.inj hs
  have habs : (WatchAction.look 1 ownNode [116, 0] false).Requested :=
    ⟨by decide, strBytes ownNode ++ [116, 0], ownNode, by decide, by decide, by decide, by decide⟩
  have hrel : (WatchAction.look 1 ownNode [116, 0] true).Requested :=
    ⟨by decide, [97, 0, 116, 0], ascii ['a'], by decide, by decide, by decide, by decide⟩
  have hreq : ∀ a ∈ watchBothForms, a.Requested := by
    intro a ha
    simp only [watchBothForms, List.mem_cons, List.not_mem_nil, or_false] at ha
    rcases ha with rfl | rfl | rfl | rfl | rfl | rfl | rfl | rfl
    · trivial
    · exact habs
    · trivial
    · trivial
    · trivial
    · trivial
    · trivial
    · exact hrel
  have hw : ⟨0, ownNode, [116, 0], some 1, true, true, none⟩ ∈ s.registry.shared.watches := by
    rw [hwatches]
    exact List.mem_cons_self
  have he : ⟨ownNode ++ ascii ['/', 'b'], 0, 1⟩ ∈ s.registry.shared.pendingWatchEventList := by
    rw [hpending]
    exact List.mem_cons_of_mem _ List.mem_cons_self
  obtain ⟨-, reported, hreported, hpayload⟩ :=
    (relative_events (fresh_start ownedByOne) (along_labels hreq _) hrun).1 _ he _ hw rfl rfl
  exact ⟨s, _, hrun, hpending, hw, rfl, rfl, reported, hreported,
    hpayload (ascii ['t']) (by decide)⟩

end WatchServer

end Xenlib
