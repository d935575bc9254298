import Xenlib.WatchChanges

/-!
The steps of the threads as changes of the registry, and what the threads rely on between two
of their sections.
-/

set_option autoImplicit false

namespace Xenlib

open Wp

def WatchAction.thread : WatchAction → Option UInt32
  | .look domid _ _ _ | .insert domid | .initial domid | .unwatch domid _ _
  | .cleanupWatches domid | .cleanupEvents domid | .process domid | .client domid _ => some domid
  | _ => none

def WatchAction.serves : WatchAction → Option UInt32
  | .process domid | .client domid _ => some domid
  | _ => none

def WatchAction.Allows : WatchAction → Change → Prop
  | _, .quiet => True
  | .round, c => c.Scans
  | .look domid path _ isRelative, .reform w form =>
    w.domain = some domid ∧ w.key = path ∧ form = isRelative
  | .callbackReturned, .drop _ => True
  | .insert domid, .insert w => w.domain = some domid
  | .initial domid, .queue e => e.domain = domid
  | .initial _, .bounce _ => True
  | .unwatch domid _ _, .unlink w => w.domain = some domid
  | .cleanupWatches domid, .unlink w => w.domain = some domid
  | .cleanupEvents domid, .take e => e.domain = domid
  | .process domid, .take e => e.domain = domid
  | .localInsert _, .insert w => w.domain = none
  | .localInsert _, .hold _ => True
  | .localUnwatch _ _ _, .unlink w => w.domain = none
  | _, _ => False

/-- The domain whose watches a change puts on the list or takes off it. -/
def Change.relinks : Change → Option UInt32
  | .insert w | .unlink w => w.domain
  | _ => none

theorem WatchAction.relinks_own {a : WatchAction} {c : Change} {domid : UInt32} (h : a.Allows c)
    (hc : c.relinks = some domid) : a.thread = some domid := by
  cases c with
  | insert w | unlink w =>
    cases a <;> simp_all [WatchAction.Allows, Change.relinks, WatchAction.thread, Change.Scans]
  | quiet | reform _ _ | queue _ | bounce _ | take _ | hold _ | drop _ => cases hc

def WatchRegistry.NoWatch (r : WatchRegistry) (domid : UInt32) : Prop :=
  ∀ id, ¬ r.LinkedAs id (some domid)

/-- What the thread of a guest relies on between two sections. -/
def GuestOk (r : WatchRegistry) (domid : UInt32) : GuestPc → Prop
  | .looked _ _ _ began => began ≤ r.told.length
  | .inserted watch _ began => r.LinkedAs watch.id (some domid) ∧ began ≤ r.told.length
  | .cleaning => r.NoWatch domid
  | .idle | .registered _ _ _ => True

def LocalPcOk (r : WatchRegistry) : LocalPc → Prop
  | .checked call | .looked call => call.began ≤ r.told.length
  | .idle | .registered _ _ _ => True

section Others
variable {r r' : WatchRegistry} {c : Change} {domid : UInt32} {id : Nat}

theorem Makes.linked_other (h : Makes c r r') (hr : r.Ordered)
    (hc : c.relinks ≠ some domid) (hl : r.LinkedAs id (some domid)) :
    r'.LinkedAs id (some domid) := by
  refine h.linked hl fun w hw hid => hc ?_
  subst hw
  cases h with
  | unlink hmem =>
    obtain ⟨v, hv, rfl, hdomain, _⟩ := hl
    cases hr.unique (List.mem_of_mem_filter hmem) hv hid
    exact hdomain

theorem Makes.linked_before (h : Makes c r r') (hc : c.relinks ≠ some domid)
    (hl : r'.LinkedAs id (some domid)) : r.LinkedAs id (some domid) := by
  cases h with
  | quiet h => exact h.same.linkedAs.mp hl
  | reform _ => exact (WatchRegistry.same_reformed _ _ _).linkedAs.mp hl
  | insert _ _ =>
    obtain ⟨w, hw, hid, hdomain, hlinked⟩ := hl
    rcases List.mem_append.mp hw with hw | hw
    · exact ⟨w, hw, hid, hdomain, hlinked⟩
    · cases List.mem_singleton.mp hw
      exact absurd hdomain hc
  | unlink _ =>
    obtain ⟨w, hw, hid, hdomain, hlinked⟩ := hl
    obtain ⟨v, hv, rfl⟩ := WatchRegistry.mem_unlinked hw
    split at hlinked
    · cases hlinked
    · rename_i hne
      rw [if_neg hne] at hid hdomain
      exact ⟨v, hv, hid, hdomain, hlinked⟩
  | queue _ | bounce _ | take _ _ | hold _ | drop _ => exact hl

theorem Makes.told (h : Makes c r r') : r.told.length ≤ r'.told.length := by
  cases h with
  | quiet hs => rw [hs.same.told]
  | reform _ => exact Nat.le_refl _
  | queue _ | hold _ =>
    show _ ≤ (r.told ++ [_]).length
    rw [List.length_append]
    omega
  | insert _ _ | bounce _ | unlink _ | take _ _ | drop _ => exact Nat.le_refl _

theorem Does.told {P : Change → Prop} (h : Does P r r') : r.told.length ≤ r'.told.length :=
  h.keeps (I := fun r' => r.told.length ≤ r'.told.length)
    (fun _ _ _ _ hm hr => hr.trans hm.told) (Nat.le_refl _)

theorem LocalPcOk.does {P : Change → Prop} {pc : LocalPc} (h : LocalPcOk r pc) (hd : Does P r r') :
    LocalPcOk r' pc := by
  cases pc with
  | checked call | looked call => exact Nat.le_trans h hd.told
  | idle | registered _ _ _ => trivial

theorem GuestOk.makes {pc : GuestPc} (h : GuestOk r domid pc) (hr : r.Ordered) (hm : Makes c r r')
    (hc : c.relinks ≠ some domid) : GuestOk r' domid pc := by
  cases pc with
  | looked path token isRelative began => exact Nat.le_trans h hm.told
  | inserted watch path began => exact ⟨hm.linked_other hr hc h.1, Nat.le_trans h.2 hm.told⟩
  | cleaning => exact fun id hl => h id (hm.linked_before hc hl)
  | idle | registered _ _ _ => trivial

theorem GuestOk.does {P : Change → Prop} {pc : GuestPc} (h : GuestOk r domid pc) (hr : r.Ordered)
    (hd : Does P r r') (hP : ∀ c, P c → c.relinks ≠ some domid) : GuestOk r' domid pc := by
  refine (hd.keeps (I := fun r => r.Ordered ∧ GuestOk r domid pc) ?_ ⟨hr, h⟩).2
  intro c r₁ r₂ hc hm hr₁
  exact ⟨hm.ordered hr₁.1, hr₁.2.makes hr₁.1 hm (hP c hc)⟩

end Others

namespace WatchServer

structure Inv (s : WatchServer) : Prop where
  ordered : s.registry.Ordered
  rest : ∀ scan ∈ s.scan, ∀ iter ∈ scan.rest, s.registry.LinkedAs iter.id iter.domain
  localEvents : ∀ scan ∈ s.scan, LocalEvents scan.localEvents s.registry
  dispatching : LocalEvents s.dispatching s.registry
  calling : LocalEvents s.calling s.registry
  guest : ∀ domid, GuestOk s.registry domid (s.guest domid)
  localThread : ∀ thread, LocalPcOk s.registry (s.localThread thread)
  client : ∀ domid, (s.client domid).domid = domid

theorem Start.inv {s : WatchServer} (h : s.Start) : s.Inv where
  ordered := by
    unfold WatchRegistry.Ordered
    rw [h.watches]
    rfl
  rest := by
    rw [h.scan]
    exact fun _ hmem => by cases hmem
  localEvents := by
    rw [h.scan]
    exact fun _ hmem => by cases hmem
  dispatching := by
    rw [h.dispatching]
    exact fun _ hmem => (List.not_mem_nil hmem).elim
  calling := by
    rw [h.calling]
    exact fun _ hmem => (List.not_mem_nil hmem).elim
  guest := fun domid => by
    rw [h.guest domid]
    trivial
  localThread := fun thread => by
    rw [h.localThread thread]
    trivial
  client := fun domid => (h.client domid).1

section Steps
variable {s s' : WatchServer} {α : Type}

theorem enter_wp {x : RefM α} {k : α → WatchServer} {Q : α → WatchRegistry → Prop}
    (hx : wp x Q (fun _ => True) s.registry) (h : s.enter x k = some s') :
    ∃ a r, Q a r ∧ s' = { k a with registry := r } := by
  unfold enter at h
  split at h
  · rename_i a r hok
    cases h
    exact ⟨a, r, wp_ok hx hok, rfl⟩
  · cases h

theorem enterLocked_wp {x : RefM α} {k : α → WatchServer} {Q : α → WatchRegistry → Prop}
    (hx : wp x Q (fun _ => True) s.registry) (h : s.enterLocked x k = some s') :
    s.scan = none ∧ ∃ a r, Q a r ∧ s' = { k a with registry := r } := by
  unfold enterLocked at h
  split at h
  · cases h
  · rename_i hscan
    exact ⟨by simpa using hscan, enter_wp hx h⟩

theorem enter_ran {P : Change → Prop} {x : RefM α} {k : α → WatchServer}
    {Q : α → WatchRegistry → Prop} (hx : Ran P s.registry x Q) (h : s.enter x k = some s') :
    ∃ a r, Does P s.registry r ∧ Q a r ∧ s' = { k a with registry := r } := by
  obtain ⟨a, r, ⟨hdoes, hq⟩, hs'⟩ := enter_wp hx h
  exact ⟨a, r, hdoes, hq, hs'⟩

theorem enterLocked_ran {P : Change → Prop} {x : RefM α} {k : α → WatchServer}
    {Q : α → WatchRegistry → Prop} (hx : Ran P s.registry x Q) (h : s.enterLocked x k = some s') :
    s.scan = none ∧ ∃ a r, Does P s.registry r ∧ Q a r ∧ s' = { k a with registry := r } := by
  obtain ⟨hscan, a, r, ⟨hdoes, hq⟩, hs'⟩ := enterLocked_wp hx h
  exact ⟨hscan, a, r, hdoes, hq, hs'⟩

theorem Inv.next {a : WatchAction} {r : WatchRegistry} (h : s.Inv)
    (hd : Does a.Allows s.registry r) (hP : s.scan = none ∨ ∀ w, ¬ a.Allows (.unlink w))
    {guest : UInt32 → GuestPc} (hguest : ∀ domid, GuestOk r domid (guest domid))
    {client : UInt32 → Xenstore} (hclient : ∀ domid, (client domid).domid = domid)
    {dispatching calling : List Nat} (hdispatching : LocalEvents dispatching r)
    (hcalling : LocalEvents calling r) {localThread : Nat → LocalPc}
    (hlocal : ∀ thread, LocalPcOk r (localThread thread)) :
    Inv ⟨r, s.scan, dispatching, calling, guest, client, localThread⟩ where
  ordered := hd.ordered h.ordered
  rest := fun scan hscan iter hiter => by
    rcases hP with hnone | hP
    · rw [hnone] at hscan
      cases hscan
    · exact hd.linked hP (h.rest scan hscan iter hiter)
  localEvents := fun scan hscan => (h.localEvents scan hscan).does hd
  dispatching := hdispatching
  calling := hcalling
  guest := hguest
  localThread := hlocal
  client := hclient

theorem Inv.locals {a : WatchAction} {r : WatchRegistry} (h : s.Inv)
    (hd : Does a.Allows s.registry r) (thread : Nat) : LocalPcOk r (s.localThread thread) :=
  (h.localThread thread).does hd

theorem Inv.others {a : WatchAction} {r : WatchRegistry} (h : s.Inv)
    (hd : Does a.Allows s.registry r) {domid : UInt32} (hother : a.thread ≠ some domid) :
    GuestOk r domid (s.guest domid) :=
  (h.guest domid).does h.ordered hd fun _ hc hrel => hother (a.relinks_own hc hrel)

theorem Inv.dom0 {a : WatchAction} {r : WatchRegistry} (h : s.Inv)
    (hd : Does a.Allows s.registry r) (hthread : a.thread = none) (domid : UInt32) :
    GuestOk r domid (s.guest domid) := by
  refine h.others hd ?_
  rw [hthread]
  exact fun heq => by cases heq

theorem Inv.update {a : WatchAction} {r : WatchRegistry} (h : s.Inv)
    (hd : Does a.Allows s.registry r) {domid : UInt32} (hown : a.thread = some domid)
    (pc : GuestPc) (hpc : GuestOk r domid pc) (domid' : UInt32) :
    GuestOk r domid' (Function.update s.guest domid pc domid') := by
  by_cases hd' : domid' = domid
  · subst hd'
    rw [Function.update_self]
    exact hpc
  · rw [Function.update_of_ne hd']
    refine h.others hd ?_
    rw [hown]
    exact fun heq => hd' (Option.some.inj heq).symm

theorem Inv.updateLocal {a : WatchAction} {r : WatchRegistry} (h : s.Inv)
    (hd : Does a.Allows s.registry r) (thread : Nat) (pc : LocalPc) (hpc : LocalPcOk r pc)
    (thread' : Nat) : LocalPcOk r (Function.update s.localThread thread pc thread') := by
  by_cases ht : thread' = thread
  · subst ht
    rw [Function.update_self]
    exact hpc
  · rw [Function.update_of_ne ht]
    exact h.locals hd thread'

/-- A step does what its kind allows, the threads find what they rely on, and only the client
that is served changes. -/
structure Steps (a : WatchAction) (s s' : WatchServer) : Prop where
  does : Does a.Allows s.registry s'.registry
  inv : s'.Inv
  clients : ∀ domid, a.serves ≠ some domid → s'.client domid = s.client domid

theorem steps_plain {a : WatchAction} {x : RefM α} {k : α → WatchServer}
    {Q : α → WatchRegistry → Prop} (h : s.Inv) (hthread : a.thread = none)
    (hx : Ran a.Allows s.registry x Q) (hs : s.enterLocked x k = some s')
    (hk : ∀ b r, Does a.Allows s.registry r → ∃ localThread,
      k b = { s with localThread := localThread } ∧ ∀ thread, LocalPcOk r (localThread thread)) :
    Steps a s s' := by
  obtain ⟨hscan, b, r, hd, _, rfl⟩ := enterLocked_ran hx hs
  obtain ⟨localThread, hkb, hlocal⟩ := hk b r hd
  have hguest := h.dom0 hd hthread
  simp only [hkb]
  exact ⟨hd, h.next hd (Or.inl hscan) hguest h.client (h.dispatching.does hd) (h.calling.does hd)
    hlocal, fun _ _ => rfl⟩

theorem steps_guest {a : WatchAction} {domid : UInt32} {x : RefM α} {k : α → WatchServer}
    {Q : α → WatchRegistry → Prop} (h : s.Inv) (hthread : a.thread = some domid)
    (hx : Ran a.Allows s.registry x Q) (hs : s.enterLocked x k = some s')
    (hk : ∀ b r, Does a.Allows s.registry r → Q b r →
      ∃ pc, k b = s.setGuest domid pc ∧ GuestOk r domid pc) :
    Steps a s s' := by
  obtain ⟨hscan, b, r, hd, hq, rfl⟩ := enterLocked_ran hx hs
  obtain ⟨pc, hkb, hpc⟩ := hk b r hd hq
  simp only [hkb]
  exact ⟨hd, h.next hd (Or.inl hscan) (h.update hd hthread _ hpc) h.client (h.dispatching.does hd)
    (h.calling.does hd) (h.locals hd), fun _ _ => rfl⟩

theorem steps_begin {a : WatchAction} {x : RefM (Option Scan)} (h : s.Inv)
    (hthread : a.thread = none)
    (hx : Ran a.Allows s.registry x fun b r =>
      ∀ scan ∈ b, scan.localEvents = [] ∧ scan.rest = linkedWatches r.shared)
    (hs : s.enterLocked x (fun scan => { s with scan := scan }) = some s') : Steps a s s' := by
  obtain ⟨hscan, b, r, hd, hq, rfl⟩ := enterLocked_ran hx hs
  have hguest := h.dom0 hd hthread
  refine ⟨hd, ⟨hd.ordered h.ordered, ?_, ?_, h.dispatching.does hd, h.calling.does hd, hguest,
    h.locals hd, h.client⟩, fun _ _ => rfl⟩
  · intro scan hmem iter hiter
    rw [(hq scan hmem).2] at hiter
    exact WatchRegistry.linkedAs_of_mem hiter
  · intro scan hmem id hid
    rw [(hq scan hmem).1] at hid
    exact (List.not_mem_nil hid).elim

theorem steps_round {scan : Scan} (h : s.Inv) (hscan : s.scan = some scan)
    (hs : s.stepScan scan = some s') : Steps .round s s' := by
  have hscans : ∀ c : Change, c.Scans → WatchAction.round.Allows c := by
    intro c hc
    cases c <;> exact hc
  have hx := (@ran_scanRound Change.Scans _ scan trivial (fun _ _ _ _ _ _ => trivial)
    (fun _ => trivial) (fun _ => trivial) (h.rest scan hscan) (h.localEvents scan hscan)).allow
    hscans
  obtain ⟨b, r, hd, ⟨hevents, hnext⟩, rfl⟩ := enter_ran hx hs
  have hguest := h.dom0 hd rfl
  refine ⟨hd, ⟨hd.ordered h.ordered, ?_, fun scan' hmem => (hnext scan' hmem).1, ?_,
    h.calling.does hd, hguest, h.locals hd, h.client⟩, fun _ _ => rfl⟩
  · intro scan' hmem iter hiter
    exact hd.linked (fun w hw => hw) (h.rest scan hscan iter ((hnext scan' hmem).2 iter hiter))
  · intro id hid
    rcases List.mem_append.mp hid with hid | hid
    · exact hevents id hid
    · exact hd.known (h.dispatching id hid)

theorem steps_callback {id : Nat} {rest : List Nat} (h : s.Inv)
    (hlist : s.dispatching = id :: rest)
    (hs : s.enterLocked (unref (dispatchLocalWatchEvent id)) (fun _ =>
      { s with dispatching := rest, calling := id :: s.calling }) = some s') :
    Steps .callback s s' := by
  obtain ⟨hscan, _, r, hd, _, rfl⟩ := enterLocked_ran (P := WatchAction.callback.Allows)
    (Ran.calm trivial (calm_dispatch id)) hs
  have hguest := h.dom0 hd rfl
  have hdispatching := h.dispatching.does hd
  rw [hlist] at hdispatching
  refine ⟨hd, h.next hd (Or.inl hscan) hguest h.client
    (fun id' hid' => hdispatching id' (List.mem_cons_of_mem _ hid')) (fun id' hid' => ?_)
    (h.locals hd), fun _ _ => rfl⟩
  rcases List.mem_cons.mp hid' with rfl | hid'
  · exact hdispatching id' List.mem_cons_self
  · exact hd.known (h.calling id' hid')

theorem steps_callbackReturned {id : Nat} {rest : List Nat} (h : s.Inv)
    (hlist : s.calling = id :: rest)
    (hs : s.enterLocked (watchEntryPut id) (fun _ => { s with calling := rest }) = some s') :
    Steps .callbackReturned s s' := by
  have hknown : s.registry.KnownAs id none := h.calling id (by rw [hlist]; exact List.mem_cons_self)
  obtain ⟨hscan, _, r, hd, _, rfl⟩ := enterLocked_ran (P := WatchAction.callbackReturned.Allows)
    (Ran.modify (c := .drop id) trivial (.drop hknown)) hs
  have hguest := h.dom0 hd rfl
  have hcalling := h.calling.does hd
  rw [hlist] at hcalling
  exact ⟨hd, h.next hd (Or.inl hscan) hguest h.client (h.dispatching.does hd)
    (fun id' hid' => hcalling id' (List.mem_cons_of_mem _ hid')) (h.locals hd), fun _ _ => rfl⟩

theorem steps_look {domid : UInt32} {path : CString} {token : Bytes} {isRelative : Bool}
    (h : s.Inv) (hs : s.stepLook domid path token isRelative = some s') :
    Steps (.look domid path token isRelative) s s' := by
  unfold stepLook at hs
  split at hs
  · cases hs
  · refine steps_guest h rfl (ran_lookWatch fun _ hd hk => ⟨hd, hk, rfl⟩) hs
      fun found r hd hfound => ?_
    cases found with
    | some w => exact ⟨_, rfl, (hfound w rfl).1, hd.told⟩
    | none => exact ⟨_, rfl, hd.told⟩

theorem steps_insert {domid : UInt32} (h : s.Inv) (hs : s.stepInsert domid = some s') :
    Steps (.insert domid) s s' := by
  unfold stepInsert at hs
  split at hs
  · rename_i path token isRelative began hpc
    have hbegan := h.guest domid
    rw [hpc] at hbegan
    refine steps_guest h rfl (ran_createWatch trivial fun _ hw _ _ => hw) hs
      fun made r hd hmade => ?_
    cases made with
    | some w => exact ⟨_, rfl, (hmade w rfl).1, Nat.le_trans hbegan hd.told⟩
    | none => exact ⟨_, rfl, trivial⟩
  · cases hs

theorem steps_initial {domid : UInt32} (h : s.Inv) (hs : s.stepInitial domid = some s') :
    Steps (.initial domid) s s' := by
  unfold stepInitial at hs
  split at hs
  · rename_i wentry path began hpc
    have hlinked := h.guest domid
    rw [hpc] at hlinked
    exact steps_guest h rfl (ran_initialEvent trivial rfl trivial hlinked.1) hs
      fun _ _ _ _ => ⟨_, rfl, trivial⟩
  · cases hs

theorem steps_cleanupEvents {domid : UInt32} (h : s.Inv)
    (hs : s.stepCleanupEvents domid = some s') : Steps (.cleanupEvents domid) s s' := by
  unfold stepCleanupEvents at hs
  split at hs
  · have htake : ∀ e : PendingWatchEvent, e.domain = domid →
        (WatchAction.cleanupEvents domid).Allows (.take e) := fun _ he => he
    obtain ⟨_, r, hd, _, rfl⟩ := enter_ran (ran_cleanupEvents htake) hs
    exact ⟨hd, h.next hd (Or.inr fun _ hw => hw) (h.update hd rfl .idle trivial)
      h.client (h.dispatching.does hd) (h.calling.does hd) (h.locals hd), fun _ _ => rfl⟩
  · cases hs

theorem steps_process {domid : UInt32} (h : s.Inv)
    (hs : s.enterLocked (processPending (s.client domid)) (fun x => s.setClient domid x) =
      some s') :
    Steps (.process domid) s s' := by
  obtain ⟨hscan, x, r, hd, hx, rfl⟩ :=
    enterLocked_ran (P := (WatchAction.process domid).Allows)
      (ran_processPending trivial fun _ he => he.trans (h.client domid)) hs
  have hguest : ∀ domid', GuestOk r domid' (s.guest domid') := fun domid' =>
    (h.guest domid').does h.ordered hd fun c hc hrel => by
      cases c <;> first | exact hc | cases hrel
  refine ⟨hd, h.next hd (Or.inl hscan) hguest (fun domid' => ?_) (h.dispatching.does hd)
    (h.calling.does hd) (h.locals hd), fun domid' hne => ?_⟩
  · by_cases hd' : domid' = domid
    · subst hd'
      simp only [setClient, Function.update_self]
      exact hx.trans (h.client domid')
    · simp only [setClient, Function.update_of_ne hd']
      exact h.client domid'
  · exact Function.update_of_ne (fun heq => hne (congrArg some heq.symm)) _ _

theorem steps_client {domid : UInt32} {x : Xenstore} (h : s.Inv) (hx : x.domid = domid) :
    Steps (.client domid x) s (s.setClient domid x) := by
  refine ⟨.refl _, { h with client := fun domid' => ?_ }, fun domid' hne => ?_⟩
  · by_cases hd' : domid' = domid
    · subst hd'
      simp only [setClient, Function.update_self]
      exact hx
    · simp only [setClient, Function.update_of_ne hd']
      exact h.client domid'
  · exact Function.update_of_ne (fun heq => hne (congrArg some heq.symm)) _ _

theorem steps_localInsert {thread : Nat} (h : s.Inv) (hs : s.stepLocalInsert thread = some s') :
    Steps (.localInsert thread) s s' := by
  unfold stepLocalInsert at hs
  split at hs
  · obtain ⟨hscan, made, r, hd, hmade, rfl⟩ :=
      enterLocked_ran (P := (WatchAction.localInsert thread).Allows)
        (ran_createLocal trivial (fun _ hw _ _ => hw) fun _ => trivial) hs
    have hguest := h.dom0 hd rfl
    cases made with
    | error e =>
      exact ⟨hd, h.next hd (Or.inl hscan) hguest h.client (h.dispatching.does hd)
        (h.calling.does hd) (h.updateLocal hd thread .idle trivial), fun _ _ => rfl⟩
    | ok made =>
      refine ⟨hd, h.next hd (Or.inl hscan) hguest h.client (fun id hid => ?_) (h.calling.does hd)
        (h.updateLocal hd thread (.registered _ _ _) trivial), fun _ _ => rfl⟩
      rcases List.mem_append.mp hid with hid | hid
      · exact hmade made rfl id hid
      · exact hd.known (h.dispatching id hid)
  · cases hs

theorem steps {a : WatchAction} (h : s.Inv) (hs : s.step a = some s') : Steps a s s' := by
  cases a with
  | notify path deadline => exact steps_begin h rfl (ran_beginNotify trivial) hs
  | remove key callerId deadline => exact steps_begin h rfl (ran_beginRemove trivial) hs
  | round =>
    simp only [step] at hs
    split at hs
    · exact steps_round h ‹_› hs
    · cases hs
  | callback =>
    simp only [step] at hs
    split at hs
    · exact steps_callback h ‹_› hs
    · cases hs
  | callbackReturned =>
    simp only [step] at hs
    split at hs
    · exact steps_callbackReturned h ‹_› hs
    · cases hs
  | look domid path token isRelative => exact steps_look h hs
  | insert domid => exact steps_insert h hs
  | initial domid => exact steps_initial h hs
  | unwatch domid path token =>
    simp only [step] at hs
    split at hs
    · cases hs
    · exact steps_guest h rfl (ran_removeWatch fun _ hw => hw) hs fun _ _ _ _ => ⟨_, rfl, trivial⟩
  | cleanupWatches domid =>
    simp only [step] at hs
    split at hs
    · cases hs
    · refine steps_guest h rfl (ran_cleanupWatches h.ordered fun _ hw => hw) hs
        fun _ r _ hr => ⟨_, rfl, fun id hl => ?_⟩
      obtain ⟨w, hw, _, hdomain, hlinked⟩ := hl
      exact hr w (List.mem_filter.mpr ⟨hw, hlinked⟩) hdomain
  | cleanupEvents domid => exact steps_cleanupEvents h hs
  | process domid =>
    simp only [step] at hs
    split at hs
    · cases hs
    · exact steps_process h hs
  | client domid x =>
    simp only [step] at hs
    split at hs
    · cases hs
      exact steps_client h (And.left ‹_›)
    · cases hs
  | write path data domid perms deadline =>
    exact steps_plain h rfl (Ran.calm trivial (calm_write _ _ _ _ _)) hs
      fun _ r hd => ⟨_, rfl, h.locals hd⟩
  | store root =>
    refine steps_plain h rfl (Ran.calm (Q := fun _ => True) trivial ?_) hs
      fun _ r hd => ⟨_, rfl, h.locals hd⟩
    exact calm_modify fun _ => ⟨rfl, rfl⟩
  | localCheck thread path token deadline =>
    simp only [step, stepLocalCheck] at hs
    split at hs
    · cases hs
    · refine steps_plain h rfl (ran_checkPath trivial) hs fun b r hd => ?_
      cases b with
      | error e => exact ⟨_, rfl, h.updateLocal hd thread .idle trivial⟩
      | ok b => exact ⟨_, rfl, h.updateLocal hd thread (.checked _) hd.told⟩
  | localLook thread =>
    simp only [step, stepLocalLook] at hs
    split at hs
    · rename_i call hpc
      have hbegan := h.localThread thread
      rw [hpc] at hbegan
      refine steps_plain h rfl (ran_lookLocal trivial) hs fun rc r hd => ?_
      cases rc with
      | some e => exact ⟨_, rfl, h.updateLocal hd thread .idle trivial⟩
      | none =>
        exact ⟨_, rfl, h.updateLocal hd thread (.looked call) (Nat.le_trans hbegan hd.told)⟩
    · cases hs
  | localInsert thread => exact steps_localInsert h hs
  | localUnwatch path token deadline =>
    exact steps_plain h rfl (ran_removeLocal trivial fun _ hw => hw) hs
      fun _ r hd => ⟨_, rfl, h.locals hd⟩

theorem step_inv {a : WatchAction} (h : s.Inv) (hs : s.step a = some s') : s'.Inv :=
  (steps h hs).inv

end Steps

end WatchServer

end Xenlib
