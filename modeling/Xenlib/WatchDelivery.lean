import Xenlib.WatchCleanup
import Xenlib.Replies

/-!
What becomes of the events queued for a domain. All domains share one list, which the thread of
each goes through for its own events, and it stops where the output of its client is full.
-/

set_option autoImplicit false

namespace Xenlib

open Wp Machine

namespace WatchRegistry

def queuedFor (r : WatchRegistry) (domid : UInt32) : List PendingWatchEvent :=
  r.queued.filter fun e => e.domain = domid

def pendingFor (r : WatchRegistry) (domid : UInt32) : List PendingWatchEvent :=
  r.shared.pendingWatchEventList.filter fun e => e.domain = domid

/-- Those that are gone from the list, with their watches as they were then. -/
def takenFor (r : WatchRegistry) (domid : UInt32) : List (PendingWatchEvent × WatchEntry) :=
  r.taken.filter fun t => t.1.domain = domid

/-- Those whose watch was registered when they were processed. -/
def dueFor (r : WatchRegistry) (domid : UInt32) : List (PendingWatchEvent × WatchEntry) :=
  (r.takenFor domid).filter fun t => t.2.linked

/-- Nothing queued for the domain is lost, duplicated or out of order. -/
def Accounted (r : WatchRegistry) (domid : UInt32) : Prop :=
  r.queuedFor domid = (r.takenFor domid).map Prod.fst ++ r.pendingFor domid

variable {r r' : WatchRegistry} {domid : UInt32}

theorem Counted.find (h : r.Counted) {e : PendingWatchEvent}
    (he : e ∈ r.shared.pendingWatchEventList) :
    ∃ w, r.shared.watches.find? (fun w => w.id = e.watch) = some w ∧ w ∈ r.shared.watches ∧
      w.id = e.watch ∧ w.domain = some e.domain := by
  obtain ⟨v, hv, hid, hdomain⟩ := h.known e he
  cases hfind : r.shared.watches.find? (fun w => w.id = e.watch) with
  | none => exact absurd hid (by simpa using List.find?_eq_none.mp hfind v hv)
  | some w =>
    have hw := List.mem_of_find?_eq_some hfind
    have hwid : w.id = e.watch := by simpa using List.find?_some hfind
    obtain rfl := h.ordered.unique hv hw (hid.trans hwid.symm)
    exact ⟨v, rfl, hw, hid, hdomain⟩

theorem takeTo_taken {e : PendingWatchEvent} {w : WatchEntry} (pending : List PendingWatchEvent)
    (h : r.shared.watches.find? (fun w => w.id = e.watch) = some w) :
    (r.takeTo e pending).taken = r.taken ++ [(e, w)] := by
  show r.taken ++ _ = _
  rw [h]
  rfl

theorem Accounted.take (h : r.Accounted domid) (hr : r.Counted) {e : PendingWatchEvent}
    {before after : List PendingWatchEvent}
    (hp : r.shared.pendingWatchEventList = before ++ e :: after)
    (hbefore : ∀ e' ∈ before, e'.domain ≠ e.domain) :
    (r.takeTo e (before ++ after)).Accounted domid := by
  have he : e ∈ r.shared.pendingWatchEventList := by
    rw [hp]
    exact List.mem_append_right _ List.mem_cons_self
  obtain ⟨w, hw, -⟩ := hr.find he
  have htaken := takeTo_taken (before ++ after) hw
  unfold Accounted queuedFor takenFor pendingFor at h ⊢
  rw [htaken]
  show r.queued.filter _ = _ ++ (before ++ after).filter _
  rw [h, hp]
  simp only [List.filter_append, List.map_append, List.append_assoc]
  congr 1
  by_cases hd : e.domain = domid
  · -- the first event of the domain in the list
    have hnone : before.filter (fun e => decide (e.domain = domid)) = [] := by
      rw [List.filter_eq_nil_iff]
      intro e' he'
      simpa [hd] using hbefore e' he'
    simp [hnone, hd]
  · simp [hd]

theorem Accounted.makes (h : r.Accounted domid) (hr : r.Counted) {c : Change}
    (hm : Makes c r r') : r'.Accounted domid := by
  cases hm with
  | quiet hs =>
    unfold Accounted queuedFor takenFor pendingFor at h ⊢
    rw [hs.same.queued, hs.same.taken, hs.same.pending]
    exact h
  | @queue _ e _ =>
    unfold Accounted queuedFor takenFor pendingFor at h ⊢
    show (r.queued ++ [e]).filter _ = _ ++ (r.shared.pendingWatchEventList ++ [e]).filter _
    rw [List.filter_append, List.filter_append, h, List.append_assoc]
    rfl
  | take hp hbefore => exact h.take hr hp hbefore
  | reform _ | insert _ _ | bounce _ | unlink _ | hold _ | drop _ => exact h

theorem dueFor_makes {c : Change} (hm : Makes c r r')
    (hc : ∀ e, c = .take e → e.domain ≠ domid) : r'.dueFor domid = r.dueFor domid := by
  cases hm with
  | quiet hs =>
    unfold dueFor takenFor
    rw [hs.same.taken]
  | @take _ e before after _ _ =>
    unfold dueFor takenFor
    show (List.filter _ (r.taken ++ _)).filter _ = _
    rw [List.filter_append]
    have hnone : List.filter (fun t : PendingWatchEvent × WatchEntry => decide (t.1.domain = domid))
        ((r.shared.watches.find? fun w => w.id = e.watch).toList.map fun w => (e, w)) = [] := by
      rw [List.filter_eq_nil_iff]
      intro t ht
      obtain ⟨w, _, rfl⟩ := List.mem_map.mp ht
      simpa using hc e rfl
    rw [hnone, List.append_nil]
  | reform _ | insert _ _ | queue _ | bounce _ | unlink _ | hold _ | drop _ => rfl

theorem dueFor_drop (hr : r.Counted) {e : PendingWatchEvent}
    {before after : List PendingWatchEvent}
    (hp : r.shared.pendingWatchEventList = before ++ e :: after)
    (hnone : r.NoWatch e.domain) :
    (r.takeTo e (before ++ after)).dueFor domid = r.dueFor domid := by
  obtain ⟨w, hw, hmem, hid, hdomain⟩ :=
    hr.find (e := e) (by rw [hp]; exact List.mem_append_right _ List.mem_cons_self)
  have hunlinked : w.linked = false := by
    cases hl : w.linked with
    | true => exact absurd ⟨w, hmem, hid, hdomain, hl⟩ (hnone e.watch)
    | false => rfl
  unfold dueFor takenFor
  rw [takeTo_taken _ hw, List.filter_append, List.filter_append]
  simp [List.filter_cons, hunlinked]

end WatchRegistry

/-- The watch events that a client was sent are these, one for one and in this order. -/
def Xenstore.Got (x : Xenstore) (due : List (PendingWatchEvent × WatchEntry)) : Prop :=
  List.Forall₂ (fun m t => watchEventPayload t.2 t.1.eventPath x.domid = .ok m.payload) x.events due

theorem Xenstore.events_push (x : Xenstore) {m : Message} (hm : m.type = .watchEvent) :
    (x.push m).events = x.events ++ [m] := by
  show (x.queued ++ [m]).filter _ = _
  rw [List.filter_append, List.filter_cons_of_pos (by simp [hm]), List.filter_nil]
  rfl

theorem Answered.events {x x' : Xenstore} {id : UInt32} {type : XsdSockmsgType}
    (h : Answered x id type x') (htype : type ≠ .watchEvent) : x'.events = x.events := by
  obtain ⟨m, transaction, running, ⟨_, hm⟩, rfl⟩ := h
  have hne : m.type ≠ .watchEvent := by
    rcases hm with hm | hm
    · rw [hm]
      exact htype
    · rw [hm]
      decide
  show (x.queued ++ [m]).filter _ = _
  rw [List.filter_append, List.filter_cons_of_neg (by simpa using hne), List.filter_nil,
    List.append_nil]
  rfl

/-- What `fire_watcher` makes of an event that it does not keep. -/
inductive Fired (s : Shared) (x : Xenstore) (e : PendingWatchEvent) : Xenstore → Prop where
  | forgotten (h : s.watches.find? (fun w => w.id = e.watch) = none) : Fired s x e x
  | unlinked (w : WatchEntry) (h : s.watches.find? (fun w => w.id = e.watch) = some w)
      (hl : w.linked = false) : Fired s x e x
  | sent (w : WatchEntry) (m : Message)
      (h : s.watches.find? (fun w => w.id = e.watch) = some w) (hl : w.linked = true)
      (hm : m.type = .watchEvent)
      (hp : watchEventPayload w e.eventPath x.domid = .ok m.payload) : Fired s x e (x.push m)

theorem wp_fireWatcher_fired {s : Shared} {x : Xenstore} {e : PendingWatchEvent}
    (hallocs : s.allocs = []) (hd : e.domain = x.domid) (hfits : EventFits s x.domid e) :
    wp (fireWatcher x e)
      (fun a s' => s' = s ∧ (a.2.isSome → a.1 = x) ∧ (a.2 = none → Fired s x e a.1))
      (fun _ => True) s := by
  unfold fireWatcher
  simp only [wp_bind, wp_get]
  cases hw : s.watches.find? fun w => w.id = e.watch with
  | none => exact ⟨rfl, fun _ => rfl, fun _ => .forgotten hw⟩
  | some w =>
    refine wp_ite (fun hl => ⟨rfl, fun _ => rfl, fun _ => .unlinked w hw (by simpa using hl)⟩)
      fun hl => ?_
    refine wp_ite (fun _ => trivial) fun _ => ?_
    refine wp_ite (fun _ => ⟨rfl, fun _ => rfl, fun h => by cases h⟩) fun hlim => ?_
    rw [wp_bind]
    refine wp_lift (fun data hdata => ?_) fun _ _ => trivial
    have hlinked : w.linked = true := by simpa using hl
    have hsize := hfits hd w hw hlinked data (by rw [hdata]; rfl)
    rw [wp_bind]
    refine wp_of_ok (alloc_nil hallocs kMalloc_nil) ?_
    show wp (sendReplySz x 0 .watchEvent data >>= _) _ _ s
    rw [wp_bind]
    refine wp_sendReplySz (by omega) (fun m rest hrest hm => ?_) (fun rest hrest hfalse => ?_)
    · rw [allocs_same hallocs hrest]
      obtain ⟨htype, hpayload⟩ := hm.fits hsize
      refine ⟨rfl, fun hsome => (Bool.noConfusion hsome), fun _ => ?_⟩
      exact .sent w m hw hlinked htype (by rw [hdata, hpayload])
    · rw [hallocs] at hfalse
      cases hfalse

theorem Fired.got {r : WatchRegistry} {x x' : Xenstore} {e : PendingWatchEvent}
    (pending : List PendingWatchEvent) (h : Fired r.shared x e x') (hd : e.domain = x.domid)
    (hgot : x.Got (r.dueFor x.domid)) :
    x'.domid = x.domid ∧ x'.Got ((r.takeTo e pending).dueFor x.domid) := by
  unfold WatchRegistry.dueFor WatchRegistry.takenFor at hgot ⊢
  cases h with
  | forgotten h =>
    have htaken : (r.takeTo e pending).taken = r.taken := by
      show r.taken ++ _ = _
      rw [h]
      exact List.append_nil _
    rw [htaken]
    exact ⟨rfl, hgot⟩
  | unlinked w h hl =>
    rw [WatchRegistry.takeTo_taken _ h, List.filter_append, List.filter_append]
    simp only [List.filter_cons, hd, hl, decide_true, if_true, List.filter_nil, Bool.false_eq_true,
      if_false, List.append_nil]
    exact ⟨trivial, hgot⟩
  | sent w m h hl hm hp =>
    rw [WatchRegistry.takeTo_taken _ h, List.filter_append, List.filter_append]
    simp only [List.filter_cons, hd, hl, decide_true, if_true, List.filter_nil]
    refine ⟨rfl, ?_⟩
    unfold Xenstore.Got
    rw [x.events_push hm]
    exact List.rel_append hgot (.cons hp .nil)

theorem wp_pendingRounds {r : WatchRegistry} {x : Xenstore}
    {before events : List PendingWatchEvent} (hallocs : r.shared.allocs = [])
    (h : r.shared.pendingWatchEventList = before ++ events)
    (hbefore : ∀ e ∈ before, e.domain ≠ x.domid)
    (hfits : ∀ e ∈ events, EventFits r.shared x.domid e) (hgot : x.Got (r.dueFor x.domid)) :
    wp (pendingRounds events x) (fun x' r' => x'.domid = x.domid ∧ x'.Got (r'.dueFor x.domid))
      (fun _ => True) r := by
  induction events generalizing r x before with
  | nil => exact ⟨rfl, hgot⟩
  | cons e rest ih =>
    have hrest : ∀ e' ∈ rest, EventFits r.shared x.domid e' :=
      fun e' he' => hfits e' (List.mem_cons_of_mem _ he')
    unfold pendingRounds
    refine wp_ite (fun he => ?_) fun he => ?_
    · exact ih hallocs (h.trans (List.append_cons before e rest)) (others_append hbefore he) hrest
        hgot
    · have hd : e.domain = x.domid := Decidable.not_not.mp he
      rw [wp_bind, wp_unref]
      refine wp_conseq (wp_fireWatcher_fired hallocs hd (hfits e List.mem_cons_self)) ?_
      rintro ⟨x', rc⟩ s' ⟨rfl, hkept, hfired⟩
      cases rc with
      | some e' =>
        obtain rfl : x' = x := hkept rfl
        exact ⟨rfl, hgot⟩
      | none =>
        obtain ⟨hdomid, hgot'⟩ := (hfired rfl).got (before ++ rest) hd hgot
        have htake := ran_takeEvent (P := fun _ => True) trivial h (by rw [hd]; exact hbefore)
        rw [wp_bind]
        refine wp_conseq htake ?_
        rintro _ _ ⟨-, rfl⟩
        rw [← hdomid] at hbefore hrest hgot' ⊢
        exact ih hallocs rfl hbefore hrest hgot'

theorem wp_processPending {r : WatchRegistry} {x : Xenstore} (hallocs : r.shared.allocs = [])
    (hfits : ∀ e ∈ r.shared.pendingWatchEventList, EventFits r.shared x.domid e)
    (hgot : x.Got (r.dueFor x.domid)) :
    wp (processPending x) (fun x' r' => x'.domid = x.domid ∧ x'.Got (r'.dueFor x.domid))
      (fun _ => True) r := by
  unfold processPending
  rw [wp_bind, wp_get]
  exact wp_pendingRounds hallocs (List.nil_append _).symm
    (fun _ hmem => (List.not_mem_nil hmem).elim) hfits hgot

namespace WatchServer

/-- Allocations succeed and events fit into one message where events are processed. -/
def Deliverable (s : WatchServer) : WatchAction → Prop
  | .process domid => s.registry.shared.allocs = [] ∧
      ∀ e ∈ s.registry.shared.pendingWatchEventList, EventFits s.registry.shared domid e
  | _ => True

structure Delivered (s : WatchServer) : Prop where
  inv : s.Inv
  counted : s.registry.Counted
  accounted : ∀ domid, s.registry.Accounted domid
  got : ∀ domid, (s.client domid).Got (s.registry.dueFor domid)

theorem Start.delivered {s : WatchServer} (h : s.Start) : s.Delivered where
  inv := h.inv
  counted := h.counted
  accounted := fun domid => by
    unfold WatchRegistry.Accounted WatchRegistry.queuedFor WatchRegistry.takenFor
      WatchRegistry.pendingFor
    rw [h.queued, h.taken, h.pending]
    rfl
  got := fun domid => by
    unfold Xenstore.Got WatchRegistry.dueFor WatchRegistry.takenFor
    rw [(h.client domid).2, h.taken]
    exact .nil

section Step
variable {s s' : WatchServer} {a : WatchAction}

theorem dueFor_step (hi : s.Inv) (hs : s.step a = some s') {domid : UInt32}
    (ha : ∀ e, a.Allows (.take e) → e.domain ≠ domid) :
    s'.registry.dueFor domid = s.registry.dueFor domid := by
  refine (steps hi hs).does.keeps
    (I := fun r => r.dueFor domid = s.registry.dueFor domid) (fun c r r' hc hm hr => ?_) rfl
  refine (WatchRegistry.dueFor_makes hm fun e he => ha e ?_).trans hr
  rwa [← he]

theorem dueFor_cleanup (h : s.Delivered) {domid : UInt32}
    (hs : s.step (.cleanupEvents domid) = some s') :
    s'.registry.dueFor domid = s.registry.dueFor domid := by
  have hguest := h.inv.guest domid
  have hdoes := (steps h.inv hs).does
  simp only [step, stepCleanupEvents] at hs
  split at hs
  · rename_i hpc
    rw [hpc] at hguest
    refine (hdoes.keeps (I := fun r => (r.Counted ∧ r.NoWatch domid) ∧
      r.dueFor domid = s.registry.dueFor domid) ?_ ⟨⟨h.counted, hguest⟩, rfl⟩).2
    rintro c r r' hc hm ⟨⟨hcounted, hnone⟩, hdue⟩
    have hrel : c.relinks ≠ some domid := by
      intro hrel
      cases c with
      | insert _ | unlink _ => exact hc
      | quiet | reform _ _ | queue _ | bounce _ | take _ | hold _ | drop _ => cases hrel
    refine ⟨⟨hm.counted hcounted, fun id hl => hnone id (hm.linked_before hrel hl)⟩, ?_⟩
    cases hm with
    | take hp _ =>
      obtain rfl : _ = domid := hc
      exact (WatchRegistry.dueFor_drop hcounted hp hnone).trans hdue
    | quiet hs => exact (WatchRegistry.dueFor_makes (.quiet hs) fun _ he => by cases he).trans hdue
    | reform _ | insert _ _ | queue _ | bounce _ | unlink _ | hold _ | drop _ => exact hc.elim
  · cases hs

theorem got_process (h : s.Delivered) {domid : UInt32} (hc : s.Deliverable (.process domid))
    (hs : s.step (.process domid) = some s') :
    (s'.client domid).Got (s'.registry.dueFor domid) := by
  simp only [step] at hs
  split at hs
  · cases hs
  · have hdomid := h.inv.client domid
    have hgot := h.got domid
    obtain ⟨hallocs, hfits⟩ := hc
    rw [← hdomid] at hfits
    obtain ⟨_, x, r, ⟨_, hx⟩, rfl⟩ := enterLocked_wp
      (wp_processPending hallocs hfits (by rw [hdomid]; exact hgot)) hs
    rw [hdomid] at hx
    simpa only [setClient, Function.update_self] using hx

theorem got_step (h : s.Delivered) (hc : s.Deliverable a) (hs : s.step a = some s')
    (domid : UInt32) : (s'.client domid).Got (s'.registry.dueFor domid) := by
  obtain ⟨hdoes, hinv, hclients⟩ := steps h.inv hs
  -- steps that serve another client, or none, and take no event of this domain
  have hother : a.serves ≠ some domid → (∀ e, a.Allows (.take e) → e.domain ≠ domid) →
      (s'.client domid).Got (s'.registry.dueFor domid) := by
    intro hserves htake
    rw [hclients domid hserves, dueFor_step h.inv hs htake]
    exact h.got domid
  cases a with
  | process domid' =>
    by_cases hd : domid' = domid
    · subst hd
      exact got_process h hc hs
    · refine hother (fun heq => hd (Option.some.inj heq)) fun e he heq => hd (he.symm.trans heq)
  | cleanupEvents domid' =>
    by_cases hd : domid' = domid
    · subst hd
      rw [hclients domid' (fun heq => by cases heq), dueFor_cleanup h hs]
      exact h.got domid'
    · exact hother (fun heq => by cases heq) fun e he heq => hd (he.symm.trans heq)
  | client domid' x =>
    by_cases hd : domid' = domid
    · subst hd
      rw [dueFor_step h.inv hs fun e he => he.elim]
      have hgot := h.got domid'
      unfold Xenstore.Got at hgot ⊢
      rw [h.inv.client domid'] at hgot
      rw [hinv.client domid']
      simp only [step] at hs
      split at hs
      · rename_i hx
        cases hs
        simpa only [setClient, Function.update_self, hx.2] using hgot
      · cases hs
    · exact hother (fun heq => hd (Option.some.inj heq)) fun e he => he.elim
  | _ => exact hother (fun heq => by cases heq) fun e he => he.elim

theorem delivered_step (h : s.Delivered) (hc : s.Deliverable a) (hs : s.step a = some s') :
    s'.Delivered := by
  obtain ⟨hdoes, hinv, _⟩ := steps h.inv hs
  refine ⟨hinv, hdoes.keeps (fun _ _ _ _ hm => hm.counted) h.counted, fun domid => ?_,
    got_step h hc hs⟩
  refine (hdoes.keeps (I := fun r => r.Counted ∧ r.Accounted domid) ?_
    ⟨h.counted, h.accounted domid⟩).2
  intro c r r' _ hm hr
  exact ⟨hm.counted hr.1, hr.2.makes hr.1 hm⟩

end Step

def pendingOthers (s : WatchServer) (domid : UInt32) : List PendingWatchEvent :=
  s.registry.shared.pendingWatchEventList.filter fun e => e.domain ≠ domid

theorem pendingOthers_process {s s' : WatchServer} {domid : UInt32} (hi : s.Inv)
    (hs : s.step (.process domid) = some s') : s'.pendingOthers domid = s.pendingOthers domid := by
  refine (steps hi hs).does.keeps (I := fun r =>
    r.shared.pendingWatchEventList.filter (fun e => e.domain ≠ domid) = s.pendingOthers domid)
    (fun c r r' hc hm hr => ?_) rfl
  cases hm with
  | quiet hsame =>
    rw [hsame.same.pending]
    exact hr
  | take hp _ => exact (WatchRegistry.sameOthers_take hp hc).pending.trans hr
  | reform _ | insert _ _ | queue _ | bounce _ | unlink _ | hold _ | drop _ => exact hc.elim

/-- The watch events sent to a domain are those queued for it, in their order and each once,
without those whose watch was gone when they were taken off the list; what is not taken yet comes
last. The thread of a domain leaves the events of others in the list as they are. -/
theorem watch_events_delivered {s s' : WatchServer} {as : List WatchAction} (hs : s.Start)
    (hc : Along step Deliverable s as) (h : run step s as = some s') (domid : UInt32) :
    s'.registry.queued.filter (fun e => e.domain = domid) =
      (s'.registry.taken.filter fun t => t.1.domain = domid).map Prod.fst ++
        s'.registry.shared.pendingWatchEventList.filter (fun e => e.domain = domid) ∧
    List.Forall₂ (fun m t => watchEventPayload t.2 t.1.eventPath domid = .ok m.payload)
      (s'.client domid).events
      ((s'.registry.taken.filter fun t => t.1.domain = domid).filter fun t => t.2.linked) ∧
    ∀ s'', s'.step (.process domid) = some s'' →
      s''.pendingOthers domid = s'.pendingOthers domid := by
  have hdelivered : s'.Delivered :=
    run_invariant (fun _ _ _ hd hc hstep => delivered_step hd hc hstep) hs.delivered hc h
  have hgot := hdelivered.got domid
  unfold Xenstore.Got at hgot
  rw [hdelivered.inv.client domid] at hgot
  exact ⟨hdelivered.accounted domid, hgot,
    fun s'' h'' => pendingOthers_process hdelivered.inv h''⟩

/-- Domain 1 watches "/a" twice. After two changes there it takes the first watch back, and then
its events are processed. -/
def twoWatches : List WatchAction :=
  [.look 1 (ascii ['/', 'a']) [116, 0] false, .insert 1, .initial 1,
   .look 1 (ascii ['/', 'a']) [117, 0] false, .insert 1, .initial 1,
   .notify (ascii ['/', 'a']) .forever, .round, .round, .round,
   .unwatch 1 (ascii ['/', 'a']) [116, 0], .process 1]

instance (s : WatchServer) (a : WatchAction) : Decidable (s.Deliverable a) :=
  match a with
  | .process _ => inferInstanceAs (Decidable (_ ∧ _))
  | .notify _ _ | .remove _ _ _ | .round | .callback | .callbackReturned | .look _ _ _ _
  | .insert _ | .initial _ | .unwatch _ _ _ | .cleanupWatches _ | .cleanupEvents _ | .client _ _
  | .write _ _ _ _ _ | .store _ | .localCheck _ _ _ _ | .localLook _ | .localInsert _
  | .localUnwatch _ _ _ => isTrue trivial

theorem watch_events_delivered_twice : ∃ s,
    run step (fresh ownedByOne) twoWatches = some s ∧
    (s.client 1).events.map Message.payload = [[47, 97, 0, 117, 0], [47, 97, 0, 117, 0]] ∧
    s.registry.queued.filter (fun e => e.domain = 1) =
      (s.registry.taken.filter fun t => t.1.domain = 1).map Prod.fst ++
        s.registry.shared.pendingWatchEventList.filter (fun e => e.domain = 1) := by
  have hvals : (run step (fresh ownedByOne) twoWatches).map
      (fun s => (s.client 1).events.map Message.payload) =
      some [[47, 97, 0, 117, 0], [47, 97, 0, 117, 0]] := by
    decide +kernel
  obtain ⟨s, hrun, hs⟩ := Option.map_eq_some_iff.mp hvals
  have hc : Along step Deliverable (fresh ownedByOne) twoWatches := by decide +kernel
  exact ⟨s, hrun, hs, (watch_events_delivered (fresh_start ownedByOne) hc hrun 1).1⟩

end WatchServer

end Xenlib
