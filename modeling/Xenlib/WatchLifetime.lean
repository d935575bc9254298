import Xenlib.WatchSteps

/-!
How long the watches of guests live. A watch has one reference for its place on the list and
one for each event that points to it, and it is destroyed when the last of them is given back.
-/

set_option autoImplicit false

namespace Xenlib

open Wp Machine

/-- The watch has `n` references, and it was destroyed once if there are none. -/
def Balanced (r : WatchRegistry) (id n : Nat) : Prop :=
  r.refs id = n ∧ r.destroyed.count id = if n = 0 then 1 else 0

section Balanced
variable {r r' : WatchRegistry} {id other n : Nat}

theorem Balanced.congr (h : Balanced r id n) (hrefs : r'.refs = r.refs)
    (hdestroyed : r'.destroyed = r.destroyed) : Balanced r' id n := by
  unfold Balanced
  rw [hrefs, hdestroyed]
  exact h

theorem Balanced.get (h : Balanced r id (n + 1)) : Balanced (r.getRef id) id (n + 2) := by
  refine ⟨?_, h.2⟩
  simp only [WatchRegistry.getRef, Function.update_self, h.1]

theorem Balanced.put (h : Balanced r id (n + 1)) : Balanced (r.putRef id) id n := by
  obtain ⟨hrefs, hcount⟩ := h
  rw [if_neg (Nat.succ_ne_zero n)] at hcount
  refine ⟨?_, ?_⟩
  · simp only [WatchRegistry.putRef, Function.update_self, hrefs, Nat.add_sub_cancel]
  · unfold WatchRegistry.putRef
    by_cases hn : n = 0
    · simp [hrefs, hcount, hn]
    · simp [hrefs, hcount, hn]

theorem Balanced.get_other (h : Balanced r id n) (hne : id ≠ other) :
    Balanced (r.getRef other) id n := by
  refine ⟨?_, h.2⟩
  simp only [WatchRegistry.getRef, Function.update_of_ne hne, h.1]

theorem Balanced.put_other (h : Balanced r id n) (hne : id ≠ other) :
    Balanced (r.putRef other) id n := by
  refine ⟨?_, ?_⟩
  · simp only [WatchRegistry.putRef, Function.update_of_ne hne, h.1]
  · rw [← h.2]
    unfold WatchRegistry.putRef
    dsimp only
    split
    · rw [List.count_append, List.count_singleton, if_neg (by simpa using hne.symm), Nat.add_zero]
    · rfl

end Balanced

namespace WatchRegistry

/-- There is a watch with this name, and it is on the list or not. -/
def Has (r : WatchRegistry) (id : Nat) (domain : Option UInt32) (linked : Bool) : Prop :=
  ∃ w ∈ r.shared.watches, w.id = id ∧ w.domain = domain ∧ w.linked = linked

def pointers (r : WatchRegistry) (id : Nat) : Nat :=
  r.shared.pendingWatchEventList.countP fun e => e.watch = id

structure Counted (r : WatchRegistry) : Prop where
  ordered : r.Ordered
  known : ∀ e ∈ r.shared.pendingWatchEventList, r.KnownAs e.watch (some e.domain)
  balanced : ∀ id domid linked, r.Has id (some domid) linked →
    Balanced r id (linked.toNat + r.pointers id)
  destroyed : ∀ id ∈ r.destroyed, id < r.shared.watches.length

section Has
variable {r r' : WatchRegistry} {id : Nat} {domain : Option UInt32} {linked : Bool}

theorem Same.has (h : r.Same r') : r'.Has id domain linked ↔ r.Has id domain linked := by
  have hbare : ∀ r : WatchRegistry, r.Has id domain linked ↔
      ∃ w ∈ r.shared.watches.map WatchEntry.bare,
        w.id = id ∧ w.domain = domain ∧ w.linked = linked := by
    intro r
    simp [Has, WatchEntry.bare]
  rw [hbare, hbare, h.watches]

theorem KnownAs.id_lt (h : r.KnownAs id domain) (hr : r.Ordered) :
    id < r.shared.watches.length := by
  obtain ⟨w, hw, rfl, _⟩ := h
  exact hr.id_lt hw

theorem KnownAs.has (h : r.KnownAs id domain) : ∃ linked, r.Has id domain linked := by
  obtain ⟨w, hw, hid, hdomain⟩ := h
  exact ⟨w.linked, w, hw, hid, hdomain, rfl⟩

theorem Has.known (h : r.Has id domain linked) : r.KnownAs id domain := by
  obtain ⟨w, hw, hid, hdomain, _⟩ := h
  exact ⟨w, hw, hid, hdomain⟩

theorem Has.unique (h : r.Has id domain linked) (hr : r.Ordered) {w : WatchEntry}
    (hw : w ∈ r.shared.watches) (hid : w.id = id) : w.domain = domain ∧ w.linked = linked := by
  obtain ⟨v, hv, hid', hdomain, hlinked⟩ := h
  obtain rfl := hr.unique hw hv (hid.trans hid'.symm)
  exact ⟨hdomain, hlinked⟩

theorem Has.not_local {domid : UInt32} (h : r.Has id (some domid) linked) (hr : r.Ordered)
    {other : Nat} (hlocal : r.KnownAs other none) : id ≠ other := by
  rintro rfl
  obtain ⟨w, hw, hid, hdomain⟩ := hlocal
  rw [(h.unique hr hw hid).1] at hdomain
  cases hdomain

end Has

section Counted
variable {r r' : WatchRegistry}

theorem mem_putRef_destroyed {id gone : Nat} (h : id ∈ (r.putRef gone).destroyed) :
    id ∈ r.destroyed ∨ id = gone := by
  unfold putRef at h
  dsimp only at h
  split at h
  · rcases List.mem_append.mp h with h | h
    · exact Or.inl h
    · exact Or.inr (List.mem_singleton.mp h)
  · exact Or.inl h

theorem Counted.same (h : r.Counted) (hs : r.Same r') : r'.Counted where
  ordered := h.ordered.same hs
  known := fun e he => by
    rw [hs.pending] at he
    exact hs.knownAs.mpr (h.known e he)
  balanced := fun id domid linked hw => by
    unfold pointers
    rw [hs.pending]
    exact (h.balanced id domid linked (hs.has.mp hw)).congr hs.refs hs.destroyed
  destroyed := fun id hid => by
    rw [hs.destroyed] at hid
    rw [hs.length]
    exact h.destroyed id hid

theorem Counted.fresh (h : r.Counted) :
    r.pointers r.shared.watches.length = 0 ∧ r.destroyed.count r.shared.watches.length = 0 := by
  refine ⟨List.countP_eq_zero.mpr fun e he => ?_, List.count_eq_zero.mpr fun hmem => ?_⟩
  · have := (h.known e he).id_lt h.ordered
    simp only [decide_eq_true_eq]
    omega
  · exact absurd (h.destroyed _ hmem) (Nat.lt_irrefl _)

theorem Counted.link (h : r.Counted) {w : WatchEntry} (hid : w.id = r.shared.watches.length)
    (hlinked : w.linked = true) : (r.link w).Counted where
  ordered := h.ordered.link hid
  known := fun e he => Makes.known (.insert hid hlinked) (h.known e he)
  balanced := by
    rintro id domid linked ⟨v, hv, rfl, hdomain, rfl⟩
    rcases List.mem_append.mp hv with hv | hv
    · have hne : v.id ≠ w.id := by
        have := h.ordered.id_lt hv
        omega
      obtain ⟨hrefs, hcount⟩ := h.balanced v.id domid v.linked ⟨v, hv, rfl, hdomain, rfl⟩
      refine ⟨?_, hcount⟩
      exact (Function.update_of_ne hne _ _).trans hrefs
    · cases List.mem_singleton.mp hv
      obtain ⟨hpointers, hcount⟩ := h.fresh
      rw [← hid] at hpointers hcount
      have hnone : (r.link w).pointers w.id = 0 := hpointers
      rw [hnone, hlinked]
      exact ⟨Function.update_self _ _ _, hcount⟩
  destroyed := fun id hid' => by
    have := h.destroyed id hid'
    simp only [WatchRegistry.link, List.length_append, List.length_singleton]
    omega

theorem pointers_queue (e : PendingWatchEvent) (id : Nat) :
    (r.queue e).pointers id = r.pointers id + if e.watch = id then 1 else 0 := by
  simp only [pointers, WatchRegistry.queue, List.countP_append, List.countP_singleton,
    decide_eq_true_eq]

theorem Counted.queue (h : r.Counted) {e : PendingWatchEvent}
    (hlinked : r.LinkedAs e.watch (some e.domain)) : (r.queue e).Counted where
  ordered := h.ordered
  known := fun e' he' => by
    rcases List.mem_append.mp he' with he' | he'
    · exact h.known e' he'
    · cases List.mem_singleton.mp he'
      exact hlinked.known
  balanced := fun id domid linked hw => by
    have hb := h.balanced id domid linked hw
    rw [pointers_queue]
    by_cases hid : e.watch = id
    · -- the watch is on the list, so it has a reference to begin with
      subst hid
      obtain ⟨v, hv, hvid, _, hvlinked⟩ := hlinked
      rw [(hw.unique h.ordered hv hvid).2.symm.trans hvlinked] at hb ⊢
      rw [Bool.toNat_true, Nat.add_comm] at hb
      have hget := hb.get
      rw [if_pos rfl, Bool.toNat_true]
      rw [show 1 + (r.pointers e.watch + 1) = r.pointers e.watch + 2 by omega]
      exact hget.congr rfl rfl
    · rw [if_neg hid, Nat.add_zero]
      exact (hb.get_other (Ne.symm hid)).congr rfl rfl
  destroyed := h.destroyed

theorem Counted.bounce (h : r.Counted) {id : Nat} {domid : UInt32}
    (hlinked : r.LinkedAs id (some domid)) : ((r.getRef id).putRef id).Counted where
  ordered := h.ordered
  known := h.known
  balanced := fun id' domid' linked hw => by
    have hb := h.balanced id' domid' linked hw
    by_cases hid : id' = id
    · subst hid
      obtain ⟨v, hv, hvid, _, hvlinked⟩ := hlinked
      obtain rfl : linked = true := (hw.unique h.ordered hv hvid).2.symm.trans hvlinked
      rw [Bool.toNat_true, Nat.add_comm] at hb ⊢
      exact hb.get.put
    · exact (hb.get_other hid).put_other hid
  destroyed := fun id' hid' => by
    rcases mem_putRef_destroyed hid' with hid' | rfl
    · exact h.destroyed id' hid'
    · exact hlinked.known.id_lt h.ordered

theorem Counted.hold (h : r.Counted) {id : Nat} (hlocal : r.KnownAs id none) :
    Counted { r.getRef id with told := r.told ++ [id] } where
  ordered := h.ordered
  known := h.known
  balanced := fun id' domid linked hw =>
    ((h.balanced id' domid linked hw).get_other (Has.not_local hw h.ordered hlocal)).congr rfl rfl
  destroyed := h.destroyed

theorem Counted.drop (h : r.Counted) {id : Nat} (hlocal : r.KnownAs id none) :
    (r.putRef id).Counted where
  ordered := h.ordered
  known := h.known
  balanced := fun id' domid linked hw =>
    (h.balanced id' domid linked hw).put_other (Has.not_local hw h.ordered hlocal)
  destroyed := fun id' hid' => by
    rcases mem_putRef_destroyed hid' with hid' | rfl
    · exact h.destroyed id' hid'
    · exact hlocal.id_lt h.ordered

theorem Counted.unlink (h : r.Counted) {w : WatchEntry} (hw : w ∈ linkedWatches r.shared) :
    ((r.unlinked w.id).putRef w.id).Counted where
  ordered := h.ordered.unlinked w.id
  known := fun e he => Makes.known (.unlink hw) (h.known e he)
  balanced := by
    obtain ⟨hmem, hlinked⟩ := List.mem_filter.mp hw
    rintro id domid linked ⟨v, hv, rfl, hdomain, rfl⟩
    obtain ⟨u, hu, rfl⟩ := mem_unlinked hv
    by_cases hid : u.id = w.id
    · rw [if_pos hid] at hdomain ⊢
      obtain rfl := h.ordered.unique hu hmem hid
      have hb := h.balanced u.id domid true ⟨u, hu, rfl, hdomain, hlinked⟩
      rw [Bool.toNat_true, Nat.add_comm] at hb
      rw [Bool.toNat_false, Nat.zero_add]
      have hb' : Balanced (r.unlinked u.id) u.id _ := hb.congr rfl rfl
      exact hb'.put
    · rw [if_neg hid] at hdomain ⊢
      have hb := h.balanced u.id domid u.linked ⟨u, hu, rfl, hdomain, rfl⟩
      have hb' : Balanced (r.unlinked w.id) u.id _ := hb.congr rfl rfl
      exact hb'.put_other hid
  destroyed := fun id hid => by
    have hlength : (r.unlinked w.id).shared.watches.length = r.shared.watches.length :=
      List.length_map _
    show id < (r.unlinked w.id).shared.watches.length
    rw [hlength]
    rcases mem_putRef_destroyed hid with hid | rfl
    · exact h.destroyed id hid
    · exact h.ordered.id_lt (List.mem_of_mem_filter hw)

theorem pointers_take {e : PendingWatchEvent} {before after : List PendingWatchEvent}
    (hp : r.shared.pendingWatchEventList = before ++ e :: after) (id : Nat) :
    r.pointers id = (r.takeTo e (before ++ after)).pointers id + if e.watch = id then 1 else 0 := by
  show _ = List.countP _ (before ++ after) + _
  simp only [pointers, hp, List.countP_append, List.countP_cons, decide_eq_true_eq]
  omega

theorem Counted.take (h : r.Counted) {e : PendingWatchEvent}
    {before after : List PendingWatchEvent}
    (hp : r.shared.pendingWatchEventList = before ++ e :: after) :
    (r.takeTo e (before ++ after)).Counted where
  ordered := h.ordered
  known := fun e' he' => by
    refine h.known e' ?_
    rw [hp]
    rcases List.mem_append.mp he' with he' | he'
    · exact List.mem_append_left _ he'
    · exact List.mem_append_right _ (List.mem_cons_of_mem _ he')
  balanced := fun id domid linked hw => by
    have hb := h.balanced id domid linked hw
    rw [pointers_take hp] at hb
    by_cases hid : e.watch = id
    · subst hid
      rw [if_pos rfl, ← Nat.add_assoc] at hb
      exact (hb.congr rfl rfl).put
    · rw [if_neg hid, Nat.add_zero] at hb
      exact (hb.congr rfl rfl).put_other (Ne.symm hid)
  destroyed := fun id hid => by
    rcases mem_putRef_destroyed hid with hid | rfl
    · exact h.destroyed id hid
    · refine (h.known e ?_).id_lt h.ordered
      rw [hp]
      exact List.mem_append_right _ List.mem_cons_self

end Counted

end WatchRegistry

theorem Makes.counted {c : Change} {r r' : WatchRegistry} (h : Makes c r r') (hr : r.Counted) :
    r'.Counted := by
  cases h with
  | quiet h => exact hr.same h.same
  | reform _ => exact hr.same (WatchRegistry.same_reformed _ _ _)
  | insert hid hlinked => exact hr.link hid hlinked
  | queue h => exact hr.queue h
  | bounce h => exact hr.bounce h
  | unlink hw => exact hr.unlink hw
  | take h _ => exact hr.take h
  | hold h => exact hr.hold h
  | drop h => exact hr.drop h

namespace WatchServer

theorem Start.counted {s : WatchServer} (h : s.Start) : s.registry.Counted where
  ordered := h.inv.ordered
  known := by
    rw [h.pending]
    exact fun _ hmem => (List.not_mem_nil hmem).elim
  balanced := by
    rintro id domid linked ⟨w, hw, _⟩
    rw [h.watches] at hw
    exact (List.not_mem_nil hw).elim
  destroyed := by
    rw [h.destroyed]
    exact fun _ hmem => (List.not_mem_nil hmem).elim

theorem run_counted {s s' : WatchServer} {as : List WatchAction} (hs : s.Start)
    (h : run step s as = some s') : s'.Inv ∧ s'.registry.Counted := by
  refine run_keeps (I := fun s => s.Inv ∧ s.registry.Counted) ?_ ⟨hs.inv, hs.counted⟩ h
  intro s a s' hi hstep
  obtain ⟨hdoes, hinv, -⟩ := steps hi.1 hstep
  exact ⟨hinv, hdoes.keeps (fun _ _ _ _ hm => hm.counted) hi.2⟩

/-- A watch of a guest has a reference for its place on the list and one for every event that
points to it. It is destroyed once, when there are none of these, and no event points to a watch
that was destroyed. -/
theorem watch_references {s s' : WatchServer} {as : List WatchAction} (hs : s.Start)
    (h : run step s as = some s') :
    (∀ w ∈ s'.registry.shared.watches, w.domain ≠ none →
      s'.registry.refs w.id = (if w.linked then 1 else 0) +
        s'.registry.shared.pendingWatchEventList.countP (fun e => e.watch = w.id) ∧
      s'.registry.destroyed.count w.id =
        if w.linked = false ∧ ∀ e ∈ s'.registry.shared.pendingWatchEventList, e.watch ≠ w.id
        then 1 else 0) ∧
    ∀ e ∈ s'.registry.shared.pendingWatchEventList, e.watch ∉ s'.registry.destroyed := by
  obtain ⟨-, hcounted⟩ := run_counted hs h
  refine ⟨fun w hw hdomain => ?_, fun e he hmem => ?_⟩
  · obtain ⟨domid, hdomid⟩ := Option.ne_none_iff_exists'.mp hdomain
    obtain ⟨hrefs, hcount⟩ := hcounted.balanced w.id domid w.linked ⟨w, hw, rfl, hdomid, rfl⟩
    have hzero : w.linked.toNat + s'.registry.pointers w.id = 0 ↔
        w.linked = false ∧ ∀ e ∈ s'.registry.shared.pendingWatchEventList, e.watch ≠ w.id := by
      rw [Nat.add_eq_zero_iff, Bool.toNat_eq_zero, WatchRegistry.pointers, List.countP_eq_zero]
      simp only [decide_eq_true_eq]
    refine ⟨?_, ?_⟩
    · rw [hrefs]
      cases w.linked <;> rfl
    · rw [hcount]
      exact if_congr hzero rfl rfl
  · obtain ⟨linked, hhas⟩ := (hcounted.known e he).has
    have hcount := (hcounted.balanced e.watch e.domain linked hhas).2
    have hpos : 0 < s'.registry.pointers e.watch :=
      List.countP_pos_iff.mpr ⟨e, he, by simp⟩
    rw [if_neg (by omega)] at hcount
    exact List.count_eq_zero.mp hcount hmem

/-- Domain 1 watches "/a" and is told about a change there; then it takes the watch back while
both events are pending. -/
def watchThenUnwatch : List WatchAction :=
  [.look 1 (ascii ['/', 'a']) [116, 0] false, .insert 1, .initial 1,
   .notify (ascii ['/', 'a']) .forever, .round, .round, .unwatch 1 (ascii ['/', 'a']) [116, 0]]

theorem watch_references_unwatched : ∃ s,
    run step (fresh ownedByOne) watchThenUnwatch = some s ∧ s.registry.refs 0 = 2 ∧
    s.registry.shared.pendingWatchEventList.map PendingWatchEvent.watch = [0, 0] ∧
    ∀ e ∈ s.registry.shared.pendingWatchEventList, e.watch ∉ s.registry.destroyed := by
  have hvals : (run step (fresh ownedByOne) watchThenUnwatch).map (fun s => (s.registry.refs 0,
      s.registry.shared.pendingWatchEventList.map PendingWatchEvent.watch)) = some (2, [0, 0]) := by
    decide +kernel
  obtain ⟨s, hrun, hs⟩ := Option.map_eq_some_iff.mp hvals
  obtain ⟨hrefs, hevents⟩ := Prod.mk.inj hs
  exact ⟨s, hrun, hrefs, hevents, (watch_references (fresh_start ownedByOne) hrun).2⟩

end WatchServer

end Xenlib
